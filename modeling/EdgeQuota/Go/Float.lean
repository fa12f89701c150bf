import EdgeQuota.Lib.Rounding

/-! Go's `float64` and its conversions. -/

namespace EdgeQuota.Go
open Lib

def float64 : Rounding := Rounding.nearestEven 53 (by decide)

def trunc (q : ℚ) : ℤ := if q < 0 then ⌈q⌉ else ⌊q⌋

/-- The conversion of a float to a 64-bit integer: toward zero, and to the least integer where none fits, as amd64
converts. -/
def truncate (q : ℚ) : ℤ := if -2 ^ 63 ≤ trunc q ∧ trunc q < 2 ^ 63 then trunc q else -2 ^ 63

/-- `Duration.Seconds` on `q` seconds: the whole seconds and the rest are rounded, and then their sum. -/
def asSeconds (R : Rounding) (q : ℚ) : ℚ := R.fl (R.fl (trunc q) + R.fl (q - trunc q))

variable {q : ℚ}

theorem trunc_of_nonneg (hq : 0 ≤ q) : trunc q = ⌊q⌋ := if_neg (not_lt.mpr hq)

theorem abs_trunc_add_abs (q : ℚ) : |(trunc q : ℚ)| + |q - trunc q| = |q| := by
  unfold trunc
  split_ifs with h
  · have hceil := Int.le_ceil q
    have hle : (⌈q⌉ : ℚ) ≤ 0 := by exact_mod_cast Int.ceil_le.mpr (by simpa using h.le)
    rw [abs_of_nonpos hle, abs_of_nonpos (by linarith), abs_of_neg h]
    ring
  · have hfloor := Int.floor_le q
    have hnonneg : (0 : ℚ) ≤ ⌊q⌋ := by exact_mod_cast Int.floor_nonneg.mpr (not_lt.mp h)
    rw [abs_of_nonneg hnonneg, abs_of_nonneg (by linarith), abs_of_nonneg (not_lt.mp h)]
    ring

theorem seconds_exact (q : ℚ) : asSeconds Rounding.exact q = q := add_sub_cancel _ _

theorem abs_seconds_sub_le (R : Rounding) (q : ℚ) : |asSeconds R q - q| ≤ 3 * R.unit * |q| := by
  have hu := R.unit_nonneg
  have hparts := abs_trunc_add_abs q
  have hwhole := R.error (trunc q)
  have hrest := R.error (q - trunc q)
  have hsum : |R.fl (trunc q) + R.fl (q - trunc q) - q| ≤ R.unit * |q| := by
    have hsplit : R.fl (trunc q) + R.fl (q - trunc q) - q =
        R.fl (trunc q) - trunc q + (R.fl (q - trunc q) - (q - trunc q)) := by ring
    rw [hsplit, ← hparts, mul_add]
    exact (abs_add_le _ _).trans (add_le_add hwhole hrest)
  have hsize : |R.fl (trunc q) + R.fl (q - trunc q)| ≤ (1 + R.unit) * |q| := by
    have h := abs_sub_abs_le_abs_sub (R.fl (trunc q) + R.fl (q - trunc q)) q
    linarith
  have houter := R.error (R.fl (trunc q) + R.fl (q - trunc q))
  have hscaled := mul_le_mul_of_nonneg_left hsize hu
  have hsquare : 0 ≤ R.unit * |q| * (1 - R.unit) :=
    mul_nonneg (mul_nonneg hu (abs_nonneg q)) (by linarith [R.unit_le])
  have htotal := abs_sub_le (asSeconds R q) (R.fl (trunc q) + R.fl (q - trunc q)) q
  unfold asSeconds at htotal ⊢
  linarith

theorem seconds_nonneg (R : Rounding) (hq : 0 ≤ q) : 0 ≤ asSeconds R q := by
  have hwhole : (0 : ℚ) ≤ trunc q := by
    rw [trunc_of_nonneg hq]
    exact_mod_cast Int.floor_nonneg.mpr hq
  have hrest : 0 ≤ q - trunc q := by
    rw [trunc_of_nonneg hq]
    exact sub_nonneg.mpr (Int.floor_le q)
  exact R.fl_nonneg (add_nonneg (R.fl_nonneg hwhole) (R.fl_nonneg hrest))

theorem float64_fl_intCast {n : ℤ} (hn : 0 ≤ n) (hle : n ≤ 2 ^ 53) : float64.fl n = n := by
  obtain ⟨m, rfl⟩ := Int.eq_ofNat_of_zero_le hn
  have hm : m ≤ 2 ^ 53 := by exact_mod_cast hle
  exact_mod_cast roundBits_natCast (by norm_num) hm

theorem seconds_mono {q q' : ℚ} (hq : 0 ≤ q) (hqq : q ≤ q') (hle : q' ≤ 2 ^ 53) :
    asSeconds float64 q ≤ asSeconds float64 q' := by
  have hfix : ∀ r : ℚ, 0 ≤ r → r ≤ 2 ^ 53 → float64.fl (⌊r⌋ : ℚ) = ⌊r⌋ := by
    intro r hr hr'
    have hfloor : (⌊r⌋ : ℚ) ≤ 2 ^ 53 := (Int.floor_le r).trans hr'
    exact float64_fl_intCast (Int.floor_nonneg.mpr hr) (by exact_mod_cast hfloor)
  unfold asSeconds
  rw [trunc_of_nonneg hq, trunc_of_nonneg (hq.trans hqq), hfix q hq (hqq.trans hle), hfix q' (hq.trans hqq) hle]
  apply float64.mono
  rcases (Int.floor_mono hqq).lt_or_eq with hlt | heq
  · -- the rest of the smaller one is rounded to at most a whole second
    have hone : float64.fl 1 = 1 := by exact_mod_cast float64_fl_intCast (n := 1) (by norm_num) (by norm_num)
    have hrest : float64.fl (q - ⌊q⌋) ≤ 1 := float64.fl_le hone (by linarith [Int.lt_floor_add_one q])
    have hrest' : 0 ≤ float64.fl (q' - ⌊q'⌋) := float64.fl_nonneg (sub_nonneg.mpr (Int.floor_le q'))
    have hnext : (⌊q⌋ : ℚ) + 1 ≤ ⌊q'⌋ := by exact_mod_cast hlt
    linarith
  · rw [heq]
    have h := float64.mono (show q - ⌊q'⌋ ≤ q' - ⌊q'⌋ by linarith)
    linarith

end EdgeQuota.Go
