import Mathlib.Data.Int.Log
import Mathlib.Data.Rat.Floor
import Mathlib.Tactic.FieldSimp
import Mathlib.Tactic.Linarith
import Mathlib.Tactic.Positivity
import Mathlib.Tactic.Ring

/-! Arithmetic that rounds. A rounding is monotone, keeps what it has rounded, and has a bounded relative error.
`nearestEven p` rounds to `p` significant bits and half way to the even neighbour; its exponents are not bounded. -/

namespace EdgeQuota.Lib

structure Rounding where
  fl : ℚ → ℚ
  unit : ℚ
  unit_nonneg : 0 ≤ unit
  unit_le : unit ≤ 1 / 8
  mono : Monotone fl
  fl_one : fl 1 = 1
  fl_fl : ∀ x, fl (fl x) = fl x
  error : ∀ x, |fl x - x| ≤ unit * |x|

namespace Rounding

theorem fl_le_add (R : Rounding) {x : ℚ} (hx : 0 ≤ x) : R.fl x ≤ x + R.unit * x := by
  have h := (abs_le.mp (R.error x)).2
  rw [abs_of_nonneg hx] at h
  linarith

@[simp] theorem fl_zero (R : Rounding) : R.fl 0 = 0 := by
  have h := R.error 0
  rw [abs_zero, mul_zero, sub_zero] at h
  exact abs_nonpos_iff.mp h

theorem fl_nonneg (R : Rounding) {x : ℚ} (hx : 0 ≤ x) : 0 ≤ R.fl x := by
  rw [← R.fl_zero]
  exact R.mono hx

theorem fl_pos (R : Rounding) {x : ℚ} (hx : 0 < x) : 0 < R.fl x := by
  have h := (abs_le.mp (R.error x)).1
  have hunit : R.unit * x ≤ 1 / 8 * x := mul_le_mul_of_nonneg_right R.unit_le hx.le
  rw [abs_of_pos hx] at h
  linarith

theorem fl_le (R : Rounding) {x y : ℚ} (hy : R.fl y = y) (h : x ≤ y) : R.fl x ≤ y := (R.mono h).trans_eq hy

theorem le_fl (R : Rounding) {x y : ℚ} (hx : R.fl x = x) (h : x ≤ y) : x ≤ R.fl y := hx.symm.trans_le (R.mono h)

theorem fl_min (R : Rounding) {x y : ℚ} (hx : R.fl x = x) (hy : R.fl y = y) : R.fl (min x y) = min x y := by
  rcases min_choice x y with h | h
  · rw [h, hx]
  · rw [h, hy]

theorem fl_of_unit (R : Rounding) (h : R.unit = 0) (x : ℚ) : R.fl x = x := by
  have herror := R.error x
  rw [h, zero_mul] at herror
  exact sub_eq_zero.mp (abs_nonpos_iff.mp herror)

theorem exact_error (x : ℚ) : |id x - x| ≤ 0 * |x| := by
  rw [id, sub_self, abs_zero, zero_mul]

def exact : Rounding where
  fl := id
  unit := 0
  unit_nonneg := le_rfl
  unit_le := by norm_num
  mono := monotone_id
  fl_one := rfl
  fl_fl _ := rfl
  error := exact_error

theorem clamp_le (R : Rounding) {b x r d : ℚ} (hb : 0 ≤ b) (hx : 0 ≤ x) (hr : 0 ≤ r) (hd : 0 ≤ d) :
    min b (R.fl (x + R.fl (r * R.fl d))) ≤ x + r * d + 3 * (R.unit * b) := by
  have hu := R.unit_nonneg
  have hub : 0 ≤ R.unit * b := mul_nonneg hu hb
  have hfd : 0 ≤ R.fl d := R.fl_nonneg hd
  have hrd : 0 ≤ r * R.fl d := mul_nonneg hr hfd
  have hp : 0 ≤ R.fl (r * R.fl d) := R.fl_nonneg hrd
  have hcap : ∀ y : ℚ, 0 ≤ y → b ≤ y ∨ R.fl y ≤ y + R.unit * b := by
    intro y hy
    rcases le_or_gt b y with h | h
    · exact Or.inl h
    · have hle := mul_le_mul_of_nonneg_left h.le hu
      exact Or.inr ((R.fl_le_add hy).trans (by linarith))
  have hstep : r * R.fl d ≤ r * d + R.unit * (r * d) := by
    have h := mul_le_mul_of_nonneg_left (R.fl_le_add hd) hr
    linarith
  have hexact : 0 ≤ r * d := mul_nonneg hr hd
  have hmin := min_le_left b (R.fl (x + R.fl (r * R.fl d)))
  have hmin' := min_le_right b (R.fl (x + R.fl (r * R.fl d)))
  rcases le_or_gt b (r * d) with hlarge | hsmall
  · linarith
  have hunit : R.unit * (r * d) ≤ R.unit * b := mul_le_mul_of_nonneg_left hsmall.le hu
  rcases hcap _ hrd with h | h
  · linarith
  rcases hcap _ (add_nonneg hx hp) with h' | h'
  · linarith
  · linarith

end Rounding

def roundEven (x : ℚ) : ℤ :=
  if 2 * (x - ⌊x⌋) < 1 ∨ 2 * (x - ⌊x⌋) = 1 ∧ Even ⌊x⌋ then ⌊x⌋ else ⌊x⌋ + 1

theorem roundEven_intCast (n : ℤ) : roundEven n = n := by
  simp [roundEven]

theorem abs_roundEven_sub_le (x : ℚ) : |(roundEven x : ℚ) - x| ≤ 1 / 2 := by
  have hlo := Int.floor_le x
  have hhi := Int.lt_floor_add_one x
  unfold roundEven
  rw [abs_le]
  split_ifs with h
  · have hhalf : 2 * (x - ⌊x⌋) ≤ 1 := by
      rcases h with h | h
      · exact h.le
      · exact h.1.le
    constructor <;> linarith
  · have hhalf : 1 ≤ 2 * (x - ⌊x⌋) := by
      rw [not_or] at h
      exact not_lt.mp h.1
    push_cast
    constructor <;> linarith

theorem roundEven_mono {x y : ℚ} (hxy : x ≤ y) : roundEven x ≤ roundEven y := by
  have hfloor : ⌊x⌋ ≤ ⌊y⌋ := Int.floor_mono hxy
  rcases hfloor.lt_or_eq with hlt | heq
  · have hx : roundEven x ≤ ⌊x⌋ + 1 := by
      unfold roundEven
      split_ifs <;> omega
    have hy : ⌊y⌋ ≤ roundEven y := by
      unfold roundEven
      split_ifs <;> omega
    omega
  · -- in one unit interval the fraction decides, and at one half the parity of the floor
    unfold roundEven
    rw [heq]
    split_ifs with hx hy hy
    · exact le_rfl
    · omega
    · refine absurd ?_ hx
      rcases hy with hy | hy
      · exact Or.inl (by linarith)
      · rcases (show 2 * (x - ⌊y⌋) ≤ 1 by linarith [hy.1]).lt_or_eq with h | h
        · exact Or.inl h
        · exact Or.inr ⟨h, hy.2⟩
    · exact le_rfl

def spacing (p : ℕ) (x : ℚ) : ℚ := 2 ^ (Int.log 2 x + 1 - p)

def roundPos (p : ℕ) (x : ℚ) : ℚ := spacing p x * roundEven (x / spacing p x)

def roundBits (p : ℕ) (x : ℚ) : ℚ := if x < 0 then -roundPos p (-x) else roundPos p x

section Bits
variable {p : ℕ} {x : ℚ}

theorem spacing_pos (p : ℕ) (x : ℚ) : 0 < spacing p x := zpow_pos (by norm_num) _

theorem zpow_log_le (hx : 0 < x) : (2 : ℚ) ^ Int.log 2 x ≤ x := by
  exact_mod_cast Int.zpow_log_le_self (b := 2) (by norm_num) hx

theorem lt_zpow_log (x : ℚ) : x < (2 : ℚ) ^ (Int.log 2 x + 1) := by
  exact_mod_cast Int.lt_zpow_succ_log_self (b := 2) (by norm_num) x

theorem spacing_mul (p : ℕ) (x : ℚ) (n : ℕ) : spacing p x * 2 ^ n = 2 ^ (Int.log 2 x + 1 - p + n) := by
  rw [spacing, ← zpow_natCast, ← zpow_add₀ (by norm_num)]

theorem roundPos_of_multiple {n : ℤ} (h : x = spacing p x * n) : roundPos p x = x := by
  have hquot : x / spacing p x = n := by
    rw [div_eq_iff (spacing_pos p x).ne', mul_comm]
    exact h
  rw [roundPos, hquot, roundEven_intCast, ← h]

@[simp] theorem roundPos_zero (p : ℕ) : roundPos p 0 = 0 := roundPos_of_multiple (n := 0) (by simp)

theorem roundPos_nonneg (hx : 0 ≤ x) : 0 ≤ roundPos p x := by
  have h := roundEven_mono (show ((0 : ℤ) : ℚ) ≤ x / spacing p x by
    rw [Int.cast_zero]
    exact div_nonneg hx (spacing_pos p x).le)
  rw [roundEven_intCast] at h
  exact mul_nonneg (spacing_pos p x).le (by exact_mod_cast h)

theorem roundEven_quotient_le (x : ℚ) : roundEven (x / spacing p x) ≤ 2 ^ p := by
  have h := roundEven_mono (show x / spacing p x ≤ ((2 ^ p : ℤ) : ℚ) by
    rw [div_le_iff₀ (spacing_pos p x)]
    push_cast
    rw [mul_comm, spacing_mul, sub_add_cancel]
    exact (lt_zpow_log x).le)
  rwa [roundEven_intCast] at h

theorem roundPos_le (x : ℚ) : roundPos p x ≤ 2 ^ (Int.log 2 x + 1) := by
  have h : (roundEven (x / spacing p x) : ℚ) ≤ 2 ^ p := by exact_mod_cast roundEven_quotient_le x
  calc roundPos p x ≤ spacing p x * 2 ^ p := mul_le_mul_of_nonneg_left h (spacing_pos p x).le
    _ = 2 ^ (Int.log 2 x + 1) := by rw [spacing_mul, sub_add_cancel]

theorem le_roundPos (hp : 1 ≤ p) (hx : 0 < x) : 2 ^ Int.log 2 x ≤ roundPos p x := by
  have hgrid : spacing p x * 2 ^ (p - 1) = 2 ^ Int.log 2 x := by
    rw [spacing_mul]
    congr 1
    omega
  have h := roundEven_mono (show ((2 ^ (p - 1) : ℤ) : ℚ) ≤ x / spacing p x by
    rw [le_div_iff₀ (spacing_pos p x)]
    push_cast
    rw [mul_comm, hgrid]
    exact zpow_log_le hx)
  rw [roundEven_intCast] at h
  rw [← hgrid]
  exact mul_le_mul_of_nonneg_left (by exact_mod_cast h) (spacing_pos p x).le

theorem roundPos_mono (hp : 1 ≤ p) {x y : ℚ} (hx : 0 ≤ x) (hxy : x ≤ y) : roundPos p x ≤ roundPos p y := by
  rcases hx.eq_or_lt with rfl | hpos
  · rw [roundPos_zero]
    exact roundPos_nonneg hxy
  have hlog : Int.log 2 x ≤ Int.log 2 y := Int.log_mono_right hpos hxy
  rcases hlog.lt_or_eq with hlt | heq
  · -- a power of two lies between numbers of different length
    have hpow : (2 : ℚ) ^ (Int.log 2 x + 1) ≤ 2 ^ Int.log 2 y := zpow_le_zpow_right₀ (by norm_num) hlt
    exact (roundPos_le x).trans (hpow.trans (le_roundPos hp (hpos.trans_le hxy)))
  · have hsame : spacing p x = spacing p y := by rw [spacing, heq, spacing]
    have h := roundEven_mono (div_le_div_of_nonneg_right hxy (spacing_pos p y).le)
    rw [roundPos, roundPos, hsame]
    exact mul_le_mul_of_nonneg_left (by exact_mod_cast h) (spacing_pos p y).le

theorem abs_roundPos_sub_le (hx : 0 < x) : |roundPos p x - x| ≤ 2 ^ (-p : ℤ) * x := by
  have hs := spacing_pos p x
  have hdiff : roundPos p x - x = spacing p x * ((roundEven (x / spacing p x) : ℚ) - x / spacing p x) := by
    rw [roundPos, mul_sub, mul_div_cancel₀ _ hs.ne']
  have hhalf : spacing p x * (1 / 2) = 2 ^ (-p : ℤ) * 2 ^ Int.log 2 x := by
    rw [spacing, ← zpow_add₀ (by norm_num), one_div, ← zpow_neg_one, ← zpow_add₀ (by norm_num)]
    congr 1
    ring
  calc |roundPos p x - x| = spacing p x * |(roundEven (x / spacing p x) : ℚ) - x / spacing p x| := by
        rw [hdiff, abs_mul, abs_of_pos hs]
    _ ≤ spacing p x * (1 / 2) := mul_le_mul_of_nonneg_left (abs_roundEven_sub_le _) hs.le
    _ = 2 ^ (-p : ℤ) * 2 ^ Int.log 2 x := hhalf
    _ ≤ 2 ^ (-p : ℤ) * x := mul_le_mul_of_nonneg_left (zpow_log_le hx) (zpow_pos (by norm_num) _).le

theorem roundPos_scaled (hp : 1 ≤ p) {m : ℕ} (hm : m ≤ 2 ^ p) (e : ℤ) : roundPos p (m * 2 ^ e) = m * 2 ^ e := by
  rcases Nat.eq_zero_or_pos m with rfl | hpos
  · simp
  set x : ℚ := m * 2 ^ e with hx
  have hm1 : (0 : ℚ) < m := by exact_mod_cast hpos
  have hxpos : 0 < x := mul_pos hm1 (zpow_pos (by norm_num) _)
  have hm' : (m : ℚ) ≤ 2 ^ p := by exact_mod_cast hm
  have hxle : x ≤ 2 ^ ((p : ℤ) + e) := by
    rw [zpow_add₀ (by norm_num), zpow_natCast]
    exact mul_le_mul_of_nonneg_right hm' (zpow_pos (by norm_num) _).le
  have hlog : Int.log 2 x ≤ p + e := (zpow_le_zpow_iff_right₀ (by norm_num)).mp ((zpow_log_le hxpos).trans hxle)
  rcases hlog.lt_or_eq with hlt | heq
  · obtain ⟨j, hj⟩ : ∃ j : ℕ, e = Int.log 2 x + 1 - p + j := ⟨(e - (Int.log 2 x + 1 - p)).toNat, by omega⟩
    refine roundPos_of_multiple (n := m * 2 ^ j) ?_
    push_cast
    rw [← mul_assoc, mul_comm (spacing p x), mul_assoc, spacing_mul, ← hj]
  · have hfull : x = 2 ^ Int.log 2 x := by
      apply le_antisymm _ (zpow_log_le hxpos)
      rw [heq]
      exact hxle
    refine roundPos_of_multiple (n := 2 ^ (p - 1)) ?_
    have hexp : Int.log 2 x + 1 - p + ((p - 1 : ℕ) : ℤ) = Int.log 2 x := by omega
    push_cast
    rw [spacing_mul, hexp]
    exact hfull

theorem roundPos_eq_scaled (hx : 0 ≤ x) :
    ∃ m : ℕ, m ≤ 2 ^ p ∧ roundPos p x = m * 2 ^ (Int.log 2 x + 1 - p) := by
  have h := roundEven_mono (show ((0 : ℤ) : ℚ) ≤ x / spacing p x by
    rw [Int.cast_zero]
    exact div_nonneg hx (spacing_pos p x).le)
  rw [roundEven_intCast] at h
  obtain ⟨m, hm⟩ := Int.eq_ofNat_of_zero_le h
  refine ⟨m, ?_, ?_⟩
  · have hle := roundEven_quotient_le (p := p) x
    rw [hm] at hle
    exact_mod_cast hle
  · rw [roundPos, hm, mul_comm]
    rfl

theorem roundBits_of_nonneg (hx : 0 ≤ x) : roundBits p x = roundPos p x := if_neg (not_lt.mpr hx)

theorem roundBits_of_neg (hx : x < 0) : roundBits p x = -roundPos p (-x) := if_pos hx

theorem roundBits_neg (p : ℕ) (x : ℚ) : roundBits p (-x) = -roundBits p x := by
  rcases lt_trichotomy x 0 with hx | rfl | hx
  · rw [roundBits_of_neg hx, roundBits_of_nonneg (by linarith), neg_neg]
  · simp [roundBits]
  · rw [roundBits_of_neg (by linarith), roundBits_of_nonneg hx.le, neg_neg]

theorem roundBits_mono (hp : 1 ≤ p) : Monotone (roundBits p) := by
  intro x y hxy
  rcases lt_or_ge x 0 with hx | hx
  · rw [roundBits_of_neg hx]
    rcases lt_or_ge y 0 with hy | hy
    · rw [roundBits_of_neg hy, neg_le_neg_iff]
      exact roundPos_mono hp (by linarith) (by linarith)
    · rw [roundBits_of_nonneg hy]
      have h := roundPos_nonneg (p := p) (show 0 ≤ -x by linarith)
      have h' := roundPos_nonneg (p := p) hy
      linarith
  · rw [roundBits_of_nonneg hx, roundBits_of_nonneg (hx.trans hxy)]
    exact roundPos_mono hp hx hxy

theorem roundBits_scaled (hp : 1 ≤ p) {m : ℕ} (hm : m ≤ 2 ^ p) (e : ℤ) : roundBits p (m * 2 ^ e) = m * 2 ^ e := by
  have hnonneg : (0 : ℚ) ≤ m * 2 ^ e := mul_nonneg (Nat.cast_nonneg m) (zpow_pos (by norm_num) e).le
  rw [roundBits_of_nonneg hnonneg]
  exact roundPos_scaled hp hm e

theorem roundBits_roundBits (hp : 1 ≤ p) (x : ℚ) : roundBits p (roundBits p x) = roundBits p x := by
  have hpos : ∀ y : ℚ, 0 ≤ y → roundBits p (roundPos p y) = roundPos p y := by
    intro y hy
    obtain ⟨m, hm, heq⟩ := roundPos_eq_scaled (p := p) hy
    rw [heq]
    exact roundBits_scaled hp hm _
  rcases lt_or_ge x 0 with hx | hx
  · rw [roundBits_of_neg hx, roundBits_neg, hpos _ (by linarith)]
  · rw [roundBits_of_nonneg hx, hpos _ hx]

theorem abs_roundBits_sub_le (p : ℕ) (x : ℚ) : |roundBits p x - x| ≤ 2 ^ (-p : ℤ) * |x| := by
  rcases lt_trichotomy x 0 with hx | rfl | hx
  · have h := abs_roundPos_sub_le (p := p) (show 0 < -x by linarith)
    have hsign : -roundPos p (-x) - x = -(roundPos p (-x) - -x) := by ring
    rw [roundBits_of_neg hx, abs_of_neg hx, hsign, abs_neg]
    exact h
  · simp [roundBits]
  · rw [roundBits_of_nonneg hx.le, abs_of_pos hx]
    exact abs_roundPos_sub_le hx

theorem two_zpow_neg_le (hp : 3 ≤ p) : (2 : ℚ) ^ (-p : ℤ) ≤ 1 / 8 := by
  have h : (2 : ℚ) ^ (-p : ℤ) ≤ 2 ^ (-3 : ℤ) := zpow_le_zpow_right₀ (by norm_num) (by omega)
  exact h.trans_eq (by norm_num)

theorem roundBits_natCast (hp : 1 ≤ p) {m : ℕ} (hm : m ≤ 2 ^ p) : roundBits p m = m := by
  have h := roundBits_scaled hp hm 0
  rwa [zpow_zero, mul_one] at h

theorem roundBits_one (hp : 1 ≤ p) : roundBits p 1 = 1 := by
  exact_mod_cast roundBits_natCast (m := 1) hp Nat.one_le_two_pow

/-- Round to nearest with `p` significant bits, half way to even. -/
def Rounding.nearestEven (p : ℕ) (hp : 3 ≤ p) : Rounding where
  fl := roundBits p
  unit := 2 ^ (-p : ℤ)
  unit_nonneg := (zpow_pos (by norm_num) _).le
  unit_le := two_zpow_neg_le hp
  mono := roundBits_mono (by omega)
  fl_one := roundBits_one (by omega)
  fl_fl := roundBits_roundBits (by omega)
  error := abs_roundBits_sub_le p

theorem roundBits_sub_one (hp : 1 ≤ p) (hfix : roundBits p x = x) (hone : 1 ≤ x) (hle : x ≤ 2 ^ p) :
    roundBits p (x - 1) = x - 1 := by
  obtain ⟨m, hm, heq⟩ := roundPos_eq_scaled (p := p) (show 0 ≤ x by linarith)
  rw [← roundBits_of_nonneg (by linarith), hfix] at heq
  set s : ℤ := Int.log 2 x + 1 - p with hs
  rcases le_or_gt s 0 with hneg | hpos
  · obtain ⟨j, hj⟩ : ∃ j : ℕ, s = -(j : ℤ) := ⟨(-s).toNat, by omega⟩
    have hunit : (2 : ℚ) ^ j * 2 ^ s = 1 := by
      rw [hj, zpow_neg, zpow_natCast, mul_inv_cancel₀ (by positivity)]
    have hpow : (2 : ℚ) ^ j ≤ m := by
      have hscale : (0 : ℚ) < 2 ^ s := zpow_pos (by norm_num) _
      rw [← mul_le_mul_iff_left₀ hscale, hunit, ← heq]
      exact hone
    have hpow' : 2 ^ j ≤ m := by exact_mod_cast hpow
    have hdiff : x - 1 = ((m - 2 ^ j : ℕ) : ℚ) * 2 ^ s := by
      rw [Nat.cast_sub hpow', sub_mul]
      push_cast
      rw [hunit, ← heq]
    rw [hdiff]
    exact roundBits_scaled hp ((Nat.sub_le m _).trans hm) s
  · have hlog : (2 : ℚ) ^ (p : ℤ) ≤ 2 ^ Int.log 2 x := zpow_le_zpow_right₀ (by norm_num) (by omega)
    rw [zpow_natCast] at hlog
    have hfull : x = 2 ^ p := le_antisymm hle (hlog.trans (zpow_log_le (by linarith)))
    have hcast : x - 1 = ((2 ^ p - 1 : ℕ) : ℚ) := by
      rw [hfull, Nat.cast_sub Nat.one_le_two_pow]
      push_cast
      ring
    rw [hcast]
    exact roundBits_natCast hp (by omega)

end Bits
end EdgeQuota.Lib
