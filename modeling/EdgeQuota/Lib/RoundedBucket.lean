import EdgeQuota.Lib.Rounding
import EdgeQuota.Lib.TokenBucket

/-! The token bucket in arithmetic that rounds. A refill may add a rounding error to the tokens; what the errors of a
run add up to bounds what it can grant beyond the exact bucket. `span` is what the bucket takes a time span for. -/

namespace EdgeQuota.Lib.Rounding
open TokenBucket

def level (R : Rounding) (span : ℚ → ℚ) (d : Demand ℚ) : Option (Bucket ℚ) → ℚ
  | none => d.cap
  | some b => min d.cap (R.fl (b.tokens + R.fl (d.rate * span (d.time - b.last))))

def take (R : Rounding) (x : ℚ) : ℚ := if 1 ≤ x then R.fl (x - 1) else x

def bucket (R : Rounding) (span : ℚ → ℚ) : Machine (Option (Bucket ℚ)) (Demand ℚ) Bool where
  step s d := (decide (1 ≤ R.level span d s), some ⟨R.take (R.level span d s), d.time⟩)

theorem level_exact (d : Demand ℚ) (s : Option (Bucket ℚ)) : exact.level id d s = TokenBucket.level d s := by
  cases s <;> rfl

theorem bucket_exact : exact.bucket id = TokenBucket.bucket := by
  have hstep : (exact.bucket id).step = TokenBucket.bucket.step := by
    funext s d
    simp only [bucket, TokenBucket.bucket, level_exact]
    rfl
  exact congrArg Machine.mk hstep

variable {R : Rounding} {span : ℚ → ℚ}

theorem level_le_cap (d : Demand ℚ) (s : Option (Bucket ℚ)) : R.level span d s ≤ d.cap := by
  cases s with
  | none => exact le_rfl
  | some b => exact min_le_left _ _

theorem fl_level {d : Demand ℚ} (hd : R.fl d.cap = d.cap) (s : Option (Bucket ℚ)) :
    R.fl (R.level span d s) = R.level span d s := by
  cases s with
  | none => exact hd
  | some b => exact R.fl_min hd (R.fl_fl _)

theorem fl_take {x : ℚ} (hx : R.fl x = x) : R.fl (R.take x) = R.take x := by
  unfold take
  split_ifs
  · exact R.fl_fl _
  · exact hx

theorem take_le {x : ℚ} (hx : R.fl x = x) : R.take x ≤ x := by
  unfold take
  split_ifs
  · exact R.fl_le hx (by linarith)
  · exact le_rfl

theorem take_nonneg {x : ℚ} (hx : 0 ≤ x) : 0 ≤ R.take x := by
  unfold take
  split_ifs with h
  · exact R.fl_nonneg (by linarith)
  · exact hx

theorem take_of_not_le {x : ℚ} (hx : ¬1 ≤ x) : R.take x = x := if_neg hx

theorem take_le_of_le {x c : ℚ} (hx : 1 ≤ x) (hc : x ≤ c) : R.take x ≤ x - 1 + R.unit * c := by
  have h := R.fl_le_add (show 0 ≤ x - 1 by linarith)
  have hunit : R.unit * (x - 1) ≤ R.unit * c := mul_le_mul_of_nonneg_left (by linarith) R.unit_nonneg
  rw [take, if_pos hx]
  linarith

theorem take_add_le {x c : ℚ} (hc : 0 ≤ c) (hx : x ≤ c) {taken : Prop} [Decidable taken] (h : taken → 1 ≤ x) :
    R.take x + (if taken then 1 else 0) ≤ x + R.unit * c := by
  by_cases hone : 1 ≤ x
  · have htake : R.take x ≤ x - 1 + R.unit * c := take_le_of_le hone hx
    split_ifs <;> linarith
  · rw [if_neg (mt h hone), take_of_not_le hone, add_zero]
    exact le_add_of_nonneg_right (mul_nonneg R.unit_nonneg hc)

theorem level_nonneg {d : Demand ℚ} {b : Bucket ℚ} (hc : 0 ≤ d.cap) (hr : 0 ≤ d.rate) (hb : 0 ≤ b.tokens)
    (ht : b.last ≤ d.time) : 0 ≤ R.level R.fl d (some b) := by
  have hspan : 0 ≤ R.fl (d.time - b.last) := R.fl_nonneg (sub_nonneg.mpr ht)
  exact le_min hc (R.fl_nonneg (add_nonneg hb (R.fl_nonneg (mul_nonneg hr hspan))))

theorem level_run_nonneg {ds : List (Demand ℚ)} {d : Demand ℚ} (hpos : ∀ e ∈ ds ++ [d], 0 ≤ e.cap ∧ 0 ≤ e.rate)
    (hmono : (ds ++ [d]).Pairwise fun a b => a.time ≤ b.time) :
    0 ≤ R.level R.fl d ((R.bucket R.fl).run none ds) := by
  induction ds using List.reverseRecOn generalizing d with
  | nil => exact (hpos d (by simp)).1
  | append_singleton ds e ih =>
    have hm := List.pairwise_append.mp hmono
    have hlev := ih (fun a ha => hpos a (List.mem_append_left _ ha)) hm.1
    obtain ⟨hcap, hrate⟩ := hpos d (by simp)
    rw [Machine.run_append]
    exact level_nonneg hcap hrate (take_nonneg hlev) (hm.2.2 e (by simp) d (by simp))

def slack (R : Rounding) (ds : List (Demand ℚ)) : ℚ := (ds.map fun d => 4 * (R.unit * d.cap)).sum

theorem tally_granted_le_slack {d : Demand ℚ} {ds : List (Demand ℚ)} {s : Option (Bucket ℚ)}
    (hlev : 0 ≤ R.level R.fl d s) (hpos : ∀ e ∈ d :: ds, 0 ≤ e.cap ∧ 0 ≤ e.rate)
    (hmono : (d :: ds).Pairwise fun a b => a.time ≤ b.time) :
    ((R.bucket R.fl).tally granted s (d :: ds) : ℚ) ≤
      R.level R.fl d s + credit d.time ds + (R.unit * d.cap + R.slack ds) := by
  induction ds generalizing d s with
  | nil =>
    have hcap : 0 ≤ R.unit * d.cap := mul_nonneg R.unit_nonneg (hpos d (List.mem_cons_self ..)).1
    simp only [Machine.tally, bucket, granted, credit, slack, List.map_nil, List.sum_nil, decide_eq_true_eq]
    split_ifs with h
    · push_cast
      linarith
    · push_cast
      linarith
  | cons e es ih =>
    obtain ⟨hd, hes⟩ := List.forall_mem_cons.mp hpos
    obtain ⟨he, -⟩ := List.forall_mem_cons.mp hes
    rw [List.pairwise_cons] at hmono
    have hle : d.time ≤ e.time := hmono.1 e (List.mem_cons_self ..)
    set x := R.level R.fl d s with hx
    have hnext : 0 ≤ R.level R.fl e (some ⟨R.take x, d.time⟩) := level_nonneg he.1 he.2 (take_nonneg hlev) hle
    have hrest := ih hnext hes hmono.2
    have hrefill : R.level R.fl e (some ⟨R.take x, d.time⟩) ≤
        R.take x + e.rate * (e.time - d.time) + 3 * (R.unit * e.cap) :=
      R.clamp_le he.1 (take_nonneg hlev) he.2 (sub_nonneg.mpr hle)
    have htaken : R.take x + (if 1 ≤ x then 1 else 0) ≤ x + R.unit * d.cap := take_add_le hd.1 (level_le_cap d s) id
    have hslack : R.slack (e :: es) = 4 * (R.unit * e.cap) + R.slack es := by
      simp only [slack, List.map_cons, List.sum_cons]
    have hcount : ((R.bucket R.fl).tally granted s (d :: e :: es) : ℚ) =
        (if 1 ≤ x then 1 else 0) + ((R.bucket R.fl).tally granted (some ⟨R.take x, d.time⟩) (e :: es) : ℚ) := by
      rw [Machine.tally]
      simp only [bucket, granted, decide_eq_true_eq, ← hx]
      push_cast
      rfl
    rw [hcount, hslack, credit]
    linarith

def drift (R : Rounding) (span : ℚ → ℚ) : Option (Bucket ℚ) → List (Demand ℚ) → ℚ
  | _, [] => 0
  | s, d :: ds =>
    (match s with
      | none => 0
      | some b => |b.tokens| + d.rate * |d.time - b.last|) + R.drift span ((R.bucket span).step s d).2 ds

theorem drift_nonneg {r : ℚ} (hr : 0 ≤ r) {s : Option (Bucket ℚ)} {ds : List (Demand ℚ)} (h : ∀ e ∈ ds, e.rate = r) :
    0 ≤ R.drift span s ds := by
  induction ds generalizing s with
  | nil => exact le_rfl
  | cons d ds ih =>
    obtain ⟨rfl, hds⟩ := List.forall_mem_cons.mp h
    refine add_nonneg ?_ (ih hds)
    cases s with
    | none => exact le_rfl
    | some b => exact add_nonneg (abs_nonneg _) (mul_nonneg hr (abs_nonneg _))

def allowance (R : Rounding) (span : ℚ → ℚ) (c : ℚ) (s : Option (Bucket ℚ)) : List (Demand ℚ) → ℚ
  | [] => 0
  | d :: ds => 8 * R.unit * R.drift span ((R.bucket span).step s d).2 ds + R.unit * c * (d :: ds).length

theorem allowance_of_unit (h : R.unit = 0) (c : ℚ) (s : Option (Bucket ℚ)) (ds : List (Demand ℚ)) :
    R.allowance span c s ds = 0 := by
  cases ds with
  | nil => rfl
  | cons d ds => rw [allowance, h, mul_zero, zero_mul, zero_mul, zero_mul, add_zero]

theorem rounding_nonneg {c r : ℚ} (hr : 0 ≤ r) (hc : 0 ≤ c) (s : Option (Bucket ℚ)) {ds : List (Demand ℚ)}
    (h : ∀ e ∈ ds, e.rate = r) :
    0 ≤ 8 * R.unit * R.drift span s ds ∧ 0 ≤ R.unit * c ∧ 0 ≤ R.unit * c * ds.length := by
  have hunit : 0 ≤ R.unit * c := mul_nonneg R.unit_nonneg hc
  have hscale : (0 : ℚ) ≤ 8 * R.unit := mul_nonneg (by norm_num) R.unit_nonneg
  exact ⟨mul_nonneg hscale (drift_nonneg hr h), hunit, mul_nonneg hunit (Nat.cast_nonneg _)⟩

theorem allowance_step_le {c r : ℚ} (hr : 0 ≤ r) (hc : 0 ≤ c) (s : Option (Bucket ℚ)) {d : Demand ℚ}
    {ds : List (Demand ℚ)} (h : ∀ e ∈ d :: ds, e.rate = r) :
    R.allowance span c ((R.bucket span).step s d).2 ds ≤ R.allowance span c s (d :: ds) := by
  have hunit : 0 ≤ R.unit * c := mul_nonneg R.unit_nonneg hc
  have hscale : (0 : ℚ) ≤ 8 * R.unit := mul_nonneg (by norm_num) R.unit_nonneg
  obtain ⟨hd, hds⟩ := List.forall_mem_cons.mp h
  cases ds with
  | nil => exact add_nonneg (mul_nonneg hscale le_rfl) (mul_nonneg hunit (Nat.cast_nonneg _))
  | cons e es =>
    obtain ⟨he, -⟩ := List.forall_mem_cons.mp hds
    have hhead : R.drift span ((R.bucket span).step ((R.bucket span).step s d).2 e).2 es ≤
        R.drift span ((R.bucket span).step s d).2 (e :: es) := by
      refine le_add_of_nonneg_left (add_nonneg (abs_nonneg _) (mul_nonneg ?_ (abs_nonneg _)))
      exact he ▸ hr
    have hlen : (((e :: es).length : ℕ) : ℚ) ≤ ((d :: e :: es).length : ℕ) := Nat.cast_le.mpr (Nat.le_succ _)
    exact add_le_add (mul_le_mul_of_nonneg_left hhead hscale) (mul_le_mul_of_nonneg_left hlen hunit)

section Unordered
variable (hspan : ∀ q, |span q - q| ≤ 3 * R.unit * |q|)
include hspan

theorem abs_fl_mul_sub_le {r : ℚ} (hr : 0 ≤ r) (q : ℚ) : |R.fl (r * span q) - r * q| ≤ 5 * R.unit * (r * |q|) := by
  have hunit := R.unit_nonneg
  have hsmall := R.unit_le
  have hproduct : |r * span q - r * q| ≤ r * (3 * R.unit * |q|) := by
    rw [← mul_sub, abs_mul, abs_of_nonneg hr]
    exact mul_le_mul_of_nonneg_left (hspan q) hr
  have hsize : |r * span q| ≤ r * ((1 + 3 * R.unit) * |q|) := by
    have h := abs_sub_abs_le_abs_sub (span q) q
    have hq := hspan q
    rw [abs_mul, abs_of_nonneg hr]
    exact mul_le_mul_of_nonneg_left (by linarith) hr
  have hround : |R.fl (r * span q) - r * span q| ≤ R.unit * (r * ((1 + 3 * R.unit) * |q|)) :=
    (R.error _).trans (mul_le_mul_of_nonneg_left hsize hunit)
  have hrest : 0 ≤ R.unit * (r * |q|) * (1 - 3 * R.unit) :=
    mul_nonneg (mul_nonneg hunit (mul_nonneg hr (abs_nonneg q))) (by linarith)
  calc |R.fl (r * span q) - r * q|
      ≤ |R.fl (r * span q) - r * span q| + |r * span q - r * q| := abs_sub_le _ _ _
    _ ≤ R.unit * (r * ((1 + 3 * R.unit) * |q|)) + r * (3 * R.unit * |q|) := add_le_add hround hproduct
    _ ≤ 5 * R.unit * (r * |q|) := by linarith

theorem level_le_drift {d : Demand ℚ} (hr : 0 ≤ d.rate) (b : Bucket ℚ) :
    R.level span d (some b) ≤ b.tokens + d.rate * (d.time - b.last) +
      8 * R.unit * (|b.tokens| + d.rate * |d.time - b.last|) := by
  set q := d.time - b.last with hq
  have hunit := R.unit_nonneg
  have hsmall := R.unit_le
  have hearned : 0 ≤ R.unit * (d.rate * |q|) := mul_nonneg hunit (mul_nonneg hr (abs_nonneg q))
  -- the product of the rate and the span is rounded, and then the sum
  have hproduct := abs_fl_mul_sub_le hspan hr q
  have hsize : |b.tokens + R.fl (d.rate * span q)| ≤ |b.tokens| + (1 + 5 * R.unit) * (d.rate * |q|) := by
    have hadd := abs_add_le b.tokens (R.fl (d.rate * span q))
    have hsub := abs_sub_abs_le_abs_sub (R.fl (d.rate * span q)) (d.rate * q)
    have habs : |d.rate * q| = d.rate * |q| := by rw [abs_mul, abs_of_nonneg hr]
    linarith
  have hround := (abs_le.mp (R.error (b.tokens + R.fl (d.rate * span q)))).2
  have hscaled := mul_le_mul_of_nonneg_left hsize hunit
  have hsquare : 0 ≤ R.unit * (d.rate * |q|) * (2 - 5 * R.unit) := mul_nonneg hearned (by linarith)
  have htokens : 0 ≤ R.unit * |b.tokens| := mul_nonneg hunit (abs_nonneg _)
  have hupper := (abs_le.mp hproduct).2
  have hmin : R.level span d (some b) ≤ R.fl (b.tokens + R.fl (d.rate * span q)) := min_le_right _ _
  linarith

variable {c r M : ℚ} (hr : 0 ≤ r) (hc : 0 ≤ c) {p : Demand ℚ → Bool → Bool}
include hr hc

theorem tally_some_le (hp : ∀ d ok, p d ok = true → ok = true ∧ d.time ≤ M) {b : Bucket ℚ} {ds : List (Demand ℚ)}
    (h : ∀ e ∈ ds, e.cap = c ∧ e.rate = r) :
    (R.bucket span).tally p (some b) ds = 0 ∨
      ((R.bucket span).tally p (some b) ds : ℚ) ≤
        b.tokens + r * (M - b.last) + 8 * R.unit * R.drift span (some b) ds + R.unit * c * ds.length := by
  induction ds generalizing b with
  | nil => exact Or.inl rfl
  | cons d ds ih =>
    obtain ⟨⟨hcap, hrate⟩, hds⟩ := List.forall_mem_cons.mp h
    set x := R.level span d (some b) with hx
    have hstep : (R.bucket span).step (some b) d = (decide (1 ≤ x), some ⟨R.take x, d.time⟩) := rfl
    have hlevel : x ≤ b.tokens + r * (d.time - b.last) + 8 * R.unit * (|b.tokens| + r * |d.time - b.last|) := by
      have := level_le_drift hspan (hrate ▸ hr : 0 ≤ d.rate) b
      rwa [hrate] at this
    have hdrift : R.drift span (some b) (d :: ds) =
        |b.tokens| + r * |d.time - b.last| + R.drift span (some ⟨R.take x, d.time⟩) ds := by
      rw [drift, hstep, hrate]
    obtain ⟨hrest, hunit, hunits⟩ : 0 ≤ 8 * R.unit * R.drift span _ ds ∧ _ :=
      rounding_nonneg hr hc (some ⟨R.take x, d.time⟩) fun e he => (hds e he).2
    have hlen : ((d :: ds).length : ℚ) = ds.length + 1 := by
      rw [List.length_cons]
      push_cast
      rfl
    have hspent : R.take x + (if p d (decide (1 ≤ x)) = true then 1 else 0) ≤ x + R.unit * c :=
      take_add_le hc (hcap ▸ level_le_cap d (some b)) fun hsel => of_decide_eq_true (hp _ _ hsel).1
    rw [Machine.tally, hstep, hdrift, hlen]
    rcases ih (b := ⟨R.take x, d.time⟩) hds with hnone | hsome
    · rw [hnone]
      by_cases hsel : p d (decide (1 ≤ x)) = true
      · -- the last one that is selected
        obtain ⟨hok, htime⟩ := hp _ _ hsel
        have hone : 1 ≤ x := of_decide_eq_true hok
        have hlate : 0 ≤ r * (M - d.time) := mul_nonneg hr (sub_nonneg.mpr htime)
        rw [if_pos hsel]
        refine Or.inr ?_
        push_cast
        linarith
      · exact Or.inl (by rw [if_neg hsel])
    · refine Or.inr ?_
      push_cast
      linarith

theorem tally_cons_le (hp : ∀ d ok, p d ok = true → ok = true ∧ d.time ≤ M) {s : Option (Bucket ℚ)} {d : Demand ℚ}
    {ds : List (Demand ℚ)} (hM : d.time ≤ M) (h : ∀ e ∈ d :: ds, e.cap = c ∧ e.rate = r) :
    ((R.bucket span).tally p s (d :: ds) : ℚ) ≤ c + r * (M - d.time) + R.allowance span c s (d :: ds) := by
  obtain ⟨⟨hcap, -⟩, hds⟩ := List.forall_mem_cons.mp h
  set x := R.level span d s with hx
  have hstep : (R.bucket span).step s d = (decide (1 ≤ x), some ⟨R.take x, d.time⟩) := rfl
  have hle : x ≤ c := hcap ▸ level_le_cap d s
  obtain ⟨hrest, hunit, hunits⟩ : 0 ≤ 8 * R.unit * R.drift span _ ds ∧ _ :=
    rounding_nonneg hr hc (some ⟨R.take x, d.time⟩) fun e he => (hds e he).2
  have hlate : 0 ≤ r * (M - d.time) := mul_nonneg hr (sub_nonneg.mpr hM)
  have hlen : ((d :: ds).length : ℚ) = ds.length + 1 := by
    rw [List.length_cons]
    push_cast
    rfl
  have hone : p d (decide (1 ≤ x)) = true → 1 ≤ x := fun hsel => of_decide_eq_true (hp _ _ hsel).1
  have hfirst : (if p d (decide (1 ≤ x)) = true then 1 else 0) ≤ c := by
    split_ifs with hsel
    · exact (hone hsel).trans hle
    · exact hc
  have hspent : R.take x + (if p d (decide (1 ≤ x)) = true then 1 else 0) ≤ x + R.unit * c := take_add_le hc hle hone
  rw [Machine.tally, allowance, hstep, hlen]
  rcases tally_some_le hspan hr hc hp (b := ⟨R.take x, d.time⟩) hds with hnone | hsome
  · rw [hnone]
    push_cast
    linarith
  · push_cast
    linarith

theorem tally_window_le_allowance {b t : ℚ} (hbt : b ≤ t) {s : Option (Bucket ℚ)} {ds : List (Demand ℚ)}
    (h : ∀ e ∈ ds, e.cap = c ∧ e.rate = r) :
    ((R.bucket span).tally (window b t) s ds : ℚ) ≤ c + r * (t - b) + R.allowance span c s ds := by
  have hearned : 0 ≤ r * (t - b) := mul_nonneg hr (sub_nonneg.mpr hbt)
  have hp : ∀ (d : Demand ℚ) ok, window b t d ok = true → ok = true ∧ d.time ≤ t :=
    fun d ok hsel => ⟨(window_eq_true.mp hsel).1, (window_eq_true.mp hsel).2.2⟩
  induction ds generalizing s with
  | nil =>
    rw [Machine.tally, allowance, Nat.cast_zero]
    linarith
  | cons d ds ih =>
    by_cases hsel : window b t d ((R.bucket span).step s d).1 = true
    · obtain ⟨-, hbegin, hend⟩ := window_eq_true.mp hsel
      have hcons := tally_cons_le hspan hr hc hp hend h (s := s)
      have hlater : r * (t - d.time) ≤ r * (t - b) := mul_le_mul_of_nonneg_left (by linarith) hr
      linarith
    · have hrest := ih (s := ((R.bucket span).step s d).2) fun e he => h e (List.mem_cons_of_mem d he)
      have hstep : R.allowance span c ((R.bucket span).step s d).2 ds ≤ R.allowance span c s (d :: ds) :=
        allowance_step_le hr hc s fun e he => (h e he).2
      rw [Machine.tally, if_neg hsel, zero_add]
      linarith

end Unordered

section Standing
variable {d : Demand ℚ}

theorem level_standing (hspan : span 0 = 0) {y : ℚ} (hy : R.fl y = y) (hle : y ≤ d.cap) :
    R.level span d (some ⟨y, d.time⟩) = y := by
  rw [level, sub_self, hspan, mul_zero, R.fl_zero, add_zero, hy, min_eq_right hle]

theorem outputs_standing (hspan : span 0 = 0) {y : ℚ} (hy : R.fl y = y) (hle : y ≤ d.cap)
    (hone : ∀ z, R.fl z = z → 1 ≤ z → z ≤ y → R.fl (z - 1) = z - 1) (n : ℕ) :
    (R.bucket span).outputs (some ⟨y, d.time⟩) (List.replicate n d) =
      (List.range n).map fun i : ℕ => decide ((i : ℤ) < ⌊y⌋) := by
  have hexact : (R.bucket span).outputs (some ⟨y, d.time⟩) (List.replicate n d) =
      TokenBucket.bucket.outputs (some ⟨y, d.time⟩) (List.replicate n d) := by
    induction n generalizing y with
    | zero => rfl
    | succ n ih =>
      have htake : R.take y = TokenBucket.take y := by
        unfold take TokenBucket.take
        split_ifs with h
        · exact hone y hy h le_rfl
        · rfl
      have hless := TokenBucket.take_le y
      have hnext := ih (y := TokenBucket.take y) (htake ▸ fl_take hy) (hless.trans hle)
        fun z hz h1 hzy => hone z hz h1 (hzy.trans hless)
      rw [List.replicate_succ, Machine.outputs, Machine.outputs, bucket_step, TokenBucket.level_standing hle, ← hnext,
        ← htake]
      change decide (1 ≤ R.level span d _) :: (R.bucket span).outputs (some ⟨R.take (R.level span d _), d.time⟩) _ = _
      rw [level_standing hspan hy hle]
  rw [hexact, TokenBucket.outputs_standing, TokenBucket.level_standing hle]

theorem outputs_standing_of_stuck (hspan : span 0 = 0) {k y : ℚ} (hk : 1 ≤ k) (hstuck : k ≤ R.fl (k - 1))
    (hy : R.fl y = y) (hle : y ≤ d.cap) (hky : k ≤ y) (n : ℕ) :
    (R.bucket span).outputs (some ⟨y, d.time⟩) (List.replicate n d) = List.replicate n true := by
  induction n generalizing y with
  | zero => rfl
  | succ n ih =>
    have hone : 1 ≤ y := hk.trans hky
    have hkeep : k ≤ R.take y := by
      rw [take, if_pos hone]
      exact hstuck.trans (R.mono (by linarith))
    have hnext := ih (fl_take hy) ((take_le hy).trans hle) hkeep
    rw [List.replicate_succ, List.replicate_succ, Machine.outputs]
    change decide (1 ≤ R.level span d _) :: (R.bucket span).outputs (some ⟨R.take (R.level span d _), d.time⟩) _ = _
    rw [level_standing hspan hy hle, hnext, decide_eq_true hone]

end Standing
end EdgeQuota.Lib.Rounding

namespace EdgeQuota.Lib.TokenBucket

theorem tally_window_le {c r s t : ℚ} (hr : 0 ≤ r) (hc : 0 ≤ c) (hst : s ≤ t) {b : Option (Bucket ℚ)}
    {ds : List (Demand ℚ)} (h : ∀ d ∈ ds, d.cap = c ∧ d.rate = r) :
    (bucket.tally (window s t) b ds : ℚ) ≤ c + r * (t - s) := by
  have hspan : ∀ q : ℚ, |id q - q| ≤ 3 * Rounding.exact.unit * |q| := by
    intro q
    rw [id, sub_self, abs_zero]
    exact mul_nonneg (mul_nonneg (by norm_num) Rounding.exact.unit_nonneg) (abs_nonneg q)
  have hle := Rounding.tally_window_le_allowance hspan hr hc hst h (s := b)
  rwa [Rounding.bucket_exact, Rounding.allowance_of_unit rfl, add_zero] at hle

end EdgeQuota.Lib.TokenBucket
