import EdgeQuota.Lib.Machine
import Mathlib.Algebra.Order.Floor.Ring
import Mathlib.Data.List.Sort
import Mathlib.Tactic.Ring
import Mathlib.Tactic.Positivity

/-! The token bucket as a mathematical object: the limits may change from demand to
demand, an untouched bucket is full, and time is any ordered field. -/

namespace EdgeQuota.Lib.TokenBucket

structure Bucket (K : Type*) where
  tokens : K
  last : K

structure Demand (K : Type*) where
  cap : K
  rate : K
  time : K

section Window
variable {K : Type*} [LinearOrder K]

def window (s t : K) (d : Demand K) (ok : Bool) : Bool :=
  ok && decide (s ≤ d.time) && decide (d.time ≤ t)

theorem window_eq_true {s t : K} {d : Demand K} {ok : Bool} :
    window s t d ok = true ↔ ok = true ∧ s ≤ d.time ∧ d.time ≤ t := by
  simp only [window, Bool.and_eq_true, decide_eq_true_eq, and_assoc]

def granted (_ : Demand K) (ok : Bool) : Bool := ok

end Window

variable {K : Type*} [Field K] [LinearOrder K]

def level (d : Demand K) : Option (Bucket K) → K
  | none => d.cap
  | some b => min d.cap (b.tokens + d.rate * (d.time - b.last))

def take (x : K) : K := if 1 ≤ x then x - 1 else x

def bucket : Machine (Option (Bucket K)) (Demand K) Bool where
  step s d := (decide (1 ≤ level d s), some ⟨take (level d s), d.time⟩)

theorem level_le_cap (d : Demand K) (s : Option (Bucket K)) : level d s ≤ d.cap := by
  cases s with
  | none => exact le_rfl
  | some b => exact min_le_left _ _

theorem bucket_step (s : Option (Bucket K)) (d : Demand K) :
    bucket.step s d = (decide (1 ≤ level d s), some ⟨take (level d s), d.time⟩) := rfl

theorem run_snoc (s : Option (Bucket K)) (ds : List (Demand K)) (d : Demand K) :
    bucket.run s (ds ++ [d]) = some ⟨take (level d (bucket.run s ds)), d.time⟩ := by
  rw [Machine.run_append]
  rfl

theorem take_of_le {x : K} (h : 1 ≤ x) : take x = x - 1 := if_pos h

theorem take_of_not_le {x : K} (h : ¬1 ≤ x) : take x = x := if_neg h

theorem level_standing {c r y t : K} (hy : y ≤ c) : level ⟨c, r, t⟩ (some ⟨y, t⟩) = y := by
  rw [level, sub_self, mul_zero, add_zero, min_eq_right hy]

def Demand.rescale (k : K) (d : Demand K) : Demand K := ⟨d.cap, d.rate * k, d.time / k⟩

def Bucket.rescale (k : K) (b : Bucket K) : Bucket K := ⟨b.tokens, b.last / k⟩

theorem level_rescale {k : K} (hk : k ≠ 0) (d : Demand K) (s : Option (Bucket K)) :
    level (d.rescale k) (s.map (Bucket.rescale k)) = level d s := by
  cases s with
  | none => rfl
  | some b =>
    have hearn : d.rate * k * (d.time / k - b.last / k) = d.rate * (d.time - b.last) := by
      rw [← sub_div, mul_assoc, mul_div_cancel₀ _ hk]
    simp only [Option.map_some, level, Demand.rescale, Bucket.rescale, hearn]

theorem outputs_rescale {k : K} (hk : k ≠ 0) (ds : List (Demand K)) :
    bucket.outputs none (ds.map (Demand.rescale k)) = bucket.outputs none ds := by
  have h := Machine.outputs_eq (M := bucket) (N := bucket) (R := fun s t => t = s.map (Bucket.rescale k))
    (P := fun _ _ => True) (f := Demand.rescale k) (g := fun o : Bool => o) (k := fun o : Bool => o)
    (s := none) (t := none) ?_ ?_ (Machine.along_of_forall (fun d (_ : d ∈ ds) _ => trivial)) rfl
  · simpa only [List.map_id'] using h.symm
  · rintro s _ d - rfl
    simp only [bucket_step, level_rescale hk]
    rfl
  · rintro s _ d - rfl
    simp only [bucket_step, level_rescale hk]

def fixed (c r : K) (ts : List K) : List (Demand K) := ts.map (Demand.mk c r)

theorem tally_window_snoc {c r s t t₁ : K} {pre : List K} (hpre : ∀ a ∈ pre, a ≤ t₁)
    (hs : s ≤ t₁) (ht : t₁ ≤ t) :
    bucket.tally (window s t) none (fixed c r (pre ++ [t₁])) =
      bucket.tally (window s t₁) none (fixed c r pre) +
        if 1 ≤ level ⟨c, r, t₁⟩ (bucket.run none (fixed c r pre)) then 1 else 0 := by
  have hcongr : bucket.tally (window s t) none (fixed c r pre) =
      bucket.tally (window s t₁) none (fixed c r pre) := by
    apply Machine.tally_congr
    intro d hd ok
    obtain ⟨a, ha, rfl⟩ := List.mem_map.mp hd
    simp only [window, hpre a ha, (hpre a ha).trans ht]
  rw [fixed, List.map_append, Machine.tally_append]
  simp only [List.map_cons, List.map_nil, Machine.tally, Nat.add_zero]
  rw [← fixed, hcongr]
  simp only [bucket_step, window, hs, ht, decide_true, Bool.and_true, decide_eq_true_eq]

theorem tally_window_self {c r t : K} {pre : List K} (h : t ∉ pre) :
    bucket.tally (window t t) none (fixed c r pre) = 0 := by
  by_contra hne
  obtain ⟨d, hd, o, ho⟩ := Machine.exists_of_tally_ne_zero hne
  obtain ⟨a, ha, rfl⟩ := List.mem_map.mp hd
  obtain ⟨-, h1, h2⟩ := window_eq_true.mp ho
  exact h (le_antisymm h2 h1 ▸ ha)

variable [IsStrictOrderedRing K]

theorem take_le (x : K) : take x ≤ x := by
  by_cases h : 1 ≤ x
  · rw [take_of_le h]
    linarith
  · rw [take_of_not_le h]

theorem take_nonneg {x : K} (hx : 0 ≤ x) : 0 ≤ take x := by
  by_cases h : 1 ≤ x
  · rw [take_of_le h]
    linarith
  · rwa [take_of_not_le h]

theorem level_nonneg {d : Demand K} {b : Bucket K} (hc : 0 ≤ d.cap) (hr : 0 ≤ d.rate)
    (hb : 0 ≤ b.tokens) (ht : b.last ≤ d.time) : 0 ≤ level d (some b) := by
  refine le_min hc ?_
  have : 0 ≤ d.rate * (d.time - b.last) := mul_nonneg hr (by linarith)
  linarith

theorem level_step_standing (d : Demand K) (s : Option (Bucket K)) :
    level d (bucket.step s d).2 = take (level d s) := by
  rw [bucket_step]
  exact level_standing ((take_le _).trans (level_le_cap d s))

section Floor
variable [FloorRing K]

theorem one_le_level_iff_ceil {c r x t : K} (hc : 1 ≤ c) (hr : 0 < r) (d : ℤ) :
    1 ≤ level ⟨c, r, t + d⟩ (some ⟨x, t⟩) ↔ ⌈(1 - x) / r⌉ ≤ d := by
  have hspan : t + d - t = d := add_sub_cancel_left t (d : K)
  rw [level, hspan, le_min_iff, and_iff_right hc, Int.ceil_le, div_le_iff₀ hr, sub_le_iff_le_add', mul_comm r]

theorem level_eq_cap_iff_ceil {c r x t : K} (hr : 0 < r) (d : ℤ) :
    level ⟨c, r, t + d⟩ (some ⟨x, t⟩) = c ↔ ⌈(c - x) / r⌉ ≤ d := by
  have hspan : t + d - t = d := add_sub_cancel_left t (d : K)
  rw [level, hspan, min_eq_left_iff, Int.ceil_le, div_le_iff₀ hr, sub_le_iff_le_add', mul_comm r]

theorem outputs_standing (d : Demand K) (s : Option (Bucket K)) (n : ℕ) :
    bucket.outputs s (List.replicate n d) =
      (List.range n).map fun i : ℕ => decide ((i : ℤ) < ⌊level d s⌋) := by
  induction n generalizing s with
  | zero => rfl
  | succ n ih =>
    have hrest := ih (bucket.step s d).2
    rw [level_step_standing] at hrest
    have hfirst : (bucket.step s d).1 = decide (((0 : ℕ) : ℤ) < ⌊level d s⌋) := by
      rw [bucket_step, Nat.cast_zero, decide_eq_decide, Int.floor_pos]
    rw [List.replicate_succ, List.range_succ_eq_map, List.map_cons, List.map_map, Machine.outputs, hrest, hfirst]
    congr 1
    apply List.map_congr_left
    intro i _
    rw [Function.comp_apply, decide_eq_decide]
    by_cases hone : 1 ≤ level d s
    · rw [take_of_le hone, Int.floor_sub_one]
      omega
    · -- without a whole token neither side can hold
      have hnone : ¬0 < ⌊level d s⌋ := fun hpos => hone (Int.floor_pos.mp hpos)
      rw [take_of_not_le hone]
      omega

end Floor

def credit : K → List (Demand K) → K
  | _, [] => 0
  | prev, d :: ds => d.rate * (d.time - prev) + credit d.time ds

theorem le_level_iff {c r x t : K} {pre : List K} (hx : x ≤ c) (hpre : pre.Pairwise (· ≤ ·))
    (ht : ∀ a ∈ pre, a ≤ t) :
    x ≤ level ⟨c, r, t⟩ (bucket.run none (fixed c r pre)) ↔
      ∀ s ∈ pre, x + bucket.tally (window s t) none (fixed c r pre) ≤ c + r * (t - s) := by
  induction pre using List.reverseRecOn generalizing x t with
  | nil => simpa [fixed, Machine.run, level] using hx
  | append_singleton pre t₁ ih =>
    rw [List.pairwise_append] at hpre
    have hle : ∀ a ∈ pre, a ≤ t₁ := fun a ha => hpre.2.2 a ha t₁ (by simp)
    have ht₁ : t₁ ≤ t := ht t₁ (by simp)
    set L := level ⟨c, r, t₁⟩ (bucket.run none (fixed c r pre)) with hL
    set one : K := if 1 ≤ L then 1 else 0 with hone
    have htake : take L = L - one := by
      by_cases h : 1 ≤ L
      · rw [take_of_le h, hone, if_pos h]
      · rw [take_of_not_le h, hone, if_neg h, sub_zero]
    have hrun : bucket.run none (fixed c r (pre ++ [t₁])) = some ⟨take L, t₁⟩ := by
      rw [fixed, List.map_append, List.map_cons, List.map_nil, run_snoc]
      rfl
    have htally : ∀ s ≤ t₁, (bucket.tally (window s t) none (fixed c r (pre ++ [t₁])) : K) =
        bucket.tally (window s t₁) none (fixed c r pre) + one := by
      intro s hs
      rw [tally_window_snoc hle hs ht₁, hone]
      push_cast
      rfl
    have hLc : L ≤ c := level_le_cap _ _
    rw [hrun]
    simp only [level, le_min_iff, hx, true_and, htake]
    have hsplit : ∀ s, r * (t - s) = r * (t - t₁) + r * (t₁ - s) := fun s => by ring
    constructor
    · intro h s hs
      have hy : x + one - r * (t - t₁) ≤ L := by linarith
      have hall := (ih (hy.trans hLc) hpre.1 hle).mp hy
      -- a start that is the new demand itself either repeats an old one or has seen nothing
      by_cases hmem : s ∈ pre
      · have := hall s hmem
        rw [htally s (hle s hmem), hsplit s]
        linarith
      · have hs' : s = t₁ := by simpa [hmem] using hs
        subst hs'
        rw [htally s le_rfl, tally_window_self hmem]
        push_cast
        linarith
    · intro h
      have hlast := h t₁ (by simp)
      rw [htally t₁ le_rfl] at hlast
      have hcount : (0 : K) ≤ bucket.tally (window t₁ t₁) none (fixed c r pre) := Nat.cast_nonneg _
      have hy : x + one - r * (t - t₁) ≤ c := by linarith
      have hall : ∀ s ∈ pre, x + one - r * (t - t₁) +
          bucket.tally (window s t₁) none (fixed c r pre) ≤ c + r * (t₁ - s) := by
        intro s hs
        have := h s (List.mem_append_left _ hs)
        rw [htally s (hle s hs), hsplit s] at this
        linarith
      have := (ih hy hpre.1 hle).mpr hall
      linarith

theorem granted_iff {c r t : K} {pre : List K} (hc : 1 ≤ c) (hpre : (pre ++ [t]).Pairwise (· ≤ ·)) :
    (bucket.step (bucket.run none (fixed c r pre)) ⟨c, r, t⟩).1 = true ↔
      ∀ s ∈ pre ++ [t], (bucket.tally (window s t) none (fixed c r pre) : K) + 1 ≤ c + r * (t - s) := by
  have hp := List.pairwise_append.mp hpre
  have hle : ∀ a ∈ pre, a ≤ t := fun a ha => hp.2.2 a ha t (by simp)
  rw [bucket_step, decide_eq_true_eq, le_level_iff hc hp.1 hle]
  constructor
  · intro h s hs
    by_cases hmem : s ∈ pre
    · rw [add_comm]
      exact h s hmem
    · have hs' : s = t := by simpa [hmem] using hs
      subst hs'
      rw [tally_window_self hmem, sub_self, mul_zero]
      push_cast
      linarith
  · intro h s hs
    rw [add_comm]
    exact h s (List.mem_append_left _ hs)

def Conforms (c r : K) (log : List (K × Bool)) (t : K) : Prop :=
  ∀ s ∈ log.map Prod.fst ++ [t],
    ((log.countP fun e => e.2 && decide (s ≤ e.1) && decide (e.1 ≤ t) : ℕ) : K) + 1 ≤ c + r * (t - s)

instance (c r : K) (log : List (K × Bool)) (t : K) : Decidable (Conforms c r log t) :=
  List.decidableBAll _ _

def greedy (c r : K) : List (K × Bool) → List K → List Bool
  | _, [] => []
  | log, t :: ts =>
    decide (Conforms c r log t) :: greedy c r (log ++ [(t, decide (Conforms c r log t))]) ts

theorem outputs_eq_greedy {c r : K} {ts : List K} (hc : 1 ≤ c) (hts : ts.Pairwise (· ≤ ·)) :
    bucket.outputs none (fixed c r ts) = greedy c r [] ts := by
  suffices h : ∀ pre, (pre ++ ts).Pairwise (· ≤ ·) →
      bucket.outputs (bucket.run none (fixed c r pre)) (fixed c r ts) =
        greedy c r (pre.zip (bucket.outputs none (fixed c r pre))) ts from h [] hts
  clear hts
  induction ts with
  | nil => intro pre _; rfl
  | cons t ts ih =>
    intro pre hpre
    have hsplit : pre ++ t :: ts = (pre ++ [t]) ++ ts := by simp
    rw [hsplit] at hpre
    have hlen : pre.length = (bucket.outputs none (fixed c r pre)).length := by
      rw [Machine.length_outputs, fixed, List.length_map]
    have hzip : (pre.zip (bucket.outputs none (fixed c r pre))).map Prod.fst = pre :=
      List.map_fst_zip hlen.le
    have hok : (bucket.step (bucket.run none (fixed c r pre)) ⟨c, r, t⟩).1 =
        decide (Conforms c r (pre.zip (bucket.outputs none (fixed c r pre))) t) := by
      rw [Bool.eq_iff_iff, granted_iff hc (List.pairwise_append.mp hpre).1, decide_eq_true_eq, Conforms, hzip]
      refine forall₂_congr fun s _ => ?_
      rw [Machine.tally_eq_countP, fixed, List.zip_map_left, List.countP_map]
      rfl
    have hnext := ih (pre ++ [t]) hpre
    have hrun : bucket.run none (fixed c r (pre ++ [t])) =
        (bucket.step (bucket.run none (fixed c r pre)) ⟨c, r, t⟩).2 := by
      rw [fixed, List.map_append, Machine.run_append]
      rfl
    have hout : bucket.outputs none (fixed c r (pre ++ [t])) =
        bucket.outputs none (fixed c r pre) ++ [(bucket.step (bucket.run none (fixed c r pre)) ⟨c, r, t⟩).1] := by
      rw [fixed, List.map_append, Machine.outputs_append]
      rfl
    rw [hrun, hout, List.zip_append hlen, hok] at hnext
    simp only [fixed, List.map_cons, Machine.outputs, greedy] at hnext hok ⊢
    rw [hnext, hok]
    rfl

end EdgeQuota.Lib.TokenBucket
