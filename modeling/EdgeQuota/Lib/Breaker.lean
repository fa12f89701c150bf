import Mathlib.Algebra.Group.Defs
import Mathlib.Data.List.TakeWhile
import Mathlib.Order.Lattice

/-! A circuit breaker that counts failures in a row. It opens at a threshold, each further failure keeps it open
for another while, and a success closes it. Whether it blocks is decided by the outcomes it has been told, the
latest of them alone. -/

namespace EdgeQuota.Lib

inductive Outcome (T : Type*) where
  | success
  | failure (time : T)

namespace Outcome
variable {T : Type*}

def isFailure : Outcome T → Bool
  | success => false
  | failure _ => true

end Outcome

structure Breaker (T : Type*) where
  failures : ℕ
  tripped : Bool
  until_ : T

namespace Breaker
variable {T : Type*} {threshold : ℕ} {os : List (Outcome T)}

def streak (os : List (Outcome T)) : ℕ := (os.reverse.takeWhile Outcome.isFailure).length

theorem streak_success (os : List (Outcome T)) : streak (os ++ [.success]) = 0 := by
  rw [streak, List.reverse_append]
  rfl

theorem streak_failure (os : List (Outcome T)) (t : T) : streak (os ++ [.failure t]) = streak os + 1 := by
  rw [streak, List.reverse_append]
  rfl

theorem le_streak_iff : threshold ≤ streak os ↔
    ∃ latest, latest <:+ os ∧ threshold ≤ latest.length ∧ ∀ o ∈ latest, o.isFailure = true := by
  constructor
  · intro h
    refine ⟨(os.reverse.takeWhile Outcome.isFailure).reverse, ?_, ?_, ?_⟩
    · rw [← List.reverse_prefix, List.reverse_reverse]
      exact List.takeWhile_prefix _
    · rwa [List.length_reverse]
    · intro o ho
      exact List.mem_takeWhile_imp (List.mem_reverse.mp ho)
  · rintro ⟨latest, hsuffix, hlength, hall⟩
    obtain ⟨before, rfl⟩ := hsuffix
    have hfailures : latest.reverse.takeWhile Outcome.isFailure = latest.reverse :=
      List.takeWhile_eq_self_iff.mpr fun o ho => hall o (List.mem_reverse.mp ho)
    have hprefix : latest.reverse.takeWhile Outcome.isFailure <+:
        (before ++ latest).reverse.takeWhile Outcome.isFailure := by
      rw [List.reverse_append, List.takeWhile_append, hfailures]
      split
      · exact List.prefix_append _ _
      · exact List.prefix_rfl
    have hle := hprefix.length_le
    rw [hfailures, List.length_reverse] at hle
    exact hlength.trans hle

variable [Add T] {timeout : T} {b : Breaker T}

def record (threshold : ℕ) (timeout : T) (b : Breaker T) : Outcome T → Breaker T
  | .success => { b with failures := 0, tripped := false }
  | .failure t =>
    let b := { b with failures := b.failures + 1 }
    if threshold ≤ b.failures then { b with tripped := true, until_ := t + timeout } else b

structure Keeps (threshold : ℕ) (timeout : T) (os : List (Outcome T)) (b : Breaker T) : Prop where
  failures : b.failures = streak os
  tripped : b.tripped = true ↔ threshold ≤ streak os
  until_ : b.tripped = true → ∃ t, os.getLast? = some (.failure t) ∧ b.until_ = t + timeout

theorem keeps_nil (hpos : 0 < threshold) (t : T) : Keeps threshold timeout [] ⟨0, false, t⟩ := by
  refine ⟨rfl, iff_of_false Bool.false_ne_true (not_le.mpr hpos), ?_⟩
  intro h
  cases h

theorem Keeps.record (hpos : 0 < threshold) (h : Keeps threshold timeout os b) (o : Outcome T) :
    Keeps threshold timeout (os ++ [o]) (b.record threshold timeout o) := by
  cases o with
  | success =>
    refine ⟨(streak_success os).symm, ?_, ?_⟩
    · rw [streak_success]
      exact iff_of_false Bool.false_ne_true (not_le.mpr hpos)
    · intro htripped
      cases htripped
  | failure t =>
    have hstreak : b.failures + 1 = streak (os ++ [.failure t]) := by rw [streak_failure, h.failures]
    unfold Breaker.record
    simp only
    by_cases hle : threshold ≤ b.failures + 1
    · rw [if_pos hle]
      refine ⟨hstreak, iff_of_true rfl (hstreak ▸ hle), ?_⟩
      intro _
      exact ⟨t, List.getLast?_concat, rfl⟩
    · -- below the threshold the breaker has not been open before
      have hclosed : ¬b.tripped = true := by
        rw [h.tripped, ← h.failures]
        omega
      rw [if_neg hle]
      refine ⟨hstreak, iff_of_false hclosed (hstreak ▸ hle), ?_⟩
      intro htripped
      exact absurd htripped hclosed

variable [LinearOrder T]

def blocks (b : Breaker T) (now : T) : Bool := b.tripped && decide (now < b.until_)

/-- The latest outcomes, at least as many as the threshold, are failures, and the timeout since the last one of them
has not passed. -/
def Blocked (threshold : ℕ) (timeout : T) (os : List (Outcome T)) (now : T) : Prop :=
  (∃ latest, latest <:+ os ∧ threshold ≤ latest.length ∧ ∀ o ∈ latest, o.isFailure = true) ∧
    ∃ t, os.getLast? = some (.failure t) ∧ now < t + timeout

theorem Keeps.blocks_iff (h : Keeps threshold timeout os b) (now : T) :
    b.blocks now = true ↔ Blocked threshold timeout os now := by
  rw [blocks, Bool.and_eq_true, decide_eq_true_eq, Blocked, ← le_streak_iff, ← h.tripped]
  constructor
  · rintro ⟨htripped, hnow⟩
    obtain ⟨t, hlast, huntil⟩ := h.until_ htripped
    exact ⟨htripped, t, hlast, huntil ▸ hnow⟩
  · rintro ⟨htripped, t, hlast, hnow⟩
    obtain ⟨t', hlast', huntil⟩ := h.until_ htripped
    rw [hlast] at hlast'
    obtain rfl : t = t' := by simpa using hlast'
    exact ⟨htripped, huntil ▸ hnow⟩

end Breaker
end EdgeQuota.Lib
