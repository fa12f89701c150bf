import EdgeQuota.RateLimit.Sharpness
import Mathlib.Algebra.Order.Archimedean.Basic

/-! Clocks that disagree. An instance that lags behind Redis may hand EXPIREAT an instant that
has already passed; instances that disagree with each other credit the same elapsed time more
than once, because a call with an older timestamp moves the stored one back. -/

namespace EdgeQuota.RateLimit
open Lib TokenBucket

variable {κ : Type*} [DecidableEq κ]

namespace Limits
variable {l : Limits} {key : κ} {offset now : ℤ} {db : Redis κ}

def Charged (db : Redis κ) (c : Call κ) : Prop :=
  (script.step db c).1.allowed = 1 → ∃ s, (script.step db c).2.find c.clock c.key = some s ∧
    s.value .tokens = some (available c.args (hmget db c.clock c.key) - 1)

theorem charged_of_lt_deadline (hr : 0 < l.rate) (hd : now + offset < l.deadline now) (db : Redis κ) :
    Charged db (l.callAt key offset now) := by
  intro hallowed
  obtain ⟨s, hfind, hslot⟩ := find_after hr hd db key
  refine ⟨s, hfind, ?_⟩
  rw [slotAfter_value hslot]
  exact congrArg some (take_of_le ((allowed_callAt hr db).mp hallowed))

theorem not_charged (hr : 0 < l.rate) (hb : 1 ≤ l.burst) (hnone : db.find (now + offset) key = none)
    (hn : l.half < now) (hd : l.deadline now ≤ now + offset) : ¬Charged db (l.callAt key offset now) := by
  intro hcharged
  have hav := available_of_find_none (l := l) hr hnone
  obtain ⟨s, hfind, -⟩ := hcharged ((allowed_callAt hr db).mpr (by rw [hav]; exact_mod_cast hb))
  have hneeds : needsExpire (l.callAt key offset now).args _ :=
    (needsExpire_map (lastExpire_of_find_none hnone)).mpr (by simpa using hn)
  have hs := (Keyspace.find_eq_some.mp hfind).1
  rw [step_callAt hr] at hs
  change (db.write key (slotAfter (l.callAt key offset now).args (now + offset) db key)) key = some s at hs
  rw [Keyspace.write_self, slotAfter_eq, if_pos hneeds, expireInstant_eq, if_pos hd] at hs
  exact absurd hs (by simp)

structure Arrival where
  time : ℚ
  now : ℤ
  clock : ℤ

def arrival (l : Limits) (key : κ) (e : Arrival) : Call κ := ⟨key, ⟨l.rate, l.burst, l.ttl, e.now⟩, e.clock⟩

def arrivals (l : Limits) (key : κ) : Machine (Redis κ) Arrival Reply := script.comap (l.arrival key)

def inInterval (a b : ℚ) (e : Arrival) (r : Reply) : Bool :=
  decide (r.allowed = 1) && decide (a ≤ e.time) && decide (e.time ≤ b)

def Skewed (D : ℚ) (es : List Arrival) : Prop :=
  (es.Pairwise fun a b => a.time ≤ b.time) ∧ ∀ e ∈ es, |(e.now : ℚ) - e.time| ≤ D

theorem tally_le_of_ordered (hr : 0 < l.rate) (hb : 1 ≤ l.burst) (hfresh : db key = none) {D : ℚ}
    {es : List Arrival} (hskew : Skewed D es) (hord : es.Pairwise fun a b => a.now ≤ b.now)
    (hn : (l.arrivals key).Along (fun db e => NoExpiry db (l.arrival key e)) db es)
    {a T : ℚ} (hT : 0 ≤ T) (hD : 0 ≤ D) :
    ((l.arrivals key).tally (inInterval a (a + T)) db es : ℚ) ≤ l.burst + l.rate * (T + 2 * D) := by
  have hle : (l.arrivals key).tally (inInterval a (a + T)) db es ≤
      script.tally (inWindow (a - D) (a + T + D)) db (es.map (l.arrival key)) := by
    rw [← Machine.tally_comap]
    refine Machine.tally_le_tally (Machine.along_of_forall fun e he db hsel => ?_)
    have hnear := abs_le.mp (hskew.2 e he)
    simp only [inInterval, inWindow, arrival, Bool.and_eq_true, decide_eq_true_eq] at hsel ⊢
    exact ⟨⟨hsel.1.1, decide_eq_true (by linarith)⟩, decide_eq_true (by linarith)⟩
  have hcalls : ∀ c ∈ es.map (l.arrival key), c.key = key ∧ 0 < c.args.rate ∧
      (demand c).cap = l.burst ∧ (demand c).rate = l.rate := by
    intro c hc
    obtain ⟨e, -, rfl⟩ := List.mem_map.mp hc
    exact ⟨rfl, hr, rfl, rfl⟩
  have halong := along_of_fresh hfresh (fun c hc => ⟨(hcalls c hc).1, (hcalls c hc).2.1⟩)
    (List.pairwise_map.mpr hord) (Machine.along_comap.mp hn)
  rw [script_tally_inWindow _ _ halong (hasFields_of_none hfresh)] at hle
  have hdemands : ∀ d ∈ (es.map (l.arrival key)).map demand, d.cap = l.burst ∧ d.rate = l.rate := by
    intro d hd
    obtain ⟨c, hc, rfl⟩ := List.mem_map.mp hd
    exact (hcalls c hc).2.2
  have hwin := tally_window_le (s := a - D) (t := a + T + D) (b := stored db key) hr.le
    (by exact_mod_cast zero_le_one.trans hb : (0 : ℚ) ≤ l.burst) (by linarith) hdemands
  calc ((l.arrivals key).tally (inInterval a (a + T)) db es : ℚ)
      ≤ l.burst + l.rate * (a + T + D - (a - D)) := (Nat.cast_le.mpr hle).trans hwin
    _ = l.burst + l.rate * (T + 2 * D) := by ring

def slower : Arrival := ⟨1 / 2, 0, 1⟩

def faster : Arrival := ⟨1 / 2, 1, 1⟩

def rounds : ℕ → List Arrival
  | 0 => []
  | k + 1 => slower :: faster :: rounds k

theorem rounds_add (j k : ℕ) : rounds (j + k) = rounds j ++ rounds k := by
  induction j with
  | zero => rw [Nat.zero_add]; rfl
  | succ j ih => rw [Nat.succ_add, rounds, ih]; rfl

theorem mem_rounds {k : ℕ} {e : Arrival} (h : e ∈ rounds k) : e = slower ∨ e = faster := by
  induction k with
  | zero => simp [rounds] at h
  | succ k ih =>
    simp only [rounds, List.mem_cons] at h
    tauto

def Idle (l : Limits) (key : κ) (x : ℚ) (db : Redis κ) : Prop :=
  0 ≤ x ∧ x ≤ l.burst ∧ At db key 1 x none none

theorem noExpiry_of_at (offset : ℤ) (hr : 0 < l.rate) {n : ℤ} {x : ℚ} (h : At db key n x none none)
    (hold : ¬l.half < now - 0) : NoExpiry db (l.callAt key offset now) := by
  obtain ⟨⟨s, hs, hd⟩, -, -, hre⟩ := hmget_of_at (now + offset) h (by simp)
  obtain ⟨s', hs', -⟩ := at_keep (l := l) hr hre hold
  obtain ⟨s₀, hs₀, -⟩ := h
  refine ⟨?_, Option.isSome_iff_exists.mpr ⟨s', hs'⟩⟩
  change (db.find (now + offset) key).isSome = (db key).isSome
  rw [hs, hs₀]
  rfl

theorem arrivals_step (l : Limits) (key : κ) (db : Redis κ) (e : Arrival) :
    (l.arrivals key).step db e = script.step db (l.arrival key e) := rfl

theorem arrival_slower {α : Type*} (l : Limits) (key : α) : l.arrival key slower = l.callAt key 1 0 := by
  simp only [arrival, slower, callAt, zero_add]

theorem arrival_faster {α : Type*} (l : Limits) (key : α) : l.arrival key faster = l.callAt key 0 1 := by
  simp only [arrival, faster, callAt, add_zero]

section Rounds
variable (hr : 0 < l.rate) (hb : 1 ≤ l.burst) (ht : 2 ≤ l.ttl)
include hr ht

theorem step_slower {x : ℚ} (h : Idle l key x db) :
    NoExpiry db (l.arrival key slower) ∧ At ((l.arrivals key).step db slower).2 key 0 (take x) none none ∧
      (((l.arrivals key).step db slower).1.allowed = 1 ↔ 1 ≤ x) := by
  obtain ⟨-, hx, hat⟩ := h
  rw [arrivals_step, arrival_slower]
  have hold : ¬l.half < 0 - (none : Option ℤ).getD 0 := by simp [half]; omega
  have hav : available (l.callAt key 1 0).args (hmget db (0 + 1) key) = x := by
    rw [available_back hat (by simp) (by norm_num), min_eq_right hx]
  obtain ⟨⟨s, hs, hd⟩, -, -, hre⟩ := hmget_of_at (0 + 1) hat (by simp)
  have hnext := at_keep (l := l) hr hre hold
  rw [hs, Option.bind_some, hd, hav] at hnext
  refine ⟨noExpiry_of_at 1 hr hat hold, hnext, ?_⟩
  rw [← hav]
  exact allowed_callAt hr db

theorem step_faster {x : ℚ} (h : At db key 0 x none none) :
    NoExpiry db (l.arrival key faster) ∧
      At ((l.arrivals key).step db faster).2 key 1 (take (min (l.burst : ℚ) (x + l.rate))) none none ∧
      (((l.arrivals key).step db faster).1.allowed = 1 ↔ 1 ≤ min (l.burst : ℚ) (x + l.rate)) := by
  rw [arrivals_step, arrival_faster]
  have hold : ¬l.half < 1 - (none : Option ℤ).getD 0 := by simp [half]; omega
  have hav : available (l.callAt key 0 1).args (hmget db (1 + 0) key) = min (l.burst : ℚ) (x + l.rate) := by
    rw [available_of_at h (by simp) (by norm_num)]
    norm_num
  have hnext := at_step 0 hr h (by simp) hold (by norm_num)
  norm_num at hnext
  refine ⟨noExpiry_of_at 0 hr h hold, hnext, ?_⟩
  rw [← hav]
  exact allowed_callAt hr db

include hb

theorem start_idle (hfresh : db key = none) :
    NoExpiry db (l.arrival key faster) ∧ Idle l key (l.burst - 1) ((l.arrivals key).step db faster).2 := by
  have hB : (1 : ℚ) ≤ l.burst := by exact_mod_cast hb
  rw [arrivals_step, arrival_faster]
  have hnone := Keyspace.find_of_none hfresh (1 + 0)
  have hold : ¬l.half < 1 - (none : Option ℤ).getD 0 := by simp [half]; omega
  have hnext := at_keep (l := l) hr (lastExpire_of_find_none hnone) hold
  rw [available_of_find_none hr hnone, hnone, Option.bind_none, take_of_le hB] at hnext
  refine ⟨⟨?_, ?_⟩, by linarith, by linarith, hnext⟩
  · change (db.find (1 + 0) key).isSome = (db key).isSome
    rw [hnone, hfresh]
  · obtain ⟨s, hs, -⟩ := hnext
    exact Option.isSome_iff_exists.mpr ⟨s, hs⟩

theorem round_step {x T : ℚ} (hT : 0 ≤ T) (h : Idle l key x db) :
    (l.arrivals key).Along (fun db e => NoExpiry db (l.arrival key e)) db (rounds 1) ∧
      ∃ x', Idle l key x' ((l.arrivals key).run db (rounds 1)) ∧
        (1 ≤ (l.arrivals key).tally (inInterval (1 / 2) (1 / 2 + T)) db (rounds 1) ∨
          x < 1 ∧ x' = x + l.rate) := by
  have hB : (1 : ℚ) ≤ l.burst := by exact_mod_cast hb
  obtain ⟨hno, hat, hslow⟩ := step_slower hr ht h
  obtain ⟨hno', hat', hfast⟩ := step_faster hr ht hat
  obtain ⟨hx, -, -⟩ := h
  have htake := take_nonneg hx
  set y := min (l.burst : ℚ) (take x + l.rate) with hy
  have hy0 : 0 ≤ y := le_min (by linarith) (by linarith)
  refine ⟨⟨hno, hno', trivial⟩, take y, ⟨take_nonneg hy0, (take_le y).trans (min_le_left _ _), hat'⟩, ?_⟩
  have hsel : ∀ r : Reply, inInterval (1 / 2) (1 / 2 + T) slower r = decide (r.allowed = 1) ∧
      inInterval (1 / 2) (1 / 2 + T) faster r = decide (r.allowed = 1) := by
    intro r
    simp [inInterval, slower, faster, hT]
  simp only [rounds, Machine.tally, hsel, hslow, hfast, decide_eq_true_eq]
  by_cases hx1 : 1 ≤ x
  · rw [if_pos hx1]
    exact Or.inl (by omega)
  by_cases hy1 : 1 ≤ y
  · rw [if_pos hy1]
    exact Or.inl (by omega)
  · refine Or.inr ⟨not_le.mp hx1, ?_⟩
    rw [take_of_not_le hy1, hy, take_of_not_le hx1]
    refine min_eq_right (le_of_not_ge fun hle => hy1 ?_)
    rw [hy, take_of_not_le hx1, min_eq_left hle]
    exact hB

theorem rounds_idle {x : ℚ} (h : Idle l key x db) (k : ℕ) :
    (l.arrivals key).Along (fun db e => NoExpiry db (l.arrival key e)) db (rounds k) ∧
      ∃ x', Idle l key x' ((l.arrivals key).run db (rounds k)) := by
  induction k generalizing db x with
  | zero => exact ⟨trivial, x, h⟩
  | succ k ih =>
    obtain ⟨hno, x', hidle, -⟩ := round_step hr hb ht le_rfl h
    rw [Nat.add_comm, rounds_add, Machine.along_append, Machine.run_append]
    exact ⟨⟨hno, (ih hidle).1⟩, (ih hidle).2⟩

theorem rounds_allow {x T : ℚ} (hT : 0 ≤ T) (h : Idle l key x db) {k : ℕ} (hk : 1 ≤ x + k * l.rate) :
    1 ≤ (l.arrivals key).tally (inInterval (1 / 2) (1 / 2 + T)) db (rounds (k + 1)) := by
  induction k generalizing db x with
  | zero =>
    obtain ⟨-, x', -, hone | ⟨hlt, -⟩⟩ := round_step hr hb ht hT h
    · exact hone
    · rw [Nat.cast_zero, zero_mul, add_zero] at hk
      exact absurd hk (not_le.mpr hlt)
  | succ k ih =>
    obtain ⟨-, x', hidle, hround⟩ := round_step hr hb ht hT h
    rw [Nat.add_comm, rounds_add, Machine.tally_append]
    rcases hround with hone | ⟨-, rfl⟩
    · exact hone.trans (Nat.le_add_right _ _)
    · push_cast at hk
      exact (ih hidle (by linarith)).trans (Nat.le_add_left _ _)

theorem rounds_many {x T : ℚ} (hT : 0 ≤ T) (h : Idle l key x db) {k : ℕ} (hk : 1 ≤ k * l.rate) (n : ℕ) :
    n ≤ (l.arrivals key).tally (inInterval (1 / 2) (1 / 2 + T)) db (rounds (n * (k + 1))) := by
  induction n generalizing db x with
  | zero => exact Nat.zero_le _
  | succ n ih =>
    obtain ⟨-, x', hidle⟩ := rounds_idle hr hb ht h (k + 1)
    have hone := rounds_allow hr hb ht hT h (k := k) (by linarith [h.1])
    rw [Nat.succ_mul, Nat.add_comm (n * (k + 1)), rounds_add, Machine.tally_append]
    have := ih hidle
    omega

end Rounds

end Limits
end EdgeQuota.RateLimit
