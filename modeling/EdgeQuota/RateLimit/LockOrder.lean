import EdgeQuota.RateLimit.Fallback

/-! The calls on one bucket of the in-memory limiter, in the order in which they take its lock. A call reads its
timestamp before, so timestamps may go back from one call to the next; the bucket is still the abstract one. -/

namespace EdgeQuota.RateLimit
open Lib Go TokenBucket

variable {κ : Type*} [DecidableEq κ] {R : Rounding} {l : InMemoryLimiter}

theorem tokens_le_burst (hb : 1 ≤ l.burst) (es : List (Event κ)) (id : ℕ) :
    (((fallbackIn R l).run Shared.init es).heap id).tokens ≤ R.fl l.burst := by
  suffices h : ∀ id, (((fallbackIn R l).run Shared.init es).heap id).tokens ≤ R.fl l.burst from h id
  refine Machine.run_of_invariant (P := fun _ _ => True)
    (I := fun s : Shared κ => ∀ id, (s.heap id).tokens ≤ R.fl l.burst) ?_ ?_ (Machine.along_of_forall fun _ _ _ => trivial)
  · intro s e hs _ id
    have hturn := Shared.turn_step R l s e
    generalize ((fallbackIn R l).step s e).1 = o, ((fallbackIn R l).step s e).2 = s' at hturn ⊢
    cases hturn with
    | create h =>
      by_cases hid : id = s.next
      · simp only [Shared.goto, hid, Function.update_self]
        exact R.fl_le (R.fl_fl _) (by linarith)
      · simpa only [Shared.goto, Function.update_of_ne hid] using hs id
    | @lock g key i now h =>
      by_cases hid : id = i
      · have hstored := congrArg Prod.snd (l.refill_eq (R := R) now (s.heap i))
        have hlevel : R.level (asSeconds R) (l.demand R now) (some (s.heap i)) ≤ R.fl l.burst := Rounding.level_le_cap ..
        have hfix : R.fl (R.level (asSeconds R) (l.demand R now) (some (s.heap i))) = _ :=
          Rounding.fl_level (R.fl_fl l.burst) _
        simp only [Shared.goto, hid, Function.update_self]
        rw [Option.some.inj hstored]
        exact (Rounding.take_le hfix).trans hlevel
      · simpa only [Shared.goto, Function.update_of_ne hid] using hs id
    | _ => exact hs id
  · intro id
    exact R.fl_nonneg (by exact_mod_cast zero_le_one.trans hb)

/-- **Timestamps out of order.** Of the calls on one bucket, take any that lock it one after the other. No more of them
are allowed than the burst, what is earned from the timestamp of the first of them to the latest, and what rounding
adds. The bucket never holds more than the burst. -/
theorem lock_order_bound (hr : 0 < l.rate) (hb : 1 ≤ l.burst) (es : List (Event κ)) (id : ℕ) :
    (∀ before during after : List (Decision κ),
      chargedTo id ((fallbackIn R l).outputs Shared.init es) = before ++ during ++ after →
        ∀ (first : Decision κ) (rest : List (Decision κ)) (M : ℚ), during = first :: rest → (∀ d ∈ during, d.time ≤ M) →
          (during.countP Decision.allowed : ℚ) ≤
            R.fl l.burst + l.rate * (M - first.time) + l.allowance R before during) ∧
      ∀ done, done <+: es → (((fallbackIn R l).run Shared.init done).heap id).tokens ≤ R.fl l.burst := by
  refine ⟨?_, fun done _ => tokens_le_burst hb done id⟩
  rintro before during after hsplit first rest M rfl hM
  have hcap : 0 ≤ R.fl l.burst := R.fl_nonneg (by exact_mod_cast zero_le_one.trans hb)
  have hcount : (first :: rest).countP Decision.allowed =
      (first :: rest).countP fun d => granted (l.demand R d.time) d.allowed && decide ((l.demand R d.time).time ≤ M) := by
    refine List.countP_congr fun d hd => ?_
    have htime : (l.demand R d.time).time ≤ M := hM d hd
    simp only [granted, decide_eq_true htime, Bool.and_true]
  have hdemands : ∀ e ∈ (first :: rest).map fun d => l.demand R d.time, e.cap = R.fl l.burst ∧ e.rate = l.rate := by
    intro e he
    obtain ⟨d, -, rfl⟩ := List.mem_map.mp he
    exact ⟨rfl, rfl⟩
  rw [hcount, countP_segment hb id hsplit fun d ok => granted d ok && decide (d.time ≤ M)]
  refine Rounding.tally_cons_le (abs_seconds_sub_le R) hr.le hcap ?_ (hM first (List.mem_cons_self ..)) hdemands
  intro d ok hsel
  exact ⟨(Bool.and_eq_true_iff.mp hsel).1, of_decide_eq_true (Bool.and_eq_true_iff.mp hsel).2⟩

theorem lock_order_bound_backwards :
    let l : InMemoryLimiter := ⟨1, 2⟩
    let es : List (Event Unit) := [.lookup 0 () 5, .loadOrStore 0, .cacheSet 0 false, .processItem true,
      .pendingDelete 0, .lookup 2 () 4, .lookup 3 () 5, .lookup 1 () 6, .refill 1, .refill 2, .refill 3]
    let calls := chargedTo 0 ((fallbackIn float64 l).outputs Shared.init es)
    calls.map (fun d => (d.time, d.allowed)) = [(5, true), (6, true), (4, false), (5, false)] ∧
      (calls.countP Decision.allowed : ℚ) ≤ float64.fl (2 : ℤ) + 1 * (6 - 5) + l.allowance float64 [] calls := by
  intro l es calls
  have hcalls : calls.map (fun d => (d.time, d.allowed)) = [(5, true), (6, true), (4, false), (5, false)] := by
    decide +kernel
  refine ⟨hcalls, ?_⟩
  obtain ⟨first, rest, hcons⟩ : ∃ first rest, calls = first :: rest := by
    apply List.exists_cons_of_ne_nil
    intro hnil
    rw [hnil] at hcalls
    exact absurd hcalls (List.cons_ne_nil _ _).symm
  have hfirst : first.time = 5 := by
    rw [hcons, List.map_cons, List.cons_eq_cons, Prod.mk.injEq] at hcalls
    exact hcalls.1.1
  have hlatest : ∀ d ∈ calls, d.time ≤ 6 := by
    intro d hd
    have hmem : (d.time, d.allowed) ∈ calls.map (fun d => (d.time, d.allowed)) := List.mem_map_of_mem hd
    rw [hcalls] at hmem
    have hall : ∀ p ∈ ([(5, true), (6, true), (4, false), (5, false)] : List (ℚ × Bool)), p.1 ≤ 6 := by decide
    exact hall _ hmem
  have hbound := (lock_order_bound (R := float64) (l := l) (by decide) (by decide) es 0).1 [] calls [] (by simp [calls])
    first rest 6 hcons hlatest
  rw [hfirst] at hbound
  exact hbound

/-- A token in three seconds: the double next to a third is below it, but three times that is one. -/
theorem lock_order_rounded_up :
    let l : InMemoryLimiter := ⟨float64.fl (1 / 3), 1⟩
    let es : List (Event Unit) := [.lookup 0 () 0, .loadOrStore 0, .cacheSet 0 false, .processItem true,
      .pendingDelete 0, .lookup 1 () 3, .refill 1]
    let calls := chargedTo 0 ((fallbackIn float64 l).outputs Shared.init es)
    calls.map (fun d => (d.time, d.allowed)) = [(0, true), (3, true)] ∧
      ¬(calls.countP Decision.allowed : ℚ) ≤ l.burst + l.rate * (3 - 0) := by
  refine ⟨?_, ?_⟩ <;> decide +kernel

end EdgeQuota.RateLimit
