import EdgeQuota.Go.Http
import EdgeQuota.Lib.Threads

/-! The limiter in front of the admin endpoints. Its tokens are one atomic word. A request takes one, and at every tick a
goroutine puts some back; both load the word, work out another value and swap it in, and begin again if the word has
changed in between. -/

namespace EdgeQuota.Server.AdminLimiter
open Go Lib

structure Shared where
  tokens : ℤ
  done : Bool := false

def refill (burst : ℤ) : ℤ := if burst.tdiv 10 < 1 then 1 else burst.tdiv 10

def next (burst cur : ℤ) : ℤ := if burst < int64 (cur + refill burst) then burst else int64 (cur + refill burst)

/-- A goroutine, by what it does next: one that serves a request, the one that refills, or one that calls `Stop`. -/
inductive Thread where
  | load (w : ResponseWriter)
  | compareAndSwap (w : ResponseWriter) (cur : ℤ) (pos : 0 < cur)
  | waiting
  | refillLoad
  | refillCompareAndSwap (cur : ℤ)
  | stop
  | close

inductive Event where
  | served (w : ResponseWriter)
  | refused (w : ResponseWriter)
  | tick
  | refilled (amount : ℤ)
  | panicked

def step (burst : ℤ) (s : Shared) : Thread → Bool → List Event × Shared × List Thread
  | .load w, _ =>
    if h : s.tokens ≤ 0 then ([.refused (w.error (str "admin rate limit exceeded") 429)], s, [])
    else ([], s, [.compareAndSwap w s.tokens (not_le.mp h)])
  | .compareAndSwap w cur _, _ =>
    if s.tokens = cur then ([.served w], { s with tokens := int64 (cur - 1) }, []) else ([], s, [.load w])
  -- with `done` closed as well, either may be chosen
  | .waiting, tick =>
    if tick then ([.tick], s, [.refillLoad]) else if s.done then ([], s, []) else ([], s, [.waiting])
  | .refillLoad, _ => ([], s, [.refillCompareAndSwap s.tokens])
  | .refillCompareAndSwap cur, _ =>
    if s.tokens = cur then ([.refilled (next burst cur - cur)], { s with tokens := next burst cur }, [.waiting])
    else ([], s, [.refillLoad])
  -- between looking at `done` and closing it another call may have closed it
  | .stop, _ => if s.done then ([], s, []) else ([], s, [.close])
  | .close, _ => if s.done then ([.panicked], s, []) else ([], { s with done := true }, [])

inductive Call where
  | serveHTTP (w : ResponseWriter)
  | stop

def system (burst : ℤ) : System Shared Thread Call Bool Event where
  arrive
    | .serveHTTP w => .load w
    | .stop => .stop
  step := step burst

def start (burst : ℤ) : System.Conf Shared Thread := ⟨{ tokens := burst }, [.waiting]⟩

def Event.serves : Event → Bool
  | .served _ => true
  | .refused _ | .tick | .refilled _ | .panicked => false

def Event.ticks : Event → Bool
  | .tick => true
  | .served _ | .refused _ | .refilled _ | .panicked => false

def Event.refills : Event → Bool
  | .refilled _ => true
  | .served _ | .refused _ | .tick | .panicked => false

def Event.amount : Event → ℤ
  | .refilled amount => amount
  | .served _ | .refused _ | .tick | .panicked => 0

def admitted (out : List Event) : ℕ := out.countP Event.serves

def ticks (out : List Event) : ℕ := out.countP Event.ticks

def refills (out : List Event) : ℕ := out.countP Event.refills

def added (out : List Event) : ℤ := (out.map Event.amount).sum

def Thread.refilling : Thread → Bool
  | .refillLoad | .refillCompareAndSwap _ => true
  | .load _ | .compareAndSwap _ _ _ | .waiting | .stop | .close => false

def Thread.ticking : Thread → Bool
  | .waiting | .refillLoad | .refillCompareAndSwap _ => true
  | .load _ | .compareAndSwap _ _ _ | .stop | .close => false

def underWay (ts : List Thread) : ℕ := ts.countP Thread.refilling

theorem refilling_le_ticking (ts : List Thread) : underWay ts ≤ ts.countP Thread.ticking := by
  apply List.countP_mono_left
  intro t _ h
  cases t <;> first | rfl | cases h

variable {burst : ℤ}

theorem refill_eq (hmin : 1 ≤ burst) : refill burst = max 1 (burst / 10) := by
  unfold refill
  rw [Int.tdiv_eq_ediv_of_nonneg (by omega)]
  split_ifs <;> omega

theorem next_bounds (hmin : 1 ≤ burst) (hfits : burst + max 1 (burst / 10) < 2 ^ 63) {cur : ℤ} (hlow : 0 ≤ cur)
    (hhigh : cur ≤ burst) : 0 ≤ next burst cur ∧ next burst cur ≤ burst ∧ next burst cur - cur ≤ refill burst := by
  have hrefill := refill_eq hmin
  have hself : int64 (cur + refill burst) = cur + refill burst := int64_eq_self_iff.mpr (by omega)
  unfold next
  rw [hself]
  split_ifs <;> omega

structure Turn (burst : ℤ) (s : Shared) (t : Thread) (out : List Event) (s' : Shared) (ts : List Thread) : Prop where
  low : 0 ≤ s'.tokens
  high : s'.tokens ≤ burst
  conserved : s'.tokens + admitted out = s.tokens + added out
  added_le : added out ≤ refills out * refill burst
  refills_eq : refills out + underWay ts = ticks out + if t.refilling then 1 else 0
  single : ts.countP Thread.ticking ≤ if t.ticking then 1 else 0

section Turn
variable {s s' : Shared} {t : Thread} {ts l₁ l₂ : List Thread} {out more : List Event}

theorem Turn.still (hlow : 0 ≤ s.tokens) (hhigh : s.tokens ≤ burst) (htokens : s'.tokens = s.tokens)
    (hadmitted : admitted out = 0) (hrefills : refills out = 0) (hadded : added out = 0)
    (hunderWay : underWay ts = ticks out + if t.refilling then 1 else 0)
    (hsingle : ts.countP Thread.ticking ≤ if t.ticking then 1 else 0) : Turn burst s t out s' ts := by
  refine ⟨htokens ▸ hlow, htokens ▸ hhigh, ?_, ?_, ?_, hsingle⟩
  · rw [htokens, hadmitted, hadded]
    rfl
  · rw [hadded, hrefills, Nat.cast_zero, zero_mul]
  · rw [hrefills, Nat.zero_add, hunderWay]

theorem Turn.take (hhigh : s.tokens ≤ burst) (hmax : burst < 2 ^ 63) (w : ResponseWriter) (pos : 0 < s.tokens) :
    Turn burst s (.compareAndSwap w s.tokens pos) [.served w] { s with tokens := int64 (s.tokens - 1) } [] := by
  have hself : int64 (s.tokens - 1) = s.tokens - 1 := int64_eq_self_iff.mpr (by omega)
  have hadmitted : admitted [.served w] = 1 := rfl
  have hadded : added [.served w] = 0 := rfl
  rw [hself]
  refine ⟨?_, ?_, ?_, ?_, rfl, Nat.zero_le _⟩
  · change 0 ≤ s.tokens - 1
    omega
  · change s.tokens - 1 ≤ burst
    omega
  · rw [hadmitted, hadded]
    change s.tokens - 1 + ((1 : ℕ) : ℤ) = s.tokens + 0
    omega
  · change added [.served w] ≤ ((0 : ℕ) : ℤ) * refill burst
    rw [hadded, Nat.cast_zero, zero_mul]

theorem Turn.putBack (hmin : 1 ≤ burst) (hfits : burst + max 1 (burst / 10) < 2 ^ 63) (hlow : 0 ≤ s.tokens)
    (hhigh : s.tokens ≤ burst) :
    Turn burst s (.refillCompareAndSwap s.tokens) [.refilled (next burst s.tokens - s.tokens)]
      { s with tokens := next burst s.tokens } [.waiting] := by
  obtain ⟨hnonneg, hcapped, hamount⟩ := next_bounds hmin hfits hlow hhigh
  have hadded : added [.refilled (next burst s.tokens - s.tokens)] = next burst s.tokens - s.tokens := by
    simp [added, Event.amount]
  refine ⟨hnonneg, hcapped, ?_, ?_, rfl, Nat.le_refl 1⟩
  · rw [hadded]
    change next burst s.tokens + (0 : ℤ) = _
    omega
  · rw [hadded]
    change _ ≤ (1 : ℤ) * refill burst
    rw [one_mul]
    exact hamount

theorem turn_step (hmin : 1 ≤ burst) (hfits : burst + max 1 (burst / 10) < 2 ^ 63) (hlow : 0 ≤ s.tokens)
    (hhigh : s.tokens ≤ burst) (t : Thread) (tick : Bool) :
    Turn burst s t (step burst s t tick).1 (step burst s t tick).2.1 (step burst s t tick).2.2 := by
  cases t with
  | compareAndSwap w cur pos =>
    simp only [step]
    split_ifs with hsame
    · subst hsame
      exact Turn.take hhigh (by omega) w pos
    · exact Turn.still hlow hhigh rfl rfl rfl rfl rfl (Nat.zero_le _)
  | refillCompareAndSwap cur =>
    simp only [step]
    split_ifs with hsame
    · subst hsame
      exact Turn.putBack hmin hfits hlow hhigh
    · exact Turn.still hlow hhigh rfl rfl rfl rfl rfl (Nat.le_refl 1)
  | load w | stop | close =>
    simp only [step]
    split_ifs <;> exact Turn.still hlow hhigh rfl rfl rfl rfl rfl (Nat.zero_le _)
  | waiting =>
    simp only [step]
    split_ifs
    · exact Turn.still hlow hhigh rfl rfl rfl rfl rfl (Nat.le_refl 1)
    · exact Turn.still hlow hhigh rfl rfl rfl rfl rfl (Nat.zero_le 1)
    · exact Turn.still hlow hhigh rfl rfl rfl rfl rfl (Nat.le_refl 1)
  | refillLoad => exact Turn.still hlow hhigh rfl rfl rfl rfl rfl (Nat.le_refl 1)

structure Balance (burst : ℤ) (c : System.Conf Shared Thread) (out : List Event) (s : Shared) (ts : List Thread) :
    Prop where
  low : 0 ≤ s.tokens
  high : s.tokens ≤ burst
  conserved : s.tokens + admitted out = c.shared.tokens + added out
  added_le : added out ≤ refills out * refill burst
  refills_eq : refills out + underWay ts = ticks out + underWay c.threads
  single : ts.countP Thread.ticking ≤ 1

variable {c : System.Conf Shared Thread}

theorem Balance.turn (h : Balance burst c out s (l₁ ++ t :: l₂)) (hturn : Turn burst s t more s' ts) :
    Balance burst c (out ++ more) s' (l₁ ++ ts ++ l₂) := by
  have hadmitted : admitted (out ++ more) = admitted out + admitted more := List.countP_append
  have hrefills : refills (out ++ more) = refills out + refills more := List.countP_append
  have hticks : ticks (out ++ more) = ticks out + ticks more := List.countP_append
  have hadded : added (out ++ more) = added out + added more := by
    unfold added
    rw [List.map_append, List.sum_append]
  have hunderWay := System.countP_replace Thread.refilling t l₁ ts l₂
  have hticking := System.countP_replace Thread.ticking t l₁ ts l₂
  have hconserved := h.conserved
  have hturnConserved := hturn.conserved
  have hrefillsEq := h.refills_eq
  have hturnRefills := hturn.refills_eq
  have hsingle := h.single
  have hturnSingle := hturn.single
  refine ⟨hturn.low, hturn.high, ?_, ?_, ?_, ?_⟩
  · rw [hadmitted, hadded]
    push_cast
    omega
  · rw [hadded, hrefills]
    push_cast
    rw [add_mul]
    exact add_le_add h.added_le hturn.added_le
  · rw [hrefills, hticks]
    unfold underWay at *
    omega
  · omega

theorem records_balance (hmin : 1 ≤ burst) (hfits : burst + max 1 (burst / 10) < 2 ^ 63)
    (c : System.Conf Shared Thread) : (system burst).Records (Balance burst c) where
  arrive := by
    intro out s ts call h
    have hquiet : ((system burst).arrive call).refilling = false ∧ ((system burst).arrive call).ticking = false := by
      cases call <;> exact ⟨rfl, rfl⟩
    refine ⟨h.low, h.high, h.conserved, h.added_le, ?_, ?_⟩
    · rw [underWay, List.countP_append, List.countP_singleton, hquiet.1]
      exact h.refills_eq
    · rw [List.countP_append, List.countP_singleton, hquiet.2]
      exact h.single
  step h := h.turn (turn_step hmin hfits h.low h.high _ _)

end Turn

structure Conserves (burst : ℤ) (c c' : System.Conf Shared Thread) (out : List Event) : Prop where
  low : 0 ≤ c'.shared.tokens
  high : c'.shared.tokens ≤ burst
  /-- Every request that is admitted takes one token, and only refills put any back. -/
  conserved : c'.shared.tokens + admitted out = c.shared.tokens + added out
  bounded : (admitted out : ℤ) ≤ burst + refills out * max 1 (burst / 10)
  /-- A refill in the window has its tick there, unless it is the one under way at the beginning. -/
  ticked : refills out ≤ ticks out + underWay c.threads
  underWay_le : underWay c.threads ≤ 1

def EveryWindow (burst : ℤ) (P : System.Conf Shared Thread → System.Conf Shared Thread → List Event → Prop) : Prop :=
  ∀ before window : List (System.Move Call Bool),
    let c := (system burst).machine.run (start burst) before
    P c ((system burst).machine.run c window) ((system burst).machine.outputs c window).flatten

theorem balance_self {c : System.Conf Shared Thread} (hlow : 0 ≤ c.shared.tokens) (hhigh : c.shared.tokens ≤ burst)
    (hsingle : c.threads.countP Thread.ticking ≤ 1) : Balance burst c [] c.shared c.threads := by
  refine ⟨hlow, hhigh, rfl, ?_, rfl, hsingle⟩
  change (0 : ℤ) ≤ ((0 : ℕ) : ℤ) * refill burst
  rw [Nat.cast_zero, zero_mul]

theorem everyWindow_of_fits (hmin : 1 ≤ burst) (hfits : burst + max 1 (burst / 10) < 2 ^ 63) :
    EveryWindow burst (Conserves burst) := by
  intro before window c
  have hfull : 0 ≤ (start burst).shared.tokens := (zero_le_one' ℤ).trans hmin
  have hstart := balance_self hfull (le_refl burst) (Nat.le_refl 1)
  have hbefore := (records_balance hmin hfits (start burst)).run hstart before
  have hself : Balance burst c [] c.shared c.threads := balance_self hbefore.low hbefore.high hbefore.single
  have hwindow := (records_balance hmin hfits c).run hself window
  rw [List.nil_append] at hwindow
  have hconserved := hwindow.conserved
  have hadded := hwindow.added_le
  have hlow := hwindow.low
  have hhigh : c.shared.tokens ≤ burst := hbefore.high
  have hrefills := hwindow.refills_eq
  refine ⟨hlow, hwindow.high, hconserved, ?_, ?_, ?_⟩
  · rw [← refill_eq hmin]
    omega
  · omega
  · exact (refilling_le_ticking c.threads).trans hbefore.single

-- A window that begins between a tick and its refill: the refill counts in it, and the tick does not.
example :
    let window : List (System.Move Call Bool) :=
      [.arrive (.serveHTTP {}), .run 1 false, .run 1 false, .run 0 false, .run 0 false, .arrive (.serveHTTP {}),
        .run 1 false, .run 1 false]
    let c := (system 1).machine.run (start 1) [.run 0 true]
    let out := ((system 1).machine.outputs c window).flatten
    admitted out = 2 ∧ refills out = 1 ∧ ticks out = 0 ∧ underWay c.threads = 1 := by
  decide +kernel

theorem tokens_first_refill (burst : ℤ) :
    ((system burst).machine.run (start burst) (List.replicate 3 (.run 0 true))).shared.tokens = next burst burst := by
  simp [List.replicate, Machine.run, System.machine, System.move, start, system, step]

theorem next_neg (hmin : 1 ≤ burst) (hmax : burst < 2 ^ 63) (hoverflow : 2 ^ 63 ≤ burst + max 1 (burst / 10)) :
    next burst burst < 0 := by
  have hrefill := refill_eq hmin
  have hwraps : int64 (burst + refill burst) = burst + refill burst - 2 ^ 64 := by
    unfold int64
    omega
  unfold next
  rw [hwraps]
  split_ifs <;> omega

/-- **The admin limiter.** However the loads and swaps of requests and of the goroutine that refills interleave, the
tokens stay between none and the burst, every request that is admitted takes exactly one, and in a window with `k`
refills at most `burst + k * max 1 (burst / 10)` requests are admitted, exactly if a refill of the full bucket does not
overflow. -/
theorem admin_tokens_conserved_iff {burst : ℤ} (hmin : 1 ≤ burst) (hmax : burst < 2 ^ 63) :
    EveryWindow burst (Conserves burst) ↔ burst + max 1 (burst / 10) < 2 ^ 63 := by
  constructor
  · intro hall
    by_contra hoverflow
    have hlow := (hall (List.replicate 3 (.run 0 true)) []).low
    have htokens := tokens_first_refill burst
    have hneg := next_neg hmin hmax (not_lt.mp hoverflow)
    rw [← htokens] at hneg
    exact absurd hlow hneg.not_ge
  · intro hfits
    exact everyWindow_of_fits hmin hfits

theorem admin_tokens_conserved_hundred :
    (100 + max 1 (100 / 10) : ℤ) = 110 ∧ EveryWindow 100 (Conserves 100) :=
  ⟨by decide, (admin_tokens_conserved_iff (by decide) (by decide)).mpr (by decide)⟩

theorem admin_tokens_overflow :
    ((system (2 ^ 63 - 1)).machine.run (start (2 ^ 63 - 1)) (List.replicate 3 (.run 0 true))).shared.tokens =
        -8301034833169298229 ∧
      ¬EveryWindow (2 ^ 63 - 1) (Conserves (2 ^ 63 - 1)) := by
  have htokens : ((system (2 ^ 63 - 1)).machine.run (start (2 ^ 63 - 1)) (List.replicate 3 (.run 0 true))).shared.tokens =
      -8301034833169298229 := by decide +kernel
  refine ⟨htokens, ?_⟩
  intro hall
  have hlow := (hall (List.replicate 3 (.run 0 true)) []).low
  change 0 ≤ ((system (2 ^ 63 - 1)).machine.run (start (2 ^ 63 - 1)) (List.replicate 3 (.run 0 true))).shared.tokens
    at hlow
  rw [htokens] at hlow
  exact absurd hlow (by decide)

end EdgeQuota.Server.AdminLimiter
