import EdgeQuota.Auth.CircuitBreaker
import EdgeQuota.Lib.Threads

/-! Calls of `Check` at the same time. A call takes the lock of the breaker twice, to be admitted and to record what
came of it, and is at the service in between. -/

namespace EdgeQuota.Auth
open Lib

def CircuitBreaker.HalfOpen (cb : CircuitBreaker) (now : ℤ) : Prop := cb.open_ = true ∧ cb.openUntil ≤ now

instance (cb : CircuitBreaker) (now : ℤ) : Decidable (cb.HalfOpen now) := inferInstanceAs (Decidable (_ ∧ _))

/-- Beside the breaker, what has become of the probes, the calls that a half-open breaker has admitted: how many
there were, how many have recorded an outcome, and how many were canceled. -/
structure Probing where
  breaker : CircuitBreaker
  probes : ℕ := 0
  recorded : ℕ := 0
  canceled : ℕ := 0

inductive CheckThread where
  | entering
  | calling (probe : Bool)
  | recording (probe : Bool) (answer : Except CheckError CheckResponse)

def CheckThread.isProbe : CheckThread → Bool
  | .entering => false
  | .calling probe | .recording probe _ => probe

structure CheckTurn where
  now : ℤ
  answer : Except CheckError CheckResponse := .error {}

namespace Probing

def canceledAnswer : Except CheckError CheckResponse → Bool
  | .error e => e.isCanceled
  | .ok _ => false

def step (s : Probing) : CheckThread → CheckTurn → List (Except CheckFailure CheckResponse) × Probing × List CheckThread
  | .entering, a =>
    if s.breaker.isOpen a.now then ([.error .circuitOpen], s, [])
    else ([], { s with probes := s.probes + s.breaker.open_.toNat }, [.calling s.breaker.open_])
  | .calling probe, a => ([], s, [.recording probe a.answer])
  | .recording probe answer, a =>
    let s := { s with breaker := s.breaker.settle answer a.now }
    ([answer.mapError .service],
      if canceledAnswer answer then { s with canceled := s.canceled + probe.toNat }
      else { s with recorded := s.recorded + probe.toNat }, [])

def system : System Probing CheckThread Unit CheckTurn (Except CheckFailure CheckResponse) where
  arrive _ := .entering
  step := step

def starting (threshold resetTimeout : ℤ) : System.Conf Probing CheckThread :=
  ⟨⟨newCircuitBreaker threshold resetTimeout, 0, 0, 0⟩, []⟩

def Alone (s : Probing) (ts : List CheckThread) (t : CheckThread) (a : CheckTurn) : Prop :=
  match t with
  | .entering => s.breaker.HalfOpen a.now → s.canceled = 0 ∧ ts.countP CheckThread.isProbe = 0
  | .calling _ | .recording _ _ => True

instance (s : Probing) (ts : List CheckThread) (t : CheckThread) (a : CheckTurn) : Decidable (s.Alone ts t a) :=
  match t with
  | .entering => inferInstanceAs (Decidable (_ → _ ∧ _))
  | .calling _ | .recording _ _ => isTrue trivial

def Balanced (s : Probing) (ts : List CheckThread) : Prop :=
  s.probes = s.recorded + s.canceled + ts.countP CheckThread.isProbe

variable {s : Probing} {l₁ l₂ ts : List CheckThread} {t : CheckThread} {a : CheckTurn}

theorem isOpen_iff (cb : CircuitBreaker) (now : ℤ) : cb.isOpen now = false ↔ cb.open_ = false ∨ cb.HalfOpen now := by
  unfold CircuitBreaker.isOpen CircuitBreaker.HalfOpen
  cases cb.open_ <;> simp

theorem step_blocked (h : s.breaker.isOpen a.now = true) : s.step .entering a = ([.error .circuitOpen], s, []) :=
  if_pos h

theorem step_admitted (h : s.breaker.isOpen a.now = false) :
    s.step .entering a =
      ([], { s with probes := s.probes + s.breaker.open_.toNat }, [.calling s.breaker.open_]) :=
  if_neg (Bool.eq_false_iff.mp h)

theorem step_balance (s : Probing) (t : CheckThread) (a : CheckTurn) :
    (s.step t a).2.1.probes + (if t.isProbe then 1 else 0) + (s.recorded + s.canceled) =
      s.probes + ((s.step t a).2.1.recorded + (s.step t a).2.1.canceled) +
        (s.step t a).2.2.countP CheckThread.isProbe := by
  cases t with
  | entering =>
    cases hopen : s.breaker.isOpen a.now with
    | true =>
      rw [step_blocked hopen]
      rfl
    | false =>
      rw [step_admitted hopen]
      cases s.breaker.open_ <;> simp [CheckThread.isProbe]
      omega
  | calling probe =>
    cases probe <;> simp [step, CheckThread.isProbe]
    omega
  | recording probe answer =>
    simp only [step]
    cases probe <;> cases canceledAnswer answer <;> simp [CheckThread.isProbe] <;> omega

theorem keeps_balanced : system.Keeps (fun _ => True) (fun _ _ _ _ => True) Balanced where
  arrive := by
    intro s ts _ h _
    unfold Balanced
    rw [List.countP_append]
    exact h
  step := by
    intro s l₁ t l₂ a h _
    have hstep := step_balance s t a
    have hcount := System.countP_replace CheckThread.isProbe t l₁ (s.step t a).2.2 l₂
    unfold Balanced at h ⊢
    change (s.step t a).2.1.probes = (s.step t a).2.1.recorded + (s.step t a).2.1.canceled +
      (l₁ ++ (s.step t a).2.2 ++ l₂).countP CheckThread.isProbe
    omega

theorem single_step_iff (hbalanced : s.Balanced ts) (hsingle : s.probes ≤ s.recorded + 1) :
    (s.step t a).2.1.probes ≤ (s.step t a).2.1.recorded + 1 ↔ s.Alone ts t a := by
  cases t with
  | calling probe => exact iff_of_true hsingle trivial
  | recording probe answer =>
    refine iff_of_true ?_ trivial
    simp only [step]
    split_ifs
    · exact hsingle
    · exact hsingle.trans (Nat.succ_le_succ (Nat.le_add_right _ _))
  | entering =>
    cases hopen : s.breaker.isOpen a.now with
    | true =>
      have hclosed : ¬s.breaker.HalfOpen a.now := by
        intro hhalf
        rw [(isOpen_iff _ _).mpr (.inr hhalf)] at hopen
        cases hopen
      rw [step_blocked hopen]
      exact iff_of_true hsingle fun hhalf => absurd hhalf hclosed
    | false =>
      rw [step_admitted hopen]
      rcases (isOpen_iff s.breaker a.now).mp hopen with hflag | hhalf
      · refine iff_of_true ?_ fun hhalf => ?_
        · rw [hflag]
          exact hsingle
        · rw [hhalf.1] at hflag
          cases hflag
      · -- the admitted call is one more probe
        have hadmitted : s.breaker.open_.toNat = 1 := by rw [hhalf.1]; rfl
        unfold Balanced at hbalanced
        simp only [Alone, hhalf, true_imp_iff, hadmitted]
        omega

/-- **The half-open state.** However calls at the same time interleave: at every moment at most one probe has been
admitted beyond those that have recorded an outcome, exactly as long as each call that finds the breaker half-open
is alone: no probe is under way, and none has been canceled before. -/
theorem one_probe_iff (threshold resetTimeout : ℤ) (ms : List (System.Move Unit CheckTurn)) :
    (∀ done, done <+: ms →
        (system.machine.run (starting threshold resetTimeout) done).shared.probes ≤
          (system.machine.run (starting threshold resetTimeout) done).shared.recorded + 1) ↔
      system.machine.Along (System.Obeys (fun _ => True) Alone) (starting threshold resetTimeout) ms := by
  refine keeps_balanced.forall_run_iff (I := fun s _ => s.probes ≤ s.recorded + 1) (c := starting threshold resetTimeout)
    ?_ ?_ rfl (Nat.zero_le _)
  · exact fun hsingle => hsingle
  · intro s l₁ t l₂ a hbalanced hsingle
    exact single_step_iff hbalanced hsingle

/-- A failure opens the breaker; when its timeout has passed, two calls are at the service at once. Or the first is
canceled and the next is admitted without any outcome. -/
theorem two_probes_admitted :
    let failed : List (System.Move Unit CheckTurn) :=
      [.arrive (), .run 0 ⟨0, .error {}⟩, .run 0 ⟨0, .error {}⟩, .run 0 ⟨0, .error {}⟩]
    let probes (ms : List (System.Move Unit CheckTurn)) :=
      let s := (system.machine.run (starting 1 100) (failed ++ ms)).shared
      (s.probes, s.recorded)
    probes [.arrive (), .arrive (), .run 0 ⟨100, .error {}⟩, .run 1 ⟨100, .error {}⟩] = (2, 0) ∧
      probes [.arrive (), .run 0 ⟨100, .error {}⟩, .run 0 ⟨110, .error { contextCanceled := true }⟩,
        .run 0 ⟨110, .error {}⟩, .arrive (), .run 0 ⟨120, .error {}⟩] = (2, 0) := by
  decide +kernel

end Probing
end EdgeQuota.Auth
