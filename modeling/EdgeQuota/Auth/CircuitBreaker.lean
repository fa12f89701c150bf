import EdgeQuota.Auth.Check
import EdgeQuota.Lib.Breaker
import EdgeQuota.Lib.Machine

/-! The circuit breaker in front of the authentication service, and calls of `Check` one after another. Times and
durations are in nanoseconds. -/

namespace EdgeQuota.Auth
open Lib

structure CircuitBreaker where
  failures : ℕ := 0
  open_ : Bool := false
  openUntil : ℤ := 0
  threshold : ℕ
  resetTimeout : ℤ
  threshold_pos : 0 < threshold
  resetTimeout_pos : 0 < resetTimeout

def defaultAuthCBThreshold : ℕ := 5

def defaultAuthCBResetTimeout : ℤ := 30 * 1000000000

def newCircuitBreaker (threshold resetTimeout : ℤ) : CircuitBreaker where
  threshold := if threshold ≤ 0 then defaultAuthCBThreshold else threshold.toNat
  resetTimeout := if resetTimeout ≤ 0 then defaultAuthCBResetTimeout else resetTimeout
  threshold_pos := by
    split_ifs
    · decide
    · omega
  resetTimeout_pos := by
    split_ifs
    · decide
    · omega

namespace CircuitBreaker

def isOpen (cb : CircuitBreaker) (now : ℤ) : Bool := cb.open_ && decide (now < cb.openUntil)

def recordFailure (cb : CircuitBreaker) (now : ℤ) : CircuitBreaker :=
  let cb := { cb with failures := cb.failures + 1 }
  if cb.threshold ≤ cb.failures then { cb with open_ := true, openUntil := now + cb.resetTimeout } else cb

def recordSuccess (cb : CircuitBreaker) : CircuitBreaker := { cb with failures := 0, open_ := false }

end CircuitBreaker

inductive Code where
  | ok
  | canceled
  | unknown
  | invalidArgument
  | deadlineExceeded
  | notFound
  | alreadyExists
  | permissionDenied
  | resourceExhausted
  | failedPrecondition
  | aborted
  | outOfRange
  | unimplemented
  | internal
  | unavailable
  | dataLoss
  | unauthenticated
  deriving DecidableEq

structure CheckError where
  contextCanceled : Bool := false
  code : Code := .unknown
  deriving DecidableEq

def CheckError.isCanceled (e : CheckError) : Bool := e.contextCanceled || decide (e.code = .canceled)

inductive CheckFailure where
  | circuitOpen
  | service (e : CheckError)
  deriving DecidableEq

structure CheckCall where
  started : ℤ
  answer : Except CheckError CheckResponse
  finished : ℤ

def CheckCall.Canceled (c : CheckCall) : Prop := ∃ e : CheckError, c.answer = .error e ∧ e.isCanceled = true

namespace CircuitBreaker

def settle (cb : CircuitBreaker) (answer : Except CheckError CheckResponse) (now : ℤ) : CircuitBreaker :=
  match answer with
  | .error e => if e.isCanceled then cb else cb.recordFailure now
  | .ok _ => cb.recordSuccess

def check (cb : CircuitBreaker) (c : CheckCall) : Except CheckFailure CheckResponse × CircuitBreaker :=
  if cb.isOpen c.started then (.error .circuitOpen, cb)
  else (c.answer.mapError .service, cb.settle c.answer c.finished)

end CircuitBreaker

def checks : Machine CircuitBreaker CheckCall (Except CheckFailure CheckResponse) where
  step := CircuitBreaker.check

def CheckCall.outcome (c : CheckCall) : Except CheckFailure CheckResponse → Option (Outcome ℤ)
  | .ok _ => some .success
  | .error .circuitOpen => none
  | .error (.service e) => if e.isCanceled then none else some (.failure c.finished)

def recorded (cb : CircuitBreaker) (calls : List CheckCall) : List (Outcome ℤ) :=
  (calls.zip (checks.outputs cb calls)).filterMap fun p => p.1.outcome p.2

namespace CircuitBreaker
variable {cb : CircuitBreaker} {os : List (Outcome ℤ)}

def view (cb : CircuitBreaker) : Breaker ℤ := ⟨cb.failures, cb.open_, cb.openUntil⟩

def Keeps (cb : CircuitBreaker) (os : List (Outcome ℤ)) : Prop :=
  Breaker.Keeps cb.threshold cb.resetTimeout os cb.view

theorem keeps_new (threshold resetTimeout : ℤ) : (newCircuitBreaker threshold resetTimeout).Keeps [] :=
  Breaker.keeps_nil (newCircuitBreaker threshold resetTimeout).threshold_pos 0

theorem Keeps.recordSuccess (h : cb.Keeps os) : cb.recordSuccess.Keeps (os ++ [.success]) :=
  Breaker.Keeps.record cb.threshold_pos h .success

theorem recordFailure_limits (cb : CircuitBreaker) (now : ℤ) :
    (cb.recordFailure now).threshold = cb.threshold ∧ (cb.recordFailure now).resetTimeout = cb.resetTimeout := by
  unfold recordFailure
  simp only
  split_ifs <;> exact ⟨rfl, rfl⟩

theorem view_recordFailure (cb : CircuitBreaker) (now : ℤ) :
    (cb.recordFailure now).view = cb.view.record cb.threshold cb.resetTimeout (.failure now) := by
  by_cases hle : cb.threshold ≤ cb.failures + 1
  · simp [recordFailure, Breaker.record, view, hle]
  · simp [recordFailure, Breaker.record, view, hle]

theorem Keeps.recordFailure (h : cb.Keeps os) (now : ℤ) : (cb.recordFailure now).Keeps (os ++ [.failure now]) := by
  obtain ⟨hthreshold, htimeout⟩ := recordFailure_limits cb now
  unfold Keeps
  rw [hthreshold, htimeout, view_recordFailure]
  exact Breaker.Keeps.record cb.threshold_pos h (.failure now)

theorem Keeps.check (h : cb.Keeps os) (c : CheckCall) :
    (cb.check c).2.Keeps (os ++ (c.outcome (cb.check c).1).toList) := by
  unfold CircuitBreaker.check
  by_cases hopen : cb.isOpen c.started = true
  · rw [if_pos hopen]
    simpa [CheckCall.outcome] using h
  · rw [if_neg hopen]
    cases hanswer : c.answer with
    | ok resp => exact h.recordSuccess
    | error e =>
      by_cases hcanceled : e.isCanceled = true
      · simpa [Except.mapError, CheckCall.outcome, settle, hcanceled] using h
      · simpa [Except.mapError, CheckCall.outcome, settle, hcanceled] using h.recordFailure c.finished

theorem Keeps.checks (h : cb.Keeps os) (calls : List CheckCall) :
    (checks.run cb calls).Keeps (os ++ recorded cb calls) := by
  induction calls generalizing cb os with
  | nil => simpa [recorded, Machine.outputs, Machine.run] using h
  | cons c calls ih =>
    have hrest := ih (h.check c)
    rw [List.append_assoc] at hrest
    have hrecorded : recorded cb (c :: calls) =
        (c.outcome (cb.check c).1).toList ++ recorded (cb.check c).2 calls := by
      change List.filterMap _ ((c, (cb.check c).1) :: _) = _
      rw [List.filterMap_cons]
      cases c.outcome (cb.check c).1 <;> rfl
    rw [hrecorded]
    exact hrest

theorem check_limits (cb : CircuitBreaker) (c : CheckCall) :
    (cb.check c).2.threshold = cb.threshold ∧ (cb.check c).2.resetTimeout = cb.resetTimeout := by
  unfold CircuitBreaker.check settle
  split_ifs
  · exact ⟨rfl, rfl⟩
  · split
    · split_ifs
      · exact ⟨rfl, rfl⟩
      · exact recordFailure_limits cb c.finished
    · exact ⟨rfl, rfl⟩

theorem run_limits (cb : CircuitBreaker) (calls : List CheckCall) :
    (Auth.checks.run cb calls).threshold = cb.threshold ∧ (Auth.checks.run cb calls).resetTimeout = cb.resetTimeout := by
  induction calls generalizing cb with
  | nil => exact ⟨rfl, rfl⟩
  | cons c calls ih =>
    obtain ⟨hthreshold, htimeout⟩ := check_limits cb c
    obtain ⟨hrest, hrest'⟩ := ih (cb.check c).2
    exact ⟨hrest.trans hthreshold, hrest'.trans htimeout⟩

theorem check_eq_circuitOpen_iff (cb : CircuitBreaker) (c : CheckCall) :
    (cb.check c).1 = .error .circuitOpen ↔ cb.isOpen c.started = true := by
  unfold CircuitBreaker.check
  by_cases hopen : cb.isOpen c.started = true
  · rw [if_pos hopen]
    exact iff_of_true rfl hopen
  · rw [if_neg hopen]
    refine iff_of_false ?_ hopen
    intro hresult
    cases hanswer : c.answer with
    | ok resp =>
      rw [hanswer] at hresult
      cases hresult
    | error e =>
      rw [hanswer] at hresult
      cases hresult

end CircuitBreaker

/-- **When a call is short-circuited.** After any calls at any times: exactly if the latest outcomes on record, at
least as many as the threshold, are failures and the reset timeout has not passed since the last one. A call that
is canceled leaves the breaker as it is. -/
theorem short_circuited_iff (threshold resetTimeout : ℤ) (calls : List CheckCall) (call : CheckCall) :
    let cb := newCircuitBreaker threshold resetTimeout
    let now := checks.run cb calls
    ((checks.step now call).1 = .error .circuitOpen ↔
        Breaker.Blocked cb.threshold cb.resetTimeout (recorded cb calls) call.started) ∧
      (call.Canceled → (checks.step now call).2 = now) := by
  intro cb now
  have hkeeps : now.Keeps (recorded cb calls) := (CircuitBreaker.keeps_new threshold resetTimeout).checks calls
  obtain ⟨hthreshold, htimeout⟩ := CircuitBreaker.run_limits cb calls
  refine ⟨?_, ?_⟩
  · refine (CircuitBreaker.check_eq_circuitOpen_iff now call).trans ?_
    rw [← hthreshold, ← htimeout]
    exact Breaker.Keeps.blocks_iff hkeeps call.started
  · rintro ⟨e, hanswer, hcanceled⟩
    change (now.check call).2 = now
    unfold CircuitBreaker.check
    by_cases hopen : now.isOpen call.started = true
    · rw [if_pos hopen]
    · rw [if_neg hopen]
      simp only [CircuitBreaker.settle, hanswer, hcanceled, if_true]

end EdgeQuota.Auth
