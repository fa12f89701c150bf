import EdgeQuota.Go.Time
import EdgeQuota.Lib.Machine
import Mathlib.Data.List.AList

/-! The circuit breakers of the external rate-limit client, one for each lookup key as long as there is room. Beyond
that all keys share one breaker, a variable of the package. Times are in nanoseconds. -/

namespace EdgeQuota.RateLimit
open Go Lib

structure TenantCircuitBreaker where
  failures : ℕ := 0
  lastFailure : ℤ := 0
  open_ : Bool := false
  openUntil : ℤ := 0
  lastAccess : ℤ := 0
  threshold : ℕ
  resetTimeout : ℤ

def closedBreakerStub : TenantCircuitBreaker where
  threshold := 2 ^ 31 - 1
  resetTimeout := 3600 * 1000000000

def newTenantCB (threshold : ℕ) (resetTimeout now : ℤ) : TenantCircuitBreaker where
  threshold := threshold
  resetTimeout := resetTimeout
  lastAccess := now

namespace TenantCircuitBreaker

def blocks (cb : TenantCircuitBreaker) (now : ℤ) : Bool := cb.open_ && decide (now < cb.openUntil)

def isOpen (cb : TenantCircuitBreaker) (now : ℤ) : Bool × TenantCircuitBreaker :=
  (cb.blocks now, { cb with lastAccess := now })

def recordFailure (cb : TenantCircuitBreaker) (now : ℤ) : TenantCircuitBreaker :=
  let cb := { cb with failures := cb.failures + 1, lastFailure := now, lastAccess := now }
  if cb.threshold ≤ cb.failures then { cb with open_ := true, openUntil := now + cb.resetTimeout } else cb

def recordSuccess (cb : TenantCircuitBreaker) (now : ℤ) : TenantCircuitBreaker :=
  { cb with failures := 0, open_ := false, lastAccess := now }

def isStale (cb : TenantCircuitBreaker) (now maxIdle : ℤ) : Bool := decide (maxIdle < now - cb.lastAccess)

end TenantCircuitBreaker

structure TenantBreakers where
  breakers : AList fun _ : GoString => TenantCircuitBreaker
  breakerCount : ℕ
  maxBreakers : ℕ
  cbThreshold : ℕ
  cbResetTimeout : ℤ
  closedBreakerStub : TenantCircuitBreaker

def defaultCBThreshold : ℕ := 5

def defaultCBResetTimeout : ℤ := 30 * 1000000000

def defaultMaxCircuitBreakers : ℕ := 10000

def resolveCBThreshold (configured : ℤ) : ℕ := if 0 < configured then configured.toNat else defaultCBThreshold

def resolveCBResetTimeout (configured : GoString) : ℤ :=
  if configured = [] then defaultCBResetTimeout
  else
    match Time.parseDuration configured with
    | .ok d => if 0 < d then d else defaultCBResetTimeout
    | .error _ => defaultCBResetTimeout

structure CircuitBreakerConfig where
  threshold : ℤ := 0
  resetTimeout : GoString := []
  maxCircuitBreakers : ℤ := 0

def newTenantBreakers (cfg : CircuitBreakerConfig) : TenantBreakers where
  breakers := ∅
  breakerCount := 0
  maxBreakers := if cfg.maxCircuitBreakers ≤ 0 then defaultMaxCircuitBreakers else cfg.maxCircuitBreakers.toNat
  cbThreshold := resolveCBThreshold cfg.threshold
  cbResetTimeout := resolveCBResetTimeout cfg.resetTimeout
  closedBreakerStub := RateLimit.closedBreakerStub

namespace TenantBreakers

def getOrCreateCB (s : TenantBreakers) (key : GoString) (now : ℤ) :
    TenantCircuitBreaker × (TenantCircuitBreaker → TenantBreakers) :=
  match s.breakers.lookup key with
  | some cb => (cb, fun cb => { s with breakers := s.breakers.insert key cb })
  | none =>
    if s.maxBreakers ≤ s.breakerCount then (s.closedBreakerStub, fun cb => { s with closedBreakerStub := cb })
    else
      (newTenantCB s.cbThreshold s.cbResetTimeout now, fun cb =>
        { s with breakers := s.breakers.insert key cb, breakerCount := s.breakerCount + 1 })

def isCircuitOpen (s : TenantBreakers) (key : GoString) (now : ℤ) : Bool × TenantBreakers :=
  let (cb, put) := s.getOrCreateCB key now
  let (open_, cb) := cb.isOpen now
  (open_, put cb)

def recordFailure (s : TenantBreakers) (key : GoString) (now : ℤ) : TenantBreakers :=
  let (cb, put) := s.getOrCreateCB key now
  put (cb.recordFailure now)

def recordSuccess (s : TenantBreakers) (key : GoString) (now : ℤ) : TenantBreakers :=
  let (cb, put) := s.getOrCreateCB key now
  put (cb.recordSuccess now)

def evictStaleBreakers (s : TenantBreakers) (now : ℤ) : TenantBreakers :=
  let maxIdle := int64 (2 * s.cbResetTimeout)
  s.breakers.keys.foldl (fun s key =>
    match s.breakers.lookup key with
    | none => s
    | some cb =>
      if cb.isStale now maxIdle then
        { s with breakers := s.breakers.erase key, breakerCount := s.breakerCount - 1 }
      else s) s

end TenantBreakers

inductive BreakerOp where
  | isCircuitOpen (key : GoString) (now : ℤ)
  | recordFailure (key : GoString) (now : ℤ)
  | recordSuccess (key : GoString) (now : ℤ)
  | evictStaleBreakers (now : ℤ)

def BreakerOp.recordsFor : BreakerOp → Option GoString
  | .recordFailure key _ | .recordSuccess key _ => some key
  | .isCircuitOpen _ _ | .evictStaleBreakers _ => none

def breakerOps : Machine TenantBreakers BreakerOp (Option Bool) where
  step s
    | .isCircuitOpen key now => (some (s.isCircuitOpen key now).1, (s.isCircuitOpen key now).2)
    | .recordFailure key now => (none, s.recordFailure key now)
    | .recordSuccess key now => (none, s.recordSuccess key now)
    | .evictStaleBreakers now => (none, s.evictStaleBreakers now)

namespace TenantBreakers
variable {s : TenantBreakers} {key key' : GoString} {now t : ℤ}

def Crowded (s : TenantBreakers) (key : GoString) : Prop :=
  s.breakers.lookup key = none ∧ s.maxBreakers ≤ s.breakerCount

instance (s : TenantBreakers) (key : GoString) : Decidable (s.Crowded key) :=
  inferInstanceAs (Decidable (_ = none ∧ _))

theorem getOrCreateCB_crowded (h : s.Crowded key) :
    s.getOrCreateCB key now = (s.closedBreakerStub, fun cb => { s with closedBreakerStub := cb }) := by
  unfold getOrCreateCB
  rw [h.1]
  exact if_pos h.2

theorem getOrCreateCB_own (h : ¬s.Crowded key) (cb : TenantCircuitBreaker) :
    ((s.getOrCreateCB key now).2 cb).breakers = s.breakers.insert key cb ∧
      ((s.getOrCreateCB key now).2 cb).closedBreakerStub = s.closedBreakerStub := by
  unfold getOrCreateCB
  cases hkey : s.breakers.lookup key with
  | some cb' => exact ⟨rfl, rfl⟩
  | none =>
    have hroom : ¬s.maxBreakers ≤ s.breakerCount := fun hfull => h ⟨hkey, hfull⟩
    simp only [if_neg hroom, and_self]

theorem lookup_put (hne : key' ≠ key) (cb : TenantCircuitBreaker) :
    ((s.getOrCreateCB key now).2 cb).breakers.lookup key' = s.breakers.lookup key' := by
  by_cases h : s.Crowded key
  · rw [getOrCreateCB_crowded h]
  · rw [(getOrCreateCB_own h cb).1, AList.lookup_insert_ne hne]

theorem stub_update (f : TenantCircuitBreaker → TenantCircuitBreaker) :
    ((s.getOrCreateCB key now).2 (f (s.getOrCreateCB key now).1)).closedBreakerStub =
      if s.Crowded key then f s.closedBreakerStub else s.closedBreakerStub := by
  by_cases h : s.Crowded key
  · rw [getOrCreateCB_crowded h, if_pos h]
  · rw [(getOrCreateCB_own h _).2, if_neg h]

theorem getOrCreateCB_put (cb : TenantCircuitBreaker) (t : ℤ) :
    (((s.getOrCreateCB key now).2 cb).getOrCreateCB key t).1 = cb := by
  by_cases h : s.Crowded key
  · have hput : ({ s with closedBreakerStub := cb } : TenantBreakers).Crowded key := h
    rw [getOrCreateCB_crowded h, getOrCreateCB_crowded hput]
  · have hlookup : ((s.getOrCreateCB key now).2 cb).breakers.lookup key = some cb := by
      rw [(getOrCreateCB_own h cb).1, AList.lookup_insert]
    unfold getOrCreateCB at hlookup ⊢
    rw [hlookup]

theorem getOrCreateCB_at (s : TenantBreakers) (key : GoString) (now t : ℤ) :
    (s.getOrCreateCB key t).1 =
      { (s.getOrCreateCB key now).1 with lastAccess := (s.getOrCreateCB key t).1.lastAccess } := by
  unfold getOrCreateCB
  cases s.breakers.lookup key with
  | some cb => rfl
  | none => split_ifs <;> rfl

def breaker (s : TenantBreakers) (key : GoString) : TenantCircuitBreaker := (s.getOrCreateCB key 0).1

theorem getOrCreateCB_eq (s : TenantBreakers) (key : GoString) (now : ℤ) :
    (s.getOrCreateCB key now).1 =
      { s.breaker key with lastAccess := (s.getOrCreateCB key now).1.lastAccess } := getOrCreateCB_at s key 0 now

theorem breaker_put (cb : TenantCircuitBreaker) : ((s.getOrCreateCB key now).2 cb).breaker key = cb :=
  getOrCreateCB_put cb 0

theorem isCircuitOpen_blocks (s : TenantBreakers) (key : GoString) (now : ℤ) :
    (s.isCircuitOpen key now).1 = (s.breaker key).blocks now := by
  change (s.getOrCreateCB key now).1.blocks now = _
  rw [getOrCreateCB_eq]
  rfl

theorem breaker_isCircuitOpen (s : TenantBreakers) (key : GoString) (now : ℤ) :
    (s.isCircuitOpen key now).2.breaker key = { s.breaker key with lastAccess := now } := by
  have hput : (s.isCircuitOpen key now).2.breaker key = ((s.getOrCreateCB key now).1.isOpen now).2 := breaker_put _
  rw [hput, getOrCreateCB_eq]
  rfl

-- what is recorded overwrites the last access
theorem breaker_recordFailure (s : TenantBreakers) (key : GoString) (now : ℤ) :
    (s.recordFailure key now).breaker key = (s.breaker key).recordFailure now := by
  have hput : (s.recordFailure key now).breaker key = (s.getOrCreateCB key now).1.recordFailure now := breaker_put _
  rw [hput, getOrCreateCB_eq]
  rfl

theorem breaker_recordSuccess (s : TenantBreakers) (key : GoString) (now : ℤ) :
    (s.recordSuccess key now).breaker key = (s.breaker key).recordSuccess now := by
  have hput : (s.recordSuccess key now).breaker key = (s.getOrCreateCB key now).1.recordSuccess now := breaker_put _
  rw [hput, getOrCreateCB_eq]
  rfl

theorem isCircuitOpen_eq (hclosed : s.closedBreakerStub.open_ = false) :
    (s.isCircuitOpen key t).1 = (s.breakers.lookup key).any (·.blocks t) := by
  unfold isCircuitOpen getOrCreateCB
  cases hkey : s.breakers.lookup key with
  | some cb => rfl
  | none =>
    by_cases hfull : s.maxBreakers ≤ s.breakerCount
    · simp [hfull, TenantCircuitBreaker.isOpen, TenantCircuitBreaker.blocks, hclosed]
    · simp [hfull, TenantCircuitBreaker.isOpen, TenantCircuitBreaker.blocks, newTenantCB]

theorem stub_evictStaleBreakers (s : TenantBreakers) (now : ℤ) :
    (s.evictStaleBreakers now).closedBreakerStub = s.closedBreakerStub := by
  unfold evictStaleBreakers
  generalize s.breakers.keys = keys
  generalize int64 (2 * s.cbResetTimeout) = maxIdle
  induction keys generalizing s with
  | nil => rfl
  | cons key keys ih =>
    rw [List.foldl_cons, ih]
    split
    · rfl
    · split_ifs <;> rfl

end TenantBreakers

section Isolation
variable {s : TenantBreakers} {op : BreakerOp} {key key' : GoString}

def Isolated (s : TenantBreakers) (op : BreakerOp) : Prop :=
  ∀ key ∈ op.recordsFor, ∀ key', key' ≠ key → ∀ t,
    ((breakerOps.step s op).2.isCircuitOpen key' t).1 = (s.isCircuitOpen key' t).1

def Below (s : TenantBreakers) : BreakerOp → Prop
  | .recordFailure key _ => s.Crowded key → s.closedBreakerStub.failures + 1 < closedBreakerStub.threshold
  | .isCircuitOpen _ _ | .recordSuccess _ _ | .evictStaleBreakers _ => True

theorem lookup_step (hkey : key ∈ op.recordsFor) (hne : key' ≠ key) :
    (breakerOps.step s op).2.breakers.lookup key' = s.breakers.lookup key' := by
  cases op with
  | recordFailure k now =>
    obtain rfl := Option.some.inj hkey
    exact TenantBreakers.lookup_put hne _
  | recordSuccess k now =>
    obtain rfl := Option.some.inj hkey
    exact TenantBreakers.lookup_put hne _
  | isCircuitOpen k now => cases hkey
  | evictStaleBreakers now => cases hkey

theorem recordFailure_of_reaches {cb : TenantCircuitBreaker} (h : cb.threshold ≤ cb.failures + 1) (now : ℤ) :
    cb.recordFailure now =
      { cb with failures := cb.failures + 1, lastFailure := now, lastAccess := now, open_ := true
                openUntil := now + cb.resetTimeout } := if_pos h

theorem recordFailure_of_below {cb : TenantCircuitBreaker} (h : ¬cb.threshold ≤ cb.failures + 1) (now : ℤ) :
    cb.recordFailure now = { cb with failures := cb.failures + 1, lastFailure := now, lastAccess := now } := if_neg h

theorem recordFailure_counts (cb : TenantCircuitBreaker) (now : ℤ) :
    (cb.recordFailure now).failures = cb.failures + 1 ∧ (cb.recordFailure now).threshold = cb.threshold ∧
      (cb.recordFailure now).resetTimeout = cb.resetTimeout := by
  by_cases h : cb.threshold ≤ cb.failures + 1
  · rw [recordFailure_of_reaches h]
    exact ⟨rfl, rfl, rfl⟩
  · rw [recordFailure_of_below h]
    exact ⟨rfl, rfl, rfl⟩

theorem threshold_stub_step (s : TenantBreakers) (op : BreakerOp) :
    (breakerOps.step s op).2.closedBreakerStub.threshold = s.closedBreakerStub.threshold := by
  cases op with
  | evictStaleBreakers now => exact congrArg _ (TenantBreakers.stub_evictStaleBreakers s now)
  | isCircuitOpen key now =>
    refine (congrArg _ (TenantBreakers.stub_update fun cb => (cb.isOpen now).2)).trans ?_
    split_ifs <;> rfl
  | recordSuccess key now =>
    refine (congrArg _ (TenantBreakers.stub_update fun cb => cb.recordSuccess now)).trans ?_
    split_ifs <;> rfl
  | recordFailure key now =>
    refine (congrArg _ (TenantBreakers.stub_update fun cb => cb.recordFailure now)).trans ?_
    split_ifs
    · exact (recordFailure_counts ..).2.1
    · rfl

theorem open_recordFailure (cb : TenantCircuitBreaker) (now : ℤ) :
    (cb.recordFailure now).open_ = true ↔ cb.open_ = true ∨ cb.threshold ≤ cb.failures + 1 := by
  unfold TenantCircuitBreaker.recordFailure
  simp only
  split_ifs with hle
  · exact iff_of_true rfl (.inr hle)
  · exact (or_iff_left hle).symm

theorem open_recordFailure_iff {cb : TenantCircuitBreaker} (hclosed : cb.open_ = false) (now : ℤ) :
    (cb.recordFailure now).open_ = false ↔ cb.failures + 1 < cb.threshold := by
  rw [← Bool.not_eq_true, open_recordFailure, hclosed]
  simp

theorem stub_closed_step_iff (hthreshold : s.closedBreakerStub.threshold = closedBreakerStub.threshold)
    (hclosed : s.closedBreakerStub.open_ = false) :
    (breakerOps.step s op).2.closedBreakerStub.open_ = false ↔ Below s op := by
  cases op with
  | evictStaleBreakers now =>
    refine iff_of_true ?_ trivial
    exact (congrArg _ (TenantBreakers.stub_evictStaleBreakers s now)).trans hclosed
  | isCircuitOpen key now =>
    refine iff_of_true ?_ trivial
    refine (congrArg _ (TenantBreakers.stub_update fun cb => (cb.isOpen now).2)).trans ?_
    split_ifs
    · exact hclosed
    · exact hclosed
  | recordSuccess key now =>
    refine iff_of_true ?_ trivial
    refine (congrArg _ (TenantBreakers.stub_update fun cb => cb.recordSuccess now)).trans ?_
    split_ifs
    · rfl
    · exact hclosed
  | recordFailure key now =>
    have hstub : (breakerOps.step s (.recordFailure key now)).2.closedBreakerStub = _ :=
      TenantBreakers.stub_update fun cb => cb.recordFailure now
    rw [hstub]
    simp only [Below]
    split_ifs with h
    · rw [open_recordFailure_iff hclosed, hthreshold]
      exact ⟨fun hlt _ => hlt, fun hbelow => hbelow h⟩
    · exact iff_of_true hclosed fun hcrowded => absurd hcrowded h

theorem isolated_of_below (hthreshold : s.closedBreakerStub.threshold = closedBreakerStub.threshold)
    (hclosed : s.closedBreakerStub.open_ = false) (h : Below s op) : Isolated s op := by
  intro key hkey key' hne t
  rw [TenantBreakers.isCircuitOpen_eq ((stub_closed_step_iff hthreshold hclosed).mpr h),
    TenantBreakers.isCircuitOpen_eq hclosed, lookup_step hkey hne]

/-- **Isolation of the breakers.** No outcome recorded for one key touches the breaker of another. Over any
operations on any keys, no outcome changes what is reported for another key and the shared breaker stays closed,
exactly as long as the failures in a row that fall to the shared breaker are fewer than `2 ^ 31 - 1`. -/
theorem breakers_isolated_iff (cfg : CircuitBreakerConfig) (ops : List BreakerOp) :
    (∀ s op, ∀ key ∈ op.recordsFor, ∀ key', key' ≠ key →
        (breakerOps.step s op).2.breakers.lookup key' = s.breakers.lookup key') ∧
      ((breakerOps.Along Isolated (newTenantBreakers cfg) ops ∧
          ∀ done, done <+: ops →
            (breakerOps.run (newTenantBreakers cfg) done).closedBreakerStub.open_ = false) ↔
        breakerOps.Along Below (newTenantBreakers cfg) ops) := by
  refine ⟨fun s op key hkey key' hne => lookup_step hkey hne, ?_⟩
  have hclosed_iff : (∀ done, done <+: ops →
      (breakerOps.run (newTenantBreakers cfg) done).closedBreakerStub.open_ = false) ↔
        breakerOps.Along Below (newTenantBreakers cfg) ops :=
    Machine.forall_run_iff_along (M := breakerOps) (I := fun s => s.closedBreakerStub.open_ = false)
      (K := fun s _ => s.closedBreakerStub.threshold = closedBreakerStub.threshold)
      (fun s op _ hthreshold => (threshold_stub_step s op).trans hthreshold)
      (fun s op _ hthreshold hclosed => stub_closed_step_iff hthreshold hclosed) rfl rfl
  rw [hclosed_iff]
  refine ⟨fun h => h.2, fun hbelow => ⟨?_, hbelow⟩⟩
  refine Machine.Along.of_invariant (P := Below)
    (I := fun s => s.closedBreakerStub.threshold = closedBreakerStub.threshold ∧ s.closedBreakerStub.open_ = false)
    ?_ ⟨rfl, rfl⟩ hbelow
  rintro s op ⟨hthreshold, hclosed⟩ h
  refine ⟨isolated_of_below hthreshold hclosed h, ?_⟩
  exact ⟨(threshold_stub_step s op).trans hthreshold, (stub_closed_step_iff hthreshold hclosed).mpr h⟩

end Isolation

theorem run_recordFailure_crowded {s : TenantBreakers} {key : GoString} {now : ℤ} (h : s.Crowded key) (n : ℕ) :
    (breakerOps.run s (List.replicate n (.recordFailure key now))) =
      { s with closedBreakerStub := (fun cb => TenantCircuitBreaker.recordFailure cb now)^[n] s.closedBreakerStub } := by
  induction n generalizing s with
  | zero => rfl
  | succ n ih =>
    have hstep : s.recordFailure key now = { s with closedBreakerStub := s.closedBreakerStub.recordFailure now } := by
      unfold TenantBreakers.recordFailure
      rw [TenantBreakers.getOrCreateCB_crowded h]
    rw [List.replicate_succ, Function.iterate_succ_apply]
    change breakerOps.run (s.recordFailure key now) _ = _
    rw [hstep]
    exact ih (s := { s with closedBreakerStub := s.closedBreakerStub.recordFailure now }) h

theorem iterate_recordFailure (cb : TenantCircuitBreaker) (now : ℤ) (n : ℕ) :
    ((fun cb => TenantCircuitBreaker.recordFailure cb now)^[n] cb).failures = cb.failures + n ∧
      ((fun cb => TenantCircuitBreaker.recordFailure cb now)^[n] cb).threshold = cb.threshold ∧
      ((fun cb => TenantCircuitBreaker.recordFailure cb now)^[n] cb).resetTimeout = cb.resetTimeout := by
  induction n with
  | zero => exact ⟨rfl, rfl, rfl⟩
  | succ n ih =>
    obtain ⟨hfailures, hthreshold, htimeout⟩ := ih
    rw [Function.iterate_succ_apply']
    obtain ⟨hnext, hthreshold', htimeout'⟩ := recordFailure_counts _ now
    refine ⟨?_, hthreshold'.trans hthreshold, htimeout'.trans htimeout⟩
    rw [hnext, hfailures, Nat.add_assoc]

theorem blocks_recordFailure {cb : TenantCircuitBreaker} (h : cb.threshold ≤ cb.failures + 1)
    (htimeout : 0 < cb.resetTimeout) (now : ℤ) : (cb.recordFailure now).blocks now = true := by
  simp [TenantCircuitBreaker.recordFailure, TenantCircuitBreaker.blocks, h, htimeout]

theorem isCircuitOpen_after_failures {s : TenantBreakers} {key key' : GoString} {n : ℕ} {now : ℤ}
    (hkey : s.Crowded key) (hkey' : s.Crowded key') (hpos : 0 < n)
    (hn : s.closedBreakerStub.threshold ≤ s.closedBreakerStub.failures + n)
    (htimeout : 0 < s.closedBreakerStub.resetTimeout) :
    ((breakerOps.run s (List.replicate n (.recordFailure key now))).isCircuitOpen key' now).1 = true := by
  obtain ⟨m, rfl⟩ : ∃ m, n = m + 1 := ⟨n - 1, by omega⟩
  obtain ⟨hfailures, hthreshold, hreset⟩ := iterate_recordFailure s.closedBreakerStub now m
  rw [run_recordFailure_crowded hkey, Function.iterate_succ_apply']
  generalize (fun cb => TenantCircuitBreaker.recordFailure cb now)^[m] s.closedBreakerStub = cb at *
  have hcrowded : TenantBreakers.Crowded { s with closedBreakerStub := cb.recordFailure now } key' := hkey'
  unfold TenantBreakers.isCircuitOpen
  rw [TenantBreakers.getOrCreateCB_crowded hcrowded]
  refine blocks_recordFailure ?_ ?_ now
  · rw [hfailures, hthreshold]
    exact hn
  · rw [hreset]
    exact htimeout

def oneBreaker : TenantBreakers :=
  breakerOps.run (newTenantBreakers { maxCircuitBreakers := 1 }) [.isCircuitOpen (str "a") 0]

theorem shared_breaker_opens :
    (oneBreaker.isCircuitOpen (str "c") 0).1 = false ∧
      ((breakerOps.run oneBreaker (List.replicate (2 ^ 31 - 1) (.recordFailure (str "b") 0))).isCircuitOpen
        (str "c") 0).1 = true := by
  have hb : oneBreaker.Crowded (str "b") := by decide +kernel
  have hc : oneBreaker.Crowded (str "c") := by decide +kernel
  have hstub : oneBreaker.closedBreakerStub = closedBreakerStub := by
    unfold oneBreaker
    rfl
  refine ⟨by decide +kernel, isCircuitOpen_after_failures hb hc (by norm_num) ?_ ?_⟩
  · rw [hstub]
    exact Nat.le_add_left _ _
  · rw [hstub]
    decide

end EdgeQuota.RateLimit
