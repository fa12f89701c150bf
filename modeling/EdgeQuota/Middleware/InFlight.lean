import EdgeQuota.Lib.Ledger
import EdgeQuota.Middleware.Chain

/-! What requests share on their way through `ServeHTTP`: the slots of the concurrency limit and the gauges. Every access is
a turn of its own, and any number of requests are under way. A handler may panic: behind the limit a deferred function
cleans up all the same, in front of it, where preflights are let by, only the gauge of all requests is. -/

namespace EdgeQuota.Middleware.InFlight
open Go Lib

structure Weighted where
  size : ℤ
  cur : ℤ

def Weighted.tryAcquire (sem : Weighted) : Option Weighted :=
  if 1 ≤ sem.size - sem.cur then some { sem with cur := sem.cur + 1 } else none

def Weighted.release (sem : Weighted) : Weighted := { sem with cur := sem.cur - 1 }

inductive StreamingProtocol where
  | sse
  | websocket
  | grpc
  deriving DecidableEq

def streamingProtocol (r : Request) : Option StreamingProtocol :=
  if Proxy.isSSE r then some .sse
  else if Proxy.isWebSocketUpgrade r then some .websocket
  else if Proxy.isGRPC r then some .grpc
  else none

structure Shared where
  inFlight : ℤ := 0
  concurrencySem : Option Weighted
  streamingActive : StreamingProtocol → ℤ := fun _ => 0

def Shared.tryAcquire (s : Shared) : Option (Option Weighted) :=
  match s.concurrencySem with
  | none => some none
  | some sem => sem.tryAcquire.map some

def Shared.addStreaming (s : Shared) (proto : Option StreamingProtocol) (delta : ℤ) : Shared :=
  match proto with
  | none => s
  | some p => { s with streamingActive := Function.update s.streamingActive p (s.streamingActive p + delta) }

inductive Stage where
  | enter
  | bypass
  | forward
  | recordBypass
  | acquire
  | stream
  | serve
  | release
  | record
  | unstream
  | leave
  deriving DecidableEq

structure Thread where
  id : ℕ
  r : Request
  stage : Stage

structure Turn where
  bypassPreflight : Bool := false
  panics : Bool := false

inductive Event where
  | recorded (id : ℕ)
  | rejected (id : ℕ)
  /-- The handler of a preflight that was let by has panicked, and nothing is recorded. -/
  | crashed (id : ℕ)

def step (s : Shared) (t : Thread) (f : Turn) : List Event × Shared × List Thread :=
  match t.stage with
  | .enter => ([], { s with inFlight := s.inFlight + 1 }, [{ t with stage := .bypass }])
  | .bypass => ([], s, [{ t with stage := if f.bypassPreflight && isCORSPreflight t.r then .forward else .acquire }])
  | .forward =>
    if f.panics then ([.crashed t.id], s, [{ t with stage := .leave }]) else ([], s, [{ t with stage := .recordBypass }])
  | .recordBypass => ([.recorded t.id], s, [{ t with stage := .leave }])
  | .acquire =>
    match s.tryAcquire with
    | some sem => ([], { s with concurrencySem := sem }, [{ t with stage := .stream }])
    | none => ([.rejected t.id], s, [{ t with stage := .leave }])
  | .stream => ([], s.addStreaming (streamingProtocol t.r) 1, [{ t with stage := .serve }])
  -- the rest is deferred: it runs whether the handler returns or panics
  | .serve => ([], s, [{ t with stage := .release }])
  | .release => ([], { s with concurrencySem := s.concurrencySem.map Weighted.release }, [{ t with stage := .record }])
  | .record => ([.recorded t.id], s, [{ t with stage := .unstream }])
  | .unstream => ([], s.addStreaming (streamingProtocol t.r) (-1), [{ t with stage := .leave }])
  | .leave => ([], { s with inFlight := s.inFlight - 1 }, [])

def system : System Shared Thread (ℕ × Request) Turn Event where
  arrive q := ⟨q.1, q.2, .enter⟩
  step := step

def start (maxConcurrentRequests : ℤ) : System.Conf Shared Thread :=
  ⟨{ concurrencySem := if 0 < maxConcurrentRequests then some ⟨maxConcurrentRequests, 0⟩ else none }, []⟩

namespace Thread

def inside (t : Thread) : Bool := t.stage ≠ .enter

def admitted (t : Thread) : Bool := t.stage ∈ [.stream, .serve, .release]

def streams (p : StreamingProtocol) (t : Thread) : Bool :=
  t.stage ∈ [.serve, .release, .record, .unstream] ∧ streamingProtocol t.r = some p

def pending (id : ℕ) (t : Thread) : Bool := t.id = id ∧ t.stage ∉ [.unstream, .leave]

end Thread

theorem addStreaming_eq (s : Shared) (proto : Option StreamingProtocol) (delta : ℤ) :
    s.addStreaming proto delta =
      { s with streamingActive := fun p => s.streamingActive p + if proto = some p then delta else 0 } := by
  cases proto with
  | none => simp [Shared.addStreaming]
  | some q =>
    simp only [Shared.addStreaming, Option.some.injEq]
    congr 1
    funext p
    by_cases hq : p = q
    · rw [hq, Function.update_self, if_pos rfl]
    · rw [Function.update_of_ne hq, if_neg fun h => hq h.symm, add_zero]

theorem step_gauges (s : Shared) (t : Thread) (f : Turn) :
    (step s t f).2.1.inFlight + t.inside.toNat = s.inFlight + ((step s t f).2.2.countP Thread.inside : ℕ) ∧
      ∀ p, (step s t f).2.1.streamingActive p + (t.streams p).toNat =
        s.streamingActive p + ((step s t f).2.2.countP (Thread.streams p) : ℕ) := by
  obtain ⟨id, r, stage⟩ := t
  cases stage with
  | bypass => cases hbypass : f.bypassPreflight && isCORSPreflight r <;> simp [step, hbypass, Thread.inside, Thread.streams]
  | forward => cases hpanics : f.panics <;> simp [step, hpanics, Thread.inside, Thread.streams]
  | acquire => cases hslot : s.tryAcquire <;> simp [step, hslot, Thread.inside, Thread.streams]
  | stream | unstream =>
    simp only [step, addStreaming_eq]
    refine ⟨rfl, fun p => ?_⟩
    by_cases hproto : streamingProtocol r = some p <;> simp [Thread.streams, hproto]
  | serve | release | record =>
    refine ⟨rfl, fun p => ?_⟩
    by_cases hproto : streamingProtocol r = some p <;> simp [step, Thread.streams, hproto]
  | _ => simp [step, Thread.inside, Thread.streams]

structure Moved (sem sem' : Option Weighted) (before after : ℕ) : Prop where
  size : sem'.map Weighted.size = sem.map Weighted.size
  cur : ∀ w' ∈ sem', ∃ w ∈ sem, w'.cur + before = w.cur + after ∧ (w.cur ≤ w.size → w'.cur ≤ w'.size)

theorem Moved.same (sem : Option Weighted) (n : ℕ) : Moved sem sem n n := ⟨rfl, fun w hw => ⟨w, hw, rfl, id⟩⟩

theorem Moved.release (sem : Option Weighted) : Moved sem (sem.map Weighted.release) 1 0 := by
  cases sem with
  | none => exact ⟨rfl, by rintro w' ⟨⟩⟩
  | some w =>
    refine ⟨rfl, ?_⟩
    intro w' hw'
    obtain rfl := Option.some.inj hw'
    refine ⟨w, rfl, ?_, ?_⟩ <;> simp only [Weighted.release] <;> omega

theorem Moved.acquire {s : Shared} {sem' : Option Weighted} (h : s.tryAcquire = some sem') :
    Moved s.concurrencySem sem' 0 1 := by
  unfold Shared.tryAcquire at h
  split at h
  · rename_i hnone
    obtain rfl := Option.some.inj h
    exact ⟨by rw [hnone], by rintro w' ⟨⟩⟩
  · rename_i w hw
    unfold Weighted.tryAcquire at h
    split at h
    · obtain rfl := Option.some.inj h
      refine ⟨by rw [hw]; rfl, ?_⟩
      intro w' hw'
      obtain rfl := Option.some.inj hw'
      refine ⟨w, hw, ?_, ?_⟩ <;> simp only <;> omega
    · cases h

theorem tryAcquire_none {s : Shared} (h : s.tryAcquire = none) : ∃ w ∈ s.concurrencySem, w.size ≤ w.cur := by
  unfold Shared.tryAcquire at h
  split at h
  · cases h
  · rename_i w hw
    unfold Weighted.tryAcquire at h
    split at h
    · cases h
    · exact ⟨w, hw, by omega⟩

theorem step_slots (s : Shared) (t : Thread) (f : Turn) :
    Moved s.concurrencySem (step s t f).2.1.concurrencySem t.admitted.toNat
      ((step s t f).2.2.countP Thread.admitted) := by
  obtain ⟨id, r, stage⟩ := t
  cases stage with
  | bypass =>
    simp only [step]
    split <;> exact .same _ 0
  | forward =>
    simp only [step]
    split <;> exact .same _ 0
  | acquire =>
    cases hslot : s.tryAcquire with
    | none =>
      simp only [step, hslot]
      exact .same _ 0
    | some sem =>
      simp only [step, hslot]
      exact .acquire hslot
  | stream =>
    simp only [step, addStreaming_eq]
    exact .same _ 1
  | unstream =>
    simp only [step, addStreaming_eq]
    exact .same _ 0
  | serve => exact .same _ 1
  | release => exact .release _
  | _ => exact .same _ 0

structure Accounted (capacity : Option ℤ) (s : Shared) (ts : List Thread) : Prop where
  inFlight : s.inFlight = ts.countP Thread.inside
  streaming : ∀ p, s.streamingActive p = ts.countP (Thread.streams p)
  size : s.concurrencySem.map Weighted.size = capacity
  slots : ∀ w ∈ s.concurrencySem, w.cur = ts.countP Thread.admitted ∧ w.cur ≤ w.size

theorem keeps_accounted (capacity : Option ℤ) :
    system.Keeps (fun _ => True) (fun _ _ _ _ => True) (Accounted capacity) where
  arrive := by
    intro s ts q h _
    have hnew : ∀ p : Thread → Bool, p (system.arrive q) = false →
        (ts ++ [system.arrive q]).countP p = ts.countP p := by
      intro p hp
      rw [List.countP_append, System.countP_singleton_toNat, hp]
      rfl
    refine ⟨?_, fun p => ?_, h.size, ?_⟩
    · rw [hnew _ rfl]
      exact h.inFlight
    · rw [hnew _ (by simp [Thread.streams, system])]
      exact h.streaming p
    · rw [hnew _ rfl]
      exact h.slots
  step := by
    intro s l₁ t l₂ f h _
    obtain ⟨hinFlight, hstreaming⟩ := step_gauges s t f
    have hslots := step_slots s t f
    refine ⟨?_, fun p => ?_, hslots.size.trans h.size, ?_⟩
    · exact System.gauge_of_balance h.inFlight hinFlight
    · exact System.gauge_of_balance (h.streaming p) (hstreaming p)
    · intro w' hw'
      obtain ⟨w, hw, hcur, hle⟩ := hslots.cur w' hw'
      obtain ⟨hcount, hbound⟩ := h.slots w hw
      exact ⟨System.gauge_of_balance hcount hcur, hle hbound⟩

theorem accounted_start (maxConcurrentRequests : ℤ) :
    Accounted (if 0 < maxConcurrentRequests then some maxConcurrentRequests else none)
      (start maxConcurrentRequests).shared (start maxConcurrentRequests).threads := by
  by_cases hpos : 0 < maxConcurrentRequests
  · rw [if_pos hpos]
    refine ⟨rfl, fun _ => rfl, ?_, ?_⟩ <;> simp only [start, if_pos hpos]
    · rfl
    · intro w hw
      obtain rfl := Option.some.inj hw
      exact ⟨rfl, hpos.le⟩
  · rw [if_neg hpos]
    refine ⟨rfl, fun _ => rfl, ?_, ?_⟩ <;> simp only [start, if_neg hpos]
    · rfl
    · rintro w ⟨⟩

/-- At any time the gauges show how many requests are inside and how many of them stream. As many slots are taken as
requests have got past the limit and not come to its release, and never more than there are; a request is turned away only
where all of them are taken. -/
theorem requests_accounted (maxConcurrentRequests : ℤ) (ms : List (System.Move (ℕ × Request) Turn)) :
    let c := system.machine.run (start maxConcurrentRequests) ms
    let admitted : ℤ := c.threads.countP Thread.admitted
    c.shared.inFlight = c.threads.countP Thread.inside ∧
      (∀ p, c.shared.streamingActive p = c.threads.countP (Thread.streams p)) ∧
      (∀ w ∈ c.shared.concurrencySem, w.cur = admitted) ∧
      (0 < maxConcurrentRequests → admitted ≤ maxConcurrentRequests) ∧
      ∀ id r f, (step c.shared ⟨id, r, .acquire⟩ f).1 ≠ [] → admitted = maxConcurrentRequests := by
  intro c admitted
  have h := (keeps_accounted _).always (accounted_start maxConcurrentRequests) ms
  have hsize := h.size
  refine ⟨h.inFlight, h.streaming, fun w hw => (h.slots w hw).1, ?_, ?_⟩
  · intro hpos
    rw [if_pos hpos] at hsize
    obtain ⟨w, hw, hwsize⟩ := Option.map_eq_some_iff.mp hsize
    obtain ⟨hcur, hle⟩ := h.slots w hw
    exact hcur.ge.trans (hle.trans_eq hwsize)
  · intro id r f hrejected
    cases hslot : c.shared.tryAcquire with
    | some sem => simp [step, hslot] at hrejected
    | none =>
      obtain ⟨w, hw, hfull⟩ := tryAcquire_none hslot
      obtain ⟨hcur, hle⟩ := h.slots w hw
      have hmap := congrArg (Option.map Weighted.size) hw
      rw [hsize] at hmap
      have hcapacity : maxConcurrentRequests = w.size := by
        split at hmap
        · exact Option.some.inj hmap
        · cases hmap
      exact hcur.symm.trans ((le_antisymm hle hfull).trans hcapacity.symm)

def Event.settles (id : ℕ) : Event → Bool
  | .recorded id' | .rejected id' | .crashed id' => id' = id

theorem ledger_settles (id : ℕ) :
    system.Ledger (· = ·) (fun q => decide (q.1 = id)) (Thread.pending id) (Event.settles id) where
  adds := System.adds_eq
  arrive q := by simp [Thread.pending, system]
  step := by
    rintro s ⟨id', r, stage⟩ f
    change (step s ⟨id', r, stage⟩ f).1.countP _ + (step s ⟨id', r, stage⟩ f).2.2.countP _ = _
    cases stage with
    | bypass =>
      cases hbypass : f.bypassPreflight && isCORSPreflight r <;> by_cases hid : id' = id <;>
        simp [step, hbypass, Thread.pending, hid]
    | forward =>
      cases hpanics : f.panics <;> by_cases hid : id' = id <;> simp [step, hpanics, Thread.pending, Event.settles, hid]
    | acquire =>
      cases hslot : s.tryAcquire <;> by_cases hid : id' = id <;> simp [step, hslot, Thread.pending, Event.settles, hid]
    | record | recordBypass => by_cases hid : id' = id <;> simp [step, Thread.pending, Event.settles, hid]
    | _ => by_cases hid : id' = id <;> simp [step, Thread.pending, hid]

/-- Every request is recorded once, or turned away once, or was let by and has panicked. -/
theorem requests_recorded_once (maxConcurrentRequests : ℤ) (ms : List (System.Move (ℕ × Request) Turn)) (id : ℕ) :
    let c := system.machine.run (start maxConcurrentRequests) ms
    (system.machine.outputs (start maxConcurrentRequests) ms).flatten.countP (Event.settles id) +
      c.threads.countP (Thread.pending id) = (System.arrivals ms).countP fun q => decide (q.1 = id) := by
  have h := (ledger_settles id).run (start maxConcurrentRequests) ms
  rw [← Nat.zero_add ((System.arrivals ms).countP _)]
  exact h

end EdgeQuota.Middleware.InFlight
