import EdgeQuota.Go.Strings
import EdgeQuota.Lib.Machine
import EdgeQuota.Lib.RingBuffer

/-! The emitter of usage events: a ring of events that requests fill and that is drained in batches. -/

namespace EdgeQuota.Events
open Go Lib

structure UsageEvent where
  key : GoString := []
  tenantKey : GoString := []
  method : GoString := []
  path : GoString := []
  allowed : Bool := false
  remaining : ℤ := 0
  limit : ℤ := 0
  timestamp : GoString := []
  statusCode : ℤ := 0
  requestID : GoString := []
  reason : GoString := []
  deriving DecidableEq

structure EventsConfig where
  enabled : Bool := false
  batchSize : ℤ := 0
  bufferSize : ℤ := 0
  httpURL : GoString := []

/-- `flushCh` says whether a signal to flush is pending, and `dropped` is what the emitter has added to the metric. -/
structure Emitter where
  httpURL : GoString
  batchSize : ℕ
  bufferSize : ℕ
  batchSize_pos : 0 < batchSize
  ring : RingBuffer UsageEvent bufferSize
  flushCh : Bool := false
  dropped : ℕ := 0

def orDefault (n : ℤ) (default : ℕ) : ℕ := if n ≤ 0 then default else n.toNat

theorem orDefault_pos (n : ℤ) {default : ℕ} (h : 0 < default) : 0 < orDefault n default := by
  unfold orDefault
  split_ifs <;> omega

namespace Emitter

def fresh (cfg : EventsConfig) : Emitter where
  httpURL := cfg.httpURL
  batchSize := orDefault cfg.batchSize 100
  bufferSize := orDefault cfg.bufferSize 10000
  batchSize_pos := orDefault_pos _ (by decide)
  ring := .new {} (orDefault_pos _ (by decide))

def newEmitter (cfg : EventsConfig) : Option Emitter := if cfg.enabled then some (fresh cfg) else none

def emit (e : Emitter) (ev : UsageEvent) : Emitter :=
  let ring := e.ring.push ev
  { e with
    ring
    dropped := if e.ring.len = e.bufferSize then e.dropped + 1 else e.dropped
    flushCh := e.flushCh || decide (e.batchSize ≤ ring.len) }

def drain (e : Emitter) : Option (List UsageEvent) × Emitter :=
  if e.ring.len = 0 then (none, e)
  else
    let (batch, ring) := e.ring.pop e.batchSize
    (some batch, { e with ring })

end Emitter

inductive EmitterOp where
  | emit (ev : UsageEvent)
  | drain

inductive EmitterOut where
  | overwrote (ev : Option UsageEvent)
  | drained (batch : Option (List UsageEvent))

def emitterOps : Machine Emitter EmitterOp EmitterOut where
  step e
    | .emit ev => (.overwrote (if e.ring.len = e.bufferSize then some (e.ring.slots e.ring.head) else none), e.emit ev)
    | .drain => (.drained e.drain.1, e.drain.2)

def emitted (ops : List EmitterOp) : List UsageEvent :=
  ops.filterMap fun
    | .emit ev => some ev
    | .drain => none

def batches (outs : List EmitterOut) : List (List UsageEvent) :=
  outs.filterMap fun
    | .drained batch => batch
    | .overwrote _ => none

def overwritten (outs : List EmitterOut) : List UsageEvent :=
  outs.filterMap fun
    | .overwrote ev => ev
    | .drained _ => none

section Queue
variable (e : Emitter) (ev : UsageEvent)

theorem content_emit :
    (e.emit ev).ring.content =
      (if e.ring.content.length = e.bufferSize then e.ring.content.tail else e.ring.content) ++ [ev] := by
  rw [RingBuffer.length_content]
  split_ifs with h
  · exact e.ring.content_push_full ev h
  · exact e.ring.content_push_of_lt ev (lt_of_le_of_ne e.ring.len_le h)

theorem overwrote_eq :
    (emitterOps.step e (.emit ev)).1 =
      .overwrote (if e.ring.content.length = e.bufferSize then e.ring.content.head? else none) := by
  rw [RingBuffer.length_content]
  change EmitterOut.overwrote _ = _
  split_ifs with h
  · have hpos : 0 < e.ring.len := h.symm ▸ e.ring.head.pos
    rw [e.ring.head?_content hpos]
  · rfl

theorem count_emit (ev' : UsageEvent) :
    (e.emit ev).ring.content.count ev' + (overwritten [(emitterOps.step e (.emit ev)).1]).count ev' =
      e.ring.content.count ev' + [ev].count ev' := by
  rw [content_emit, overwrote_eq, List.count_append]
  split_ifs with hfull
  · have hpos : 0 < e.ring.content.length := hfull.symm ▸ e.ring.head.pos
    obtain ⟨oldest, rest, hsplit⟩ := List.exists_cons_of_length_pos hpos
    rw [hsplit]
    have hold : (oldest :: rest).count ev' = [oldest].count ev' + rest.count ev' := by
      rw [← List.count_append]
      rfl
    change rest.count ev' + [ev].count ev' + [oldest].count ev' = (oldest :: rest).count ev' + _
    omega
  · rfl

theorem drain_nil (h : e.ring.content = []) : e.drain = (none, e) := by
  have hlen : e.ring.len = 0 := by rw [← RingBuffer.length_content, h, List.length_nil]
  exact if_pos hlen

theorem drain_cons (h : e.ring.content ≠ []) :
    e.drain.1 = some (e.ring.content.take e.batchSize) ∧
      e.drain.2.ring.content = e.ring.content.drop e.batchSize := by
  have hlen : e.ring.len ≠ 0 := by
    rwa [← RingBuffer.length_content, Ne, List.length_eq_zero_iff]
  have hdrain : e.drain = (some (e.ring.pop e.batchSize).1, { e with ring := (e.ring.pop e.batchSize).2 }) :=
    if_neg hlen
  rw [hdrain]
  exact ⟨congrArg some (e.ring.pop_fst _), e.ring.content_pop _⟩

theorem httpURL_drain : e.drain.2.httpURL = e.httpURL := by
  unfold Emitter.drain
  split_ifs <;> rfl

theorem batchSize_step (op : EmitterOp) : (emitterOps.step e op).2.batchSize = e.batchSize := by
  cases op with
  | emit ev => rfl
  | drain =>
    change e.drain.2.batchSize = e.batchSize
    unfold Emitter.drain
    split_ifs <;> rfl

theorem parts_run (ops : List EmitterOp) :
    Parts (e.ring.content ++ emitted ops)
      ((batches (emitterOps.outputs e ops)).flatten ++ (emitterOps.run e ops).ring.content)
      (overwritten (emitterOps.outputs e ops)) := by
  induction ops generalizing e with
  | nil =>
    change Parts (e.ring.content ++ []) e.ring.content []
    rw [List.append_nil]
    exact .refl _
  | cons op ops ih =>
    have hrest := ih (emitterOps.step e op).2
    rw [Machine.outputs, Machine.run]
    cases op with
    | emit ev =>
      have hcontent : (emitterOps.step e (.emit ev)).2.ring.content = _ := content_emit e ev
      rw [hcontent] at hrest
      rw [overwrote_eq]
      change Parts (e.ring.content ++ ev :: emitted ops) _ _
      split_ifs at hrest ⊢ with hfull
      · -- a full buffer has an oldest event
        have hpos : 0 < e.ring.content.length := hfull.symm ▸ e.ring.head.pos
        obtain ⟨oldest, rest, hsplit⟩ := List.exists_cons_of_length_pos hpos
        rw [hsplit, List.tail_cons, List.append_assoc] at hrest
        rw [hsplit]
        exact hrest.drop oldest
      · rw [List.append_assoc] at hrest
        exact hrest
    | drain =>
      change Parts (e.ring.content ++ emitted ops) _ _
      by_cases hnil : e.ring.content = []
      · have hstep : emitterOps.step e .drain = (.drained none, e) := by
          change (EmitterOut.drained e.drain.1, e.drain.2) = _
          rw [drain_nil e hnil]
        rw [hstep] at hrest ⊢
        exact hrest
      · obtain ⟨hbatch, hcontent⟩ := drain_cons e hnil
        have hkept := hrest.append_left (e.ring.content.take e.batchSize)
        have hleft : (emitterOps.step e .drain).2.ring.content = _ := hcontent
        have hout : (emitterOps.step e .drain).1 = _ := congrArg EmitterOut.drained hbatch
        rw [hleft, ← List.append_assoc, List.take_append_drop] at hkept
        rw [hout]
        rwa [← List.append_assoc] at hkept

theorem dropped_step (op : EmitterOp) :
    (emitterOps.step e op).2.dropped = e.dropped + (overwritten [(emitterOps.step e op).1]).length := by
  cases op with
  | emit ev =>
    by_cases hfull : e.ring.len = e.bufferSize
    · have hdropped : (e.emit ev).dropped = e.dropped + 1 := if_pos hfull
      have hout : (emitterOps.step e (.emit ev)).1 = .overwrote (some (e.ring.slots e.ring.head)) :=
        congrArg EmitterOut.overwrote (if_pos hfull)
      rw [hout]
      exact hdropped
    · have hdropped : (e.emit ev).dropped = e.dropped := if_neg hfull
      have hout : (emitterOps.step e (.emit ev)).1 = .overwrote none := congrArg EmitterOut.overwrote (if_neg hfull)
      rw [hout]
      exact hdropped
  | drain =>
    change e.drain.2.dropped = e.dropped
    unfold Emitter.drain
    split_ifs <;> rfl

theorem dropped_run (ops : List EmitterOp) :
    (emitterOps.run e ops).dropped = e.dropped + (overwritten (emitterOps.outputs e ops)).length := by
  induction ops generalizing e with
  | nil => rfl
  | cons op ops ih =>
    have hcons : overwritten (emitterOps.outputs e (op :: ops)) =
        overwritten [(emitterOps.step e op).1] ++ overwritten (emitterOps.outputs (emitterOps.step e op).2 ops) :=
      List.filterMap_append (l := [(emitterOps.step e op).1])
    rw [Machine.run, ih, dropped_step, hcons, List.length_append, Nat.add_assoc]

theorem length_batch (ops : List EmitterOp) {batch : List UsageEvent}
    (h : batch ∈ batches (emitterOps.outputs e ops)) : 1 ≤ batch.length ∧ batch.length ≤ e.batchSize := by
  induction ops generalizing e with
  | nil => cases h
  | cons op ops ih =>
    rw [Machine.outputs] at h
    have hrest := ih (emitterOps.step e op).2
    rw [batchSize_step] at hrest
    cases op with
    | emit ev => exact hrest h
    | drain =>
      by_cases hnil : e.ring.content = []
      · have hout : (emitterOps.step e .drain).1 = .drained none := by
          change EmitterOut.drained e.drain.1 = _
          rw [drain_nil e hnil]
        rw [hout] at h
        exact hrest h
      · have hout : (emitterOps.step e .drain).1 = _ := congrArg EmitterOut.drained (drain_cons e hnil).1
        rw [hout] at h
        rcases List.mem_cons.mp h with rfl | hlater
        · have hpos : 0 < e.ring.content.length := List.length_pos_of_ne_nil hnil
          have hsize := e.batchSize_pos
          rw [List.length_take]
          omega
        · exact hrest hlater

end Queue

/-- **The buffer is a bounded queue.** For all sizes and in any order of `Emit` and `drain`: the batches in their order
followed by the content of the buffer are the emitted events without the overwritten ones; an event is overwritten
only when the buffer is full, and it is the oldest there; as many are counted as dropped; and every batch has at least
one event and at most the batch size. -/
theorem bounded_fifo (cfg : EventsConfig) (ops : List EmitterOp) :
    let outs := emitterOps.outputs (Emitter.fresh cfg) ops
    let e := emitterOps.run (Emitter.fresh cfg) ops
    Parts (emitted ops) ((batches outs).flatten ++ e.ring.content) (overwritten outs) ∧
      (∀ e ev, (emitterOps.step e (.emit ev)).1 =
        .overwrote (if e.ring.content.length = e.bufferSize then e.ring.content.head? else none)) ∧
      e.dropped = (overwritten outs).length ∧
      ∀ batch ∈ batches outs, 1 ≤ batch.length ∧ batch.length ≤ (Emitter.fresh cfg).batchSize := by
  refine ⟨parts_run (Emitter.fresh cfg) ops, overwrote_eq, ?_, fun batch h => length_batch _ ops h⟩
  exact (dropped_run (Emitter.fresh cfg) ops).trans (Nat.zero_add _)

end EdgeQuota.Events
