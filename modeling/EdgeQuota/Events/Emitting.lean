import EdgeQuota.Events.Emitter
import EdgeQuota.Lib.Threads

/-! The emitter behind its pointer: requests load the pointer and emit, each emitter has a goroutine that flushes it,
and a reload puts a new emitter in place and closes the old one. -/

namespace EdgeQuota.Events
open Go Lib

abbrev HTTPConfig := { cfg : EventsConfig // cfg.httpURL ≠ [] }

/-- An emitter, whether its `done` channel is closed, whether its flush loop has returned, and whether `Close` has
drained it for the last time. Beside it, what has been emitted on it, handed to `sendHTTP`, and overwritten. -/
structure Running where
  emitter : Emitter
  done : Bool := false
  exited : Bool := false
  finished : Bool := false
  emitted : List UsageEvent := []
  sent : List UsageEvent := []
  overwritten : List UsageEvent := []

namespace Running

def content (r : Running) : List UsageEvent := r.emitter.ring.content

def emit (r : Running) (ev : UsageEvent) : Running :=
  { r with
    emitter := r.emitter.emit ev
    emitted := r.emitted ++ [ev]
    overwritten := r.overwritten ++ Events.overwritten [(emitterOps.step r.emitter (.emit ev)).1] }

def send (r : Running) (batch : List UsageEvent) : Running :=
  if r.emitter.httpURL = [] then r else { r with sent := r.sent ++ batch }

end Running

structure Emitting where
  slots : ℕ → Running
  count : ℕ := 0
  current : Option ℕ := none

inductive EventThread where
  | loading (ev : UsageEvent)
  | emitting (i : ℕ) (ev : UsageEvent)
  | flusher (i : ℕ)
  | flushing (i : ℕ) (last : Bool)
  | sending (i : ℕ) (last : Bool) (batch : List UsageEvent)
  | creating (cfg : HTTPConfig)
  | swapping (new : Option ℕ)
  | closing (i : ℕ)
  | waiting (i : ℕ)

inductive EventArrival where
  | request (ev : UsageEvent)
  | reload (cfg : HTTPConfig)

inductive Wake where
  | stop
  | tick
  | signal

namespace Emitting

def modify (s : Emitting) (i : ℕ) (f : Running → Running) : Emitting :=
  { s with slots := Function.update s.slots i (f (s.slots i)) }

def create (s : Emitting) (e : Emitter) : Emitting :=
  { s with slots := Function.update s.slots s.count { emitter := e }, count := s.count + 1 }

def step (s : Emitting) : EventThread → Wake → List Unit × Emitting × List EventThread
  | .loading ev, _ =>
    match s.current with
    | none => ([], s, [])
    | some i => ([], s, [.emitting i ev])
  | .emitting i ev, _ => ([], s.modify i (·.emit ev), [])
  | .flusher i, .stop =>
    if (s.slots i).done then ([], s.modify i ({ · with exited := true }), []) else ([], s, [.flusher i])
  | .flusher i, .tick => ([], s, [.flushing i false])
  | .flusher i, .signal =>
    if (s.slots i).emitter.flushCh then
      ([], s.modify i fun r => { r with emitter := { r.emitter with flushCh := false } }, [.flushing i false])
    else ([], s, [.flusher i])
  | .flushing i last, _ =>
    match (s.slots i).emitter.drain with
    | (some batch, emitter) => ([], s.modify i ({ · with emitter }), [.sending i last batch])
    | (none, _) =>
      if last then ([], s.modify i ({ · with finished := true }), []) else ([], s, [.flusher i])
  | .sending i last batch, _ => ([], s.modify i (·.send batch), [.flushing i last])
  | .creating cfg, _ =>
    match Emitter.newEmitter cfg.1 with
    | none => ([], s, [.swapping none])
    | some e => ([], s.create e, [.flusher s.count, .swapping (some s.count)])
  | .swapping new, _ =>
    match s.current with
    | none => ([], { s with current := new }, [])
    | some old => ([], { s with current := new }, [.closing old])
  | .closing i, _ => ([], s.modify i ({ · with done := true }), [.waiting i])
  | .waiting i, _ => ([], s, [if (s.slots i).exited then .flushing i true else .waiting i])

def system : System Emitting EventThread EventArrival Wake Unit where
  arrive
    | .request ev => .loading ev
    | .reload cfg => .creating cfg
  step := step

def starting (cfg : HTTPConfig) : System.Conf Emitting EventThread :=
  match Emitter.newEmitter cfg.1 with
  | none => ⟨{ slots := fun _ => { emitter := .fresh cfg.1 } }, []⟩
  | some e => ⟨{ slots := fun _ => { emitter := e }, count := 1, current := some 0 }, [.flusher 0]⟩

end Emitting

namespace Running
variable {r : Running} {carried carried' batch : List UsageEvent}

structure Sound (r : Running) (carried : List UsageEvent) : Prop where
  url : r.emitter.httpURL ≠ []
  dropped : r.emitter.dropped = r.overwritten.length
  account : ∀ ev, r.emitted.count ev =
    r.sent.count ev + r.overwritten.count ev + r.content.count ev + carried.count ev

theorem Sound.perm (h : r.Sound carried) (hperm : carried.Perm carried') : r.Sound carried' := by
  refine ⟨h.url, h.dropped, fun ev => ?_⟩
  rw [← hperm.count_eq ev]
  exact h.account ev

theorem sound_new (cfg : HTTPConfig) : Sound { emitter := .fresh cfg.1 } [] := ⟨cfg.2, rfl, fun _ => rfl⟩

theorem Sound.emit (h : r.Sound carried) (ev : UsageEvent) : (r.emit ev).Sound carried := by
  refine ⟨h.url, ?_, fun ev' => ?_⟩
  · have hdropped : (r.emit ev).emitter.dropped = _ := dropped_step r.emitter (.emit ev)
    rw [hdropped, h.dropped]
    exact List.length_append.symm
  · have hcount : (r.emit ev).content.count ev' + _ = r.content.count ev' + _ := count_emit r.emitter ev ev'
    have hlogs := h.account ev'
    change (r.emitted ++ [ev]).count ev' = r.sent.count ev' +
      (r.overwritten ++ Events.overwritten [(emitterOps.step r.emitter (.emit ev)).1]).count ev' +
        (r.emit ev).content.count ev' + carried.count ev'
    rw [List.count_append, List.count_append]
    omega

theorem Sound.drain {e : Emitter} (h : r.Sound carried) (hdrain : r.emitter.drain = (some batch, e)) :
    Sound { r with emitter := e } (batch ++ carried) := by
  have hne : r.emitter.ring.content ≠ [] := by
    intro hnil
    rw [drain_nil _ hnil] at hdrain
    cases hdrain
  have hdropped : r.emitter.drain.2.dropped = _ := dropped_step r.emitter .drain
  have hurl := httpURL_drain r.emitter
  obtain ⟨hbatch, hrest⟩ := drain_cons r.emitter hne
  rw [hdrain] at hbatch hrest hdropped hurl
  refine ⟨hurl ▸ h.url, hdropped.trans h.dropped, fun ev => ?_⟩
  have hlogs := h.account ev
  have hsplit : r.content.count ev = batch.count ev + e.ring.content.count ev := by
    rw [Option.some.inj hbatch, hrest, ← List.count_append, List.take_append_drop]
    rfl
  change r.emitted.count ev = r.sent.count ev + r.overwritten.count ev + e.ring.content.count ev + _
  rw [List.count_append]
  omega

theorem Sound.send (h : r.Sound (batch ++ carried)) : (r.send batch).Sound carried := by
  unfold Running.send
  rw [if_neg h.url]
  refine ⟨h.url, h.dropped, fun ev => ?_⟩
  have := h.account ev
  simp only [List.count_append] at this ⊢
  rw [this]
  change _ = r.sent.count ev + batch.count ev + r.overwritten.count ev + r.content.count ev + carried.count ev
  omega

structure Exits (r r' : Running) : Prop where
  stays : r.exited = true → r'.exited = true
  closed : (r.exited = true → r.done = true) → r'.exited = true → r'.done = true

theorem Exits.of_eq {r' : Running} (hexited : r'.exited = r.exited) (hdone : r'.done = r.done) :
    r.Exits r' := by
  constructor
  · exact hexited.trans
  · intro h hr'
    rw [hdone]
    exact h (hexited.symm.trans hr')

end Running

namespace Emitting

def flushes (i : ℕ) : EventThread → Bool
  | .flusher j => decide (j = i)
  | .flushing j last | .sending j last _ => decide (j = i) && !last
  | .loading _ | .emitting _ _ | .creating _ | .swapping _ | .closing _ | .waiting _ => false

def holds (i : ℕ) : EventThread → Bool
  | .swapping new => decide (new = some i)
  | .closing j => decide (j = i)
  | .loading _ | .emitting _ _ | .flusher _ | .flushing _ _ | .sending _ _ _ | .creating _ | .waiting _ => false

def closes (i : ℕ) : EventThread → Bool
  | .waiting j => decide (j = i)
  | .flushing j last | .sending j last _ => decide (j = i) && last
  | .loading _ | .emitting _ _ | .flusher _ | .creating _ | .swapping _ | .closing _ => false

def carries (i : ℕ) : EventThread → List UsageEvent
  | .sending j _ batch => if j = i then batch else []
  | .loading _ | .emitting _ _ | .flusher _ | .flushing _ _ | .creating _ | .swapping _ | .closing _ | .waiting _ => []

def finishes (i : ℕ) : EventThread → Bool
  | .flushing j last | .sending j last _ => decide (j = i) && last
  | .loading _ | .emitting _ _ | .flusher _ | .creating _ | .swapping _ | .closing _ | .waiting _ => false

def refersTo : EventThread → Option ℕ
  | .emitting i _ | .flusher i | .flushing i _ | .sending i _ _ | .closing i | .waiting i => some i
  | .swapping new => new
  | .loading _ | .creating _ => none

inductive Turn (s : Emitting) : EventThread → Emitting → List EventThread → Prop
  | loadNone (ev : UsageEvent) (h : s.current = none) : Turn s (.loading ev) s []
  | load {i : ℕ} (ev : UsageEvent) (h : s.current = some i) : Turn s (.loading ev) s [.emitting i ev]
  | emit (i : ℕ) (ev : UsageEvent) : Turn s (.emitting i ev) (s.modify i (·.emit ev)) []
  | exit {i : ℕ} (h : (s.slots i).done = true) : Turn s (.flusher i) (s.modify i ({ · with exited := true })) []
  | idle (i : ℕ) : Turn s (.flusher i) s [.flusher i]
  | tick (i : ℕ) : Turn s (.flusher i) s [.flushing i false]
  | signal (i : ℕ) :
    Turn s (.flusher i) (s.modify i fun r => { r with emitter := { r.emitter with flushCh := false } })
      [.flushing i false]
  | drain {i : ℕ} (last : Bool) {batch : List UsageEvent} {emitter : Emitter}
      (h : (s.slots i).emitter.drain = (some batch, emitter)) :
    Turn s (.flushing i last) (s.modify i ({ · with emitter })) [.sending i last batch]
  | drained {i : ℕ} (h : (s.slots i).content = []) : Turn s (.flushing i false) s [.flusher i]
  | finish {i : ℕ} (h : (s.slots i).content = []) :
    Turn s (.flushing i true) (s.modify i ({ · with finished := true })) []
  | send (i : ℕ) (last : Bool) (batch : List UsageEvent) :
    Turn s (.sending i last batch) (s.modify i (·.send batch)) [.flushing i last]
  | disable (cfg : HTTPConfig) : Turn s (.creating cfg) s [.swapping none]
  | create (cfg : HTTPConfig) :
    Turn s (.creating cfg) (s.create (.fresh cfg.1)) [.flusher s.count, .swapping (some s.count)]
  | swapNone (new : Option ℕ) (h : s.current = none) : Turn s (.swapping new) { s with current := new } []
  | swap {old : ℕ} (new : Option ℕ) (h : s.current = some old) :
    Turn s (.swapping new) { s with current := new } [.closing old]
  | close (i : ℕ) : Turn s (.closing i) (s.modify i ({ · with done := true })) [.waiting i]
  | wait (i : ℕ) : Turn s (.waiting i) s [.waiting i]
  | last {i : ℕ} (h : (s.slots i).exited = true) : Turn s (.waiting i) s [.flushing i true]

theorem content_of_drain_none {e e' : Emitter} (h : e.drain = (none, e')) : e.ring.content = [] := by
  by_contra hne
  have hsome := (drain_cons e hne).1
  rw [h] at hsome
  cases hsome

theorem turn_step (s : Emitting) (t : EventThread) (w : Wake) : Turn s t (step s t w).2.1 (step s t w).2.2 := by
  cases t with
  | loading ev =>
    cases h : s.current with
    | none => simpa only [step, h] using Turn.loadNone ev h
    | some i => simpa only [step, h] using Turn.load ev h
  | emitting i ev => exact .emit i ev
  | flusher i =>
    cases w with
    | stop =>
      simp only [step]
      split_ifs with h
      · exact .exit h
      · exact .idle i
    | tick => exact .tick i
    | signal =>
      simp only [step]
      split_ifs
      · exact .signal i
      · exact .idle i
  | flushing i last =>
    rcases h : (s.slots i).emitter.drain with ⟨_ | batch, emitter⟩
    · have hempty : (s.slots i).content = [] := content_of_drain_none h
      cases last with
      | false => simpa [step, h] using Turn.drained hempty
      | true => simpa [step, h] using Turn.finish hempty
    · simpa only [step, h] using Turn.drain last h
  | sending i last batch => exact .send i last batch
  | creating cfg =>
    by_cases h : cfg.1.enabled
    · simpa [step, Emitter.newEmitter, h] using Turn.create cfg
    · simpa [step, Emitter.newEmitter, h] using Turn.disable cfg
  | swapping new =>
    cases h : s.current with
    | none => simpa only [step, h] using Turn.swapNone new h
    | some old => simpa only [step, h] using Turn.swap new h
  | closing i => exact .close i
  | waiting i =>
    by_cases h : (s.slots i).exited = true
    · simpa [step, h] using Turn.last h
    · simpa [step, h] using Turn.wait i

section Turn
variable {s s' : Emitting} {t : EventThread} {ts : List EventThread} {i : ℕ}

@[simp] theorem slots_modify (s : Emitting) (i j : ℕ) (f : Running → Running) :
    (s.modify j f).slots i = if i = j then f (s.slots i) else s.slots i := by
  unfold modify
  by_cases h : i = j
  · subst h
    simp
  · simp [h]

def inPlace (s : Emitting) (i : ℕ) : ℕ := if s.current = some i then 1 else 0

@[simp] theorem inPlace_modify (s : Emitting) (i j : ℕ) (f : Running → Running) :
    (s.modify j f).inPlace i = s.inPlace i := rfl

@[simp] theorem inPlace_create (s : Emitting) (e : Emitter) (i : ℕ) : (s.create e).inPlace i = s.inPlace i := rfl

theorem slots_create (s : Emitting) (e : Emitter) (hi : i < s.count) : (s.create e).slots i = s.slots i :=
  Function.update_of_ne hi.ne ..

theorem slots_create_self (s : Emitting) (e : Emitter) : (s.create e).slots s.count = { emitter := e } :=
  Function.update_self ..

theorem flushes_turn (h : Turn s t s' ts) (hi : i < s.count)
    (hexited : flushes i t = true → (s.slots i).exited = false) :
    ts.countP (flushes i) + (s'.slots i).exited.toNat =
      (if flushes i t then 1 else 0) + (s.slots i).exited.toNat := by
  cases h with
  | @exit j hdone =>
    by_cases hj : j = i
    · subst hj
      simp [hexited (by simp [flushes]), flushes]
    · simp [flushes, hj, Ne.symm hj]
  | create cfg =>
    rw [slots_create _ _ hi]
    simp [flushes, hi.ne']
  | _ => simp [flushes, Running.send] <;> split_ifs <;> rfl

theorem holds_turn (h : Turn s t s' ts) (hi : i < s.count) (hdone : holds i t = true → (s.slots i).done = false) :
    ts.countP (holds i) + s'.inPlace i + (s'.slots i).done.toNat =
      (if holds i t then 1 else 0) + s.inPlace i + (s.slots i).done.toNat := by
  cases h with
  | create cfg =>
    rw [slots_create _ _ hi]
    simp [holds, hi.ne']
  | swapNone new hcurrent => simp [holds, inPlace, hcurrent]
  | swap new hcurrent =>
    simp [holds, inPlace, hcurrent]
    omega
  | close j =>
    by_cases hj : j = i
    · subst hj
      simp [hdone (by simp [holds]), holds]
      omega
    · simp [holds, hj, Ne.symm hj]
  | _ => simp [holds, Running.send] <;> split_ifs <;> rfl

theorem closes_turn (h : Turn s t s' ts) (hi : i < s.count) (hdone : holds i t = true → (s.slots i).done = false)
    (hfinished : closes i t = true → (s.slots i).finished = false) :
    ts.countP (closes i) + (s'.slots i).finished.toNat + (s.slots i).done.toNat =
      (if closes i t then 1 else 0) + (s.slots i).finished.toNat + (s'.slots i).done.toNat := by
  cases h with
  | create cfg =>
    rw [slots_create _ _ hi]
    simp [closes]
  | close j =>
    by_cases hj : j = i
    · subst hj
      simp [hdone (by simp [holds]), closes]
      omega
    · simp [closes, hj, Ne.symm hj]
  | @finish j hempty =>
    by_cases hj : j = i
    · subst hj
      simp [hfinished (by simp [closes]), closes]
    · simp [closes, hj, Ne.symm hj]
  | _ => simp [closes, Running.send] <;> split_ifs <;> rfl

theorem modify_cases {P : Running → Prop} {j : ℕ} {f : Running → Running} (hself : i = j → P (f (s.slots i)))
    (hother : i ≠ j → P (s.slots i)) : P ((s.modify j f).slots i) := by
  rw [slots_modify]
  split_ifs with h
  · exact hself h
  · exact hother h

theorem exited_send (r : Running) (batch : List UsageEvent) : (r.send batch).exited = r.exited := by
  unfold Running.send
  split_ifs <;> rfl

theorem done_send (r : Running) (batch : List UsageEvent) : (r.send batch).done = r.done := by
  unfold Running.send
  split_ifs <;> rfl

theorem exited_turn (h : Turn s t s' ts) (hi : i < s.count) : (s.slots i).Exits (s'.slots i) := by
  have hsame : (s.slots i).Exits (s.slots i) := .of_eq rfl rfl
  cases h with
  | create cfg => rwa [slots_create _ _ hi]
  | exit hdone =>
    refine modify_cases ?_ fun _ => hsame
    rintro rfl
    exact ⟨fun _ => rfl, fun _ _ => hdone⟩
  | close j => exact modify_cases (fun _ => ⟨id, fun _ _ => rfl⟩) fun _ => hsame
  | send j last batch =>
    exact modify_cases (fun _ => .of_eq (exited_send _ batch) (done_send _ batch)) fun _ => hsame
  | emit | signal | drain | finish => exact modify_cases (fun _ => .of_eq rfl rfl) fun _ => hsame
  | _ => exact hsame

theorem finished_send (r : Running) (batch : List UsageEvent) : (r.send batch).finished = r.finished := by
  unfold Running.send
  split_ifs <;> rfl

theorem finished_turn (h : Turn s t s' ts) (hi : i < s.count) (hfinished : (s'.slots i).finished = true) :
    (s.slots i).finished = true ∨ finishes i t = true := by
  revert hfinished
  cases h with
  | create cfg =>
    rw [slots_create _ _ hi]
    exact .inl
  | @finish j hempty =>
    refine modify_cases (P := fun r => r.finished = true → _) ?_ fun _ => .inl
    rintro rfl _
    exact .inr (by simp [finishes])
  | send j last batch =>
    refine modify_cases (P := fun r => r.finished = true → _) ?_ fun _ => .inl
    intro _
    rw [finished_send]
    exact .inl
  | emit | exit | signal | drain | close =>
    exact modify_cases (P := fun r => r.finished = true → _) (fun _ => .inl) fun _ => .inl
  | _ => exact .inl

theorem finishes_turn (h : Turn s t s' ts) (hlast : finishes i t = true → (s.slots i).exited = true) :
    ∀ u ∈ ts, finishes i u = true → (s.slots i).exited = true := by
  cases h with
  | @last j hexited =>
    refine List.forall_mem_singleton.mpr fun hfinishes => ?_
    simp only [finishes, Bool.and_true, decide_eq_true_eq] at hfinishes
    rwa [← hfinishes]
  | drain last hdrain => exact List.forall_mem_singleton.mpr hlast
  | send j last batch => exact List.forall_mem_singleton.mpr hlast
  | _ => simp [finishes]

theorem sound_turn {rest : List UsageEvent} (h : Turn s t s' ts) (hi : i < s.count)
    (hsound : (s.slots i).Sound (carries i t ++ rest)) : (s'.slots i).Sound (ts.flatMap (carries i) ++ rest) := by
  cases h with
  | create cfg =>
    rw [slots_create _ _ hi]
    exact hsound
  | emit j ev => exact modify_cases (P := (·.Sound _)) (fun _ => hsound.emit ev) fun _ => hsound
  | @drain j last batch emitter hdrain =>
    refine modify_cases (P := (·.Sound _)) ?_ ?_
    · rintro rfl
      simpa [carries] using hsound.drain hdrain
    · intro hne
      simpa [carries, hne.symm] using hsound
  | send j last batch =>
    refine modify_cases (P := (·.Sound _)) ?_ ?_
    · rintro rfl
      have hbatch : (s.slots i).Sound (batch ++ rest) := by simpa [carries] using hsound
      exact hbatch.send
    · intro hne
      simpa [carries, hne.symm] using hsound
  | exit | signal | finish | close =>
    exact modify_cases (P := (·.Sound _)) (fun _ => ⟨hsound.url, hsound.dropped, hsound.account⟩) fun _ => hsound
  | _ => exact hsound

theorem count_le_turn (h : Turn s t s' ts) : s.count ≤ s'.count := by
  cases h with
  | create cfg => exact Nat.le_succ _
  | _ => exact le_rfl

theorem known_turn (h : Turn s t s' ts) (hcurrent : ∀ j ∈ s.current, j < s.count)
    (hknown : ∀ j ∈ refersTo t, j < s.count) :
    (∀ j ∈ s'.current, j < s'.count) ∧ ∀ u ∈ ts, ∀ j ∈ refersTo u, j < s'.count := by
  cases h with
  | create cfg =>
    refine ⟨fun j hj => (hcurrent j hj).trans (Nat.lt_succ_self _), ?_⟩
    simp [refersTo, Emitting.create]
  | load ev h => exact ⟨hcurrent, List.forall_mem_singleton.mpr fun j hj => hcurrent j (h.trans hj)⟩
  | swap new h => exact ⟨hknown, List.forall_mem_singleton.mpr fun j hj => hcurrent j (h.trans hj)⟩
  | swapNone new h => exact ⟨hknown, by rintro u ⟨⟩⟩
  | loadNone | emit | exit | finish => exact ⟨hcurrent, by rintro u ⟨⟩⟩
  | disable => exact ⟨hcurrent, List.forall_mem_singleton.mpr (by rintro j ⟨⟩)⟩
  | _ => exact ⟨hcurrent, List.forall_mem_singleton.mpr hknown⟩

theorem count_turn (h : Turn s t s' ts) (hi : i < s'.count) :
    i < s.count ∨ i = s.count ∧ ∃ cfg : HTTPConfig, s' = s.create (.fresh cfg.1) ∧
      ts = [.flusher s.count, .swapping (some s.count)] := by
  cases h with
  | create cfg =>
    rcases Nat.lt_succ_iff_lt_or_eq.mp hi with hlt | rfl
    · exact .inl hlt
    · exact .inr ⟨rfl, cfg, rfl, rfl⟩
  | _ => exact .inl hi

theorem strange (h : refersTo t ≠ some i) :
    flushes i t = false ∧ holds i t = false ∧ closes i t = false ∧ finishes i t = false ∧ carries i t = [] := by
  cases t <;> simp_all [refersTo, flushes, holds, closes, finishes, carries]

/-- An emitter has a flush loop until that has returned; it is with a reload or in place until its `done` channel is
closed; from then on a reload sees to it until it is finished, and drains it once the flush loop has returned. -/
structure Kept (s : Emitting) (ts : List EventThread) (i : ℕ) : Prop where
  flusher : ts.countP (flushes i) + (s.slots i).exited.toNat = 1
  holder : ts.countP (holds i) + s.inPlace i + (s.slots i).done.toNat = 1
  closer : ts.countP (closes i) + (s.slots i).finished.toNat = (s.slots i).done.toNat
  last : ∀ t ∈ ts, finishes i t = true → (s.slots i).exited = true
  ended : (s.slots i).finished = true → (s.slots i).exited = true
  exits : (s.slots i).exited = true → (s.slots i).done = true
  sound : (s.slots i).Sound (ts.flatMap (carries i))

structure Ordered (s : Emitting) (ts : List EventThread) : Prop where
  current : ∀ i ∈ s.current, i < s.count
  known : ∀ t ∈ ts, ∀ i ∈ refersTo t, i < s.count
  kept : ∀ i < s.count, s.Kept ts i

section Kept
variable {l₁ l₂ : List EventThread}

theorem Kept.turn (hkept : s.Kept (l₁ ++ t :: l₂) i) (h : Turn s t s' ts) (hi : i < s.count) :
    s'.Kept (l₁ ++ ts ++ l₂) i := by
  have hflushes := System.countP_replace (flushes i) t l₁ ts l₂
  have hholds := System.countP_replace (holds i) t l₁ ts l₂
  have hcloses := System.countP_replace (closes i) t l₁ ts l₂
  have hflusher := hkept.flusher
  have hholder := hkept.holder
  have hcloser := hkept.closer
  have hexited : flushes i t = true → (s.slots i).exited = false := by
    intro ht
    have hpos : 0 < (l₁ ++ t :: l₂).countP (flushes i) := System.countP_pos ht
    exact Bool.toNat_eq_zero.mp (by omega)
  have hdone : holds i t = true → (s.slots i).done = false := by
    intro ht
    have hpos : 0 < (l₁ ++ t :: l₂).countP (holds i) := System.countP_pos ht
    exact Bool.toNat_eq_zero.mp (by omega)
  have hfinished : closes i t = true → (s.slots i).finished = false := by
    intro ht
    have hpos : 0 < (l₁ ++ t :: l₂).countP (closes i) := System.countP_pos ht
    have hle := (s.slots i).done.toNat_le
    exact Bool.toNat_eq_zero.mp (by omega)
  have hflushes' := flushes_turn h hi hexited
  have hholds' := holds_turn h hi hdone
  have hcloses' := closes_turn h hi hdone hfinished
  refine ⟨by omega, by omega, by omega, ?_, ?_, (exited_turn h hi).closed hkept.exits, ?_⟩
  · have hnew := finishes_turn h (hkept.last t (List.mem_append_cons_self ..))
    refine System.forall_replace hkept.last (fun u hu hlast => (exited_turn h hi).stays (hu hlast)) ?_
    exact fun u hu hlast => (exited_turn h hi).stays (hnew u hu hlast)
  · intro hfinished
    rcases finished_turn h hi hfinished with hbefore | hlast
    · exact (exited_turn h hi).stays (hkept.ended hbefore)
    · exact (exited_turn h hi).stays (hkept.last t (List.mem_append_cons_self ..) hlast)
  · have hold := hkept.sound
    rw [List.flatMap_append, List.flatMap_cons] at hold
    have hnew := sound_turn h hi (hold.perm (List.perm_append_comm_assoc ..))
    refine hnew.perm ?_
    rw [List.flatMap_append, List.flatMap_append, List.append_assoc]
    exact List.perm_append_comm_assoc ..

theorem strangers (h : ∀ u ∈ ts, refersTo u ≠ some i) :
    ts.countP (flushes i) = 0 ∧ ts.countP (holds i) = 0 ∧ ts.countP (closes i) = 0 ∧ ts.flatMap (carries i) = [] := by
  refine ⟨?_, ?_, ?_, ?_⟩
  · exact System.countP_eq_zero_of_forall fun u hu => (strange (h u hu)).1
  · exact System.countP_eq_zero_of_forall fun u hu => (strange (h u hu)).2.1
  · exact System.countP_eq_zero_of_forall fun u hu => (strange (h u hu)).2.2.1
  · exact List.flatMap_eq_nil_iff.mpr fun u hu => (strange (h u hu)).2.2.2.2

theorem Kept.arrive (hkept : s.Kept ts i) (h : refersTo t ≠ some i) : s.Kept (ts ++ [t]) i := by
  obtain ⟨hflushes, hholds, hcloses, hcarries⟩ := strangers (i := i) (List.forall_mem_singleton.mpr h)
  refine ⟨?_, ?_, ?_, ?_, hkept.ended, hkept.exits, ?_⟩
  · rw [List.countP_append, hflushes]
    exact hkept.flusher
  · rw [List.countP_append, hholds]
    exact hkept.holder
  · rw [List.countP_append, hcloses]
    exact hkept.closer
  · refine List.forall_mem_append.mpr ⟨hkept.last, List.forall_mem_singleton.mpr fun hlast => ?_⟩
    rw [(strange h).2.2.2.1] at hlast
    cases hlast
  · rw [List.flatMap_append, hcarries, List.append_nil]
    exact hkept.sound

theorem kept_create (cfg : HTTPConfig) (hstrange : ∀ u ∈ l₁ ++ t :: l₂, refersTo u ≠ some s.count)
    (hcurrent : s.current ≠ some s.count) :
    (s.create (.fresh cfg.1)).Kept (l₁ ++ [.flusher s.count, .swapping (some s.count)] ++ l₂) s.count := by
  have hslot := slots_create_self s (.fresh cfg.1)
  have hplace : (s.create (.fresh cfg.1)).inPlace s.count = 0 := if_neg hcurrent
  obtain ⟨hflushes₁, hholds₁, hcloses₁, hcarries₁⟩ :=
    strangers (i := s.count) fun u hu => hstrange u (List.mem_append_left _ hu)
  obtain ⟨hflushes₂, hholds₂, hcloses₂, hcarries₂⟩ :=
    strangers (i := s.count) fun u hu => hstrange u (List.mem_append_right _ (List.mem_cons_of_mem _ hu))
  refine ⟨?_, ?_, ?_, ?_, ?_, ?_, ?_⟩
  · simp [hslot, hflushes₁, hflushes₂, flushes]
  · simp [hslot, hplace, hholds₁, hholds₂, holds]
  · simp [hslot, hcloses₁, hcloses₂, closes]
  · refine System.forall_replace (fun u hu => (strange (hstrange u hu)).2.2.2.1) ?_ (by simp [finishes])
    intro u hu hlast
    rw [hu] at hlast
    cases hlast
  · rw [hslot]
    rintro ⟨⟩
  · rw [hslot]
    exact id
  · rw [hslot]
    simpa [hcarries₁, hcarries₂, carries] using Running.sound_new cfg

end Kept

theorem keeps_ordered : system.Keeps (fun _ => True) (fun _ _ _ _ => True) Ordered where
  arrive := by
    intro s ts a h _
    have hnew : refersTo (system.arrive a) = none := by cases a <;> rfl
    refine ⟨h.current, ?_, ?_⟩
    · refine List.forall_mem_append.mpr ⟨h.known, List.forall_mem_singleton.mpr ?_⟩
      rw [hnew]
      rintro i ⟨⟩
    · intro i hi
      refine (h.kept i hi).arrive ?_
      rw [hnew]
      rintro ⟨⟩
  step := by
    intro s l₁ t l₂ w h _
    have hturn := turn_step s t w
    have ht : t ∈ l₁ ++ t :: l₂ := List.mem_append_cons_self ..
    have hcount := count_le_turn hturn
    obtain ⟨hcurrent, hknown⟩ := known_turn hturn h.current (h.known t ht)
    refine ⟨hcurrent, ?_, ?_⟩
    · exact System.forall_replace h.known (fun u hu i hi => (hu i hi).trans_le hcount) hknown
    · intro i hi
      rcases count_turn hturn hi with hlt | ⟨rfl, cfg, hs, hts⟩
      · exact (h.kept i hlt).turn hturn hlt
      · simp only [system, hs, hts]
        refine kept_create cfg (t := t) ?_ ?_
        · exact fun u hu heq => lt_irrefl _ (h.known u hu _ heq)
        · exact fun heq => lt_irrefl _ (h.current _ heq)

theorem ordered_starting (cfg : HTTPConfig) : Ordered (starting cfg).shared (starting cfg).threads := by
  unfold starting Emitter.newEmitter
  split_ifs
  · refine ⟨?_, ?_, ?_⟩
    · rintro i ⟨⟩
      exact Nat.one_pos
    · refine List.forall_mem_singleton.mpr ?_
      rintro i ⟨⟩
      exact Nat.one_pos
    · intro i hi
      obtain rfl := Nat.lt_one_iff.mp hi
      refine ⟨rfl, rfl, rfl, ?_, ?_, id, Running.sound_new cfg⟩
      · simp [finishes]
      · rintro ⟨⟩
  · refine ⟨?_, ?_, ?_⟩
    · rintro i ⟨⟩
    · rintro t ⟨⟩
    · intro i hi
      cases hi

end Turn
end Emitting
end EdgeQuota.Events
