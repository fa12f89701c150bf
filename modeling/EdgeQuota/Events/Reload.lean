import EdgeQuota.Events.Emitting

/-! What becomes of events across reloads: whoever has the emitter at hand empties it, and what is emitted on an emitter
after its last flush stays there. -/

namespace EdgeQuota.Events
open Go Lib

namespace Emitting

section Turn
variable {s s' : Emitting} {t : EventThread} {ts : List EventThread} {i : ℕ}

def Attended (s : Emitting) (i : ℕ) : Prop := (s.slots i).content ≠ [] → (s.slots i).finished = false

def Timely (s : Emitting) (_ : List EventThread) (t : EventThread) (_ : Wake) : Prop :=
  ∀ i ev, t = .emitting i ev → (s.slots i).finished = false

theorem attended_starting (cfg : HTTPConfig) : ∀ i < (starting cfg).shared.count, (starting cfg).shared.Attended i := by
  unfold starting
  cases Emitter.newEmitter cfg.1 with
  | none => exact fun _ _ _ => rfl
  | some e => exact fun _ _ _ => rfl

theorem content_emit_ne (r : Running) (ev : UsageEvent) : (r.emit ev).content ≠ [] := by
  have hcontent : (r.emit ev).content = _ := content_emit r.emitter ev
  rw [hcontent]
  exact List.append_ne_nil_of_right_ne_nil _ (List.cons_ne_nil _ _)

theorem content_drain {r : Running} {batch : List UsageEvent} {e : Emitter}
    (h : r.emitter.drain = (some batch, e)) :
    r.content ≠ [] ∧ e.ring.content = r.content.drop r.emitter.batchSize := by
  have hne : r.emitter.ring.content ≠ [] := by
    intro hnil
    rw [drain_nil _ hnil] at h
    cases h
  have hrest := (drain_cons r.emitter hne).2
  rw [h] at hrest
  exact ⟨hne, hrest⟩

theorem content_send (r : Running) (batch : List UsageEvent) : (r.send batch).content = r.content := by
  unfold Running.send
  split_ifs <;> rfl

theorem attended_modify {j : ℕ} {f : Running → Running} (hattended : ∀ i < s.count, s.Attended i)
    (hself : j < s.count → (f (s.slots j)).content ≠ [] → (f (s.slots j)).finished = false) :
    ∀ i < (s.modify j f).count, (s.modify j f).Attended i := by
  intro i hi
  refine modify_cases (P := fun r => r.content ≠ [] → r.finished = false) ?_ fun _ => hattended i hi
  rintro rfl
  exact hself hi

theorem attended_turn_iff (h : Turn s t s' ts) (hknown : ∀ j ∈ refersTo t, j < s.count)
    (hattended : ∀ i < s.count, s.Attended i) :
    (∀ i < s'.count, s'.Attended i) ↔ ∀ i ev, t = .emitting i ev → (s.slots i).finished = false := by
  cases h with
  | emit j ev =>
    constructor
    · rintro hall i ev' ⟨⟩
      have hself := hall j (hknown j rfl)
      unfold Attended at hself
      rw [slots_modify, if_pos rfl] at hself
      exact hself (content_emit_ne _ ev)
    · intro htimely
      exact attended_modify hattended fun _ _ => htimely j ev rfl
  | create cfg =>
    refine iff_of_true ?_ (by rintro i ev ⟨⟩)
    intro i hi
    unfold Attended
    rcases Nat.lt_succ_iff_lt_or_eq.mp hi with hlt | rfl
    · rw [slots_create _ _ hlt]
      exact hattended i hlt
    · intro _
      rw [slots_create_self]
  | @drain j last batch e hdrain =>
    refine iff_of_true ?_ (by rintro i ev ⟨⟩)
    exact attended_modify hattended fun hj _ => hattended j hj (content_drain hdrain).1
  | finish hempty =>
    refine iff_of_true ?_ (by rintro i ev ⟨⟩)
    exact attended_modify hattended fun _ hne => absurd hempty hne
  | send j last batch =>
    refine iff_of_true ?_ (by rintro i ev ⟨⟩)
    refine attended_modify hattended fun hj => ?_
    rw [content_send, finished_send]
    exact hattended j hj
  | exit | signal | close =>
    refine iff_of_true ?_ (by rintro i ev ⟨⟩)
    exact attended_modify hattended fun hj => hattended _ hj
  | _ => exact iff_of_true hattended (by rintro i ev ⟨⟩)

end Turn

section Progress
variable {s : Emitting} {ts l₁ l₂ : List EventThread} {t : EventThread} {i : ℕ} {last : Bool}

def Empties (i : ℕ) (last : Bool) (s : Emitting) (l₁ : List EventThread) (t : EventThread) (l₂ : List EventThread) :
    Prop :=
  ∃ ws : List Wake,
    let c := system.machine.run ⟨s, l₁ ++ t :: l₂⟩ (ws.map (.run l₁.length))
    c.threads = l₁ ++ (if last then [] else [.flusher i]) ++ l₂ ∧ c.shared.count = s.count ∧
      (c.shared.slots i).content = [] ∧ (c.shared.slots i).emitted = (s.slots i).emitted ∧
      (last = true → (c.shared.slots i).finished = true)

theorem run_turn {s₁ : Emitting} {w : Wake} (ws : List Wake) (hstep : step s t w = ([], s₁, ts)) :
    system.machine.run ⟨s, l₁ ++ t :: l₂⟩ ((w :: ws).map (.run l₁.length)) =
      system.machine.run ⟨s₁, l₁ ++ ts ++ l₂⟩ (ws.map (.run l₁.length)) := by
  have hmove : system.move ⟨s, l₁ ++ t :: l₂⟩ (.run l₁.length w) = ([], ⟨s₁, l₁ ++ ts ++ l₂⟩) :=
    System.move_at l₁ l₂ hstep
  rw [List.map_cons, Machine.run]
  exact congrArg (fun p => system.machine.run p.2 _) hmove

theorem Empties.turn {s₁ : Emitting} {t₁ : EventThread} {w : Wake} (h : Empties i last s₁ l₁ t₁ l₂)
    (hstep : step s t w = ([], s₁, [t₁])) (hcount : s₁.count = s.count)
    (hemitted : (s₁.slots i).emitted = (s.slots i).emitted) : Empties i last s l₁ t l₂ := by
  obtain ⟨ws, hrest⟩ := h
  refine ⟨w :: ws, ?_⟩
  rw [run_turn ws hstep, List.append_assoc, List.singleton_append]
  obtain ⟨hthreads, hcount', hcontent, hemitted', hfinished⟩ := hrest
  exact ⟨hthreads, hcount'.trans hcount, hcontent, hemitted'.trans hemitted, hfinished⟩

theorem emitted_send (r : Running) (batch : List UsageEvent) : (r.send batch).emitted = r.emitted := by
  unfold Running.send
  split_ifs <;> rfl

theorem empties_flushing (i : ℕ) (last : Bool) (s : Emitting) (l₁ l₂ : List EventThread) :
    Empties i last s l₁ (.flushing i last) l₂ := by
  generalize hn : (s.slots i).content.length = n
  induction n using Nat.strong_induction_on generalizing s with
  | _ n ih =>
    rcases hdrain : (s.slots i).emitter.drain with ⟨_ | batch, e⟩
    · have hempty : (s.slots i).content = [] := content_of_drain_none hdrain
      refine ⟨[.tick], ?_⟩
      cases last with
      | false =>
        have hstep : step s (.flushing i false) .tick = ([], s, [.flusher i]) := by simp [step, hdrain]
        rw [run_turn [] hstep]
        exact ⟨rfl, rfl, hempty, rfl, by rintro ⟨⟩⟩
      | true =>
        have hstep : step s (.flushing i true) .tick = ([], s.modify i ({ · with finished := true }), []) := by
          simp [step, hdrain]
        rw [run_turn [] hstep]
        refine ⟨rfl, rfl, ?_⟩
        have hslot : (s.modify i ({ · with finished := true })).slots i = { s.slots i with finished := true } := by simp
        simp only [List.map_nil, Machine.run]
        rw [hslot]
        exact ⟨hempty, rfl, fun _ => rfl⟩
    · obtain ⟨hne, hrest⟩ := content_drain hdrain
      have hsend : Empties i last ((s.modify i ({ · with emitter := e })).modify i (·.send batch)) l₁
          (.flushing i last) l₂ := by
        refine ih _ ?_ _ rfl
        simp only [slots_modify, if_true, content_send]
        change e.ring.content.length < n
        have hpos : 0 < (s.slots i).content.length := List.length_pos_of_ne_nil hne
        have hsize := (s.slots i).emitter.batchSize_pos
        rw [hrest, List.length_drop]
        omega
      have hsending : Empties i last (s.modify i ({ · with emitter := e })) l₁ (.sending i last batch) l₂ := by
        refine hsend.turn (w := .tick) rfl rfl ?_
        rw [slots_modify, if_pos rfl, emitted_send]
      refine hsending.turn (w := .tick) ?_ rfl ?_
      · simp only [step, hdrain]
      · rw [slots_modify, if_pos rfl]

theorem empties_of_flushes (s : Emitting) (l₁ l₂ : List EventThread) (h : flushes i t = true) :
    Empties i false s l₁ t l₂ := by
  have hflushing := fun s => empties_flushing i false s l₁ l₂
  cases t with
  | flusher j =>
    obtain rfl : j = i := by simpa [flushes] using h
    exact (hflushing s).turn (w := .tick) rfl rfl rfl
  | flushing j last =>
    obtain ⟨rfl, rfl⟩ : j = i ∧ last = false := by simpa [flushes] using h
    exact hflushing s
  | sending j last batch =>
    obtain ⟨rfl, rfl⟩ : j = i ∧ last = false := by simpa [flushes] using h
    refine (hflushing _).turn (w := .tick) rfl rfl ?_
    rw [slots_modify, if_pos rfl, emitted_send]
  | loading | emitting | creating | swapping | closing | waiting => cases h

theorem empties_of_closes (s : Emitting) (l₁ l₂ : List EventThread) (h : closes i t = true)
    (hexited : (s.slots i).exited = true) : Empties i true s l₁ t l₂ := by
  have hflushing := fun s => empties_flushing i true s l₁ l₂
  cases t with
  | waiting j =>
    obtain rfl : j = i := by simpa [closes] using h
    refine (hflushing s).turn (w := .tick) ?_ rfl rfl
    simp only [step, hexited, if_true]
  | flushing j last =>
    obtain ⟨rfl, rfl⟩ : j = i ∧ last = true := by simpa [closes] using h
    exact hflushing s
  | sending j last batch =>
    obtain ⟨rfl, rfl⟩ : j = i ∧ last = true := by simpa [closes] using h
    refine (hflushing _).turn (w := .tick) rfl rfl ?_
    rw [slots_modify, if_pos rfl, emitted_send]
  | loading | emitting | flusher | creating | swapping | closing => cases h

/-- Turns of the threads that are there bring the emitter to where all that has been emitted on it is sent or counted
as dropped, while nothing more is emitted on it. -/
def Settles (c : System.Conf Emitting EventThread) (i : ℕ) : Prop :=
  ∃ more : List (System.Move EventArrival Wake), (∀ m ∈ more, ∃ j w, m = .run j w) ∧
    let r := (system.machine.run c more).shared.slots i
    r.emitted = (c.shared.slots i).emitted ∧ r.emitter.dropped = r.overwritten.length ∧
      ∀ ev, r.emitted.count ev = r.sent.count ev + r.overwritten.count ev

theorem carries_eq_nil (hflushes : flushes i t = true → carries i t = []) (hcloses : finishes i t = true → carries i t = []) :
    carries i t = [] := by
  cases t with
  | sending j last batch =>
    by_cases hj : j = i
    · cases last with
      | false => exact hflushes (by simp [flushes, hj])
      | true => exact hcloses (by simp [finishes, hj])
    · exact if_neg hj
  | loading | emitting | flusher | flushing | creating | swapping | closing | waiting => rfl

theorem Kept.settled (hkept : s.Kept ts i) (hempty : (s.slots i).content = []) (hcarries : ∀ u ∈ ts, carries i u = []) :
    (s.slots i).emitter.dropped = (s.slots i).overwritten.length ∧
      ∀ ev, (s.slots i).emitted.count ev = (s.slots i).sent.count ev + (s.slots i).overwritten.count ev := by
  have hsound := hkept.sound
  rw [List.flatMap_eq_nil_iff.mpr hcarries] at hsound
  refine ⟨hsound.dropped, fun ev => ?_⟩
  have := hsound.account ev
  rwa [hempty] at this

theorem finishes_le_closes (h : finishes i t = true) : closes i t = true := by
  cases t with
  | flushing | sending => exact h
  | loading | emitting | flusher | creating | swapping | closing | waiting => cases h

theorem Kept.idle_of_finished (hkept : s.Kept ts i) (hfinished : (s.slots i).finished = true) :
    ∀ u ∈ ts, flushes i u = false ∧ closes i u = false := by
  have hflusher := hkept.flusher
  have hcloser := hkept.closer
  rw [hkept.ended hfinished] at hflusher
  rw [hkept.exits (hkept.ended hfinished), hfinished] at hcloser
  have hflushes := List.countP_eq_zero.mp (Nat.add_right_cancel hflusher)
  have hcloses := List.countP_eq_zero.mp (Nat.add_right_cancel hcloser)
  exact fun u hu => ⟨Bool.eq_false_iff.mpr (hflushes u hu), Bool.eq_false_iff.mpr (hcloses u hu)⟩

theorem Kept.carries_of_finished (hkept : s.Kept ts i) (hfinished : (s.slots i).finished = true) :
    ∀ u ∈ ts, carries i u = [] := by
  intro u hu
  obtain ⟨hflushes, hcloses⟩ := hkept.idle_of_finished hfinished u hu
  apply carries_eq_nil
  · intro h
    rw [hflushes] at h
    cases h
  · intro h
    rw [finishes_le_closes h] at hcloses
    cases hcloses

theorem Kept.carries_of_flusher (hkept : s.Kept (l₁ ++ [.flusher i] ++ l₂) i) :
    ∀ u ∈ l₁ ++ [.flusher i] ++ l₂, carries i u = [] := by
  have hflusher := hkept.flusher
  have hone : [EventThread.flusher i].countP (flushes i) = 1 := by simp [flushes]
  rw [List.countP_append, List.countP_append, hone] at hflusher
  have hflushes₁ : l₁.countP (flushes i) = 0 := by omega
  have hflushes₂ : l₂.countP (flushes i) = 0 := by omega
  have hexited : (s.slots i).exited = false := Bool.toNat_eq_zero.mp (by omega)
  intro u hu
  refine carries_eq_nil ?_ ?_
  · intro h
    rcases List.mem_append.mp hu with hu | hu
    · rcases List.mem_append.mp hu with hu | hu
      · exact absurd h (List.countP_eq_zero.mp hflushes₁ u hu)
      · obtain rfl := List.mem_singleton.mp hu
        rfl
    · exact absurd h (List.countP_eq_zero.mp hflushes₂ u hu)
  · intro h
    have := hkept.last u hu h
    rw [hexited] at this
    cases this

theorem settles_of_empties (h : Ordered s (l₁ ++ t :: l₂)) (hi : i < s.count) (hempties : Empties i last s l₁ t l₂) :
    Settles ⟨s, l₁ ++ t :: l₂⟩ i := by
  obtain ⟨ws, hthreads, hcount, hempty, hemitted, hfinished⟩ := hempties
  have hordered := keeps_ordered.always (c := ⟨s, l₁ ++ t :: l₂⟩) h (ws.map (.run l₁.length))
  refine ⟨ws.map (.run l₁.length), ?_, hemitted, ?_⟩
  · intro m hm
    obtain ⟨w, -, rfl⟩ := List.mem_map.mp hm
    exact ⟨l₁.length, w, rfl⟩
  · have hkept := hordered.kept i (hcount ▸ hi)
    refine hkept.settled hempty ?_
    cases last with
    | false =>
      rw [hthreads] at hkept ⊢
      exact hkept.carries_of_flusher
    | true => exact hkept.carries_of_finished (hfinished rfl)

theorem settles_of_attended (h : Ordered s ts) (hi : i < s.count) (hattended : s.Attended i) :
    Settles ⟨s, ts⟩ i := by
  have hkept := h.kept i hi
  cases hfinished : (s.slots i).finished with
  | true =>
    have hempty : (s.slots i).content = [] := by
      by_contra hne
      rw [hattended hne] at hfinished
      cases hfinished
    refine ⟨[], by rintro m ⟨⟩, rfl, ?_⟩
    exact hkept.settled hempty (hkept.carries_of_finished hfinished)
  | false =>
    cases hexited : (s.slots i).exited with
    | false =>
      -- the flush loop is there
      have hflusher := hkept.flusher
      rw [hexited] at hflusher
      have hpos : 0 < ts.countP (flushes i) := Nat.lt_of_lt_of_eq Nat.one_pos hflusher.symm
      obtain ⟨t, ht, hflushes⟩ := List.countP_pos_iff.mp hpos
      obtain ⟨l₁, l₂, rfl⟩ := List.append_of_mem ht
      exact settles_of_empties h hi (empties_of_flushes s l₁ l₂ hflushes)
    | true =>
      -- the reload that closes the emitter is there
      have hcloser := hkept.closer
      rw [hkept.exits hexited, hfinished] at hcloser
      have hpos : 0 < ts.countP (closes i) := Nat.lt_of_lt_of_eq Nat.one_pos hcloser.symm
      obtain ⟨t, ht, hcloses⟩ := List.countP_pos_iff.mp hpos
      obtain ⟨l₁, l₂, rfl⟩ := List.append_of_mem ht
      exact settles_of_empties h hi (empties_of_closes s l₁ l₂ hcloses hexited)

end Progress

section Stranded
variable {s s' : Emitting} {t : EventThread} {ts : List EventThread} {i : ℕ}

theorem content_turn (h : Turn s t s' ts) (hi : i < s.count) (hflushes : flushes i t = false)
    (hcloses : closes i t = false) :
    ((s.slots i).finished = true → (s'.slots i).finished = true) ∧
      ((∃ ev, (s'.slots i).emitted = (s.slots i).emitted ++ [ev]) ∨
        (s'.slots i).emitted = (s.slots i).emitted ∧ (s'.slots i).content = (s.slots i).content) := by
  cases h with
  | create cfg =>
    rw [slots_create _ _ hi]
    exact ⟨id, .inr ⟨rfl, rfl⟩⟩
  | emit j ev =>
    exact modify_cases (P := fun r => (_ → r.finished = true) ∧ ((∃ ev, r.emitted = _ ++ [ev]) ∨ r.emitted = _ ∧ r.content = _))
      (fun _ => ⟨id, .inl ⟨ev, rfl⟩⟩) fun _ => ⟨id, .inr ⟨rfl, rfl⟩⟩
  | @drain j last batch e hdrain =>
    have hne : i ≠ j := by
      rintro rfl
      cases last with
      | false => simp [flushes] at hflushes
      | true => simp [closes] at hcloses
    rw [slots_modify, if_neg hne]
    exact ⟨id, .inr ⟨rfl, rfl⟩⟩
  | send j last batch =>
    refine modify_cases (P := fun r => (_ → r.finished = true) ∧ ((∃ ev, r.emitted = _ ++ [ev]) ∨ r.emitted = _ ∧ r.content = _))
      ?_ fun _ => ⟨id, .inr ⟨rfl, rfl⟩⟩
    intro _
    rw [finished_send, emitted_send, content_send]
    exact ⟨id, .inr ⟨rfl, rfl⟩⟩
  | finish =>
    exact modify_cases (P := fun r => (_ → r.finished = true) ∧ ((∃ ev, r.emitted = _ ++ [ev]) ∨ r.emitted = _ ∧ r.content = _))
      (fun _ => ⟨fun _ => rfl, .inr ⟨rfl, rfl⟩⟩) fun _ => ⟨id, .inr ⟨rfl, rfl⟩⟩
  | exit | signal | close =>
    exact modify_cases (P := fun r => (_ → r.finished = true) ∧ ((∃ ev, r.emitted = _ ++ [ev]) ∨ r.emitted = _ ∧ r.content = _))
      (fun _ => ⟨id, .inr ⟨rfl, rfl⟩⟩) fun _ => ⟨id, .inr ⟨rfl, rfl⟩⟩
  | _ => exact ⟨id, .inr ⟨rfl, rfl⟩⟩

def Stuck (i : ℕ) (emitted content : List UsageEvent) (s : Emitting) : Prop :=
  i < s.count ∧ (s.slots i).finished = true ∧
    (emitted.length < (s.slots i).emitted.length ∨ (s.slots i).emitted = emitted ∧ (s.slots i).content = content)

theorem keeps_stuck (i : ℕ) (emitted content : List UsageEvent) :
    system.Keeps (fun _ => True) (fun _ _ _ _ => True) fun s ts => Ordered s ts ∧ s.Stuck i emitted content where
  arrive h _ := ⟨keeps_ordered.arrive h.1 trivial, h.2⟩
  step := by
    rintro s l₁ t l₂ w ⟨hordered, hi, hfinished, hstuck⟩ _
    have hturn := turn_step s t w
    have hkept := hordered.kept i hi
    obtain ⟨hflushes, hcloses⟩ := hkept.idle_of_finished hfinished t (List.mem_append_cons_self ..)
    obtain ⟨hstays, hcontent⟩ := content_turn hturn hi hflushes hcloses
    refine ⟨keeps_ordered.step hordered trivial, hi.trans_le (count_le_turn hturn), hstays hfinished, ?_⟩
    rcases hcontent with ⟨ev, hemitted⟩ | ⟨hemitted, hcontent⟩
    · left
      change emitted.length < ((step s t w).2.1.slots i).emitted.length
      rw [hemitted, List.length_append, List.length_singleton]
      rcases hstuck with hmore | ⟨hsame, -⟩
      · omega
      · rw [hsame]
        omega
    · change _ < ((step s t w).2.1.slots i).emitted.length ∨
        ((step s t w).2.1.slots i).emitted = emitted ∧ ((step s t w).2.1.slots i).content = content
      rw [hemitted, hcontent]
      exact hstuck

theorem settles_iff (h : Ordered s ts) (hi : i < s.count) : Settles ⟨s, ts⟩ i ↔ s.Attended i := by
  refine ⟨?_, settles_of_attended h hi⟩
  rintro ⟨more, -, hemitted, -, haccount⟩ hne
  by_contra hfinished
  have hstart : s.Stuck i (s.slots i).emitted (s.slots i).content :=
    ⟨hi, Bool.not_eq_false _ ▸ hfinished, .inr ⟨rfl, rfl⟩⟩
  obtain ⟨hordered, hcount, -, hstuck⟩ := (keeps_stuck i _ _).always (c := ⟨s, ts⟩) ⟨h, hstart⟩ more
  rcases hstuck with hmore | ⟨-, hcontent⟩
  · exact absurd (congrArg List.length hemitted) hmore.ne'
  · -- what is left in the buffer is neither sent nor overwritten
    obtain ⟨ev, hev⟩ := List.exists_mem_of_ne_nil _ hne
    have hcount' := (hordered.kept i hcount).sound.account ev
    have hpos : 0 < (s.slots i).content.count ev := List.count_pos_iff.mpr hev
    rw [hcontent, haccount ev] at hcount'
    omega

/-- **Events across reloads.** However requests and reloads come and all threads take their turns: at every moment all
that has been emitted on any emitter will be handed to a send attempt or is counted as dropped, once the threads that
are there have taken their turns; exactly as long as no request emits on an emitter whose `Close` has drained it for
the last time. -/
theorem events_settle_iff (cfg : HTTPConfig) (ms : List (System.Move EventArrival Wake)) :
    (∀ done, done <+: ms → ∀ i < (system.machine.run (starting cfg) done).shared.count,
        Settles (system.machine.run (starting cfg) done) i) ↔
      system.machine.Along (System.Obeys (fun _ => True) Timely) (starting cfg) ms := by
  have hattended : (∀ done, done <+: ms → ∀ i < (system.machine.run (starting cfg) done).shared.count,
      (system.machine.run (starting cfg) done).shared.Attended i) ↔
        system.machine.Along (System.Obeys (fun _ => True) Timely) (starting cfg) ms := by
    refine keeps_ordered.forall_run_iff (I := fun (s : Emitting) _ => ∀ i < s.count, s.Attended i) (fun h => h) ?_
      (ordered_starting cfg) (attended_starting cfg)
    intro s l₁ t l₂ w hordered hall
    exact attended_turn_iff (turn_step s t w) (hordered.known t (List.mem_append_cons_self ..)) hall
  rw [← hattended]
  refine forall_congr' fun done => imp_congr_right fun _ => forall_congr' fun i => imp_congr_right fun hi => ?_
  exact settles_iff (keeps_ordered.always (ordered_starting cfg) done) hi

theorem strange_turn (h : Turn s t s' ts) (hi : i < s.count) (hcurrent : s.current ≠ some i)
    (hstrange : refersTo t ≠ some i) :
    s'.slots i = s.slots i ∧ s'.current ≠ some i ∧ ∀ u ∈ ts, refersTo u ≠ some i := by
  cases h with
  | create cfg =>
    refine ⟨slots_create _ _ hi, hcurrent, ?_⟩
    simp [refersTo, hi.ne']
  | load ev h => exact ⟨rfl, hcurrent, List.forall_mem_singleton.mpr fun heq => hcurrent (h.trans heq)⟩
  | swap new h => exact ⟨rfl, hstrange, List.forall_mem_singleton.mpr fun heq => hcurrent (h.trans heq)⟩
  | swapNone new h => exact ⟨rfl, hstrange, by rintro u ⟨⟩⟩
  | loadNone => exact ⟨rfl, hcurrent, by rintro u ⟨⟩⟩
  | disable => exact ⟨rfl, hcurrent, List.forall_mem_singleton.mpr (by rintro ⟨⟩)⟩
  | emit | exit | finish =>
    refine ⟨?_, hcurrent, by rintro u ⟨⟩⟩
    rw [slots_modify, if_neg fun heq => hstrange (congrArg some heq.symm)]
  | signal | drain | send | close =>
    refine ⟨?_, hcurrent, List.forall_mem_singleton.mpr hstrange⟩
    rw [slots_modify, if_neg fun heq => hstrange (congrArg some heq.symm)]
  | _ => exact ⟨rfl, hcurrent, List.forall_mem_singleton.mpr hstrange⟩

theorem keeps_strange (i : ℕ) (r : Running) :
    system.Keeps (fun _ => True) (fun _ _ _ _ => True) fun s ts =>
      i < s.count ∧ s.slots i = r ∧ s.current ≠ some i ∧ ∀ t ∈ ts, refersTo t ≠ some i where
  arrive := by
    rintro s ts a ⟨hi, hslot, hcurrent, hstrange⟩ _
    refine ⟨hi, hslot, hcurrent, List.forall_mem_append.mpr ⟨hstrange, List.forall_mem_singleton.mpr ?_⟩⟩
    cases a <;> rintro ⟨⟩
  step := by
    rintro s l₁ t l₂ w ⟨hi, hslot, hcurrent, hstrange⟩ _
    have hturn := turn_step s t w
    obtain ⟨hslot', hcurrent', hnew⟩ := strange_turn hturn hi hcurrent (hstrange t (List.mem_append_cons_self ..))
    have hnew := System.forall_replace hstrange (fun u hu => hu) hnew
    exact ⟨hi.trans_le (count_le_turn hturn), hslot'.trans hslot, hcurrent', hnew⟩

def small : HTTPConfig := ⟨{ enabled := true, batchSize := 1, bufferSize := 2, httpURL := str "http://h" }, by decide⟩

/-- A request loads the pointer; a reload swaps the emitter, the flush loop returns and the last flush finds nothing;
then the request emits. -/
def overtaken (ev : UsageEvent) : List (System.Move EventArrival Wake) :=
  [.arrive (.request ev), .run 1 .tick, .arrive (.reload small), .run 2 .tick, .run 3 .tick, .run 3 .tick, .run 0 .stop,
    .run 2 .tick, .run 2 .tick, .run 0 .tick]

theorem event_lost :
    let c := system.machine.run (starting small) (overtaken {})
    (c.shared.slots 0).emitted = [{}] ∧
      ∀ more, ((system.machine.run c more).shared.slots 0).sent = [] ∧
        ((system.machine.run c more).shared.slots 0).emitter.dropped = 0 := by
  intro c
  refine ⟨by decide +kernel, fun more => ?_⟩
  have hstrange := (keeps_strange 0 (c.shared.slots 0)).always (c := c)
    ⟨by decide +kernel, rfl, by decide +kernel, by decide +kernel⟩ more
  rw [hstrange.2.1]
  decide +kernel

end Stranded
end Emitting
end EdgeQuota.Events
