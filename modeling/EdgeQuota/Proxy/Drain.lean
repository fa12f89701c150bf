import EdgeQuota.Lib.Threads

/-! Requests that come in while the proxy is closed: `ServeHTTP` admits under the read lock of `closeMu`, `Close` sets
`closing` under its write lock, waits for the admitted requests and releases the transports. WebSocket upgrades take
no part in this. -/

namespace EdgeQuota.Proxy
open Lib

/-- `closeMu` with the readers and the writer that hold it, the count of `inflight`, the `done` channels that are closed,
and whether `closeOnce` has released the transports. -/
structure Draining where
  readers : ℕ := 0
  writer : Bool := false
  closing : Bool := false
  inflight : ℕ := 0
  channels : ℕ := 0
  done : List ℕ := []
  released : Bool := false

inductive DrainThread where
  | arriving
  | reading
  | refusing
  | admitting
  | admitted
  | working
  | completing (panicked : Bool)
  | locking
  | locked
  | unlocking
  | waiter (channel : ℕ)
  | selecting (channel : ℕ)
  /-- Whether it was the wait that has finished, and not the context that has expired. -/
  | releasing (waited : Bool)
  deriving DecidableEq

inductive DrainArrival where
  | serveHTTP
  | close

inductive DrainTurn where
  | go
  | panics
  | expires
  deriving DecidableEq

inductive DrainOut where
  | draining
  | added
  | ended (panicked : Bool)
  | released (waited : Bool)
  deriving DecidableEq

namespace Draining

def step (s : Draining) : DrainThread → DrainTurn → List DrainOut × Draining × List DrainThread
  | .arriving, _ =>
    if s.writer then ([], s, [.arriving]) else ([], { s with readers := s.readers + 1 }, [.reading])
  | .reading, _ => ([], s, [if s.closing then .refusing else .admitting])
  | .refusing, _ => ([.draining], { s with readers := s.readers - 1 }, [])
  | .admitting, _ => ([.added], { s with inflight := s.inflight + 1 }, [.admitted])
  | .admitted, _ => ([], { s with readers := s.readers - 1 }, [.working])
  | .working, a => ([], s, [.completing (decide (a = .panics))])
  -- `Done` is deferred: it runs whether the handler returns or panics
  | .completing panicked, _ => ([.ended panicked], { s with inflight := s.inflight - 1 }, [])
  | .locking, _ =>
    if s.writer = true ∨ s.readers ≠ 0 then ([], s, [.locking]) else ([], { s with writer := true }, [.locked])
  | .locked, _ => ([], { s with closing := true }, [.unlocking])
  | .unlocking, _ =>
    ([], { s with writer := false, channels := s.channels + 1 }, [.waiter s.channels, .selecting s.channels])
  | .waiter k, _ => if s.inflight = 0 then ([], { s with done := k :: s.done }, []) else ([], s, [.waiter k])
  | .selecting k, a =>
    if a = .expires then ([], s, [.releasing false])
    else if k ∈ s.done then ([], s, [.releasing true])
    else ([], s, [.selecting k])
  | .releasing waited, _ => (if s.released then [] else [.released waited], { s with released := true }, [])

def system : System Draining DrainThread DrainArrival DrainTurn DrainOut where
  arrive
    | .serveHTTP => .arriving
    | .close => .locking
  step := step

def starting : System.Conf Draining DrainThread := ⟨{}, []⟩

def holdsRead : DrainThread → Bool
  | .reading | .refusing | .admitting | .admitted => true
  | .arriving | .working | .completing _ | .locking | .locked | .unlocking | .waiter _ | .selecting _ | .releasing _ => false

def holdsWrite : DrainThread → Bool
  | .locked | .unlocking => true
  | .arriving | .reading | .refusing | .admitting | .admitted | .working | .completing _ | .locking | .waiter _
  | .selecting _ | .releasing _ => false

def isAdmitted : DrainThread → Bool
  | .admitted | .working | .completing _ => true
  | .arriving | .reading | .refusing | .admitting | .locking | .locked | .unlocking | .waiter _ | .selecting _
  | .releasing _ => false

/-- What a thread may count on: a request that has seen the flag unset, that it stays so until the request is counted; a
call of `Close`, that the flag is set, and that its wait is over where it goes on for that reason. -/
def CountsOn (s : Draining) : DrainThread → Prop
  | .admitting => s.closing = false
  | .unlocking | .waiter _ | .selecting _ | .releasing false => s.closing = true
  | .releasing true => s.done ≠ []
  | .arriving | .reading | .refusing | .admitted | .working | .completing _ | .locking | .locked => True

inductive Turn (s : Draining) : DrainThread → Draining → List DrainThread → Prop
  | block (t : DrainThread) : Turn s t s [t]
  | rlock (h : s.writer = false) : Turn s .arriving { s with readers := s.readers + 1 } [.reading]
  | refuse (h : s.closing = true) : Turn s .reading s [.refusing]
  | pass (h : s.closing = false) : Turn s .reading s [.admitting]
  | leave : Turn s .refusing { s with readers := s.readers - 1 } []
  | add : Turn s .admitting { s with inflight := s.inflight + 1 } [.admitted]
  | runlock : Turn s .admitted { s with readers := s.readers - 1 } [.working]
  | work (panicked : Bool) : Turn s .working s [.completing panicked]
  | complete (panicked : Bool) : Turn s (.completing panicked) { s with inflight := s.inflight - 1 } []
  | lock (hwriter : s.writer = false) (hreaders : s.readers = 0) : Turn s .locking { s with writer := true } [.locked]
  | setClosing : Turn s .locked { s with closing := true } [.unlocking]
  | unlock :
    Turn s .unlocking { s with writer := false, channels := s.channels + 1 } [.waiter s.channels, .selecting s.channels]
  | wait (k : ℕ) (h : s.inflight = 0) : Turn s (.waiter k) { s with done := k :: s.done } []
  | proceed {k : ℕ} (h : k ∈ s.done) : Turn s (.selecting k) s [.releasing true]
  | expire (k : ℕ) : Turn s (.selecting k) s [.releasing false]
  | release (waited : Bool) : Turn s (.releasing waited) { s with released := true } []

theorem turn_step (s : Draining) (t : DrainThread) (a : DrainTurn) : Turn s t (step s t a).2.1 (step s t a).2.2 := by
  cases t with
  | arriving =>
    simp only [step]
    split_ifs with h
    · exact .block _
    · exact .rlock (Bool.eq_false_iff.mpr h)
  | reading =>
    simp only [step]
    split_ifs with h
    · exact .refuse h
    · exact .pass (Bool.eq_false_iff.mpr h)
  | refusing => exact .leave
  | admitting => exact .add
  | admitted => exact .runlock
  | working => exact .work _
  | completing panicked => exact .complete panicked
  | locking =>
    simp only [step]
    split_ifs with h
    · exact .block _
    · obtain ⟨hwriter, hreaders⟩ := not_or.mp h
      exact .lock (Bool.eq_false_iff.mpr hwriter) (not_not.mp hreaders)
  | locked => exact .setClosing
  | unlocking => exact .unlock
  | waiter k =>
    simp only [step]
    split_ifs with h
    · exact .wait k h
    · exact .block _
  | selecting k =>
    simp only [step]
    split_ifs with hexpires hdone
    · exact .expire k
    · exact .proceed hdone
    · exact .block _
  | releasing waited => exact .release waited

structure Fenced (s : Draining) (ts : List DrainThread) : Prop where
  readers : ts.countP holdsRead = s.readers
  writer : ts.countP holdsWrite = s.writer.toNat
  exclusive : s.writer = true → s.readers = 0
  counted : ts.countP isAdmitted = s.inflight
  threads : ∀ t ∈ ts, s.CountsOn t
  drained : s.done ≠ [] → s.closing = true ∧ s.inflight = 0

section Turn
variable {s s' : Draining} {t u : DrainThread} {l₁ l₂ ts : List DrainThread}

theorem readers_turn (h : Turn s t s' ts) (hreads : holdsRead t = true → 0 < s.readers) :
    ts.countP holdsRead + s.readers = (if holdsRead t then 1 else 0) + s'.readers := by
  cases h with
  | block t =>
    rw [List.countP_singleton]
  | leave =>
    have hpos : 0 < s.readers := hreads rfl
    simp [holdsRead]
    omega
  | runlock =>
    have hpos : 0 < s.readers := hreads rfl
    simp [holdsRead]
    omega
  | _ => simp [holdsRead, Nat.add_comm]

theorem writer_turn (h : Turn s t s' ts) (hwrites : holdsWrite t = true → s.writer = true) :
    ts.countP holdsWrite + s.writer.toNat = (if holdsWrite t then 1 else 0) + s'.writer.toNat := by
  cases h with
  | block t => rw [List.countP_singleton]
  | lock hwriter => simp [holdsWrite, hwriter]
  | unlock =>
    have hwriter : s.writer = true := hwrites rfl
    simp [holdsWrite, hwriter]
  | _ => simp [holdsWrite]

theorem inflight_turn (h : Turn s t s' ts) (hcounted : isAdmitted t = true → 0 < s.inflight) :
    ts.countP isAdmitted + s.inflight = (if isAdmitted t then 1 else 0) + s'.inflight := by
  cases h with
  | block t => rw [List.countP_singleton]
  | complete panicked =>
    have hpos : 0 < s.inflight := hcounted rfl
    simp [isAdmitted]
    omega
  | _ => simp [isAdmitted, Nat.add_comm]

theorem exclusive_turn (h : Turn s t s' ts) (hexclusive : s.writer = true → s.readers = 0) :
    s'.writer = true → s'.readers = 0 := by
  cases h with
  | rlock hwriter =>
    intro hwriter'
    rw [hwriter] at hwriter'
    cases hwriter'
  | lock hwriter hreaders => exact fun _ => hreaders
  | leave =>
    intro hwriter
    rw [hexclusive hwriter]
  | runlock =>
    intro hwriter
    rw [hexclusive hwriter]
  | unlock => rintro ⟨⟩
  | _ => exact hexclusive

theorem closing_turn (h : Turn s t s' ts) (hclosing : s.closing = true) : s'.closing = true := by
  cases h with
  | setClosing => rfl
  | _ => exact hclosing

theorem done_turn (h : Turn s t s' ts) (hdone : s.done ≠ []) : s'.done ≠ [] := by
  cases h with
  | wait k hidle => exact List.cons_ne_nil k s.done
  | _ => exact hdone

theorem not_closing_turn (h : Turn s t s' ts) (hunset : s.closing = false) (hlocked : t ≠ .locked) :
    s'.closing = false := by
  cases h with
  | setClosing => exact absurd rfl hlocked
  | _ => exact hunset

theorem countsOn_others (h : Turn s t s' ts) (hu : s.CountsOn u) (hlocked : holdsRead u = true → t ≠ .locked) :
    s'.CountsOn u := by
  cases u with
  | admitting => exact not_closing_turn h hu (hlocked rfl)
  | unlocking => exact closing_turn h hu
  | waiter k => exact closing_turn h hu
  | selecting k => exact closing_turn h hu
  | releasing waited =>
    cases waited with
    | false => exact closing_turn h hu
    | true => exact done_turn h hu
  | _ => trivial

theorem countsOn_own (h : Turn s t s' ts) (ht : s.CountsOn t) : ∀ u ∈ ts, s'.CountsOn u := by
  cases h with
  | block t => exact List.forall_mem_singleton.mpr ht
  | pass hunset => exact List.forall_mem_singleton.mpr hunset
  | setClosing => exact List.forall_mem_singleton.mpr rfl
  | unlock => exact List.forall_mem_cons.mpr ⟨ht, List.forall_mem_singleton.mpr ht⟩
  | proceed hdone => exact List.forall_mem_singleton.mpr (List.ne_nil_of_mem hdone)
  | expire k => exact List.forall_mem_singleton.mpr ht
  | _ => simp [CountsOn]

theorem drained_turn (h : Turn s t s' ts) (ht : s.CountsOn t) (hdrained : s.done ≠ [] → s.closing = true ∧ s.inflight = 0) :
    s'.done ≠ [] → s'.closing = true ∧ s'.inflight = 0 := by
  cases h with
  | wait k hidle => exact fun _ => ⟨ht, hidle⟩
  | add =>
    -- a request is only added while the flag is unset, and then no wait is over
    intro hdone
    have hclosing : s.closing = true := (hdrained hdone).1
    have hunset : s.closing = false := ht
    rw [hunset] at hclosing
    cases hclosing
  | complete panicked =>
    intro hdone
    obtain ⟨hclosing, hidle⟩ := hdrained hdone
    refine ⟨hclosing, ?_⟩
    change s.inflight - 1 = 0
    rw [hidle]
  | setClosing => exact fun hdone => ⟨rfl, (hdrained hdone).2⟩
  | _ => exact hdrained

namespace Fenced

theorem writer_of_holdsWrite (h : Fenced s (l₁ ++ t :: l₂)) (ht : holdsWrite t = true) : s.writer = true := by
  have hpos : 0 < (l₁ ++ t :: l₂).countP holdsWrite := System.countP_pos ht
  rw [h.writer] at hpos
  cases hwriter : s.writer with
  | false =>
    rw [hwriter] at hpos
    cases hpos
  | true => rfl

theorem not_locked_of_holdsRead (h : Fenced s (l₁ ++ t :: l₂)) (hu : u ∈ l₁ ++ t :: l₂) (hreads : holdsRead u = true) :
    t ≠ .locked := by
  rintro rfl
  have hnone : s.readers = 0 := h.exclusive (h.writer_of_holdsWrite rfl)
  have hpos : 0 < (l₁ ++ .locked :: l₂).countP holdsRead := List.countP_pos_iff.mpr ⟨u, hu, hreads⟩
  rw [h.readers, hnone] at hpos
  cases hpos

theorem turn (h : Fenced s (l₁ ++ t :: l₂)) (hturn : Turn s t s' ts) : Fenced s' (l₁ ++ ts ++ l₂) := by
  have hmem : t ∈ l₁ ++ t :: l₂ := List.mem_append_cons_self ..
  have ht : s.CountsOn t := h.threads t hmem
  refine ⟨?_, ?_, exclusive_turn hturn h.exclusive, ?_, ?_, drained_turn hturn ht h.drained⟩
  · have hreads : holdsRead t = true → 0 < s.readers := fun ht => h.readers ▸ System.countP_pos ht
    exact System.countP_of_balance h.readers (readers_turn hturn hreads)
  · exact System.countP_of_balance h.writer (writer_turn hturn h.writer_of_holdsWrite)
  · have hcounted : isAdmitted t = true → 0 < s.inflight := fun ht => h.counted ▸ System.countP_pos ht
    exact System.countP_of_balance h.counted (inflight_turn hturn hcounted)
  · have hothers : ∀ u ∈ l₁ ++ t :: l₂, s.CountsOn u ∧ (holdsRead u = true → t ≠ .locked) :=
      fun u hu => ⟨h.threads u hu, h.not_locked_of_holdsRead hu⟩
    exact System.forall_replace hothers (fun u hu => countsOn_others hturn hu.1 hu.2) (countsOn_own hturn ht)

theorem arrive (h : Fenced s ts) (a : DrainArrival) : Fenced s (ts ++ [system.arrive a]) := by
  refine ⟨?_, ?_, h.exclusive, ?_, ?_, h.drained⟩
  · rw [List.countP_append, h.readers]
    cases a <;> rfl
  · rw [List.countP_append, h.writer]
    cases a <;> rfl
  · rw [List.countP_append, h.counted]
    cases a <;> rfl
  · refine List.forall_mem_append.mpr ⟨h.threads, List.forall_mem_singleton.mpr ?_⟩
    cases a <;> trivial

end Fenced
end Turn

theorem keeps_fenced : system.Keeps (fun _ => True) (fun _ _ _ _ => True) Fenced where
  arrive h _ := h.arrive _
  step h _ := h.turn (turn_step _ _ _)

theorem fenced_starting : Fenced starting.shared starting.threads where
  readers := rfl
  writer := rfl
  exclusive := nofun
  counted := rfl
  threads := List.forall_mem_nil _
  drained h := absurd rfl h

structure Closing (s : Draining) (ts : List DrainThread) : Prop where
  fenced : Fenced s ts
  closing : s.closing = true

theorem keeps_closing : system.Keeps (fun _ => True) (fun _ _ _ _ => True) Closing where
  arrive h _ := ⟨h.fenced.arrive _, h.closing⟩
  step h _ := ⟨h.fenced.turn (turn_step _ _ _), closing_turn (turn_step _ _ _) h.closing⟩

theorem Closing.admitting_not_mem {s : Draining} {ts : List DrainThread} (h : Closing s ts) : .admitting ∉ ts := by
  intro hmem
  have hunset : s.closing = false := h.fenced.threads .admitting hmem
  rw [h.closing] at hunset
  cases hunset

theorem admitting_of_added {s : Draining} {t : DrainThread} {a : DrainTurn} (h : .added ∈ (step s t a).1) :
    t = .admitting := by
  cases t with
  | admitting => rfl
  | arriving | locking | waiter | selecting | releasing =>
    simp only [step] at h
    split_ifs at h <;> simp at h
  | _ => simp [step] at h

structure Drained (s : Draining) (ts : List DrainThread) : Prop where
  fenced : Fenced s ts
  done : s.done ≠ []

theorem keeps_drained : system.Keeps (fun _ => True) (fun _ _ _ _ => True) Drained where
  arrive h _ := ⟨h.fenced.arrive _, h.done⟩
  step h _ := ⟨h.fenced.turn (turn_step _ _ _), done_turn (turn_step _ _ _) h.done⟩

theorem Drained.countP_eq_zero {s : Draining} {ts : List DrainThread} (h : Drained s ts) : ts.countP isAdmitted = 0 := by
  rw [h.fenced.counted]
  exact (h.fenced.drained h.done).2

/-- In every run of requests and calls of `Close`: once the flag is set no request is added any more; a request that has
been added is counted until it has ended, panicked or not; and where a call of `Close` goes on to release the transports
because its wait is over, no added request is left, nor is there ever one again. -/
theorem drain_fence (ms : List (System.Move DrainArrival DrainTurn)) :
    let c := system.machine.run starting ms
    (c.shared.closing = true → ∀ more, .added ∉ (system.machine.outputs c more).flatten) ∧
      c.threads.countP isAdmitted = c.shared.inflight ∧
      (.releasing true ∈ c.threads → ∀ more, (system.machine.run c more).threads.countP isAdmitted = 0) := by
  intro c
  have hfenced : Fenced c.shared c.threads := keeps_fenced.always fenced_starting ms
  refine ⟨?_, hfenced.counted, ?_⟩
  · intro hclosing more hadded
    have hquiet : ∀ o ∈ (system.machine.outputs c more).flatten, o ≠ .added := by
      refine keeps_closing.outputs ?_ ⟨hfenced, hclosing⟩ (Machine.along_of_forall fun m _ c => System.obeys_true c m)
      rintro s l₁ t l₂ a h - o ho rfl
      have ht : t = .admitting := admitting_of_added ho
      exact h.admitting_not_mem (ht ▸ List.mem_append_cons_self ..)
    exact hquiet .added hadded rfl
  · intro hreleasing more
    have hdone : c.shared.done ≠ [] := hfenced.threads _ hreleasing
    have hdrained := keeps_drained.always ⟨hfenced, hdone⟩ more
    exact hdrained.countP_eq_zero

-- a request is at work when `Close` starts to wait, and panics
end Draining
end EdgeQuota.Proxy
