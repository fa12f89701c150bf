import EdgeQuota.Go.Strings
import EdgeQuota.Lib.Machine

/-! The watcher of the configuration file: one loop that reloads when a notification has settled, and that polls.
Every look at the file or at the link is a step of its own, and the file may change between any two. -/

namespace EdgeQuota.Config
open Go Lib

inductive AfterSnapshot where
  | rest
  | load
  deriving DecidableEq

inductive WatcherAt where
  | idle
  | reload
  | snapshotHash (next : AfterSnapshot)
  | snapshotLink (next : AfterSnapshot)
  | changedLink
  | changedHash
  | pollReload
  deriving DecidableEq

def WatcherAt.loadDue : WatcherAt → Bool
  | .snapshotHash .load | .snapshotLink .load | .pollReload => true
  | .idle | .reload | .snapshotHash .rest | .snapshotLink .rest | .changedLink | .changedHash => false

/-- `loaded` is what the latest load has read. Before the first snapshot there is no hash. -/
structure Watching (γ δ : Type) where
  file : γ
  link : GoString
  lastHash : Option δ
  lastTarget : GoString
  loaded : γ
  timer : Bool
  place : WatcherAt
  deriving DecidableEq

inductive WatchEvent (γ : Type) where
  | update (content : γ)
  | relink (target : GoString)
  | notify
  | fire
  | tick
  | proceed
  deriving DecidableEq

section Loop
variable {γ δ : Type} [DecidableEq δ] (hash : γ → δ)

/-- The next look. A notification is followed by the load and then the snapshot, a poll by the snapshot and
then the load. -/
def Watching.proceed (s : Watching γ δ) : Option γ × Watching γ δ :=
  match s.place with
  | .idle => (none, s)
  | .reload => (some s.file, { s with loaded := s.file, place := .snapshotHash .rest })
  | .snapshotHash next => (none, { s with lastHash := some (hash s.file), place := .snapshotLink next })
  | .snapshotLink .rest => (none, { s with lastTarget := s.link, place := .idle })
  | .snapshotLink .load => (none, { s with lastTarget := s.link, place := .pollReload })
  | .changedLink =>
    if s.link ≠ s.lastTarget ∧ s.link ≠ [] then (none, { s with lastTarget := s.link, place := .snapshotHash .load })
    else (none, { s with place := .changedHash })
  | .changedHash =>
    if some (hash s.file) ≠ s.lastHash then (none, { s with place := .snapshotHash .load })
    else (none, { s with place := .idle })
  | .pollReload => (some s.file, { s with loaded := s.file, place := .idle })

/-- The content that a load reads is put out. Notifications, the timer and the ticker wait for the select. -/
def watcher : Machine (Watching γ δ) (WatchEvent γ) (Option γ) where
  step
    | s, .update content => (none, { s with file := content })
    | s, .relink target => (none, { s with link := target })
    | s, .notify => (none, if s.place = .idle then { s with timer := true } else s)
    | s, .fire => (none, if s.place = .idle ∧ s.timer = true then { s with timer := false, place := .reload } else s)
    | s, .tick => (none, if s.place = .idle then { s with place := .changedLink } else s)
    | s, .proceed => s.proceed hash

end Loop

def Watching.started {γ : Type} (δ : Type) (file : γ) (link : GoString) : Watching γ δ :=
  ⟨file, link, none, [], file, false, .snapshotHash .rest⟩

def WatchEvent.content {γ : Type} : WatchEvent γ → Option γ
  | .update content => some content
  | .relink _ | .notify | .fire | .tick | .proceed => none

theorem contents_update {γ : Type} (content : γ) (es : List (WatchEvent γ)) :
    (WatchEvent.update content :: es).filterMap WatchEvent.content = content :: es.filterMap WatchEvent.content :=
  rfl

section Seen
variable {γ δ : Type} [DecidableEq δ] {hash : γ → δ} {s : Watching γ δ} {e : WatchEvent γ} {es : List (WatchEvent γ)}

def Watching.Settled (hash : γ → δ) (s : Watching γ δ) : Prop :=
  s.place.loadDue = false → s.lastHash = some (hash s.file) → s.loaded = s.file

def Watching.Timely (s : Watching γ δ) (e : WatchEvent γ) : Prop :=
  e = .proceed → s.place = .snapshotHash .rest → s.loaded = s.file

structure Watching.Fresh (hash : γ → δ) (s : Watching γ δ) (es : List (WatchEvent γ)) : Prop where
  last : ∀ h ∈ s.lastHash, h ∉ (es.filterMap WatchEvent.content).map hash
  file : hash s.file ∉ (es.filterMap WatchEvent.content).map hash
  nodup : ((es.filterMap WatchEvent.content).map hash).Nodup

theorem Watching.file_proceed (hash : γ → δ) (s : Watching γ δ) : (s.proceed hash).2.file = s.file := by
  unfold proceed
  split <;> first | rfl | (split_ifs <;> rfl)

theorem Watching.lastHash_proceed (hash : γ → δ) (s : Watching γ δ) :
    (s.proceed hash).2.lastHash = s.lastHash ∨ (s.proceed hash).2.lastHash = some (hash s.file) := by
  unfold proceed
  split
  case h_3 => exact Or.inr rfl
  case h_6 | h_7 => split_ifs <;> exact Or.inl rfl
  all_goals exact Or.inl rfl

omit [DecidableEq δ] in
theorem Watching.Fresh.of_same {s' : Watching γ δ} (h : s.Fresh hash (e :: es)) (hevent : e.content = none)
    (hfile : s'.file = s.file) (hlast : s'.lastHash = s.lastHash ∨ s'.lastHash = some (hash s.file)) :
    s'.Fresh hash es := by
  obtain ⟨hseen, hnew, hnodup⟩ := h
  rw [List.filterMap_cons_none hevent] at hseen hnew hnodup
  refine ⟨fun x hx => ?_, hfile ▸ hnew, hnodup⟩
  rcases hlast with hsame | hhash
  · exact hseen x (hsame ▸ hx)
  · obtain rfl := Option.some.inj (hhash.symm.trans hx)
    exact hnew

theorem Watching.Fresh.next (h : s.Fresh hash (e :: es)) : ((watcher hash).step s e).2.Fresh hash es := by
  cases e with
  | update content =>
    obtain ⟨hseen, -, hnodup⟩ := h
    rw [contents_update, List.map_cons] at hseen hnodup
    obtain ⟨hnew, hrest⟩ := List.nodup_cons.mp hnodup
    exact ⟨fun x hx hmem => hseen x hx (List.mem_cons_of_mem _ hmem), hnew, hrest⟩
  | proceed => exact h.of_same rfl (file_proceed hash s) (lastHash_proceed hash s)
  | relink target => exact h.of_same rfl rfl (Or.inl rfl)
  | notify | fire | tick =>
    refine h.of_same rfl ?_ ?_
    · simp only [watcher]
      split_ifs <;> rfl
    · simp only [watcher]
      split_ifs <;> exact Or.inl rfl

theorem Watching.settled_proceed (h : s.Settled hash) :
    (s.proceed hash).2.Settled hash ↔ (s.place = .snapshotHash .rest → s.loaded = s.file) := by
  obtain ⟨file, link, lastHash, lastTarget, loaded, timer, place⟩ := s
  unfold proceed Settled
  unfold Settled at h
  cases place with
  | idle => exact iff_of_true h (by rintro ⟨⟩)
  | reload => exact iff_of_true (fun _ _ => rfl) (by rintro ⟨⟩)
  | snapshotHash next =>
    cases next with
    | rest => exact ⟨fun hsettled _ => hsettled rfl rfl, fun hloaded _ _ => hloaded rfl⟩
    | load => exact iff_of_true (by rintro ⟨⟩) (by rintro ⟨⟩)
  | snapshotLink next =>
    cases next with
    | rest => exact iff_of_true h (by rintro ⟨⟩)
    | load => exact iff_of_true (by rintro ⟨⟩) (by rintro ⟨⟩)
  | changedLink =>
    refine iff_of_true ?_ (by rintro ⟨⟩)
    simp only
    split_ifs
    · rintro ⟨⟩
    · exact h
  | changedHash =>
    refine iff_of_true ?_ (by rintro ⟨⟩)
    simp only
    split_ifs
    · rintro ⟨⟩
    · exact h
  | pollReload => exact iff_of_true (fun _ _ => rfl) (by rintro ⟨⟩)

theorem Watching.settled_step (hfresh : s.Fresh hash (e :: es)) (h : s.Settled hash) :
    ((watcher hash).step s e).2.Settled hash ↔ s.Timely e := by
  cases e with
  | proceed => exact (settled_proceed h).trans ⟨fun hloaded _ => hloaded, fun htimely => htimely rfl⟩
  | update content =>
    refine iff_of_true ?_ (by rintro ⟨⟩)
    intro _ hlast
    refine absurd ?_ (hfresh.last _ hlast)
    rw [contents_update]
    exact List.mem_cons_self ..
  | relink target => exact iff_of_true h (by rintro ⟨⟩)
  | notify | tick | fire =>
    refine iff_of_true ?_ (by rintro ⟨⟩)
    simp only [watcher]
    split_ifs with hidle
    · intro _ hlast
      exact h (by simp [hidle, WatcherAt.loadDue]) hlast
    · exact h

def quietTick (γ : Type) : List (WatchEvent γ) := [.tick, .proceed, .proceed, .proceed, .proceed, .proceed]

theorem Watching.loaded_quietTick (hidle : s.place = .idle) (h : s.Settled hash) :
    ((watcher hash).run s (quietTick γ)).loaded = s.file := by
  obtain ⟨file, link, lastHash, lastTarget, loaded, timer, place⟩ := s
  obtain rfl : place = .idle := hidle
  by_cases hlink : link ≠ lastTarget ∧ link ≠ []
  · simp [quietTick, Machine.run, watcher, proceed, hlink]
  · by_cases hhash : some (hash file) = lastHash
    · have hloaded : loaded = file := h rfl hhash.symm
      simp [quietTick, Machine.run, watcher, proceed, hlink, hhash, hloaded]
    · simp [quietTick, Machine.run, watcher, proceed, hlink, hhash]

/-- **Changes are not missed.** Whatever the order of updates, of notifications that come or do not come, of the
timer and of the ticker: as long as no content comes back, the watcher never takes a file for known that it has
not loaded, exactly if every snapshot after a load finds the file that was loaded. A poll without an update in
between then loads the current file, whether or not there was a notification. -/
theorem changes_not_missed_iff {file : γ} (link : GoString) (es : List (WatchEvent γ))
    (hcontents : ((file :: es.filterMap WatchEvent.content).map hash).Nodup) :
    let s := Watching.started δ file link
    ((∀ done, done <+: es → ((watcher hash).run s done).Settled hash) ↔ (watcher hash).Along Watching.Timely s es) ∧
      ((watcher hash).Along Watching.Timely s es → ((watcher hash).run s es).place = .idle →
        ((watcher hash).run s (es ++ quietTick γ)).loaded = ((watcher hash).run s es).file) := by
  intro s
  obtain ⟨hnew, hnodup⟩ := List.nodup_cons.mp hcontents
  have hfresh : s.Fresh hash es := ⟨by rintro x ⟨⟩, hnew, hnodup⟩
  have hsettled : s.Settled hash := fun _ _ => rfl
  have hiff : (∀ done, done <+: es → ((watcher hash).run s done).Settled hash) ↔
      (watcher hash).Along Watching.Timely s es :=
    Machine.forall_run_iff_along (K := fun s es => s.Fresh hash es) (fun _ _ _ hf => hf.next)
      (fun _ _ _ hf hs => Watching.settled_step hf hs) hfresh hsettled
  refine ⟨hiff, fun htimely hidle => ?_⟩
  rw [Machine.run_append]
  exact Watching.loaded_quietTick hidle (hiff.mpr htimely es List.prefix_rfl)

end Seen

theorem changes_not_missed_polled :
    ((["a", "b"] : List String).map id).Nodup ∧
      ((watcher id).run (Watching.started String "a" [])
        ([.proceed, .proceed, .update "b"] ++ quietTick String)).loaded = "b" := by
  have htimely : (watcher id).Along Watching.Timely (Watching.started String "a" [])
      [.proceed, .proceed, .update "b"] := by
    refine ⟨fun _ _ => rfl, ?_, ?_, trivial⟩
    · intro _ hplace
      cases hplace
    · intro hproceed
      cases hproceed
  exact ⟨by decide, (changes_not_missed_iff [] [.proceed, .proceed, .update "b"] (by decide)).2 htimely rfl⟩

def Watching.beliefs {γ δ : Type} (s : Watching γ δ) : WatcherAt × γ × Option δ × γ :=
  (s.place, s.file, s.lastHash, s.loaded)

/-- An update between the load and the snapshot, when the timer fires and when the watcher starts: no poll loads it
afterwards. -/
theorem changes_missed :
    ((watcher id).run (Watching.started String "a" [])
        ([.proceed, .proceed, .update "b", .notify, .fire, .proceed, .update "c", .proceed, .proceed] ++
          quietTick String ++ quietTick String)).beliefs = (.idle, "c", some "c", "b") ∧
      ((watcher id).run (Watching.started String "a" [])
        ([.update "b", .proceed, .proceed] ++ quietTick String ++ quietTick String)).beliefs =
          (.idle, "b", some "b", "a") := by
  decide +kernel

end EdgeQuota.Config
