import EdgeQuota.Config.Redis
import EdgeQuota.Lib.Threads

/-! The client of a replicated setup keeps the master it has found for a while. A command that the master refuses as
READONLY throws it away and is tried once more. To look up the master, to ask the endpoints for it, to install the one that
was found and to execute the command are steps of their own, and other commands and failovers come between them. -/

namespace EdgeQuota.RedisClient.Replication
open Go Lib

def masterCacheTTL : ℤ := 30000000000

structure ReplicationClient where
  endpoints : List GoString
  masterAddr : GoString
  lastCheck : Option ℤ

structure Stamp where
  turn : ℕ
  failovers : ℕ
  deriving DecidableEq

/-- The client and the endpoint that is the master; also when the master in use was discovered, and the turn that
changed the client last, which nobody looks at. -/
structure Shared where
  client : ReplicationClient
  primary : GoString
  now : Stamp := ⟨1, 0⟩
  found : Stamp := ⟨0, 0⟩
  changed : ℕ := 0

namespace Shared
variable (s : Shared)

def role (addr : GoString) : GoString := if addr = s.primary then str "master" else str "slave"

def failover (addr : GoString) : Shared :=
  if addr = s.primary then s else { s with primary := addr, now := { s.now with failovers := s.now.failovers + 1 } }

def cached (time : ℤ) : Bool := s.client.lastCheck.any fun last => time - last < masterCacheTTL

/-- The part of `refreshMaster` under the lock. A master that was in use already has been discovered twice. -/
def refresh (time : ℤ) (found : Stamp) (addr : GoString) : Shared :=
  { s with
    client := { s.client with masterAddr := addr, lastCheck := some time }
    found := if addr = s.client.masterAddr ∧ found.turn ≤ s.found.turn then s.found else found
    changed := s.now.turn }

def invalidate : Shared := { s with client := { s.client with lastCheck := none }, changed := s.now.turn }

def tick : Shared := { s with now := { s.now with turn := s.now.turn + 1 } }

end Shared

inductive Stage where
  | lookup
  | discover (started : Option Stamp) (rest : List GoString)
  | install (started found : Stamp) (addr : GoString)
  | read
  | execute (addr : GoString) (found : Stamp)
  | invalidate

inductive Thread where
  | command (retry : Option ℕ) (stage : Stage)
  | failover (addr : GoString)

inductive Reply where
  | ok
  | failed
  | readOnly
  deriving DecidableEq

structure Turn where
  time : ℤ := 0
  answers : Bool := true
  reply : Reply := .ok

inductive Event where
  | executed (retry : Option ℕ) (found : Stamp)
  | replaced (started found : Stamp)
  deriving DecidableEq

def Stage.step (s : Shared) (f : Turn) (retry : Option ℕ) : Stage → List Event × Shared × List Thread
  | .lookup =>
    if s.cached f.time then ([], s, [.command retry (.execute s.client.masterAddr s.found)])
    else ([], s, [.command retry (.discover none s.client.endpoints)])
  -- no endpoint is the master, and the command fails
  | .discover _ [] => ([], s, [])
  | .discover started (addr :: rest) =>
    if f.answers ∧ toLower (s.role addr) = str "master" then
      ([], s, [.command retry (.install (started.getD s.now) s.now addr)])
    else ([], s, [.command retry (.discover (some (started.getD s.now)) rest)])
  | .install started found addr =>
    (if addr ≠ s.client.masterAddr then [.replaced started s.found] else [], s.refresh f.time found addr,
      [.command retry .read])
  | .read => ([], s, [.command retry (.execute s.client.masterAddr s.found)])
  | .execute addr found =>
    -- a command that is tried again returns whatever comes of it
    ([.executed retry found], s,
      if f.reply = .readOnly ∧ addr ≠ s.primary ∧ retry = none then [.command none .invalidate] else [])
  | .invalidate => ([], s.invalidate, [.command (some s.now.turn) .lookup])

def step (s : Shared) : Thread → Turn → List Event × Shared × List Thread
  | .command retry stage, f => ((stage.step s f retry).1, (stage.step s f retry).2.1.tick, (stage.step s f retry).2.2)
  | .failover addr, _ => ([], (s.failover addr).tick, [])

inductive Arrival where
  | command
  | failover (addr : GoString)

def system : System Shared Thread Arrival Turn Event where
  arrive
    | .command => .command none .lookup
    | .failover addr => .failover addr
  step := step

def start (client : ReplicationClient) (primary : GoString) : System.Conf Shared Thread :=
  ⟨{ client := client, primary := primary }, []⟩

theorem run_discover {answers : GoString → Bool} {net : Network} {o : Options} {addr : GoString} (s : Shared)
    (retry : Option ℕ) (started : Option Stamp)
    (hnet : ∀ a, net.role a = if answers a then some (s.role a) else none) (h : discoverMaster o net = some addr) :
    ∃ n s' begun found, system.machine.run ⟨s, [.command retry (.discover started o.endpoints)]⟩
      ((o.endpoints.take n).map fun a => .run 0 { answers := answers a }) =
        ⟨s', [.command retry (.install begun found addr)]⟩ := by
  unfold discoverMaster at h
  generalize o.endpoints = rest at h ⊢
  induction rest generalizing s started with
  | nil => cases h
  | cons a rest ih =>
    have hasked : ((net.role a).any fun role => toLower role = str "master") =
        decide (answers a = true ∧ toLower (s.role a) = str "master") := by
      rw [hnet]
      by_cases ha : answers a = true <;> simp [ha]
    rw [List.find?_cons, hasked] at h
    by_cases hmaster : answers a = true ∧ toLower (s.role a) = str "master"
    · rw [decide_eq_true hmaster] at h
      obtain rfl := Option.some.inj h
      have hstep : system.step s (.command retry (.discover started (a :: rest))) { answers := answers a } =
          ([], s.tick, [.command retry (.install (started.getD s.now) s.now a)]) := by
        simp only [system, step, Stage.step, if_pos hmaster]
      exact ⟨1, _, _, _, congrArg Prod.snd (System.move_single hstep)⟩
    · rw [decide_eq_false hmaster] at h
      obtain ⟨n, s', begun, found, hrun⟩ := ih s.tick (some (started.getD s.now)) hnet h
      have hstep : system.step s (.command retry (.discover started (a :: rest))) { answers := answers a } =
          ([], s.tick, [.command retry (.discover (some (started.getD s.now)) rest)]) := by
        simp only [system, step, Stage.step, if_neg hmaster]
      refine ⟨n + 1, s', begun, found, ?_⟩
      change system.machine.run (system.move _ (.run 0 { answers := answers a })).2 _ = _
      rw [System.move_single hstep]
      exact hrun

/-- A command that is tried again runs on a master discovered since, and no master makes way for a discovery that
began before a failover it was itself discovered after. -/
def Event.Fresh : Event → Prop
  | .executed retry found => ∀ turn ∈ retry, turn < found.turn
  | .replaced started found => found.failovers ≤ started.failovers

instance : DecidablePred Event.Fresh
  | .executed retry found => inferInstanceAs (Decidable (∀ turn ∈ retry, turn < found.turn))
  | .replaced started found => inferInstanceAs (Decidable (found.failovers ≤ started.failovers))

def Timely (s : Shared) : Thread → Prop
  | .command _ (.install started _ _) => s.changed < started.turn
  | _ => True

def Shared.Begun (s : Shared) (started : Stamp) : Prop :=
  started.turn < s.now.turn ∧ (s.changed < started.turn → s.found.failovers ≤ started.failovers)

def Stage.Ready (s : Shared) (retry : Option ℕ) : Stage → Prop
  | .lookup => s.client.lastCheck ≠ none → ∀ turn ∈ retry, turn < s.found.turn
  | .discover started _ => ∀ stamp ∈ started, s.Begun stamp
  | .install started found _ =>
    s.Begun started ∧ started.turn ≤ found.turn ∧ found.failovers ≤ s.now.failovers ∧ ∀ turn ∈ retry, turn < found.turn
  | .read => ∀ turn ∈ retry, turn < s.found.turn
  | .execute _ found => ∀ turn ∈ retry, turn < found.turn
  | .invalidate => True

def Thread.Ready (s : Shared) : Thread → Prop
  | .command retry stage => (∀ turn ∈ retry, turn ≤ s.changed) ∧ stage.Ready s retry
  | .failover _ => True

structure Sound (s : Shared) (ts : List Thread) : Prop where
  changed : s.changed < s.now.turn
  found : s.found.failovers ≤ s.now.failovers
  ready : ∀ t ∈ ts, t.Ready s

/-- What a turn may do to the state, as far as the other threads can tell: it leaves the client as it is, invalidates the
master, or installs one that was discovered after the last change. -/
structure Effect (s s' : Shared) : Prop where
  turn : s'.now.turn = s.now.turn
  failovers : s.now.failovers ≤ s'.now.failovers
  found : s'.found.failovers ≤ s'.now.failovers
  client : (s'.client.lastCheck = s.client.lastCheck ∧ s'.found = s.found ∧ s'.changed = s.changed) ∨
    (s'.changed = s.now.turn ∧ ((s'.client.lastCheck = none ∧ s'.found = s.found) ∨ s.changed < s'.found.turn))

namespace Effect
variable {s s' : Shared} {ts : List Thread} {started found : Stamp}

theorem none (h : Sound s ts) : Effect s s := ⟨rfl, le_rfl, h.found, .inl ⟨rfl, rfl, rfl⟩⟩

theorem failover (h : Sound s ts) (addr : GoString) : Effect s (s.failover addr) := by
  unfold Shared.failover
  split_ifs
  · exact none h
  · exact ⟨rfl, Nat.le_succ _, h.found.trans (Nat.le_succ _), .inl ⟨rfl, rfl, rfl⟩⟩

theorem invalidate (h : Sound s ts) : Effect s s.invalidate :=
  ⟨rfl, le_rfl, h.found, .inr ⟨rfl, .inl ⟨rfl, rfl⟩⟩⟩

theorem found_refresh (s : Shared) (time : ℤ) (found : Stamp) (addr : GoString) :
    found.turn ≤ (s.refresh time found addr).found.turn := by
  simp only [Shared.refresh]
  split_ifs with hsame
  · exact hsame.2
  · exact le_rfl

theorem refresh (h : Sound s ts) (time : ℤ) (addr : GoString) (htimely : s.changed < found.turn)
    (hfound : found.failovers ≤ s.now.failovers) : Effect s (s.refresh time found addr) := by
  refine ⟨rfl, le_rfl, ?_, .inr ⟨rfl, .inr (htimely.trans_le (found_refresh s time found addr))⟩⟩
  simp only [Shared.refresh]
  split_ifs
  · exact h.found
  · exact hfound

theorem changed_le (h : Effect s s') (hs : s.changed < s.now.turn) : s.changed ≤ s'.changed := by
  rcases h.client with ⟨-, -, hsame⟩ | ⟨hnow, -⟩
  · exact hsame.ge
  · exact hs.le.trans hnow.ge

theorem begun (h : Effect s s') (hstarted : s.Begun started) : s'.tick.Begun started := by
  obtain ⟨hturn, hfailovers⟩ := hstarted
  refine ⟨hturn.trans_le (h.turn.ge.trans (Nat.le_succ _)), fun hchanged => ?_⟩
  rcases h.client with ⟨-, hfound, hsame⟩ | ⟨hnow, -⟩
  · exact hfound ▸ hfailovers (hsame ▸ hchanged)
  · -- the state was changed in this turn, long after the discovery began
    have hlater : s.now.turn < started.turn := hnow ▸ hchanged
    exact absurd hturn hlater.asymm

theorem lt_found (h : Effect s s') {turn : ℕ} (hchanged : turn ≤ s.changed) (hfound : turn < s.found.turn) :
    turn < s'.found.turn := by
  rcases h.client with ⟨-, hsame, -⟩ | ⟨-, ⟨-, hsame⟩ | hlater⟩
  · exact hsame ▸ hfound
  · exact hsame ▸ hfound
  · exact hchanged.trans_lt hlater

theorem ready (h : Effect s s') (hs : s.changed < s.now.turn) {t : Thread} (ht : t.Ready s) : t.Ready s'.tick := by
  cases t with
  | failover addr => trivial
  | command retry stage =>
    obtain ⟨hretry, hstage⟩ := ht
    refine ⟨fun turn hturn => (hretry turn hturn).trans (h.changed_le hs), ?_⟩
    cases stage with
    | lookup =>
      intro hcached turn hturn
      rcases h.client with ⟨hsame, hfound, -⟩ | ⟨-, ⟨hnone, -⟩ | hlater⟩
      · exact hfound ▸ hstage (fun hnone => hcached (hsame.trans hnone)) turn hturn
      · exact absurd hnone hcached
      · exact (hretry turn hturn).trans_lt hlater
    | discover started rest => exact fun stamp hstamp => h.begun (hstage stamp hstamp)
    | install started found addr =>
      obtain ⟨hstarted, horder, hfailovers, hafter⟩ := hstage
      exact ⟨h.begun hstarted, horder, hfailovers.trans h.failovers, hafter⟩
    | read => exact fun turn hturn => h.lt_found (hretry turn hturn) (hstage turn hturn)
    | execute addr found => exact hstage
    | invalidate => trivial

end Effect

structure Allowed (s : Shared) (r : List Event × Shared × List Thread) : Prop where
  effect : Effect s r.2.1
  ready : ∀ t ∈ r.2.2, t.Ready r.2.1.tick
  fresh : ∀ e ∈ r.1, e.Fresh

section Steps
variable {s : Shared} {ts : List Thread} {f : Turn} {retry : Option ℕ} {stage : Stage}

theorem Allowed.silent {s' : Shared} {t : Thread} (h : Effect s s') (ht : t.Ready s'.tick) : Allowed s ([], s', [t]) :=
  ⟨h, List.forall_mem_singleton.mpr ht, by rintro e ⟨⟩⟩

theorem begun_getD (h : Sound s ts) {started : Option Stamp} (hstarted : ∀ stamp ∈ started, s.Begun stamp) :
    s.tick.Begun (started.getD s.now) ∧ (started.getD s.now).turn ≤ s.now.turn := by
  cases started with
  | none => exact ⟨⟨Nat.lt_succ_self _, fun _ => h.found⟩, le_rfl⟩
  | some stamp =>
    have hbegun := hstarted stamp rfl
    exact ⟨(Effect.none h).begun hbegun, hbegun.1.le⟩

theorem allowed_discover (h : Sound s ts) {started : Option Stamp} {rest : List GoString}
    (hready : (Thread.command retry (.discover started rest)).Ready s) :
    Allowed s (Stage.step s f retry (.discover started rest)) := by
  obtain ⟨hretry, hstarted⟩ := hready
  obtain ⟨hbegun, horder⟩ := begun_getD h hstarted
  cases rest with
  | nil => exact ⟨.none h, by rintro t ⟨⟩, by rintro e ⟨⟩⟩
  | cons addr rest =>
    simp only [Stage.step]
    split_ifs
    · have hafter : ∀ turn ∈ retry, turn < s.now.turn := fun turn hturn => (hretry turn hturn).trans_lt h.changed
      exact .silent (.none h) ⟨hretry, hbegun, horder, le_rfl, hafter⟩
    · refine .silent (.none h) ⟨hretry, ?_⟩
      rintro stamp ⟨⟩
      exact hbegun

theorem allowed_install (h : Sound s ts) {started found : Stamp} {addr : GoString}
    (hready : (Thread.command retry (.install started found addr)).Ready s) (htimely : s.changed < started.turn) :
    Allowed s (Stage.step s f retry (.install started found addr)) := by
  obtain ⟨hretry, hbegun, horder, hfailovers, hafter⟩ := hready
  refine ⟨.refresh h f.time addr (htimely.trans_le horder) hfailovers, ?_, ?_⟩
  · refine List.forall_mem_singleton.mpr ⟨fun turn hturn => ?_, fun turn hturn => ?_⟩
    · exact (hretry turn hturn).trans h.changed.le
    · exact (hafter turn hturn).trans_le (Effect.found_refresh s f.time found addr)
  · intro e he
    simp only [Stage.step] at he
    split_ifs at he
    · rw [List.mem_singleton.mp he]
      exact hbegun.2 htimely
    · cases he

theorem allowed_step (h : Sound s ts) (hready : (Thread.command retry stage).Ready s)
    (htimely : Timely s (.command retry stage)) : Allowed s (stage.step s f retry) := by
  cases stage with
  | lookup =>
    obtain ⟨hretry, hfound⟩ := hready
    simp only [Stage.step]
    split_ifs with hcached
    · refine .silent (.none h) ⟨hretry, hfound fun hnone => ?_⟩
      rw [Shared.cached, hnone] at hcached
      cases hcached
    · exact .silent (.none h) ⟨hretry, by rintro stamp ⟨⟩⟩
  | discover started rest => exact allowed_discover h hready
  | install started found addr => exact allowed_install h hready htimely
  | read => exact .silent (.none h) hready
  | execute addr found =>
    refine ⟨.none h, ?_, List.forall_mem_singleton.mpr hready.2⟩
    simp only [Stage.step]
    split_ifs
    · exact List.forall_mem_singleton.mpr ⟨by rintro turn ⟨⟩, trivial⟩
    · rintro t ⟨⟩
  | invalidate =>
    refine .silent (.invalidate h) ⟨?_, fun hcached => absurd rfl hcached⟩
    rintro turn ⟨⟩
    exact le_rfl

theorem Sound.replace {t : Thread} {l₁ l₂ new : List Thread} {s' : Shared} (h : Sound s (l₁ ++ t :: l₂)) (heffect : Effect s s')
    (hnew : ∀ u ∈ new, u.Ready s'.tick) : Sound s'.tick (l₁ ++ new ++ l₂) := by
  refine ⟨?_, heffect.found, System.forall_replace h.ready (fun u hu => heffect.ready h.changed hu) hnew⟩
  rcases heffect.client with ⟨-, -, hsame⟩ | ⟨hnow, -⟩
  · exact hsame ▸ h.changed.trans_le (heffect.turn.ge.trans (Nat.le_succ _))
  · exact hnow ▸ Nat.lt_succ_of_le heffect.turn.ge

theorem keeps_sound : system.Keeps (fun _ => True) (fun s _ t _ => Timely s t) Sound where
  arrive {s ts a} h _ := by
    refine ⟨h.changed, h.found, List.forall_mem_append.mpr ⟨h.ready, List.forall_mem_singleton.mpr ?_⟩⟩
    cases a with
    | command =>
      exact ⟨by rintro turn ⟨⟩, by rintro _ turn ⟨⟩⟩
    | failover addr => trivial
  step {s l₁ t l₂ f} h htimely := by
    cases t with
    | failover addr => exact h.replace (.failover h addr) (by rintro u ⟨⟩)
    | command retry stage =>
      have hallowed := allowed_step (f := f) h (h.ready _ (List.mem_append_cons_self ..)) htimely
      exact h.replace hallowed.effect hallowed.ready

theorem sound_start (client : ReplicationClient) (primary : GoString) :
    Sound (start client primary).shared (start client primary).threads :=
  ⟨Nat.zero_lt_one, le_rfl, by rintro t ⟨⟩⟩

theorem fresh_of_timely {client : ReplicationClient} {primary : GoString} {moves : List (System.Move Arrival Turn)}
    (h : system.machine.Along (System.Obeys (fun _ => True) fun s _ t _ => Timely s t) (start client primary) moves) :
    ∀ e ∈ (system.machine.outputs (start client primary) moves).flatten, e.Fresh := by
  refine keeps_sound.outputs ?_ (sound_start client primary) h
  intro s l₁ t l₂ f hsound htimely e he
  cases t with
  | failover addr => cases he
  | command retry stage =>
    have hallowed := allowed_step (f := f) hsound (hsound.ready _ (List.mem_append_cons_self ..)) htimely
    exact hallowed.fresh e he

end Steps

def Thread.isCommand : Thread → Bool
  | .command _ _ => true
  | .failover _ => false

def AtMost (k : ℕ) (c : System.Conf Shared Thread) (m : System.Move Arrival Turn) : Prop :=
  (system.move c m).2.threads.countP Thread.isCommand ≤ k

instance (k : ℕ) (c : System.Conf Shared Thread) (m : System.Move Arrival Turn) : Decidable (AtMost k c m) :=
  inferInstanceAs (Decidable (_ ≤ _))

def Thread.Alone (s : Shared) : Thread → Prop
  | .command _ (.discover started _) => ∀ stamp ∈ started, s.changed < stamp.turn
  | .command _ (.install started _ _) => s.changed < started.turn
  | _ => True

structure Single (s : Shared) (ts : List Thread) : Prop where
  sound : Sound s ts
  count : ts.countP Thread.isCommand ≤ 1
  alone : ∀ t ∈ ts, t.Alone s

section Single
variable {s : Shared} {f : Turn} {t : Thread} {l₁ l₂ : List Thread}

theorem Thread.Alone.timely (h : t.Alone s) : Timely s t := by
  cases t with
  | failover addr => trivial
  | command retry stage =>
    cases stage with
    | install started found addr => exact h
    | lookup | discover _ _ | read | execute _ _ | invalidate => trivial

theorem alone_step {retry : Option ℕ} {stage : Stage} (hs : s.changed < s.now.turn)
    (h : (Thread.command retry stage).Alone s) :
    ∀ u ∈ (stage.step s f retry).2.2, u.Alone (stage.step s f retry).2.1.tick := by
  cases stage with
  | lookup =>
    simp only [Stage.step]
    split_ifs
    · exact List.forall_mem_singleton.mpr trivial
    · exact List.forall_mem_singleton.mpr (by rintro stamp ⟨⟩)
  | discover started rest =>
    have hstarted : s.changed < (started.getD s.now).turn := by
      cases started with
      | none => exact hs
      | some stamp => exact h stamp rfl
    cases rest with
    | nil => rintro u ⟨⟩
    | cons addr rest =>
      simp only [Stage.step]
      split_ifs
      · exact List.forall_mem_singleton.mpr hstarted
      · refine List.forall_mem_singleton.mpr ?_
        rintro stamp ⟨⟩
        exact hstarted
  | install started found addr | read | invalidate => exact List.forall_mem_singleton.mpr trivial
  | execute addr found =>
    simp only [Stage.step]
    split_ifs
    · exact List.forall_mem_singleton.mpr trivial
    · rintro u ⟨⟩

theorem alone_others {retry : Option ℕ} {stage : Stage}
    (h : (l₁ ++ Thread.command retry stage :: l₂).countP Thread.isCommand ≤ 1) (s' : Shared) :
    ∀ u ∈ l₁ ++ l₂, u.Alone s' := by
  intro u hu
  have hnone : (l₁ ++ l₂).countP Thread.isCommand = 0 := by
    simp only [List.countP_append, List.countP_cons, Thread.isCommand, if_true] at h ⊢
    omega
  cases u with
  | failover addr => trivial
  | command retry stage => exact absurd rfl (List.countP_eq_zero.mp hnone _ hu)

theorem Thread.Alone.of_changed {s' : Shared} (h : t.Alone s) (hchanged : s'.changed = s.changed) : t.Alone s' := by
  unfold Thread.Alone at h ⊢
  rwa [hchanged]

theorem alone_replace (h : Single s (l₁ ++ t :: l₂)) : ∀ u ∈ l₁ ++ (step s t f).2.2 ++ l₂, u.Alone (step s t f).2.1 := by
  cases t with
  | failover addr =>
    have hchanged : (s.failover addr).tick.changed = s.changed := by
      simp only [Shared.failover, Shared.tick]
      split_ifs <;> rfl
    exact System.forall_replace h.alone (fun u hu => hu.of_changed hchanged) (by rintro u ⟨⟩)
  | command retry stage =>
    have hnew := alone_step (f := f) h.sound.changed (h.alone _ (List.mem_append_cons_self ..))
    have hothers := alone_others h.count
    intro u hu
    rcases List.mem_append.mp hu with hu | hu
    · rcases List.mem_append.mp hu with hu | hu
      · exact hothers _ u (List.mem_append_left _ hu)
      · exact hnew u hu
    · exact hothers _ u (List.mem_append_right _ hu)

theorem single_move {c : System.Conf Shared Thread} {m : System.Move Arrival Turn} (h : Single c.shared c.threads)
    (hm : AtMost 1 c m) :
    System.Obeys (fun _ => True) (fun s _ t _ => Timely s t) c m ∧
      Single (system.move c m).2.shared (system.move c m).2.threads := by
  have htimely : System.Obeys (fun _ => True) (fun s _ t _ => Timely s t) c m := by
    cases m with
    | arrive a => trivial
    | run i f => exact fun t ht => (h.alone t (List.mem_of_getElem? ht)).timely
  refine ⟨htimely, keeps_sound.move h.sound htimely, hm, ?_⟩
  cases m with
  | arrive a =>
    refine List.forall_mem_append.mpr ⟨h.alone, List.forall_mem_singleton.mpr ?_⟩
    cases a <;> trivial
  | run i f =>
    simp only [System.move]
    split
    · exact h.alone
    · rename_i t ht
      rw [System.eq_split ht] at h
      exact alone_replace h

theorem single_start (client : ReplicationClient) (primary : GoString) :
    Single (start client primary).shared (start client primary).threads :=
  ⟨sound_start client primary, Nat.zero_le 1, by rintro t ⟨⟩⟩

end Single

def twoEndpoints : ReplicationClient := ⟨[str "a:6379", str "b:6379"], str "a:6379", some 0⟩

def minute : Turn := { time := 60000000000 }

def installAfterInvalidation : List (System.Move Arrival Turn) :=
  [.arrive .command, .run 0 {}, .arrive .command, .run 1 minute, .run 1 minute, .arrive (.failover (str "b:6379")),
    .run 2 {}, .run 0 { reply := .readOnly }, .run 0 {}, .run 1 minute, .run 0 minute, .run 0 {}]

def installOverNewer : List (System.Move Arrival Turn) :=
  [.arrive .command, .run 0 minute, .run 0 minute, .arrive (.failover (str "b:6379")), .run 1 {}, .arrive .command,
    .run 1 minute, .run 1 minute, .run 1 minute, .run 1 minute, .run 0 minute]

/-- **Fresh masters.** Where nothing is installed or invalidated while a discovery is under way, a command that is tried
again runs on a master discovered since, and no older discovery replaces a newer one. However failovers come in, this is
so in every run with at most `k` commands at a time exactly if `k` is at most one. -/
theorem masters_fresh_iff (k : ℕ) :
    (∀ client primary moves,
      system.machine.Along (System.Obeys (fun _ => True) fun s _ t _ => Timely s t) (start client primary) moves →
        ∀ e ∈ (system.machine.outputs (start client primary) moves).flatten, e.Fresh) ∧
    ((∀ client primary moves, system.machine.Along (AtMost k) (start client primary) moves →
        ∀ e ∈ (system.machine.outputs (start client primary) moves).flatten, e.Fresh) ↔ k ≤ 1) := by
  refine ⟨fun _ _ _ => fresh_of_timely, fun h => ?_, fun hk client primary moves h => ?_⟩
  · by_contra hk
    have hat : system.machine.Along (AtMost 2) (start twoEndpoints (str "a:6379")) installOverNewer := by decide +kernel
    have hfresh := h twoEndpoints (str "a:6379") installOverNewer (hat.mono fun c m hm => hm.trans (not_le.mp hk))
    revert hfresh
    decide +kernel
  · have hat : system.machine.Along (AtMost 1) (start client primary) moves := h.mono fun c m hm => hm.trans hk
    exact fresh_of_timely (Machine.Along.of_invariant (fun _ _ => single_move) (single_start client primary) hat)

theorem masters_overtaken :
    system.machine.Along (AtMost 2) (start twoEndpoints (str "a:6379")) installAfterInvalidation ∧
      .executed (some 6) ⟨3, 0⟩ ∈
        (system.machine.outputs (start twoEndpoints (str "a:6379")) installAfterInvalidation).flatten ∧
      system.machine.Along (AtMost 2) (start twoEndpoints (str "a:6379")) installOverNewer ∧
      .replaced ⟨2, 0⟩ ⟨6, 1⟩ ∈ (system.machine.outputs (start twoEndpoints (str "a:6379")) installOverNewer).flatten := by
  decide +kernel

end EdgeQuota.RedisClient.Replication
