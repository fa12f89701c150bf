import EdgeQuota.Middleware.WebSocketLimits
import EdgeQuota.Server.CachedProxy

/-! WebSocket sessions across reloads. A session stays with the proxy that has let it in, and every proxy counts with a
limiter of its own. -/

namespace EdgeQuota.Server
open Go Config Middleware Lib
open EdgeQuota.Proxy (WSLimiter)

variable {parseURL : GoString → Except GoString ParsedURL}

theorem wsLimiter_of_buildProxy {cfg : FullConfig} {p : Proxy} (h : buildProxy parseURL cfg = .ok p)
    (hmax : 0 < cfg.serving.maxWebSocketConnsPerKey) : p.wsLimiter = some cfg.serving.maxWebSocketConnsPerKey := by
  unfold buildProxy at h
  split at h
  · cases h
  · split at h
    · cases h
    · obtain rfl := Except.ok.inj h
      exact if_pos hmax

def newLimiter (p : Proxy) : Option WSLimiter := p.wsLimiter.map WSLimiter.new

def acquireOn (limiter : Option WSLimiter) (key : GoString) : Bool × Option WSLimiter :=
  match limiter with
  | none => (true, none)
  | some l => ((l.acquire key).1, some (l.acquire key).2)

structure Fleet (parseURL : GoString → Except GoString ParsedURL) where
  server : Server parseURL
  limiters : List (Option WSLimiter)
  /-- Upgrades on their way to the limiter, with the proxy that the chain has handed them to. -/
  arriving : List (ℕ × GoString) := []
  sessions : List (ℕ × GoString) := []

inductive SessionEvent where
  | upgrade (key : GoString)
  | acquire (i : ℕ)
  | close (i : ℕ)
  | reload (r : Reach) (cfg : FullConfig)

def SessionEvent.call : SessionEvent → Option (Reach × FullConfig)
  | .reload r cfg => some (r, cfg)
  | .upgrade _ | .acquire _ | .close _ => none

def callsOf (events : List SessionEvent) : List (Reach × FullConfig) := events.filterMap SessionEvent.call

def fleet (parseURL : GoString → Except GoString ParsedURL) : Machine (Fleet parseURL) SessionEvent Unit where
  step
    | s, .upgrade key => ((), { s with arriving := s.arriving ++ [(s.limiters.length - 1, key)] })
    | s, .acquire i =>
      match s.arriving[i]? with
      | none => ((), s)
      | some (n, key) =>
        let acquired := acquireOn (s.limiters.getD n none) key
        ((), { s with
          limiters := s.limiters.set n acquired.2
          arriving := s.arriving.eraseIdx i
          sessions := if acquired.1 then s.sessions ++ [(n, key)] else s.sessions })
    | s, .close i =>
      match s.sessions[i]? with
      | none => ((), s)
      | some (n, key) =>
        ((), { s with
          limiters := s.limiters.set n ((s.limiters.getD n none).map fun l => l.release key)
          sessions := s.sessions.eraseIdx i })
    | s, .reload r cfg =>
      let server := (s.server.reload r cfg).2
      ((), { s with
        server := server
        limiters := if s.server.swapsProxy r cfg then s.limiters ++ [newLimiter server.proxy] else s.limiters })

namespace Fleet

def start (server : Server parseURL) : Fleet parseURL := { server := server, limiters := [newLimiter server.proxy] }

def openFor (s : Fleet parseURL) (key : GoString) : ℕ := s.sessions.countP fun x => x.2 = key

def keysOn (n : ℕ) (sessions : List (ℕ × GoString)) : List GoString :=
  (sessions.filter fun x => x.1 = n).map Prod.snd

section KeysOn
variable {n n' : ℕ} {key : GoString} {before after : List (ℕ × GoString)}

theorem keysOn_append : keysOn n (before ++ after) = keysOn n before ++ keysOn n after := by
  unfold keysOn
  rw [List.filter_append, List.map_append]

theorem keysOn_cons_self : keysOn n ((n, key) :: after) = key :: keysOn n after := by
  unfold keysOn
  rw [List.filter_cons_of_pos (by simp), List.map_cons]

theorem keysOn_cons_of_ne (hne : n' ≠ n) : keysOn n ((n', key) :: after) = keysOn n after := by
  unfold keysOn
  rw [List.filter_cons_of_neg (by simpa using hne)]

theorem keysOn_eq_nil (h : ∀ x ∈ before, x.1 < n) : keysOn n before = [] := by
  unfold keysOn
  rw [List.map_eq_nil_iff, List.filter_eq_nil_iff]
  intro x hx heq
  exact (h x hx).ne (of_decide_eq_true heq)

end KeysOn

theorem countP_below_succ (sessions : List (ℕ × GoString)) (key : GoString) (n : ℕ) :
    (sessions.countP fun x => x.2 = key ∧ x.1 < n + 1) =
      (sessions.countP fun x => x.2 = key ∧ x.1 < n) + (keysOn n sessions).count key := by
  induction sessions with
  | nil => rfl
  | cons x sessions ih =>
    obtain ⟨n', key'⟩ := x
    have hcons : (keysOn n ((n', key') :: sessions)).count key =
        (keysOn n sessions).count key + if key' = key ∧ n' = n then 1 else 0 := by
      by_cases hn : n' = n
      · rw [hn, keysOn_cons_self, List.count_cons]
        simp only [beq_iff_eq, and_true]
      · rw [keysOn_cons_of_ne hn, if_neg fun h => hn h.2, Nat.add_zero]
    rw [List.countP_cons, List.countP_cons, ih, hcons]
    by_cases hkey : key' = key
    · simp only [hkey, true_and, decide_eq_true_eq]
      split_ifs <;> omega
    · simp only [hkey, false_and, decide_false, Bool.false_eq_true, if_false, Nat.add_zero]

theorem countP_below_le {sessions : List (ℕ × GoString)} {key : GoString} {maxPerKey : ℤ} {n : ℕ}
    (h : ∀ i < n, ((keysOn i sessions).count key : ℤ) ≤ maxPerKey) :
    ((sessions.countP fun x => x.2 = key ∧ x.1 < n : ℕ) : ℤ) ≤ maxPerKey * n := by
  induction n with
  | zero => simp
  | succ n ih =>
    have hbelow := ih fun i hi => h i (Nat.lt_succ_of_lt hi)
    have hlast := h n (Nat.lt_succ_self n)
    rw [countP_below_succ]
    push_cast
    linarith

def Tracks (maxPerKey : ℤ) (sessions : List (ℕ × GoString)) (n : ℕ) (limiter : Option WSLimiter) : Prop :=
  ∃ l, limiter = some l ∧ l.maxPerKey = maxPerKey ∧ l.Balanced (keysOn n sessions)

structure Sound (maxPerKey : ℤ) (s : Fleet parseURL) : Prop where
  tracks : ∀ n limiter, s.limiters[n]? = some limiter → Tracks maxPerKey s.sessions n limiter
  arriving : ∀ x ∈ s.arriving, x.1 < s.limiters.length
  sessions : ∀ x ∈ s.sessions, x.1 < s.limiters.length
  inService : 0 < s.limiters.length

section Invariant
variable {maxPerKey : ℤ} {sessions : List (ℕ × GoString)} {n n' : ℕ} {key : GoString} {limiter : Option WSLimiter}

theorem tracks_new {p : Proxy} (hlimit : p.wsLimiter = some maxPerKey) (hmax : 0 < maxPerKey)
    (h : ∀ x ∈ sessions, x.1 < n) : Tracks maxPerKey sessions n (newLimiter p) := by
  refine ⟨WSLimiter.new maxPerKey, ?_, rfl, ?_⟩
  · rw [newLimiter, hlimit, Option.map_some]
  · rw [keysOn_eq_nil h]
    exact WSLimiter.balanced_new hmax

theorem Tracks.acquireOn (h : Tracks maxPerKey sessions n limiter) (key : GoString) :
    ((acquireOn limiter key).1 = true ↔ ((keysOn n sessions).count key : ℤ) < maxPerKey) ∧
      Tracks maxPerKey (if (acquireOn limiter key).1 then sessions ++ [(n, key)] else sessions) n
        (acquireOn limiter key).2 := by
  obtain ⟨l, rfl, hlimit, hbalanced⟩ := h
  have hiff : (l.acquire key).1 = true ↔ ((keysOn n sessions).count key : ℤ) < maxPerKey := by
    rw [← hbalanced.count_eq key, ← hlimit, WSLimiter.acquire, if_neg hbalanced.positive.not_ge]
    split_ifs with hfull
    · exact iff_of_false id hfull.not_gt
    · exact iff_of_true rfl (not_le.mp hfull)
  refine ⟨hiff, ?_⟩
  change Tracks maxPerKey (if (l.acquire key).1 then sessions ++ [(n, key)] else sessions) n (some (l.acquire key).2)
  by_cases hok : (l.acquire key).1 = true
  · rw [if_pos hok]
    refine ⟨_, rfl, (maxPerKey_acquire l key).trans hlimit, ?_⟩
    rw [keysOn_append, keysOn_cons_self]
    exact hbalanced.acquire hok
  · rw [if_neg hok, acquire_of_refused (Bool.eq_false_of_not_eq_true hok)]
    exact ⟨l, rfl, hlimit, hbalanced⟩

theorem Tracks.release {before after : List (ℕ × GoString)} (h : Tracks maxPerKey (before ++ (n, key) :: after) n limiter) :
    Tracks maxPerKey (before ++ after) n (limiter.map fun l => l.release key) := by
  obtain ⟨l, rfl, hlimit, hbalanced⟩ := h
  refine ⟨l.release key, rfl, (maxPerKey_release l key).trans hlimit, ?_⟩
  rw [keysOn_append, keysOn_cons_self] at hbalanced
  rw [keysOn_append]
  exact hbalanced.release

theorem Tracks.congr {sessions' : List (ℕ × GoString)} (h : Tracks maxPerKey sessions n limiter)
    (hsame : keysOn n sessions' = keysOn n sessions) : Tracks maxPerKey sessions' n limiter := by
  unfold Tracks at h ⊢
  rw [hsame]
  exact h

variable {s : Fleet parseURL}

theorem Sound.tracks_getD (hs : s.Sound maxPerKey) (hn : n < s.limiters.length) :
    Tracks maxPerKey s.sessions n (s.limiters.getD n none) := by
  rw [List.getD_eq_getElem?_getD, List.getElem?_eq_getElem hn, Option.getD_some]
  exact hs.tracks n _ (List.getElem?_eq_getElem hn)

theorem Sound.upgrade (hs : s.Sound maxPerKey) (key : GoString) :
    ((fleet parseURL).step s (.upgrade key)).2.Sound maxPerKey := by
  refine ⟨hs.tracks, ?_, hs.sessions, hs.inService⟩
  intro x hx
  rcases List.mem_append.mp hx with hold | hnew
  · exact hs.arriving x hold
  · obtain rfl := List.mem_singleton.mp hnew
    exact Nat.sub_lt hs.inService one_pos

theorem Sound.replace (hs : s.Sound maxPerKey) {arriving sessions : List (ℕ × GoString)}
    (harriving : ∀ x ∈ arriving, x ∈ s.arriving) (hsessions : ∀ x ∈ sessions, x ∈ s.sessions ∨ x.1 = n)
    (hn : n < s.limiters.length) (hself : Tracks maxPerKey sessions n limiter)
    (hother : ∀ n' ≠ n, keysOn n' sessions = keysOn n' s.sessions) :
    Sound maxPerKey { s with limiters := s.limiters.set n limiter, arriving := arriving, sessions := sessions } where
  tracks n' limiter' hlimiter := by
    rw [List.getElem?_set] at hlimiter
    split_ifs at hlimiter with hsame
    · obtain rfl := Option.some.inj hlimiter
      exact hsame ▸ hself
    · exact (hs.tracks n' limiter' hlimiter).congr (hother n' (Ne.symm hsame))
  arriving x hx := by
    rw [List.length_set]
    exact hs.arriving x (harriving x hx)
  sessions x hx := by
    rw [List.length_set]
    rcases hsessions x hx with hold | heq
    · exact hs.sessions x hold
    · rw [heq]
      exact hn
  inService := by
    rw [List.length_set]
    exact hs.inService

theorem Sound.acquire (hs : s.Sound maxPerKey) (i : ℕ) : ((fleet parseURL).step s (.acquire i)).2.Sound maxPerKey := by
  simp only [fleet]
  cases hi : s.arriving[i]? with
  | none => exact hs
  | some x =>
    obtain ⟨n, key⟩ := x
    have hn : n < s.limiters.length := hs.arriving (n, key) (List.mem_of_getElem? hi)
    refine hs.replace (fun x hx => List.mem_of_mem_eraseIdx hx) ?_ hn ((hs.tracks_getD hn).acquireOn key).2 ?_
    · intro x hx
      split_ifs at hx
      · rcases List.mem_append.mp hx with hold | hnew
        · exact Or.inl hold
        · obtain rfl := List.mem_singleton.mp hnew
          exact Or.inr rfl
      · exact Or.inl hx
    · intro n' hne
      split_ifs
      · rw [keysOn_append, keysOn_cons_of_ne (Ne.symm hne)]
        exact List.append_nil _
      · rfl

theorem Sound.close (hs : s.Sound maxPerKey) (i : ℕ) : ((fleet parseURL).step s (.close i)).2.Sound maxPerKey := by
  simp only [fleet]
  cases hi : s.sessions[i]? with
  | none => exact hs
  | some x =>
    obtain ⟨n, key⟩ := x
    have hn : n < s.limiters.length := hs.sessions (n, key) (List.mem_of_getElem? hi)
    have hsplit := System.eq_split hi
    have htracks := hs.tracks_getD hn
    rw [hsplit] at htracks
    refine hs.replace (fun _ hx => hx) (fun x hx => Or.inl (List.mem_of_mem_eraseIdx hx)) hn ?_ ?_
    · rw [List.eraseIdx_eq_take_drop_succ]
      exact htracks.release
    · intro n' hne
      rw [List.eraseIdx_eq_take_drop_succ]
      conv_rhs => rw [hsplit]
      rw [keysOn_append, keysOn_append, keysOn_cons_of_ne (Ne.symm hne)]

theorem Sound.reload (hs : s.Sound maxPerKey) (r : Reach) {cfg : FullConfig} (hmax : 0 < maxPerKey)
    (hlimit : cfg.serving.maxWebSocketConnsPerKey = maxPerKey) :
    ((fleet parseURL).step s (.reload r cfg)).2.Sound maxPerKey := by
  by_cases hswap : s.server.swapsProxy r cfg = true
  · have hlimiters : ((fleet parseURL).step s (.reload r cfg)).2.limiters =
        s.limiters ++ [newLimiter (s.server.reload r cfg).2.proxy] := if_pos hswap
    have hbuilt := (s.server.reload r cfg).2.built
    rw [Server.builtFrom_reload, if_pos hswap] at hbuilt
    have hnew : (s.server.reload r cfg).2.proxy.wsLimiter = some maxPerKey := by
      rw [← hlimit] at hmax ⊢
      exact wsLimiter_of_buildProxy hbuilt hmax
    have hlength : s.limiters.length ≤ ((fleet parseURL).step s (.reload r cfg)).2.limiters.length := by
      rw [hlimiters, List.length_append]
      exact Nat.le_add_right _ _
    refine ⟨?_, fun x hx => (hs.arriving x hx).trans_le hlength, fun x hx => (hs.sessions x hx).trans_le hlength,
      hs.inService.trans_le hlength⟩
    intro n limiter hlimiter
    rw [hlimiters] at hlimiter
    rcases lt_or_ge n s.limiters.length with hold | hlater
    · rw [List.getElem?_append_left hold] at hlimiter
      exact hs.tracks n limiter hlimiter
    · rw [List.getElem?_append_right hlater] at hlimiter
      obtain rfl := List.mem_singleton.mp (List.mem_of_getElem? hlimiter)
      exact tracks_new hnew hmax fun x hx => (hs.sessions x hx).trans_le hlater
  · have hlimiters : ((fleet parseURL).step s (.reload r cfg)).2.limiters = s.limiters := if_neg hswap
    refine ⟨?_, ?_, ?_, ?_⟩
    · rw [hlimiters]
      exact hs.tracks
    · rw [hlimiters]
      exact hs.arriving
    · rw [hlimiters]
      exact hs.sessions
    · rw [hlimiters]
      exact hs.inService

def Keeps (maxPerKey : ℤ) (e : SessionEvent) : Prop :=
  ∀ call ∈ e.call, call.2.serving.maxWebSocketConnsPerKey = maxPerKey

theorem Sound.step (hs : s.Sound maxPerKey) (hmax : 0 < maxPerKey) {e : SessionEvent} (he : Keeps maxPerKey e) :
    ((fleet parseURL).step s e).2.Sound maxPerKey := by
  cases e with
  | upgrade key => exact hs.upgrade key
  | acquire i => exact hs.acquire i
  | close i => exact hs.close i
  | reload r cfg => exact hs.reload r hmax (he (r, cfg) rfl)

theorem Sound.run (hs : s.Sound maxPerKey) (hmax : 0 < maxPerKey) {events : List SessionEvent}
    (hevents : ∀ e ∈ events, Keeps maxPerKey e) : ((fleet parseURL).run s events).Sound maxPerKey :=
  Machine.run_of_invariant (P := fun _ e => Keeps maxPerKey e) (I := Sound maxPerKey) (fun _ _ hs he => hs.step hmax he)
    hs (Machine.along_of_forall fun e he _ => hevents e he)

theorem sound_start {server : Server parseURL} (hlimit : server.proxy.wsLimiter = some maxPerKey) (hmax : 0 < maxPerKey) :
    (start server).Sound maxPerKey := by
  refine ⟨?_, by rintro x ⟨⟩, by rintro x ⟨⟩, one_pos⟩
  intro n limiter hlimiter
  obtain rfl := List.mem_singleton.mp (List.mem_of_getElem? hlimiter)
  exact tracks_new hlimit hmax (by rintro x ⟨⟩)

theorem Sound.openFor_le (hs : s.Sound maxPerKey) (key : GoString) :
    (s.openFor key : ℤ) ≤ maxPerKey * s.limiters.length := by
  have hall : s.openFor key = s.sessions.countP fun x => x.2 = key ∧ x.1 < s.limiters.length := by
    unfold openFor
    apply List.countP_congr
    intro x hx
    simp only [decide_eq_true_eq, hs.sessions x hx, and_true]
  rw [hall]
  apply countP_below_le
  intro n hn
  obtain ⟨l, -, hlimit, hbalanced⟩ := hs.tracks_getD hn
  rw [← hlimit]
  exact hbalanced.bound key

end Invariant

section Runs
variable {maxPerKey : ℤ} {s : Fleet parseURL}

def Stays (server : Server parseURL) (call : Reach × FullConfig) : Prop := server.swapsProxy call.1 call.2 = false

theorem step_of_call_none {e : SessionEvent} (he : e.call = none) :
    ((fleet parseURL).step s e).2.server = s.server ∧
      ((fleet parseURL).step s e).2.limiters.length = s.limiters.length := by
  cases e with
  | upgrade key => exact ⟨rfl, rfl⟩
  | acquire i =>
    simp only [fleet]
    cases s.arriving[i]? with
    | none => exact ⟨rfl, rfl⟩
    | some x => exact ⟨rfl, List.length_set ..⟩
  | close i =>
    simp only [fleet]
    cases s.sessions[i]? with
    | none => exact ⟨rfl, rfl⟩
    | some x => exact ⟨rfl, List.length_set ..⟩
  | reload r cfg => cases he

theorem length_run {events : List SessionEvent}
    (h : (Server.reloads parseURL).Along Stays s.server (callsOf events)) :
    ((fleet parseURL).run s events).limiters.length = s.limiters.length := by
  induction events generalizing s with
  | nil => rfl
  | cons e events ih =>
    cases hcall : e.call with
    | none =>
      obtain ⟨hserver, hlength⟩ := step_of_call_none (s := s) hcall
      rw [callsOf, List.filterMap_cons_none hcall, ← hserver] at h
      exact (ih h).trans hlength
    | some call =>
      rw [callsOf, List.filterMap_cons_some hcall] at h
      cases e with
      | reload r cfg =>
        obtain rfl := Option.some.inj hcall
        have hlimiters : ((fleet parseURL).step s (.reload r cfg)).2.limiters = s.limiters :=
          if_neg (ne_true_of_eq_false h.1)
        exact (ih h.2).trans (congrArg List.length hlimiters)
      | upgrade key => cases hcall
      | acquire i => cases hcall
      | close i => cases hcall

theorem callsOf_reloads (calls : List (Reach × FullConfig)) :
    callsOf (calls.map fun call => .reload call.1 call.2) = calls := by
  induction calls with
  | nil => rfl
  | cons call calls ih => exact congrArg (call :: ·) ih

theorem callsOf_append (as bs : List SessionEvent) : callsOf (as ++ bs) = callsOf as ++ callsOf bs := List.filterMap_append

theorem run_reloads (s : Fleet parseURL) (calls : List (Reach × FullConfig)) :
    let s' := (fleet parseURL).run s (calls.map fun call => .reload call.1 call.2)
    s'.server = (Server.reloads parseURL).run s.server calls ∧ s'.arriving = s.arriving ∧ s'.sessions = s.sessions := by
  induction calls generalizing s with
  | nil => exact ⟨rfl, rfl, rfl⟩
  | cons call calls ih => exact ih ((fleet parseURL).step s (.reload call.1 call.2)).2

def opening (key : GoString) : List SessionEvent := [.upgrade key, .acquire 0]

structure Opened (s s' : Fleet parseURL) (n : ℕ) (key : GoString) : Prop where
  server : s'.server = s.server
  arriving : s'.arriving = []
  length : s'.limiters.length = s.limiters.length
  sessions : s'.sessions = s.sessions ++ List.replicate n (s.limiters.length - 1, key)

theorem opened_one (hs : s.Sound maxPerKey) (harriving : s.arriving = []) {key : GoString}
    (hroom : ((keysOn (s.limiters.length - 1) s.sessions).count key : ℤ) < maxPerKey) :
    Opened s ((fleet parseURL).run s (opening key)) 1 key := by
  have hlast : s.limiters.length - 1 < s.limiters.length := Nat.sub_lt hs.inService one_pos
  have hok := ((hs.tracks_getD hlast).acquireOn key).1.mpr hroom
  have hrun : (fleet parseURL).run s (opening key) =
      { s with
        limiters := s.limiters.set (s.limiters.length - 1)
          (acquireOn (s.limiters.getD (s.limiters.length - 1) none) key).2
        arriving := []
        sessions := s.sessions ++ [(s.limiters.length - 1, key)] } := by
    simp only [opening, Machine.run, fleet, harriving, List.nil_append, List.getElem?_cons_zero, hok, if_true,
      List.eraseIdx_cons_zero]
  rw [hrun]
  exact ⟨rfl, rfl, List.length_set .., rfl⟩

theorem opened_many (hs : s.Sound maxPerKey) (harriving : s.arriving = []) {key : GoString}
    {n : ℕ} (hroom : ((keysOn (s.limiters.length - 1) s.sessions).count key : ℤ) + n ≤ maxPerKey) :
    Opened s ((fleet parseURL).run s (List.replicate n (opening key)).flatten) n key := by
  induction n generalizing s with
  | zero => exact ⟨rfl, harriving, rfl, (List.append_nil _).symm⟩
  | succ n ih =>
    push_cast at hroom
    have hfirst : ((keysOn (s.limiters.length - 1) s.sessions).count key : ℤ) < maxPerKey := by omega
    have hone := opened_one hs harriving hfirst
    have hsound : ((fleet parseURL).run s (opening key)).Sound maxPerKey := (hs.upgrade key).acquire 0
    have hcount : (keysOn (s.limiters.length - 1) ((fleet parseURL).run s (opening key)).sessions).count key =
        (keysOn (s.limiters.length - 1) s.sessions).count key + 1 := by
      rw [hone.sessions, List.replicate_one, keysOn_append, keysOn_cons_self, List.count_append, List.count_cons_self]
      rfl
    have hrest := ih hsound hone.arriving (by rw [hone.length, hcount]; push_cast; omega)
    rw [List.replicate_succ, List.flatten_cons, Machine.run_append]
    refine ⟨hrest.server.trans hone.server, hrest.arriving, hrest.length.trans hone.length, ?_⟩
    rw [hrest.sessions, hone.length, hone.sessions, List.append_assoc, ← List.replicate_add, Nat.add_comm]

theorem sessions_swapped (hs : s.Sound maxPerKey) (hmax : 0 < maxPerKey) (harriving : s.arriving = [])
    {call : Reach × FullConfig} (hlimit : call.2.serving.maxWebSocketConnsPerKey = maxPerKey)
    (hswap : ¬Stays s.server call) (key : GoString) :
    ((fleet parseURL).run s (.reload call.1 call.2 :: opening key)).sessions =
      s.sessions ++ [(s.limiters.length, key)] := by
  have hsound := hs.reload call.1 hmax hlimit
  have hlimiters : ((fleet parseURL).step s (.reload call.1 call.2)).2.limiters =
      s.limiters ++ [newLimiter (s.server.reload call.1 call.2).2.proxy] :=
    if_pos (Bool.eq_true_of_not_eq_false hswap)
  have hlast : ((fleet parseURL).step s (.reload call.1 call.2)).2.limiters.length - 1 = s.limiters.length := by
    rw [hlimiters, List.length_append, List.length_singleton, Nat.add_sub_cancel]
  have hfresh : keysOn s.limiters.length ((fleet parseURL).step s (.reload call.1 call.2)).2.sessions = [] :=
    keysOn_eq_nil hs.sessions
  have hroom : ((keysOn (((fleet parseURL).step s (.reload call.1 call.2)).2.limiters.length - 1)
      ((fleet parseURL).step s (.reload call.1 call.2)).2.sessions).count key : ℤ) < maxPerKey := by
    rw [hlast, hfresh, List.count_nil]
    exact hmax
  have hopened := (opened_one hsound harriving hroom).sessions
  rw [hlast] at hopened
  exact hopened

def filling (maxPerKey : ℤ) (key : GoString) : List SessionEvent :=
  (List.replicate maxPerKey.toNat (opening key)).flatten

theorem call_filling {maxPerKey : ℤ} {key : GoString} {e : SessionEvent} (he : e ∈ filling maxPerKey key) :
    e.call = none := by
  obtain ⟨es, hes, hmem⟩ := List.mem_flatten.mp he
  rw [List.eq_of_mem_replicate hes, opening, List.mem_cons, List.mem_singleton] at hmem
  rcases hmem with rfl | rfl <;> rfl

def overrun (maxPerKey : ℤ) (key : GoString) (call : Reach × FullConfig) : List SessionEvent :=
  filling maxPerKey key ++ .reload call.1 call.2 :: opening key

theorem call_overrun (maxPerKey : ℤ) (key : GoString) (call : Reach × FullConfig) :
    callsOf (overrun maxPerKey key call) = [call] := by
  rw [callsOf, overrun, List.filterMap_append, List.filterMap_eq_nil_iff.mpr fun e he => call_filling he]
  rfl

theorem openFor_overrun (hs : s.Sound maxPerKey) (hmax : 0 < maxPerKey) (harriving : s.arriving = [])
    (hsessions : s.sessions = []) {call : Reach × FullConfig}
    (hlimit : call.2.serving.maxWebSocketConnsPerKey = maxPerKey) (hswap : ¬Stays s.server call) (key : GoString) :
    maxPerKey < ((fleet parseURL).run s (overrun maxPerKey key call)).openFor key := by
  have hroom : ((keysOn (s.limiters.length - 1) s.sessions).count key : ℤ) + maxPerKey.toNat ≤ maxPerKey := by
    have hnone : keysOn (s.limiters.length - 1) s.sessions = [] := by
      rw [hsessions]
      rfl
    rw [hnone, List.count_nil]
    omega
  have hfull : Opened s ((fleet parseURL).run s (filling maxPerKey key)) maxPerKey.toNat key :=
    opened_many hs harriving hroom
  have hsound : ((fleet parseURL).run s (filling maxPerKey key)).Sound maxPerKey := by
    refine hs.run hmax fun e he call hcall => ?_
    rw [call_filling he] at hcall
    cases hcall
  have hswap' : ¬Stays ((fleet parseURL).run s (filling maxPerKey key)).server call := by
    rw [hfull.server]
    exact hswap
  rw [overrun, Machine.run_append, openFor, sessions_swapped hsound hmax hfull.arriving hlimit hswap', hfull.sessions,
    hsessions, List.nil_append, List.countP_append, List.countP_replicate]
  simp only [decide_true, if_true, List.countP_singleton]
  push_cast
  omega

/-- **WebSocket limits across reloads.** With the limit left as it is, the sessions of a key are never more than the limit
for each proxy that has been in service. In all interleavings of upgrades and closes with given reloads they stay within
the limit itself exactly if no reload puts another proxy into service: that one counts from zero. -/
theorem websocket_limit_iff {r : Reach} {cfg : FullConfig} {server : Server parseURL} (h : Server.new r cfg = .ok server)
    (hmax : 0 < cfg.serving.maxWebSocketConnsPerKey) {calls : List (Reach × FullConfig)}
    (hlimit : ∀ call ∈ calls, call.2.serving.maxWebSocketConnsPerKey = cfg.serving.maxWebSocketConnsPerKey) :
    (∀ events, callsOf events = calls → ∀ done, done <+: events → ∀ key,
      let s := (fleet parseURL).run (start server) done
      (s.openFor key : ℤ) ≤ cfg.serving.maxWebSocketConnsPerKey * s.limiters.length) ∧
    ((∀ events, callsOf events = calls → ∀ done, done <+: events → ∀ key,
        (((fleet parseURL).run (start server) done).openFor key : ℤ) ≤ cfg.serving.maxWebSocketConnsPerKey) ↔
      (Server.reloads parseURL).Along Stays server calls) := by
  obtain ⟨-, hbuiltFrom⟩ := Server.config_new h
  have hstart : (start server).Sound cfg.serving.maxWebSocketConnsPerKey :=
    sound_start (wsLimiter_of_buildProxy (hbuiltFrom ▸ server.built) hmax) hmax
  have hkeeps : ∀ events, callsOf events <+: calls →
      ∀ e ∈ events, Keeps cfg.serving.maxWebSocketConnsPerKey e := by
    intro events hevents e he call hcall
    exact hlimit call (hevents.subset (List.mem_filterMap.mpr ⟨e, he, hcall⟩))
  have hcalls : ∀ events, callsOf events = calls → ∀ done, done <+: events →
      callsOf done <+: calls := by
    rintro events rfl done hdone
    exact hdone.filterMap SessionEvent.call
  have hsum : ∀ events, callsOf events = calls → ∀ done, done <+: events → ∀ key,
      (((fleet parseURL).run (start server) done).openFor key : ℤ) ≤
        cfg.serving.maxWebSocketConnsPerKey * ((fleet parseURL).run (start server) done).limiters.length := by
    intro events hevents done hdone key
    exact (hstart.run hmax (hkeeps done (hcalls events hevents done hdone))).openFor_le key
  refine ⟨hsum, ?_, ?_⟩
  · intro hall
    by_contra hnot
    obtain ⟨before, call, after, rfl, hswap⟩ := Machine.exists_of_not_along hnot
    set reloading : List SessionEvent := before.map fun c => .reload c.1 c.2 with hreloading
    have hbefore : callsOf reloading = before := callsOf_reloads before
    obtain ⟨hserver, harriving, hsessions⟩ := run_reloads (start server) before
    have hsound : ((fleet parseURL).run (start server) reloading).Sound cfg.serving.maxWebSocketConnsPerKey :=
      hstart.run hmax (hkeeps reloading (by rw [hbefore]; exact List.prefix_append _ _))
    have hswap' : ¬Stays ((fleet parseURL).run (start server) reloading).server call := by
      rw [hserver]
      exact hswap
    have hover := openFor_overrun hsound hmax harriving hsessions (hlimit call (by simp)) hswap' (str "k")
    rw [← Machine.run_append] at hover
    have hevents : callsOf (reloading ++ overrun cfg.serving.maxWebSocketConnsPerKey (str "k") call ++
        after.map fun c => .reload c.1 c.2) = before ++ call :: after := by
      rw [callsOf_append, callsOf_append, hbefore, call_overrun, callsOf_reloads, List.append_assoc]
      rfl
    exact absurd (hall _ hevents _ (List.prefix_append _ _) (str "k")) (not_le.mpr hover)
  · intro hstays events hevents done hdone key
    obtain ⟨rest, hrest⟩ := hcalls events hevents done hdone
    rw [← hrest, Machine.along_append] at hstays
    have hone : ((fleet parseURL).run (start server) done).limiters.length = 1 := length_run hstays.1
    have hle := hsum events hevents done hdone key
    rw [hone, Nat.cast_one, mul_one] at hle
    exact hle

end Runs

def single : FullConfig := { Live.plainFull false with serving := { maxWebSocketConnsPerKey := 1 } }

def singleServer : Except Server.NewError (Server Live.plainURL) := Server.new {} single

theorem websocket_limit_unchanged :
    ∃ server, singleServer = .ok server ∧
      (((fleet Live.plainURL).run (start server)
        [.upgrade (str "k"), .acquire 0, .reload {} single, .upgrade (str "k"), .acquire 0]).openFor (str "k") : ℤ) ≤ 1 := by
  obtain ⟨server, hserver⟩ := Live.exists_of_isOk (x := singleServer) (by decide +kernel)
  have hstays : (Server.reloads Live.plainURL).Along Stays server [({}, single)] := by
    refine ⟨?_, trivial⟩
    have hbackend : backendChanged server.cfg single = false := by
      rw [(Server.config_new hserver).1]
      decide +kernel
    rw [Stays, Server.swapsProxy, hbackend, Bool.and_false, Bool.false_and]
  have hsame : ∀ call ∈ [(({} : Reach), single)],
      call.2.serving.maxWebSocketConnsPerKey = single.serving.maxWebSocketConnsPerKey := by simp
  have hlimit := (websocket_limit_iff hserver (by decide) hsame).2.mpr hstays
  exact ⟨server, hserver, hlimit _ rfl _ List.prefix_rfl (str "k")⟩

theorem websocket_limit_doubled :
    (singleServer.toOption.map fun server =>
      ((fleet Live.plainURL).run (start server)
        [.upgrade (str "k"), .acquire 0, .reload {} { single with upstream := { maxIdleConns := 7 } },
          .upgrade (str "k"), .acquire 0]).sessions) = some [(0, str "k"), (1, str "k")] := by
  decide +kernel

end Fleet
end EdgeQuota.Server
