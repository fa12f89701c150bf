import EdgeQuota.Lib.Threads
import EdgeQuota.Middleware.Reload

/-! What goes on around the limiter at the same time: requests that report its errors, the recovery that they
start, reloads and the end of the chain. Each goroutine is a thread that takes one step between two points at
which another can be seen or can see it. What stands under one lock is one step, and so is a row of stores that
none of the others reads. -/

namespace EdgeQuota.Middleware
open Go Config RateLimit Lib

/-- A request on its way through `tryRedisLimit`, `handleLimiterError` and `startRecoveryIfNeeded`. -/
inductive RequestAt where
  | arrived
  | calling (lim : InstalledLimiter)
  | reporting (lim : InstalledLimiter)
  | starting
  | claiming

inductive Reason where
  | installed
  | notConfigured
  | shutDown
  | createFailed (e : RedisClient.ClientError)
  | exhausted

structure Attempts where
  client : RedisHandle
  maxAttempts : ℤ
  attempt : ℤ
  backoff : ℤ

inductive RecoveryAt where
  | begin
  | creating (maxAttempts : ℤ)
  | looping (l : Attempts)
  | comparing (l : Attempts)
  | pinging (l : Attempts)
  | retrying (l : Attempts)
  | sleeping (l : Attempts)
  | installing (client : RedisHandle)
  | deciding (client : RedisHandle) (snap : StaticSnapshot)
  | dropping
  | swapping (client : RedisHandle) (snap : StaticSnapshot)
  | rebinding (client : RedisHandle)
  | storingAuth (client : RedisHandle)
  | loadingExternal (client : RedisHandle)
  | settingExternal (client : RedisHandle) (id : ℕ)
  | returned (why : Reason)

inductive ReloadAt where
  | start
  | fallback
  | static
  | config
  | releasing (prev : FullConfig)
  | resolving (prev : FullConfig)
  | connecting (prev : FullConfig) (rc : RedisConfig)
  | borrowing (prev : FullConfig)
  | extending (prev : FullConfig) (cache : Option RedisHandle)
  | auth (prev : FullConfig)
  | reading
  | storing (cur : Option RedisHandle)
  | rest

inductive CloseAt where
  | cancelling
  | swapping
  | releasing

inductive Thread where
  | request (pc : RequestAt)
  | recovery (pc : RecoveryAt)
  | reload (cfg : FullConfig) (pc : ReloadAt)
  | close (pc : CloseAt)

inductive Arrival where
  | request
  | reload (cfg : FullConfig)
  | close

inductive Event where
  /-- A report removed a limiter; the error came from a call on the other one. -/
  | tornDown (removed failed : InstalledLimiter)
  | returned (why : Reason)
  | reloaded (result : Except ChainError Unit)

structure Answer extends Reach where
  served : Bool := true

abbrev Outcome := List Event × Live × List Thread

def goOn (s : Live) (t : Thread) : Outcome := ([], s, [t])

def requestStep (a : Answer) (s : Live) : RequestAt → Outcome
  | .arrived =>
    match s.limiter with
    | none => ([], s, [])
    | some lim => goOn s (.request (.calling lim))
  | .calling lim => if a.served then ([], s, []) else goOn s (.request (.reporting lim))
  | .reporting lim =>
    ((s.limiter.map fun removed => .tornDown removed lim).toList, { s with limiter := none, redisUnhealthy := true },
      [.request .starting])
  | .starting => if s.closed then ([], s, []) else goOn s (.request .claiming)
  | .claiming => if s.reconnecting then ([], s, []) else goOn { s with reconnecting := true } (.recovery .begin)

def recoveryBackoffBase : ℤ := 1000000000

def recoveryBackoffMax : ℤ := 60000000000

def sameRedisEndpoints (a b : RedisConfig) : Bool :=
  a.endpoints = b.endpoints ∧ a.mode = b.mode ∧ a.masterName = b.masterName

def recoveryStep (a : Answer) (s : Live) : RecoveryAt → Outcome
  | .begin => goOn s (.recovery (.creating s.cfg.maxRecoveryAttempts))
  | .creating maxAttempts =>
    match RedisClient.newClient s.cfg.redis false a.redis with
    | .error e => goOn s (.recovery (.returned (.createFailed e)))
    | .ok _ =>
      goOn { s with allocated := s.allocated + 1 }
        (.recovery (.looping ⟨⟨s.allocated, s.cfg.redis⟩, maxAttempts, 0, recoveryBackoffBase⟩))
  | .looping l => goOn s (.recovery (if s.closed then .returned .shutDown else .comparing l))
  | .comparing l =>
    if sameRedisEndpoints l.client.config s.cfg.redis then goOn s (.recovery (.pinging l))
    else
      match RedisClient.newClient s.cfg.redis false a.redis with
      | .error e => goOn s (.recovery (.returned (.createFailed e)))
      | .ok _ =>
        goOn { s with allocated := s.allocated + 1 }
          (.recovery (.pinging { l with client := ⟨s.allocated, s.cfg.redis⟩, backoff := recoveryBackoffBase }))
  | .pinging l =>
    goOn s (.recovery
      (if a.redis.pong && !s.closed then .installing l.client else .retrying { l with attempt := l.attempt + 1 }))
  | .retrying l =>
    goOn s (.recovery (if 0 < l.maxAttempts ∧ l.maxAttempts ≤ l.attempt then .returned .exhausted else .sleeping l))
  | .sleeping l =>
    goOn s (.recovery
      (if s.closed then .returned .shutDown else .looping { l with backoff := min (l.backoff * 2) recoveryBackoffMax }))
  | .installing client => goOn s (.recovery (.deciding client s.staticRL))
  | .deciding client snap =>
    goOn s (.recovery
      (if snap.ratePerSecond ≤ 0 ∧ s.cfg.rateLimit.external.enabled = false then .dropping else .swapping client snap))
  | .dropping => goOn { s with limiter := none, redisUnhealthy := false } (.recovery (.returned .notConfigured))
  | .swapping client snap =>
    goOn { s with limiter := some (snap.newLimiter client), redisUnhealthy := false } (.recovery (.rebinding client))
  | .rebinding client =>
    if s.cacheRedisOwned then goOn s (.recovery (.returned .installed))
    else goOn { s with cacheRedis := some client } (.recovery (.storingAuth client))
  | .storingAuth client => goOn (s.storeAuthCacheRedis (some client)) (.recovery (.loadingExternal client))
  | .loadingExternal client =>
    match s.externalRL with
    | none => goOn s (.recovery (.returned .installed))
    | some ext => goOn s (.recovery (.settingExternal client ext.id))
  | .settingExternal client id =>
    -- a client that has been exchanged meanwhile is nobody's any more
    goOn { s with externalRL := s.externalRL.map fun ext => if ext.id = id then { ext with redis := some client } else ext }
      (.recovery (.returned .installed))
  | .returned why => ([.returned why], { s with reconnecting := false }, [])

def reloadStep (a : Answer) (cfg : FullConfig) (s : Live) : ReloadAt → Outcome
  | .start =>
    match newKeyStrategy cfg.rateLimit.static.keyStrategy with
    | .error e => ([.reloaded (.error (.keyStrategy e))], s, [])
    | .ok ks => goOn { s with keyStrategy := ks } (.reload cfg .fallback)
  | .fallback =>
    match s.storeFallback cfg with
    | .error e => ([.reloaded (.error (.fallbackKeyStrategy e))], s, [])
    | .ok s => goOn s (.reload cfg .static)
  | .static => goOn (s.storeStatic cfg) (.reload cfg .config)
  | .config =>
    goOn (s.storeConfig cfg) (.reload cfg (if cfg.rateLimit.external.enabled then .releasing s.cfg else .auth s.cfg))
  | .releasing prev => goOn s.releaseCacheRedis (.reload cfg (.resolving prev))
  | .resolving prev =>
    match s.cacheRedis with
    | some existing => goOn s (.reload cfg (.extending prev (some existing)))
    | none =>
      match cfg.dedicatedCache with
      | some rc => goOn s (.reload cfg (.connecting prev rc))
      | none => goOn s (.reload cfg (.borrowing prev))
  | .connecting prev rc =>
    if (RedisClient.newClient rc true a.cacheRedis).isOk then
      goOn (s.adoptCacheRedis rc).2 (.reload cfg (.extending prev (s.adoptCacheRedis rc).1))
    else goOn s (.reload cfg (.borrowing prev))
  | .borrowing prev => goOn s.borrowCacheRedis.2 (.reload cfg (.extending prev s.borrowCacheRedis.1))
  | .extending prev cache =>
    goOn (if a.externalClient then s.storeExternal cfg cache else s) (.reload cfg (.auth prev))
  | .auth prev => goOn (s.reloadAuth a.toReach prev cfg) (.reload cfg .reading)
  | .reading => goOn s (.reload cfg (.storing s.cacheRedis))
  | .storing cur => goOn (s.storeAuthCacheRedis cur) (.reload cfg .rest)
  | .rest => ([.reloaded (.ok ())], s.storeRest cfg, [])

def closeStep (s : Live) : CloseAt → Outcome
  | .cancelling => goOn { s with closed := true } (.close .swapping)
  | .swapping => goOn { s with limiter := none, redisUnhealthy := true } (.close .releasing)
  | .releasing => ([], s.releaseCacheRedis, [])

def step (s : Live) (t : Thread) (a : Answer) : Outcome :=
  match t with
  | .request pc => requestStep a s pc
  | .recovery pc => recoveryStep a s pc
  | .reload cfg pc => reloadStep a cfg s pc
  | .close pc => closeStep s pc

def arrive : Arrival → Thread
  | .request => .request .arrived
  | .reload cfg => .reload cfg .start
  | .close => .close .cancelling

def system : System Live Thread Arrival Answer Event := ⟨arrive, step⟩

def Live.conf (s : Live) : System.Conf Live Thread := ⟨s, if s.reconnecting then [.recovery .begin] else []⟩

section Undisturbed
variable {a : Answer} {cfg : FullConfig}

theorem completes_auth (prev : FullConfig) (s : Live) :
    system.Completes a s (.reload cfg (.auth prev)) [.reloaded (.ok ())]
      (((s.reloadAuth a.toReach prev cfg).storeAuthCacheRedis (s.reloadAuth a.toReach prev cfg).cacheRedis).storeRest
        cfg) := by
  apply System.Completes.silent rfl
  apply System.Completes.silent rfl
  apply System.Completes.silent rfl
  exact System.Completes.done rfl

theorem completes_extending {out : List Event} {s s' : Live} {prev : FullConfig} {cache : Option RedisHandle}
    (h : system.Completes a (if a.externalClient then s.storeExternal cfg cache else s) (.reload cfg (.auth prev)) out s') :
    system.Completes a s (.reload cfg (.extending prev cache)) out s' :=
  System.Completes.silent rfl h

theorem completes_resolving {out : List Event} {s s' : Live} {prev : FullConfig}
    (h : system.Completes a (s.resolveCacheRedis a.cacheRedis cfg).2
      (.reload cfg (.extending prev (s.resolveCacheRedis a.cacheRedis cfg).1)) out s') :
    system.Completes a s (.reload cfg (.resolving prev)) out s' := by
  have hborrowing : system.step s (.reload cfg (.borrowing prev)) a =
      ([], s.borrowCacheRedis.2, [.reload cfg (.extending prev s.borrowCacheRedis.1)]) := rfl
  unfold Live.resolveCacheRedis at h
  cases hcache : s.cacheRedis with
  | some existing =>
    simp only [hcache] at h
    apply System.Completes.silent _ h
    simp only [system, step, reloadStep, hcache]
    rfl
  | none =>
    cases hdedicated : cfg.dedicatedCache with
    | none =>
      simp only [hcache, hdedicated] at h
      refine System.Completes.silent ?_ (System.Completes.silent hborrowing h)
      simp only [system, step, reloadStep, hcache, hdedicated]
      rfl
    | some rc =>
      simp only [hcache, hdedicated] at h
      have hconnecting : system.step s (.reload cfg (.resolving prev)) a = ([], s, [.reload cfg (.connecting prev rc)]) := by
        simp only [system, step, reloadStep, hcache, hdedicated]
        rfl
      apply System.Completes.silent hconnecting
      by_cases hok : (RedisClient.newClient rc true a.cacheRedis).isOk = true
      · simp only [if_pos hok] at h
        refine System.Completes.silent ?_ h
        simp only [system, step, reloadStep, if_pos hok]
        rfl
      · simp only [if_neg hok] at h
        refine System.Completes.silent ?_ (System.Completes.silent hborrowing h)
        simp only [system, step, reloadStep, if_neg hok]
        rfl

theorem completes_config (s : Live) :
    system.Completes a s (.reload cfg .config) [.reloaded (.ok ())]
      (let s' := ((s.storeConfig cfg).reloadExternalRL a.toReach cfg).reloadAuth a.toReach s.cfg cfg
       (s'.storeAuthCacheRedis s'.cacheRedis).storeRest cfg) := by
  by_cases henabled : cfg.rateLimit.external.enabled = true
  · have hreleasing : system.step s (.reload cfg .config) a =
        ([], s.storeConfig cfg, [.reload cfg (.releasing s.cfg)]) := by
      simp only [system, step, reloadStep, if_pos henabled]
      rfl
    apply System.Completes.silent hreleasing
    apply System.Completes.silent rfl
    apply completes_resolving
    apply completes_extending
    simp only [Live.reloadExternalRL, if_pos henabled]
    exact completes_auth ..
  · have hauth : system.step s (.reload cfg .config) a = ([], s.storeConfig cfg, [.reload cfg (.auth s.cfg)]) := by
      simp only [system, step, reloadStep, if_neg henabled]
      rfl
    apply System.Completes.silent hauth
    simp only [Live.reloadExternalRL, if_neg henabled]
    exact completes_auth ..

theorem completes_reload (a : Answer) (cfg : FullConfig) (s : Live) :
    system.Completes a s (.reload cfg .start) [.reloaded (s.reload a.toReach cfg).1] (s.reload a.toReach cfg).2 := by
  unfold Live.reload
  cases hks : newKeyStrategy cfg.rateLimit.static.keyStrategy with
  | error e =>
    apply System.Completes.done
    simp only [system, step, reloadStep, hks]
  | ok ks =>
    have hstart : system.step s (.reload cfg .start) a = ([], { s with keyStrategy := ks }, [.reload cfg .fallback]) := by
      simp only [system, step, reloadStep, hks]
      rfl
    apply System.Completes.silent hstart
    simp only
    split
    · rename_i hfallback
      apply System.Completes.done
      simp only [system, step, reloadStep, hfallback]
    · rename_i s₁ hfallback
      have hstatic : system.step { s with keyStrategy := ks } (.reload cfg .fallback) a =
          ([], s₁, [.reload cfg .static]) := by
        simp only [system, step, reloadStep, hfallback]
        rfl
      apply System.Completes.silent hstatic
      apply System.Completes.silent rfl
      exact completes_config ..

end Undisturbed

structure Standing (s s' : Live) : Prop where
  closed : s'.closed = s.closed
  config : s'.cfg = s.cfg
  staticRL : s'.staticRL = s.staticRL
  reconnecting : s'.reconnecting = s.reconnecting

theorem Standing.refl (s : Live) : Standing s s := ⟨rfl, rfl, rfl, rfl⟩

def Inherits {α : Type} (before after : Option α) (P : α → Prop) : Prop := ∀ x ∈ after, x ∈ before ∨ P x

namespace Inherits
variable {α : Type} {before : Option α} {P : α → Prop}

theorem same : Inherits before before P := fun _ hx => .inl hx

theorem none : Inherits before .none P := fun x hx => absurd hx (Option.not_mem_none x)

theorem fresh {x : α} (h : P x) : Inherits before (some x) P := by
  intro y hy
  obtain rfl := Option.some.inj hy
  exact .inr h

end Inherits

def RequestAt.held : RequestAt → Option InstalledLimiter
  | .calling lim | .reporting lim => some lim
  | _ => none

structure Requesting (s : Live) (pc : RequestAt) (o : Outcome) : Prop where
  config : o.2.1.cfg = s.cfg
  limiter : o.2.1.limiter = s.limiter ∨ o.2.1.limiter = none
  threads : ∀ u ∈ o.2.2,
    (∃ pc', u = .request pc' ∧ Inherits pc.held pc'.held fun lim => lim ∈ s.limiter) ∨ u = .recovery .begin

section Requesting
variable {s : Live} {pc pc' : RequestAt}

theorem requesting_done : Requesting s pc ([], s, []) := ⟨rfl, .inl rfl, List.forall_mem_nil _⟩

theorem requesting_goOn (hheld : Inherits pc.held pc'.held fun lim => lim ∈ s.limiter) :
    Requesting s pc (goOn s (.request pc')) :=
  ⟨rfl, .inl rfl, List.forall_mem_singleton.mpr (.inl ⟨pc', rfl, hheld⟩)⟩

theorem requesting_requestStep (a : Answer) (s : Live) (pc : RequestAt) : Requesting s pc (requestStep a s pc) := by
  cases pc with
  | arrived =>
    simp only [requestStep]
    split
    · exact requesting_done
    · rename_i hlim
      exact requesting_goOn (.fresh hlim)
  | calling lim =>
    simp only [requestStep]
    split
    · exact requesting_done
    · exact requesting_goOn .same
  | reporting lim => exact ⟨rfl, .inr rfl, List.forall_mem_singleton.mpr (.inl ⟨.starting, rfl, .none⟩)⟩
  | starting =>
    simp only [requestStep]
    split
    · exact requesting_done
    · exact requesting_goOn .none
  | claiming =>
    simp only [requestStep]
    split
    · exact requesting_done
    · exact ⟨rfl, .inl rfl, List.forall_mem_singleton.mpr (.inr rfl)⟩

end Requesting

def RecoveryAt.limiter (installed : Option InstalledLimiter) : RecoveryAt → Option InstalledLimiter
  | .dropping => none
  | .swapping client snap => some (snap.newLimiter client)
  | _ => installed

def RecoveryAt.maxAttempts : RecoveryAt → Option ℤ
  | .creating n => some n
  | .looping l | .comparing l | .pinging l | .retrying l | .sleeping l => some l.maxAttempts
  | _ => none

def RecoveryAt.client : RecoveryAt → Option RedisHandle
  | .looping l | .comparing l | .pinging l | .retrying l | .sleeping l => some l.client
  | .installing client => some client
  | _ => none

def RecoveryAt.snapshot : RecoveryAt → Option StaticSnapshot
  | .deciding _ snap | .swapping _ snap => some snap
  | _ => none

def RecoveryAt.ending : RecoveryAt → Option Reason
  | .dropping => some .notConfigured
  | .rebinding _ | .storingAuth _ | .loadingExternal _ | .settingExternal _ _ => some .installed
  | .returned why => some why
  | _ => none

def RecoveryAt.needsClient (s : Live) : RecoveryAt → Bool
  | .creating _ => true
  | .comparing l => !sameRedisEndpoints l.client.config s.cfg.redis
  | _ => false

def RecoveryAt.Warrants (pc : RecoveryAt) (a : Answer) (s : Live) : Reason → Prop
  | .installed => ∃ client snap, pc = .swapping client snap
  | .notConfigured =>
    ∃ snap ∈ pc.snapshot, snap.ratePerSecond ≤ 0 ∧ s.cfg.rateLimit.external.enabled = false
  | .shutDown => s.closed = true
  | .createFailed e => pc.needsClient s = true ∧ RedisClient.newClient s.cfg.redis false a.redis = .error e
  | .exhausted => ∃ n ∈ pc.maxAttempts, 0 < n

structure Advances (a : Answer) (s : Live) (pc : RecoveryAt) (s' : Live) (pc' : RecoveryAt) : Prop where
  standing : Standing s s'
  limiter : s'.limiter = pc.limiter s.limiter
  attempts : Inherits pc.maxAttempts pc'.maxAttempts fun n => n = s.cfg.maxRecoveryAttempts
  client : Inherits pc.client pc'.client fun client => client.config = s.cfg.redis
  snapshot : Inherits pc.snapshot pc'.snapshot fun snap => snap = s.staticRL
  ending : Inherits pc.ending pc'.ending (pc.Warrants a s)

theorem recoveryStep_cases (a : Answer) (s : Live) (pc : RecoveryAt) :
    (∃ why, pc = .returned why ∧ recoveryStep a s pc = ([.returned why], { s with reconnecting := false }, [])) ∨
      ∃ s' pc', recoveryStep a s pc = goOn s' (.recovery pc') ∧ Advances a s pc s' pc' := by
  have hallocated : Standing s { s with allocated := s.allocated + 1 } := ⟨rfl, rfl, rfl, rfl⟩
  cases pc with
  | begin => exact .inr ⟨s, _, rfl, .refl s, rfl, .fresh rfl, .none, .none, .none⟩
  | creating n =>
    simp only [recoveryStep]
    split
    · rename_i hfailed
      exact .inr ⟨s, _, rfl, .refl s, rfl, .none, .none, .none, .fresh ⟨rfl, hfailed⟩⟩
    · exact .inr ⟨_, _, rfl, hallocated, rfl, .same, .fresh rfl, .none, .none⟩
  | looping l =>
    simp only [recoveryStep]
    split
    · rename_i hclosed
      exact .inr ⟨s, _, rfl, .refl s, rfl, .none, .none, .none, .fresh hclosed⟩
    · exact .inr ⟨s, _, rfl, .refl s, rfl, .same, .same, .none, .none⟩
  | comparing l =>
    simp only [recoveryStep]
    split
    · exact .inr ⟨s, _, rfl, .refl s, rfl, .same, .same, .none, .none⟩
    rename_i hdiffer
    have hneeds : (RecoveryAt.comparing l).needsClient s = true := by
      rw [RecoveryAt.needsClient, eq_false_of_ne_true hdiffer]
      rfl
    split
    · rename_i hfailed
      exact .inr ⟨s, _, rfl, .refl s, rfl, .none, .none, .none, .fresh ⟨hneeds, hfailed⟩⟩
    · exact .inr ⟨_, _, rfl, hallocated, rfl, .same, .fresh rfl, .none, .none⟩
  | pinging l =>
    simp only [recoveryStep]
    split
    · exact .inr ⟨s, _, rfl, .refl s, rfl, .none, .same, .none, .none⟩
    · exact .inr ⟨s, _, rfl, .refl s, rfl, .same, .same, .none, .none⟩
  | retrying l =>
    simp only [recoveryStep]
    split
    · rename_i hmax
      exact .inr ⟨s, _, rfl, .refl s, rfl, .none, .none, .none, .fresh ⟨l.maxAttempts, rfl, hmax.1⟩⟩
    · exact .inr ⟨s, _, rfl, .refl s, rfl, .same, .same, .none, .none⟩
  | sleeping l =>
    simp only [recoveryStep]
    split
    · rename_i hclosed
      exact .inr ⟨s, _, rfl, .refl s, rfl, .none, .none, .none, .fresh hclosed⟩
    · exact .inr ⟨s, _, rfl, .refl s, rfl, .same, .same, .none, .none⟩
  | installing client => exact .inr ⟨s, _, rfl, .refl s, rfl, .none, .none, .fresh rfl, .none⟩
  | deciding client snap =>
    simp only [recoveryStep]
    split
    · rename_i hoff
      exact .inr ⟨s, _, rfl, .refl s, rfl, .none, .none, .none, .fresh ⟨snap, rfl, hoff⟩⟩
    · exact .inr ⟨s, _, rfl, .refl s, rfl, .none, .none, .same, .none⟩
  | dropping => exact .inr ⟨_, _, rfl, ⟨rfl, rfl, rfl, rfl⟩, rfl, .none, .none, .none, .same⟩
  | swapping client snap =>
    exact .inr ⟨_, _, rfl, ⟨rfl, rfl, rfl, rfl⟩, rfl, .none, .none, .none, .fresh ⟨client, snap, rfl⟩⟩
  | rebinding client =>
    simp only [recoveryStep]
    split
    · exact .inr ⟨s, _, rfl, .refl s, rfl, .none, .none, .none, .same⟩
    · exact .inr ⟨_, _, rfl, ⟨rfl, rfl, rfl, rfl⟩, rfl, .none, .none, .none, .same⟩
  | storingAuth client => exact .inr ⟨_, _, rfl, ⟨rfl, rfl, rfl, rfl⟩, rfl, .none, .none, .none, .same⟩
  | loadingExternal client =>
    simp only [recoveryStep]
    split <;> exact .inr ⟨s, _, rfl, .refl s, rfl, .none, .none, .none, .same⟩
  | settingExternal client id => exact .inr ⟨_, _, rfl, ⟨rfl, rfl, rfl, rfl⟩, rfl, .none, .none, .none, .same⟩
  | returned why => exact .inl ⟨why, rfl, rfl⟩

theorem RecoveryAt.limiter_cases (pc : RecoveryAt) :
    (∀ installed, pc.limiter installed = installed) ∨ pc = .dropping ∨ ∃ client snap, pc = .swapping client snap := by
  cases pc with
  | dropping => exact .inr (.inl rfl)
  | swapping client snap => exact .inr (.inr ⟨client, snap, rfl⟩)
  | _ => exact .inl fun _ => rfl

structure Recovering (a : Answer) (s : Live) (pc : RecoveryAt) (o : Outcome) : Prop where
  config : o.2.1.cfg = s.cfg
  limiter : o.2.1.limiter = pc.limiter s.limiter
  threads : ∀ u ∈ o.2.2, ∃ s' pc', u = .recovery pc' ∧ Advances a s pc s' pc'
  events : ∀ e ∈ o.1, ∃ why, pc = .returned why ∧ e = .returned why

theorem recovering_recoveryStep (a : Answer) (s : Live) (pc : RecoveryAt) : Recovering a s pc (recoveryStep a s pc) := by
  rcases recoveryStep_cases a s pc with ⟨why, rfl, heq⟩ | ⟨s', pc', heq, hadvances⟩
  · rw [heq]
    exact ⟨rfl, rfl, List.forall_mem_nil _, List.forall_mem_singleton.mpr ⟨why, rfl, rfl⟩⟩
  · rw [heq]
    exact ⟨hadvances.standing.config, hadvances.limiter, List.forall_mem_singleton.mpr ⟨s', pc', rfl, hadvances⟩,
      List.forall_mem_nil _⟩

structure Reloading (cfg : FullConfig) (s : Live) (o : Outcome) : Prop where
  closed : o.2.1.closed = s.closed
  reconnecting : o.2.1.reconnecting = s.reconnecting
  config : o.2.1.cfg = s.cfg ∨ o.2.1.cfg = cfg
  staticRL : o.2.1.staticRL = s.staticRL ∨ o.2.1.staticRL = staticSnapshot cfg.rateLimit
  limiter : o.2.1.limiter = s.limiter ∨ o.2.1.limiter = (s.storeConfig cfg).limiter
  threads : ∀ u ∈ o.2.2, ∃ pc, u = .reload cfg pc
  events : ∀ e ∈ o.1, ∃ result, e = .reloaded result

theorem reloading_goOn {cfg : FullConfig} {s s' : Live} {pc : ReloadAt} (hstanding : Standing s s')
    (hlimiter : s'.limiter = s.limiter) : Reloading cfg s (goOn s' (.reload cfg pc)) :=
  ⟨hstanding.closed, hstanding.reconnecting, .inl hstanding.config, .inl hstanding.staticRL, .inl hlimiter,
    List.forall_mem_singleton.mpr ⟨pc, rfl⟩, List.forall_mem_nil _⟩

theorem reloading_end {cfg : FullConfig} {s s' : Live} {result : Except ChainError Unit} (hstanding : Standing s s')
    (hlimiter : s'.limiter = s.limiter) : Reloading cfg s ([.reloaded result], s', []) :=
  ⟨hstanding.closed, hstanding.reconnecting, .inl hstanding.config, .inl hstanding.staticRL, .inl hlimiter,
    List.forall_mem_nil _, List.forall_mem_singleton.mpr ⟨result, rfl⟩⟩

theorem reloading_reloadStep (a : Answer) (cfg : FullConfig) (s : Live) (pc : ReloadAt) :
    Reloading cfg s (reloadStep a cfg s pc) := by
  cases pc with
  | start =>
    simp only [reloadStep]
    split
    · exact reloading_end ⟨rfl, rfl, rfl, rfl⟩ rfl
    · exact reloading_goOn ⟨rfl, rfl, rfl, rfl⟩ rfl
  | fallback =>
    simp only [reloadStep]
    split
    · exact reloading_end ⟨rfl, rfl, rfl, rfl⟩ rfl
    · rename_i hfallback
      obtain ⟨ks, fb, rfl, -⟩ := Live.storeFallback_spec hfallback
      exact reloading_goOn ⟨rfl, rfl, rfl, rfl⟩ rfl
  | static =>
    exact ⟨rfl, rfl, .inl rfl, .inr rfl, .inl rfl, fun _ hu => ⟨.config, List.mem_singleton.mp hu⟩,
      List.forall_mem_nil _⟩
  | config =>
    exact ⟨rfl, rfl, .inr rfl, .inl rfl, .inr rfl, fun _ hu => ⟨_, List.mem_singleton.mp hu⟩,
      List.forall_mem_nil _⟩
  | releasing prev => exact reloading_goOn ⟨rfl, rfl, rfl, rfl⟩ rfl
  | resolving prev =>
    simp only [reloadStep]
    split
    · exact reloading_goOn ⟨rfl, rfl, rfl, rfl⟩ rfl
    · split <;> exact reloading_goOn ⟨rfl, rfl, rfl, rfl⟩ rfl
  | connecting prev rc =>
    simp only [reloadStep]
    split <;> exact reloading_goOn ⟨rfl, rfl, rfl, rfl⟩ rfl
  | borrowing prev =>
    simp only [reloadStep, Live.borrowCacheRedis]
    split <;> exact reloading_goOn ⟨rfl, rfl, rfl, rfl⟩ rfl
  | extending prev cache =>
    simp only [reloadStep]
    split <;> exact reloading_goOn ⟨rfl, rfl, rfl, rfl⟩ rfl
  | auth prev =>
    simp only [reloadStep, Live.reloadAuth]
    split <;> exact reloading_goOn ⟨rfl, rfl, rfl, rfl⟩ rfl
  | reading => exact reloading_goOn ⟨rfl, rfl, rfl, rfl⟩ rfl
  | storing cur => exact reloading_goOn ⟨rfl, rfl, rfl, rfl⟩ rfl
  | rest => exact reloading_end ⟨rfl, rfl, rfl, rfl⟩ rfl

theorem threads_closeStep {s : Live} {pc : CloseAt} {u : Thread} (hu : u ∈ (closeStep s pc).2.2) :
    ∃ pc', u = .close pc' := by
  cases pc with
  | releasing => cases hu
  | _ => exact ⟨_, List.mem_singleton.mp hu⟩

theorem event_of_step {s : Live} {t : Thread} {a : Answer} {e : Event} (he : e ∈ (step s t a).1) :
    (∃ failed, t = .request (.reporting failed) ∧ ∃ removed ∈ s.limiter, e = .tornDown removed failed) ∨
      (∃ why, t = .recovery (.returned why) ∧ e = .returned why) ∨ ∃ result, e = .reloaded result := by
  cases t with
  | request pc =>
    cases pc with
    | reporting lim =>
      obtain ⟨removed, hremoved, rfl⟩ := Option.mem_map.mp (Option.mem_toList.mp he)
      exact .inl ⟨lim, rfl, removed, hremoved, rfl⟩
    | _ =>
      simp only [step, requestStep] at he
      split at he <;> cases he
  | recovery pc =>
    obtain ⟨why, rfl, rfl⟩ := (recovering_recoveryStep a s pc).events e he
    exact .inr (.inl ⟨why, rfl, rfl⟩)
  | reload cfg pc =>
    obtain ⟨result, rfl⟩ := (reloading_reloadStep a cfg s pc).events e he
    exact .inr (.inr ⟨result, rfl⟩)
  | close pc => cases pc <;> cases he

end EdgeQuota.Middleware
