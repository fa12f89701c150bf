import EdgeQuota.Lib.Threads
import EdgeQuota.Server.Reload

/-! The response cache and the proxy in service. The chain hands its store to the proxy that it was built with,
while it is built or later from a recovery loop; a reload may have put another proxy into service by then. -/

namespace EdgeQuota.Server
open Go Config Middleware Lib

section
variable {parseURL : GoString → Except GoString ParsedURL}

def swapsProxy (r : Reach) (cfg : FullConfig) (s : Server parseURL) : Bool :=
  (s.chain.reload r cfg).1.isOk && backendChanged s.cfg cfg && (buildProxy parseURL cfg).isOk

theorem builtFrom_swapProxy (cfg : FullConfig) (s : Server parseURL) :
    (s.swapProxy cfg).builtFrom = if (buildProxy parseURL cfg).isOk then cfg else s.builtFrom := by
  unfold swapProxy
  split
  · rename_i e he
    simp [he, Except.isOk, Except.toBool]
  · rename_i proxy hp
    simp [hp, Except.isOk, Except.toBool]

theorem builtFrom_reload (r : Reach) (cfg : FullConfig) (s : Server parseURL) :
    (s.reload r cfg).2.builtFrom = if s.swapsProxy r cfg then cfg else s.builtFrom := by
  unfold reload swapsProxy
  rcases s.chain.reload r cfg with ⟨e | ⟨⟨⟩⟩, chain⟩
  · rfl
  · simp only [Except.isOk, Except.toBool, Bool.true_and]
    by_cases hchanged : backendChanged s.cfg cfg = true
    · rw [if_pos hchanged, hchanged, Bool.true_and]
      exact builtFrom_swapProxy cfg _
    · rw [if_neg hchanged, Bool.eq_false_of_not_eq_true hchanged]
      rfl

end

structure CacheStore where
  client : RedisHandle
  deriving DecidableEq

structure Caching (parseURL : GoString → Except GoString ParsedURL) where
  server : Server parseURL
  constructed : Bool
  cancelled : Bool := false
  responseCacheRedis : Option RedisHandle := none
  responseCache : Option CacheStore := none
  proxyRef : ℕ := 0
  serving : ℕ := 0
  cache : ℕ → Option CacheStore := fun _ => none
  allocated : ℕ := 0

inductive LoopAt where
  | begin
  | waiting
  | connecting

inductive InstallAt where
  | exchange
  | release (old : Option RedisHandle)
  | store
  | setCache

inductive CacheThread where
  | initResponseCache
  | recoveryLoop (redisCfg : RedisConfig) (place : LoopAt)
  | install (client : RedisHandle) (next : InstallAt)
  | reload (r : Reach) (cfg : FullConfig)
  | close
  | closeResources

/-- What a turn is answered: what a new client reaches, and whether the timer has fired. -/
structure CacheAnswer where
  net : RedisClient.Network := {}
  fired : Bool := true

inductive CacheArrival where
  | reload (r : Reach) (cfg : FullConfig)
  | close

def CacheArrival.thread : CacheArrival → CacheThread
  | .reload r cfg => .reload r cfg
  | .close => .close

inductive CacheEvent where
  | swapped
  | closed (client : RedisHandle)
  deriving DecidableEq

namespace Caching
variable {parseURL : GoString → Except GoString ParsedURL}

/-- `redis.NewClient`, and `installResponseCache` if there is a client. The construction does not wait for the
loop otherwise. -/
def connect (redisCfg : RedisConfig) (net : RedisClient.Network) (s : Caching parseURL) :
    List CacheEvent × Caching parseURL × List CacheThread :=
  if (RedisClient.newClient redisCfg true net).isOk then
    ([], { s with allocated := s.allocated + 1 }, [.install ⟨s.allocated, redisCfg⟩ .exchange])
  else ([], { s with constructed := true }, [.recoveryLoop redisCfg .begin])

def reload (r : Reach) (cfg : FullConfig) (s : Caching parseURL) : List CacheEvent × Caching parseURL :=
  let server := (s.server.reload r cfg).2
  if s.server.swapsProxy r cfg then
    ([.swapped],
      { s with server := server, serving := s.serving + 1, cache := Function.update s.cache (s.serving + 1) none })
  else ([], { s with server := server })

def step (s : Caching parseURL) : CacheThread → CacheAnswer → List CacheEvent × Caching parseURL × List CacheThread
  | .initResponseCache, a => s.connect s.server.cfg.responseCacheRedisConfig a.net
  | .recoveryLoop redisCfg .begin, _ => ([], s, if s.cancelled then [] else [.recoveryLoop redisCfg .waiting])
  | .recoveryLoop redisCfg .waiting, a =>
    if a.fired then ([], s, [.recoveryLoop redisCfg .connecting])
    else ([], s, if s.cancelled then [] else [.recoveryLoop redisCfg .waiting])
  | .recoveryLoop redisCfg .connecting, a => s.connect redisCfg a.net
  | .install client .exchange, _ =>
    ([], { s with responseCacheRedis := some client }, [.install client (.release s.responseCacheRedis)])
  | .install client (.release old), _ => (old.toList.map .closed, s, [.install client .store])
  | .install client .store, _ => ([], { s with responseCache := some ⟨client⟩ }, [.install client .setCache])
  | .install client .setCache, _ =>
    ([], { s with cache := Function.update s.cache s.proxyRef (some ⟨client⟩), constructed := true }, [])
  | .reload r cfg, _ =>
    if s.constructed then ((s.reload r cfg).1, (s.reload r cfg).2, []) else ([], s, [.reload r cfg])
  | .close, _ => if s.constructed then ([], { s with cancelled := true }, [.closeResources]) else ([], s, [.close])
  | .closeResources, _ => (s.responseCacheRedis.toList.map .closed, s, [])

def system (parseURL : GoString → Except GoString ParsedURL) :
    System (Caching parseURL) CacheThread CacheArrival CacheAnswer CacheEvent where
  arrive := CacheArrival.thread
  step := step

def starting (server : Server parseURL) : System.Conf (Caching parseURL) CacheThread :=
  if server.cfg.cacheEnabled then ⟨{ server := server, constructed := false }, [.initResponseCache]⟩
  else ⟨{ server := server, constructed := true }, []⟩

end Caching

namespace CacheThread

def installs : CacheThread → Bool
  | .initResponseCache | .recoveryLoop _ _ | .install _ _ => true
  | .reload _ _ | .close | .closeResources => false

def held : CacheThread → Option CacheStore
  | .install client .setCache => some ⟨client⟩
  | .initResponseCache | .recoveryLoop _ _ | .install _ .exchange | .install _ (.release _) | .install _ .store
  | .reload _ _ | .close | .closeResources => none

theorem held_of_not_installs {t : CacheThread} (h : t.installs = false) : t.held = none := by
  cases t with
  | initResponseCache | recoveryLoop redisCfg place | install client next => cases h
  | reload r cfg | close | closeResources => rfl

def Ready {parseURL : GoString → Except GoString ParsedURL} (s : Caching parseURL) (t : CacheThread) : Prop :=
  s.cache 0 = none ∧ s.responseCache = t.held

end CacheThread

namespace Caching
variable {parseURL : GoString → Except GoString ParsedURL} {s : Caching parseURL} {ts l₁ l₂ : List CacheThread}
  {t : CacheThread} {a : CacheAnswer}

def Settled (s : Caching parseURL) : Prop := s.cache 0 = s.responseCache

structure Placed (s : Caching parseURL) (ts : List CacheThread) : Prop where
  proxyRef : s.proxyRef = 0
  others : ∀ p, p ≠ 0 → s.cache p = none
  busy : System.OneBusy CacheThread.installs Settled CacheThread.Ready s ts

theorem proxyRef_step (s : Caching parseURL) (t : CacheThread) (a : CacheAnswer) :
    (s.step t a).2.1.proxyRef = s.proxyRef := by
  unfold step
  split <;> first | rfl | (split_ifs <;> rfl) | (simp only [connect, reload]; split_ifs <;> rfl)

theorem count_closed (old : Option RedisHandle) : (old.toList.map CacheEvent.closed).count .swapped = 0 := by
  cases old <;> rfl

theorem serving_step (s : Caching parseURL) (t : CacheThread) (a : CacheAnswer) :
    (s.step t a).2.1.serving = s.serving + (s.step t a).1.count .swapped := by
  unfold step
  split
  case h_6 | h_11 => rw [count_closed, Nat.add_zero]
  all_goals first | rfl | (split_ifs <;> rfl) | (simp only [connect, reload]; split_ifs <;> rfl)

theorem others_step (href : s.proxyRef = 0) (h : ∀ p, p ≠ 0 → s.cache p = none) (t : CacheThread) (a : CacheAnswer) :
    ∀ p, p ≠ 0 → (s.step t a).2.1.cache p = none := by
  intro p hp
  cases t with
  | install client next =>
    cases next with
    | setCache =>
      simp only [step, href]
      exact (Function.update_of_ne hp _ _).trans (h p hp)
    | exchange | release old | store => exact h p hp
  | reload r cfg =>
    simp only [step, reload]
    split_ifs
    · by_cases hnew : p = s.serving + 1
      · rw [hnew]
        exact Function.update_self ..
      · exact (Function.update_of_ne hnew _ _).trans (h p hp)
    · exact h p hp
    · exact h p hp
  | initResponseCache =>
    simp only [step, connect]
    split_ifs <;> exact h p hp
  | recoveryLoop redisCfg place =>
    cases place with
    | begin => exact h p hp
    | waiting =>
      simp only [step]
      split_ifs <;> exact h p hp
    | connecting =>
      simp only [step, connect]
      split_ifs <;> exact h p hp
  | close =>
    simp only [step]
    split_ifs <;> exact h p hp
  | closeResources => exact h p hp

theorem quiet_step (hidle : t.installs = false) :
    (s.step t a).2.1.cache 0 = s.cache 0 ∧ (s.step t a).2.1.responseCache = s.responseCache ∧
      ∀ u ∈ (s.step t a).2.2, u.installs = false := by
  cases t with
  | initResponseCache | recoveryLoop redisCfg place | install client next => cases hidle
  | reload r cfg =>
    simp only [step, reload]
    split_ifs
    · exact ⟨Function.update_of_ne (Nat.succ_ne_zero s.serving).symm none s.cache, rfl, by rintro u ⟨⟩⟩
    · exact ⟨rfl, rfl, by rintro u ⟨⟩⟩
    · exact ⟨rfl, rfl, List.forall_mem_singleton.mpr rfl⟩
  | close =>
    simp only [step]
    split_ifs <;> exact ⟨rfl, rfl, List.forall_mem_singleton.mpr rfl⟩
  | closeResources => exact ⟨rfl, rfl, by rintro u ⟨⟩⟩

theorem leaves_connect (redisCfg : RedisConfig) (net : RedisClient.Network) (hcache : s.cache 0 = none)
    (hstore : s.responseCache = none) :
    System.Leaves CacheThread.installs Settled CacheThread.Ready (s.connect redisCfg net).2.1
      (s.connect redisCfg net).2.2 := by
  unfold connect
  split_ifs <;> exact Or.inl ⟨_, rfl, rfl, hcache, hstore⟩

theorem leaves_step (href : s.proxyRef = 0) (hbusy : t.installs = true) (h : t.Ready s) :
    System.Leaves CacheThread.installs Settled CacheThread.Ready (s.step t a).2.1 (s.step t a).2.2 := by
  obtain ⟨hcache, hstore⟩ := h
  -- A loop that ends leaves neither the chain nor the proxy a store.
  have hnone : t.held = none → Settled s := fun hheld => hcache.trans (hstore.trans hheld).symm
  cases t with
  | initResponseCache => exact leaves_connect _ _ hcache hstore
  | recoveryLoop redisCfg place =>
    cases place with
    | begin =>
      simp only [step]
      split_ifs
      · exact Or.inr ⟨by rintro u ⟨⟩, hnone rfl⟩
      · exact Or.inl ⟨_, rfl, rfl, hcache, hstore⟩
    | waiting =>
      simp only [step]
      split_ifs
      · exact Or.inl ⟨_, rfl, rfl, hcache, hstore⟩
      · exact Or.inr ⟨by rintro u ⟨⟩, hnone rfl⟩
      · exact Or.inl ⟨_, rfl, rfl, hcache, hstore⟩
    | connecting => exact leaves_connect _ _ hcache hstore
  | install client next =>
    cases next with
    | exchange | release old => exact Or.inl ⟨_, rfl, rfl, hcache, hstore⟩
    | store => exact Or.inl ⟨_, rfl, rfl, hcache, rfl⟩
    | setCache =>
      refine Or.inr ⟨by rintro u ⟨⟩, ?_⟩
      simp only [step, Settled, href]
      exact (Function.update_self ..).trans hstore.symm
  | reload r cfg | close | closeResources => cases hbusy

theorem keeps_placed : (system parseURL).Keeps (fun _ => True) (fun _ _ _ _ => True) Placed where
  arrive := by
    intro s ts a h _
    exact ⟨h.proxyRef, h.others, h.busy.arrive (by cases a <;> rfl)⟩
  step := by
    intro s l₁ t l₂ a h _
    refine ⟨(proxyRef_step s t a).trans h.proxyRef, others_step h.proxyRef h.others t a, ?_⟩
    by_cases hbusy : t.installs = true
    · exact h.busy.inside (Or.inl hbusy) fun hready _ => leaves_step h.proxyRef hbusy (hready hbusy)
    · obtain ⟨hcache, hstore, hnew⟩ := quiet_step (s := s) (a := a) (Bool.eq_false_of_not_eq_true hbusy)
      refine h.busy.outside (Bool.eq_false_of_not_eq_true hbusy) hnew ?_ ?_
      · intro hsettled
        exact hcache.trans (hsettled.trans hstore.symm)
      · intro u hready
        exact ⟨hcache.trans hready.1, hstore.trans hready.2⟩

theorem placed_starting (server : Server parseURL) : Placed (starting server).shared (starting server).threads := by
  unfold starting
  split_ifs
  · refine ⟨rfl, fun _ _ => rfl, ⟨Nat.le_refl 1, by rintro ⟨⟩, ?_⟩⟩
    exact List.forall_mem_singleton.mpr fun _ => ⟨rfl, rfl⟩
  · exact ⟨rfl, fun _ _ => rfl, ⟨Nat.zero_le 1, fun _ => rfl, by rintro t ⟨⟩⟩⟩

theorem placed_run (server : Server parseURL) (ms : List (System.Move CacheArrival CacheAnswer)) :
    let c := (system parseURL).machine.run (starting server) ms
    Placed c.shared c.threads :=
  keeps_placed.always (placed_starting server) ms

theorem records_serving (n : ℕ) :
    (system parseURL).Records fun out s _ => s.serving = n + out.count .swapped where
  arrive h := h
  step := by
    intro out s l₁ t l₂ a h
    have hstep := serving_step s t a
    rw [List.count_append, ← Nat.add_assoc, ← h]
    exact hstep

theorem serving_run (c : System.Conf (Caching parseURL) CacheThread)
    (ms : List (System.Move CacheArrival CacheAnswer)) :
    ((system parseURL).machine.run c ms).shared.serving =
      c.shared.serving + (((system parseURL).machine.outputs c ms).flatten.count .swapped) := by
  have hstart : c.shared.serving = c.shared.serving + ([] : List CacheEvent).count .swapped := rfl
  exact (records_serving c.shared.serving).run (c := c) hstart ms

theorem Placed.cache_serving_iff (h : Placed s ts) {store : CacheStore} (hstore : s.responseCache = some store) :
    s.cache s.serving = some store ↔ s.serving = 0 ∧ ∀ t ∈ ts, t.held = none := by
  by_cases hidle : ts.countP CacheThread.installs = 0
  · have hheld : ∀ t ∈ ts, t.held = none := by
      intro t ht
      refine CacheThread.held_of_not_installs ?_
      exact Bool.eq_false_of_not_eq_true (List.countP_eq_zero.mp hidle t ht)
    refine ⟨fun hcache => ⟨?_, hheld⟩, ?_⟩
    · by_contra hother
      rw [h.others _ hother] at hcache
      cases hcache
    · rintro ⟨hfirst, -⟩
      rw [hfirst]
      exact (h.busy.rest hidle).trans hstore
  · -- The thread that has still to hand the store over finds every proxy without one.
    obtain ⟨t, ht, hbusy⟩ := List.countP_pos_iff.mp (Nat.pos_of_ne_zero hidle)
    obtain ⟨hnone, hheld⟩ := h.busy.ready t ht hbusy
    refine iff_of_false ?_ ?_
    · intro hcache
      by_cases hfirst : s.serving = 0
      · rw [hfirst, hnone] at hcache
        cases hcache
      · rw [h.others _ hfirst] at hcache
        cases hcache
    · rintro ⟨-, hall⟩
      rw [hall t ht, hstore] at hheld
      cases hheld

/-- **The store of the serving proxy.** However construction, the recovery loop and reloads interleave: if the
chain has a store, the proxy in service has it exactly if no reload has swapped the proxy and no thread has still
to hand the store over. -/
theorem cache_follows_proxy_iff (server : Server parseURL) (ms : List (System.Move CacheArrival CacheAnswer)) :
    let c := (system parseURL).machine.run (starting server) ms
    (∀ store, c.shared.responseCache = some store → c.shared.cache c.shared.serving = some store) ↔
      c.shared.responseCache = none ∨
        (.swapped ∉ ((system parseURL).machine.outputs (starting server) ms).flatten ∧
          ∀ t ∈ c.threads, t.held = none) := by
  intro c
  have hplaced : Placed c.shared c.threads := placed_run server ms
  have hserving : c.shared.serving = 0 ↔
      .swapped ∉ ((system parseURL).machine.outputs (starting server) ms).flatten := by
    have hstart : (starting server).shared.serving = 0 := by
      unfold starting
      split_ifs <;> rfl
    rw [← List.count_eq_zero, show c.shared.serving = _ from serving_run .., hstart, Nat.zero_add]
  rw [← hserving]
  cases hstore : c.shared.responseCache with
  | none => exact iff_of_true (by rintro store ⟨⟩) (Or.inl rfl)
  | some store =>
    simp only [Option.some.injEq, forall_eq', reduceCtorEq, false_or]
    exact hplaced.cache_serving_iff hstore

def cached : FullConfig := { Live.plainFull false with cacheEnabled := true }

def cachedTuned : FullConfig := { cached with upstream := { maxIdleConns := 7 } }

def swappedAfter : List (System.Move CacheArrival CacheAnswer) :=
  List.replicate 5 (.run 0 {}) ++ [.arrive (.reload {} cachedTuned), .run 0 {}]

def swappedBefore : List (System.Move CacheArrival CacheAnswer) :=
  [.run 0 { net := { pong := false } }, .arrive (.reload {} cachedTuned), .run 1 {}] ++ List.replicate 7 (.run 0 {})

def stores (ms : List (System.Move CacheArrival CacheAnswer)) (server : Server Live.plainURL) :
    Option CacheStore × Option CacheStore × ℕ :=
  let c := (system Live.plainURL).machine.run (starting server) ms
  (c.shared.responseCache, c.shared.cache c.shared.serving, c.threads.length)

theorem cache_left_behind :
    validate Live.plainURL cached = .ok cached ∧ validate Live.plainURL cachedTuned = .ok cachedTuned ∧
      ∃ server, Server.new {} cached = .ok server ∧
        stores swappedAfter server = (some ⟨⟨0, cached.redis⟩⟩, none, 0) ∧
        stores swappedBefore server = (some ⟨⟨0, cached.redis⟩⟩, none, 0) := by
  refine ⟨rfl, rfl, ?_⟩
  exact exists_of_any (x := Server.new {} cached)
    (P := fun server => stores swappedAfter server = (some ⟨⟨0, cached.redis⟩⟩, none, 0) ∧
      stores swappedBefore server = (some ⟨⟨0, cached.redis⟩⟩, none, 0)) (by decide +kernel)

end Caching
end EdgeQuota.Server
