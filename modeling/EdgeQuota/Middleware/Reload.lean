import EdgeQuota.Middleware.Live

/-! What a reload makes of a chain: whether one that fails leaves it as it was, and whether one that succeeds
has in force what a restart would. -/

namespace EdgeQuota.Middleware
open Go Config RateLimit Auth

theorem exists_of_any {ε α : Type} {x : Except ε α} {P : α → Prop} [DecidablePred P]
    (h : x.toOption.any (fun a => decide (P a)) = true) : ∃ a, x = .ok a ∧ P a := by
  cases x with
  | error e => cases h
  | ok a => exact ⟨a, rfl, of_decide_eq_true h⟩

namespace Live
variable {r : Reach} {cfg : FullConfig} {s s' : Live}

/-- **Half a reload.** A reload that fails leaves the chain as it was exactly when it failed before it stored a
key strategy, or stored the one that was there already. -/
theorem reload_all_or_nothing_iff {e : ChainError} (h : (s.reload r cfg).1 = .error e) :
    (s.reload r cfg).2 = s ↔
      ∀ ks, newKeyStrategy cfg.rateLimit.static.keyStrategy = .ok ks → ks = s.keyStrategy := by
  unfold reload at h ⊢
  split at h
  · rename_i hks
    simp only [hks]
    refine iff_of_true trivial ?_
    intro ks hok
    cases hok
  rename_i ks hks
  simp only at h
  split at h
  · rename_i hfallback
    simp only [hks, hfallback]
    constructor
    · intro hsame ks' hok
      rw [← Except.ok.inj hok, ← hsame]
    · intro hall
      rw [hall ks rfl]
  · cases h

def plainFull (external : Bool) : FullConfig where
  toCoreConfig := plainConfig (plainSection 5 1 "1s" external)
  staticBackendURL := str "http://backend:80"
  fallbackBackendURL := str "http://backend:80"
  redis := { endpoints := [str "redis-a:6379"] }

def plainURL (_ : GoString) : Except GoString ParsedURL :=
  .ok ⟨str "http", str "backend:80", str "80", fun host => str "http://" ++ host⟩

/-- With an external service, and these proxies trusted by the static strategy and by its fallback. -/
def withProxies (static fallback : List GoString) : FullConfig :=
  let cfg := plainFull true
  let rl := cfg.rateLimit
  let rl : RateLimitConfig :=
    { rl with
      static := { rl.static with keyStrategy := { type := .clientIP, trustedProxies := static } }
      external :=
        { rl.external with
          fallback := { rl.external.fallback with keyStrategy := { type := .clientIP, trustedProxies := fallback } } } }
  { cfg with rateLimit := rl }

theorem reload_all_or_nothing_unknown :
    ∃ s, new {} (plainFull false) = .ok s ∧ (s.reload {} (withProxies [str "nowhere"] [])).1.isOk = false ∧
      (s.reload {} (withProxies [str "nowhere"] [])).2 = s := by
  obtain ⟨s, hs, hfails⟩ : ∃ s, new {} (plainFull false) = .ok s ∧
      (s.reload {} (withProxies [str "nowhere"] [])).1.isOk = false := exists_of_any (by decide +kernel)
  refine ⟨s, hs, hfails, ?_⟩
  cases he : (s.reload {} (withProxies [str "nowhere"] [])).1 with
  | ok u =>
    rw [he] at hfails
    cases hfails
  | error e =>
    refine (reload_all_or_nothing_iff he).mpr ?_
    intro ks hks
    cases hks

/-- The fallback trusts a proxy that is not a network. The reload fails, and a request from a proxy that the new static
strategy trusts has another key than before. -/
theorem reload_half_done :
    let cfg := withProxies [str "10.0.0.0/8"] [str "nowhere"]
    let r : Request :=
      { plainRequest with remoteAddr := str "10.0.0.1:1", header := [(str "X-Forwarded-For", str "1.2.3.4")] }
    validate plainURL cfg = .ok cfg ∧ ∃ s, new {} (plainFull false) = .ok s ∧ (s.reload {} cfg).1.isOk = false ∧
      (s.keyStrategy.extract r).toOption = some (str "10.0.0.1") ∧
      ((s.reload {} cfg).2.keyStrategy.extract r).toOption = some (str "1.2.3.4") :=
  ⟨rfl, exists_of_any (by decide +kernel)⟩

def mainRedis (r : Reach) (cfg : FullConfig) : Option RedisConfig :=
  if cfg.Limits ∧ (RedisClient.newClient cfg.redis true r.redis).isOk then some cfg.redis else none

def cacheSection (r : Reach) (cfg : FullConfig) (main : Option RedisConfig) : Option RedisConfig :=
  (cfg.dedicatedCache.filter fun rc => (RedisClient.newClient rc true r.cacheRedis).isOk).or main

def limiterSection (s : Live) : Option RedisConfig := s.limiter.map fun lim => lim.client.config

def cacheRedisSection (s : Live) : Option RedisConfig := s.cacheRedis.map RedisHandle.config

theorem setCacheRedis_self {cache : Option RedisHandle} (h : s.cacheRedis = cache) : s = { s with cacheRedis := cache } := by
  rw [← h]

theorem setLimiter_self {lim : Option InstalledLimiter} (h : s.limiter = lim) : s = { s with limiter := lim } := by
  rw [← h]

theorem borrowCacheRedis_spec (hnone : s.cacheRedis = none) :
    ∃ cache owned n,
      s.borrowCacheRedis = (cache, { s with cacheRedis := cache, cacheRedisOwned := owned, allocated := n }) ∧
        cache.map RedisHandle.config = s.limiterSection := by
  unfold borrowCacheRedis limiterSection
  obtain hlim | ⟨lim, hlim⟩ := Option.eq_none_or_eq_some s.limiter
  · refine ⟨none, s.cacheRedisOwned, s.allocated, ?_, by rw [hlim]; rfl⟩
    simp only [hlim]
    rw [hnone]
    exact congrArg _ ((setCacheRedis_self hnone).trans (setLimiter_self hlim))
  · exact ⟨some lim.client, false, s.allocated, by rw [hlim], by rw [hlim]; rfl⟩

theorem resolveCacheRedis_spec (r : Reach) (cfg : FullConfig) (s : Live) :
    ∃ cache owned n,
      s.resolveCacheRedis r.cacheRedis cfg =
        (cache, { s with cacheRedis := cache, cacheRedisOwned := owned, allocated := n }) ∧
        cache.map RedisHandle.config = s.cacheRedisSection.or (cacheSection r cfg s.limiterSection) := by
  unfold resolveCacheRedis cacheRedisSection cacheSection
  cases hcache : s.cacheRedis with
  | some existing => exact ⟨some existing, s.cacheRedisOwned, s.allocated, congrArg _ (setCacheRedis_self hcache), rfl⟩
  | none =>
    cases hdedicated : cfg.dedicatedCache with
    | none => exact borrowCacheRedis_spec hcache
    | some rc =>
      by_cases hok : (RedisClient.newClient rc true r.cacheRedis).isOk = true
      · simp only [if_pos hok]
        refine ⟨some ⟨s.allocated, rc⟩, true, s.allocated + 1, rfl, ?_⟩
        simp [Option.filter_some, hok]
      · simp only [if_neg hok]
        obtain ⟨cache, owned, n, heq, hsection⟩ := borrowCacheRedis_spec hcache
        refine ⟨cache, owned, n, heq, ?_⟩
        simp [Option.filter_some, hok, hsection]

theorem initRedis_spec (h : s.initRedis r cfg = .ok s') (hnone : s.limiter = none) :
    ∃ b n, s' = { s with
      limiter := (mainRedis r cfg).map fun rc => s.staticRL.newLimiter ⟨s.allocated, rc⟩
      reconnecting := b, allocated := n } ∧ (cfg.Limits → mainRedis r cfg = none → b = true) := by
  unfold initRedis at h
  simp only [ratePerSecond_parseRateLimitParams] at h
  unfold mainRedis FullConfig.Limits
  split at h
  · rename_i hoff
    obtain rfl := Except.ok.inj h
    refine ⟨s.reconnecting, s.allocated, ?_⟩
    simp only [hoff, lt_self_iff_false, Bool.false_eq_true, or_self, false_and, if_false, Option.map_none, false_imp_iff,
      and_true]
    exact setLimiter_self hnone
  split at h
  · rename_i e hclient
    have hfailed : (RedisClient.newClient cfg.redis true r.redis).isOk = false := by
      rw [hclient]
      rfl
    simp only [hfailed, Bool.false_eq_true, and_false, if_false, Option.map_none]
    split at h
    · obtain rfl := Except.ok.inj h
      exact ⟨true, s.allocated, by rw [← hnone], fun _ _ => rfl⟩
    · obtain rfl := Except.ok.inj h
      exact ⟨true, s.allocated, by rw [← hnone], fun _ _ => rfl⟩
    all_goals cases h
  · rename_i o hclient
    have hok : (RedisClient.newClient cfg.redis true r.redis).isOk = true := by
      rw [hclient]
      rfl
    split at h
    · rename_i hlimits
      obtain rfl := Except.ok.inj h
      refine ⟨s.reconnecting, s.allocated + 1, ?_⟩
      rw [if_pos ⟨hlimits, hok⟩]
      exact ⟨rfl, fun _ hsome => absurd hsome (Option.some_ne_none _)⟩
    · rename_i hlimits
      obtain rfl := Except.ok.inj h
      refine ⟨s.reconnecting, s.allocated, ?_, fun hboth => absurd hboth hlimits⟩
      rw [if_neg fun hboth => hlimits hboth.1]
      exact setLimiter_self hnone

theorem map_config_newLimiter (main : Option RedisConfig) (p : StaticSnapshot) (id : ℕ) :
    (main.map fun rc => p.newLimiter ⟨id, rc⟩).map (fun lim => lim.client.config) = main := by
  rw [Option.map_map]
  exact Option.map_id' ..

theorem resolveCacheRedis_again {cache : Option RedisHandle} (hcache : s.cacheRedis = cache)
    (hsection : cache.map RedisHandle.config = cacheSection r cfg s.limiterSection) :
    ∃ owned n, s.resolveCacheRedis r.cacheRedis cfg =
      (cache, { s with cacheRedisOwned := owned, allocated := n }) := by
  obtain ⟨cache', owned, n, heq, hconfig⟩ := resolveCacheRedis_spec r cfg s
  have hsame : cache' = cache := by
    cases cache with
    | none =>
      rw [cacheRedisSection, hcache, ← hsection] at hconfig
      exact Option.map_eq_none_iff.mp hconfig
    | some existing =>
      have hfst := congrArg Prod.fst heq
      unfold resolveCacheRedis at hfst
      rw [hcache] at hfst
      exact hfst.symm
  refine ⟨owned, n, ?_⟩
  rw [heq, hsame, ← hcache]

structure BuiltFrom (r : Reach) (cfg : FullConfig) (s : Live) : Prop where
  config : s.cfg = cfg
  tracingLevel : s.tracingLevel = cfg.tracingLevel.resolved
  authClient : s.authClient =
    if cfg.auth.enabled then some (newAuthClient cfg.auth cfg.tracingLevel.resolved) else none
  external : s.externalRL.map ExternalClient.settings =
    if cfg.rateLimit.external.enabled then some (externalSettings cfg cfg.tracingLevel.resolved) else none
  externalCache : ∀ ext ∈ s.externalRL, ext.redis = s.cacheRedis
  limiter : s.limiterSection = mainRedis r cfg
  cacheRedis : s.cacheRedisSection =
    if cfg.auth.enabled ∨ cfg.rateLimit.external.enabled then cacheSection r cfg (mainRedis r cfg) else none
  authCache : cfg.auth.enabled = true → s.authCacheRedis = s.cacheRedis
  responseCache : s.responseCache =
    if cfg.cacheEnabled ∧ (RedisClient.newClient cfg.responseCacheRedisConfig true r.responseCache).isOk then
      some cfg.responseCacheRedisConfig
    else none
  injection : s.allowedInjectionHeaders = cfg.auth.allowedInjectionHeaders.map canonicalHeaderKey
  concurrency : s.concurrencySem = concurrencyLimit cfg.serving.maxConcurrentRequests
  backstop : s.globalBackstop = passthroughBackstop cfg.globalPassthroughRPS
  requestTimeout : s.requestTimeout = durationOr cfg.server.requestTimeout 0
  clients : (cfg.auth.enabled = true → r.authClient = true) ∧
    (cfg.rateLimit.external.enabled = true → r.externalClient = true)
  installed : s.limiter = (mainRedis r cfg).map fun rc => (staticSnapshot cfg.rateLimit).newLimiter ⟨0, rc⟩
  staticRL : s.staticRL = staticSnapshot cfg.rateLimit
  bypassPreflight : s.bypassPreflight = cfg.serving.bypassPreflightAuth
  keyStrategy : newKeyStrategy cfg.rateLimit.static.keyStrategy = .ok s.keyStrategy
  fallbackOff : cfg.rateLimit.external.enabled = false → s.fallbackKeyStrategy = none ∧ s.externalFallback = none
  fallbackOn : cfg.rateLimit.external.enabled = true →
    (∃ k, newKeyStrategy cfg.rateLimit.external.fallback.keyStrategy = .ok k ∧ s.fallbackKeyStrategy = some k) ∧
    s.externalFallback = some (fallbackSnapshot cfg.rateLimit.external.fallback)
  closed : s.closed = false
  reconnecting : cfg.Limits → s.limiter = none → s.reconnecting = true

theorem storeFallback_spec (h : s.storeFallback cfg = .ok s') :
    ∃ ks fb, s' = { s with fallbackKeyStrategy := ks, externalFallback := fb } ∧
      (cfg.rateLimit.external.enabled = false → ks = s.fallbackKeyStrategy ∧ fb = s.externalFallback) ∧
      (cfg.rateLimit.external.enabled = true →
        (∃ k, newKeyStrategy cfg.rateLimit.external.fallback.keyStrategy = .ok k ∧ ks = some k) ∧
        fb = some (fallbackSnapshot cfg.rateLimit.external.fallback)) := by
  unfold storeFallback at h
  split at h
  · rename_i henabled
    have hne : cfg.rateLimit.external.enabled ≠ false := ne_false_of_eq_true henabled
    split at h
    · cases h
    · rename_i k hk
      exact ⟨some k, _, (Except.ok.inj h).symm, fun hoff => absurd hoff hne, fun _ => ⟨⟨k, hk, rfl⟩, rfl⟩⟩
  · rename_i hoff
    exact ⟨s.fallbackKeyStrategy, s.externalFallback, (Except.ok.inj h).symm, fun _ => ⟨rfl, rfl⟩,
      fun hon => absurd hon hoff⟩

theorem initAuth_spec (h : s.initAuth r cfg = .ok s') (hnone : s.cacheRedis = none) (hauth : s.authClient = none) :
    ∃ cache owned n authCache,
      s' = { s with
        authClient := if cfg.auth.enabled then some (newAuthClient cfg.auth s.tracingLevel) else none
        cacheRedis := cache, cacheRedisOwned := owned, allocated := n, authCacheRedis := authCache } ∧
      cache.map RedisHandle.config = (if cfg.auth.enabled then cacheSection r cfg s.limiterSection else none) ∧
      (cfg.auth.enabled = true → authCache = cache ∧ r.authClient = true) := by
  unfold initAuth at h
  split at h
  · rename_i henabled
    split at h
    · rename_i hok
      obtain ⟨cache, owned, n, heq, hconfig⟩ := resolveCacheRedis_spec r cfg (s.storeAuthClient cfg)
      have hsection : (s.storeAuthClient cfg).cacheRedisSection = none := by
        rw [cacheRedisSection, storeAuthClient, hnone]
        rfl
      simp only [heq] at h
      refine ⟨cache, owned, n, cache, ?_, ?_, fun _ => ⟨rfl, hok⟩⟩
      · rw [if_pos henabled]
        exact (Except.ok.inj h).symm
      · rw [hconfig, hsection, if_pos henabled]
        rfl
    · cases h
  · rename_i hoff
    obtain rfl := Except.ok.inj h
    refine ⟨none, s.cacheRedisOwned, s.allocated, s.authCacheRedis, ?_, by rw [if_neg hoff]; rfl,
      fun hon => absurd hon hoff⟩
    rw [if_neg hoff, ← hnone, ← hauth]

theorem initExternal_spec (h : s.initExternal r cfg = .ok s') (hnone : s.externalRL = none)
    (hsection : s.cacheRedisSection = if cfg.auth.enabled then cacheSection r cfg s.limiterSection else none)
    (hauth : cfg.auth.enabled = true → s.authCacheRedis = s.cacheRedis) :
    ∃ cache owned n ext,
      s' = { s with cacheRedis := cache, cacheRedisOwned := owned, allocated := n, externalRL := ext } ∧
      cache.map RedisHandle.config =
        (if cfg.auth.enabled ∨ cfg.rateLimit.external.enabled then cacheSection r cfg s.limiterSection else none) ∧
      (cfg.auth.enabled = true → s.authCacheRedis = cache) ∧
      ext.map ExternalClient.settings =
        (if cfg.rateLimit.external.enabled then some (externalSettings cfg s.tracingLevel) else none) ∧
      (∀ e ∈ ext, e.redis = cache) ∧ (cfg.rateLimit.external.enabled = true → r.externalClient = true) := by
  unfold initExternal at h
  split at h
  · rename_i henabled
    obtain ⟨cache, owned, n, heq, hconfig⟩ := resolveCacheRedis_spec r cfg s
    have hcache : cache.map RedisHandle.config = cacheSection r cfg s.limiterSection := by
      rw [hconfig, hsection]
      split_ifs <;> simp
    have hsame : cfg.auth.enabled = true → s.authCacheRedis = cache := by
      intro hon
      rw [if_pos hon] at hsection
      obtain ⟨owned', n', hagain⟩ := resolveCacheRedis_again rfl hsection
      exact (hauth hon).trans (congrArg Prod.fst (hagain.symm.trans heq))
    simp only [heq] at h
    split at h
    · rename_i hok
      obtain rfl := Except.ok.inj h
      refine ⟨cache, owned, n + 1, _, rfl, ?_, hsame, ?_, ?_, fun _ => hok⟩
      · rw [if_pos (Or.inr henabled), hcache]
      · rw [if_pos henabled]
        rfl
      · intro e he
        rw [← Option.some.inj he]
    · cases h
  · rename_i hoff
    obtain rfl := Except.ok.inj h
    refine ⟨s.cacheRedis, s.cacheRedisOwned, s.allocated, none, by rw [← hnone], ?_, hauth, ?_, ?_,
      fun hon => absurd hon hoff⟩
    · simp only [cacheRedisSection] at hsection
      rw [hsection]
      simp [hoff]
    · rw [if_neg hoff]
      rfl
    · intro e he
      cases he

theorem new_spec (h : new r cfg = .ok s) : BuiltFrom r cfg s := by
  unfold new at h
  split at h
  · cases h
  rename_i ks hks
  split at h
  · cases h
  rename_i s₀ hfallback
  obtain ⟨fbKS, fb, rfl, hfallbackOff, hfallbackOn⟩ := storeFallback_spec hfallback
  obtain ⟨s₁, hredis, h⟩ := exists_of_bind_eq_ok h
  obtain ⟨s₂, hauth, h⟩ := exists_of_bind_eq_ok h
  obtain ⟨s₃, hexternal, h⟩ := exists_of_bind_eq_ok h
  obtain rfl := Except.ok.inj h
  obtain ⟨b, n, rfl, hreconnecting⟩ := initRedis_spec hredis rfl
  have hlim := map_config_newLimiter (mainRedis r cfg) (staticSnapshot cfg.rateLimit) 0
  obtain ⟨cache, owned, n, authCache, rfl, hcache, hauthCache⟩ := initAuth_spec hauth rfl rfl
  obtain ⟨cache', owned', n', ext, rfl, hcache', hauthCache', hsettings, hext, hclient⟩ :=
    initExternal_spec hexternal rfl hcache fun hon => (hauthCache hon).1
  have hcached := hcache'.trans (congrArg (fun main =>
    if cfg.auth.enabled ∨ cfg.rateLimit.external.enabled then cacheSection r cfg main else none) hlim)
  unfold initResponseCache
  by_cases hresponse : cfg.cacheEnabled ∧ (RedisClient.newClient cfg.responseCacheRedisConfig true r.responseCache).isOk
  · rw [if_pos hresponse]
    exact ⟨rfl, rfl, rfl, hsettings, hext, hlim, hcached, hauthCache',
      (if_pos hresponse).symm, rfl, rfl, rfl, rfl, ⟨fun hon => (hauthCache hon).2, hclient⟩,
      rfl, rfl, rfl, hks, hfallbackOff, hfallbackOn, rfl,
      fun hlimits hnone => hreconnecting hlimits (Option.map_eq_none_iff.mp hnone)⟩
  · rw [if_neg hresponse]
    exact ⟨rfl, rfl, rfl, hsettings, hext, hlim, hcached, hauthCache',
      (if_neg hresponse).symm, rfl, rfl, rfl, rfl, ⟨fun hon => (hauthCache hon).2, hclient⟩,
      rfl, rfl, rfl, hks, hfallbackOff, hfallbackOn, rfl,
      fun hlimits hnone => hreconnecting hlimits (Option.map_eq_none_iff.mp hnone)⟩

def chain (s : Live) : Chain where
  bypassPreflight := s.bypassPreflight
  concurrencySem := s.concurrencySem.isSome
  authClient := s.authClient.isSome
  authFailurePolicy := s.cfg.auth.failurePolicy
  client := (s.authClient.map AuthClient.client).getD (newClient {})
  allowedInjectionHeaders := s.allowedInjectionHeaders
  staticRL := s.staticRL.toStaticParams
  externalRL := s.externalRL.isSome
  externalFailurePolicy := s.cfg.externalClient.failurePolicy
  fallbackKeyStrategy := s.fallbackKeyStrategy.isSome
  externalFallback := (s.externalFallback.map fun fb => ⟨fb.average, fb.burst⟩).getD ⟨0, 1⟩
  limiter := s.limiter.map InstalledLimiter.limiter
  globalBackstop := s.globalBackstop.isSome
  requestTimeout := s.requestTimeout

def surroundings (cfg : FullConfig) : Chain where
  bypassPreflight := cfg.serving.bypassPreflightAuth
  concurrencySem := (concurrencyLimit cfg.serving.maxConcurrentRequests).isSome
  authClient := cfg.auth.enabled
  authFailurePolicy := cfg.auth.failurePolicy
  client := newClient (if cfg.auth.enabled then cfg.auth.toAuthConfig else {})
  allowedInjectionHeaders := cfg.auth.allowedInjectionHeaders.map canonicalHeaderKey
  staticRL := staticParams cfg.rateLimit
  externalFailurePolicy := cfg.externalClient.failurePolicy
  globalBackstop := (passthroughBackstop cfg.globalPassthroughRPS).isSome
  requestTimeout := durationOr cfg.server.requestTimeout 0

theorem limiter_mainRedis (hreach : (RedisClient.newClient cfg.redis true r.redis).isOk = true) (id : ℕ) :
    ((mainRedis r cfg).map fun rc => (staticSnapshot cfg.rateLimit).newLimiter ⟨id, rc⟩).map InstalledLimiter.limiter =
      Middleware.initRedis cfg.rateLimit := by
  unfold mainRedis Middleware.initRedis initRedisIn
  have hrate := ratePerSecond_parseRateLimitParams cfg.rateLimit
  unfold parseRateLimitParams at hrate
  simp only [hreach, and_true, hrate]
  by_cases hlimits : cfg.Limits
  · have hcase : 0 < cfg.rateLimit.static.average ∨ cfg.rateLimit.external.enabled = true := hlimits
    rw [if_pos hlimits, if_pos hcase]
    rfl
  · have hcase : ¬(0 < cfg.rateLimit.static.average ∨ cfg.rateLimit.external.enabled = true) := hlimits
    rw [if_neg hlimits, if_neg hcase]
    rfl

theorem chain_new (h : new r cfg = .ok s) (hreach : (RedisClient.newClient cfg.redis true r.redis).isOk = true) :
    newChain (surroundings cfg) cfg.rateLimit = .ok ⟨s.chain, s.keyStrategy, s.fallbackKeyStrategy⟩ := by
  have hb := new_spec h
  have hlimiter : s.limiter.map InstalledLimiter.limiter = Middleware.initRedis cfg.rateLimit := by
    rw [hb.installed, limiter_mainRedis hreach]
  have hclient : s.authClient.isSome = cfg.auth.enabled ∧
      (s.authClient.map AuthClient.client).getD (newClient {}) =
        newClient (if cfg.auth.enabled then cfg.auth.toAuthConfig else {}) := by
    rw [hb.authClient]
    cases cfg.auth.enabled <;> exact ⟨rfl, rfl⟩
  have hexternal : s.externalRL.isSome = cfg.rateLimit.external.enabled := by
    rw [← Option.isSome_map, hb.external]
    cases cfg.rateLimit.external.enabled <;> rfl
  unfold newChain chain surroundings
  simp only [hb.keyStrategy, hb.config, hb.bypassPreflight, hb.concurrency, hclient, hb.injection, hb.staticRL, hexternal,
    hlimiter, hb.backstop, hb.requestTimeout]
  cases henabled : cfg.rateLimit.external.enabled with
  | false =>
    obtain ⟨hnone, hnone'⟩ := hb.fallbackOff henabled
    simp only [hnone, hnone']
    rfl
  | true =>
    obtain ⟨⟨k, hk, hsome⟩, hsome'⟩ := hb.fallbackOn henabled
    simp only [hk, hsome, hsome']
    rfl

theorem reloadExternalRL_spec (r : Reach) (cfg : FullConfig) (s : Live) :
    ∃ cache owned n ext,
      s.reloadExternalRL r cfg =
        { s with cacheRedis := cache, cacheRedisOwned := owned, allocated := n, externalRL := ext } ∧
      (cfg.rateLimit.external.enabled = false → cache = s.cacheRedis ∧ ext = s.externalRL) ∧
      (cfg.rateLimit.external.enabled = true →
        cache.map RedisHandle.config = cacheSection r cfg s.limiterSection ∧
        (r.externalClient = true →
          ext.map ExternalClient.settings = some (externalSettings cfg s.tracingLevel) ∧ ∀ e ∈ ext, e.redis = cache)) := by
  unfold reloadExternalRL
  by_cases henabled : cfg.rateLimit.external.enabled = true
  · rw [if_pos henabled]
    obtain ⟨cache, owned, n, heq, hconfig⟩ := resolveCacheRedis_spec r cfg s.releaseCacheRedis
    simp only [heq]
    have hnone : cfg.rateLimit.external.enabled ≠ false := ne_false_of_eq_true henabled
    by_cases hclient : r.externalClient = true
    · rw [if_pos hclient]
      refine ⟨cache, owned, n + 1, _, rfl, fun hoff => absurd hoff hnone, fun _ => ⟨hconfig, fun _ => ⟨rfl, ?_⟩⟩⟩
      intro e he
      rw [← Option.some.inj he]
    · rw [if_neg hclient]
      exact ⟨cache, owned, n, s.externalRL, rfl, fun hoff => absurd hoff hnone, fun _ =>
        ⟨hconfig, fun hok => absurd hok hclient⟩⟩
  · rw [if_neg henabled]
    exact ⟨s.cacheRedis, s.cacheRedisOwned, s.allocated, s.externalRL, rfl, fun _ => ⟨rfl, rfl⟩,
      fun hon => absurd hon henabled⟩

structure ReloadedFrom (r : Reach) (cfg : FullConfig) (s s' : Live) : Prop where
  authClient : s'.authClient =
    if cfg.auth.enabled && authChanged s.cfg cfg && r.authClient then some (newAuthClient cfg.auth s.tracingLevel)
    else s.authClient
  cacheOff : cfg.rateLimit.external.enabled = false → s'.cacheRedis = s.cacheRedis ∧ s'.externalRL = s.externalRL
  cacheOn : cfg.rateLimit.external.enabled = true →
    s'.cacheRedisSection = cacheSection r cfg s.limiterSection ∧
    (r.externalClient = true →
      s'.externalRL.map ExternalClient.settings = some (externalSettings cfg s.tracingLevel) ∧
      ∀ e ∈ s'.externalRL, e.redis = s'.cacheRedis)
  limiter : s'.limiterSection = s.limiterSection
  authCache : s'.authCacheRedis = s'.cacheRedis
  responseCache : s'.responseCache = s.responseCache
  injection : s'.allowedInjectionHeaders = s.allowedInjectionHeaders
  concurrency : s'.concurrencySem = s.concurrencySem
  backstop : s'.globalBackstop = s.globalBackstop
  requestTimeout : s'.requestTimeout = durationOr cfg.server.requestTimeout s.requestTimeout

theorem reload_spec (h : (s.reload r cfg).1 = .ok ()) : ReloadedFrom r cfg s (s.reload r cfg).2 := by
  unfold reload at h ⊢
  split at h
  · cases h
  rename_i ks hks
  simp only at h
  split at h
  · cases h
  rename_i s₀ hfallback
  simp only [hfallback]
  obtain ⟨fbKS, fb, rfl, -, -⟩ := storeFallback_spec hfallback
  obtain ⟨cache, owned, n, ext, heq, hoff, hon⟩ := reloadExternalRL_spec r cfg
    ((storeStatic cfg { s with keyStrategy := ks, fallbackKeyStrategy := fbKS, externalFallback := fb }).storeConfig cfg)
  have hsection : limiterSection ((storeStatic cfg
      { s with keyStrategy := ks, fallbackKeyStrategy := fbKS, externalFallback := fb }).storeConfig cfg) =
      s.limiterSection := by
    unfold limiterSection storeStatic storeConfig
    rw [Option.map_map]
    rfl
  rw [hsection] at hon
  rw [heq]
  unfold reloadAuth
  by_cases hauth : (cfg.auth.enabled && authChanged s.cfg cfg && r.authClient) = true
  · rw [if_pos hauth]
    exact ⟨(if_pos hauth).symm, hoff, hon, hsection, rfl, rfl, rfl, rfl, rfl, rfl⟩
  · rw [if_neg hauth]
    exact ⟨(if_neg hauth).symm, hoff, hon, hsection, rfl, rfl, rfl, rfl, rfl, rfl⟩

structure InForce where
  auth : Option AuthClient
  authCache : Option (List GoString)
  external : Option ExternalSettings
  externalCache : Option (List GoString)
  injection : Set GoString
  concurrency : Option ℤ
  backstop : Option InMemoryLimiter
  requestTimeout : ℤ
  responseCache : Option (List GoString)
  limiter : Option (List GoString)

def inForce (s : Live) : InForce where
  auth := s.authClient
  authCache := s.authClient.bind fun _ => s.authCacheRedis.map fun client => client.config.endpoints
  external := s.externalRL.map ExternalClient.settings
  externalCache := s.externalRL.bind fun ext => ext.redis.map fun client => client.config.endpoints
  injection := { name | name ∈ s.allowedInjectionHeaders }
  concurrency := s.concurrencySem
  backstop := s.globalBackstop
  requestTimeout := s.requestTimeout
  responseCache := s.responseCache.map RedisConfig.endpoints
  limiter := s.limiterSection.map RedisConfig.endpoints

def responseCacheEndpoints (r : Reach) (cfg : FullConfig) : Option (List GoString) :=
  if cfg.cacheEnabled ∧ (RedisClient.newClient cfg.responseCacheRedisConfig true r.responseCache).isOk then
    some cfg.responseCacheRedisConfig.endpoints
  else none

structure Carried (r : Reach) (old new : FullConfig) : Prop where
  authOff : new.auth.enabled = false → old.auth.enabled = false
  auth : new.auth.enabled = true →
    newAuthClient (if authChanged old new then new.auth else old.auth) old.tracingLevel.resolved =
      newAuthClient new.auth new.tracingLevel.resolved
  externalOff : new.rateLimit.external.enabled = false → old.rateLimit.external.enabled = false
  external : new.rateLimit.external.enabled = true →
    externalSettings new old.tracingLevel.resolved = externalSettings new new.tracingLevel.resolved
  injection : ∀ name, name ∈ old.auth.allowedInjectionHeaders.map canonicalHeaderKey ↔
    name ∈ new.auth.allowedInjectionHeaders.map canonicalHeaderKey
  concurrency : concurrencyLimit old.serving.maxConcurrentRequests = concurrencyLimit new.serving.maxConcurrentRequests
  backstop : passthroughBackstop old.globalPassthroughRPS = passthroughBackstop new.globalPassthroughRPS
  requestTimeout :
    durationOr new.server.requestTimeout (durationOr old.server.requestTimeout 0) = durationOr new.server.requestTimeout 0
  responseCache : (responseCacheEndpoints r old) = responseCacheEndpoints r new
  limiter : (mainRedis r old).map RedisConfig.endpoints = (mainRedis r new).map RedisConfig.endpoints
  cache : new.auth.enabled = true → new.rateLimit.external.enabled = false →
    ((if old.auth.enabled ∨ old.rateLimit.external.enabled then cacheSection r old (mainRedis r old) else none).map
      RedisConfig.endpoints) = (cacheSection r new (mainRedis r new)).map RedisConfig.endpoints

theorem endpoints_cacheSection {main main' : Option RedisConfig}
    (h : main.map RedisConfig.endpoints = main'.map RedisConfig.endpoints) (r : Reach) (cfg : FullConfig) :
    (cacheSection r cfg main).map RedisConfig.endpoints = (cacheSection r cfg main').map RedisConfig.endpoints := by
  unfold cacheSection
  rw [Option.map_or, Option.map_or, h]

section Restart
variable {old : FullConfig} {built fresh after : Live}

theorem authClient_iff (hb : BuiltFrom r old built) (hf : BuiltFrom r cfg fresh) (ha : ReloadedFrom r cfg built after) :
    after.authClient = fresh.authClient ↔
      (cfg.auth.enabled = false → old.auth.enabled = false) ∧
      (cfg.auth.enabled = true →
        newAuthClient (if authChanged old cfg then cfg.auth else old.auth) old.tracingLevel.resolved =
          newAuthClient cfg.auth cfg.tracingLevel.resolved) := by
  rw [ha.authClient, hf.authClient, hb.authClient, hb.config, hb.tracingLevel]
  cases henabled : cfg.auth.enabled with
  | false =>
    cases hold : old.auth.enabled <;> simp
  | true =>
    rw [hf.clients.1 henabled]
    cases hchanged : authChanged old cfg with
    | true => simp
    | false =>
      have hold : old.auth.enabled = true := by
        unfold authChanged at hchanged
        simp only [decide_eq_false_iff_not, not_or, not_not] at hchanged
        rw [← hchanged.1, henabled]
      simp [hold]

theorem externalRL_iff (hb : BuiltFrom r old built) (hf : BuiltFrom r cfg fresh) (ha : ReloadedFrom r cfg built after) :
    after.externalRL.map ExternalClient.settings = fresh.externalRL.map ExternalClient.settings ↔
      (cfg.rateLimit.external.enabled = false → old.rateLimit.external.enabled = false) ∧
      (cfg.rateLimit.external.enabled = true →
        externalSettings cfg old.tracingLevel.resolved = externalSettings cfg cfg.tracingLevel.resolved) := by
  rw [hf.external]
  cases henabled : cfg.rateLimit.external.enabled with
  | false =>
    rw [(ha.cacheOff henabled).2, hb.external]
    cases hold : old.rateLimit.external.enabled <;> simp
  | true =>
    rw [((ha.cacheOn henabled).2 (hf.clients.2 henabled)).1, hb.tracingLevel]
    simp

theorem cacheEndpoints_reload (hb : BuiltFrom r old built) (hf : BuiltFrom r cfg fresh)
    (ha : ReloadedFrom r cfg built after) (hc : Carried r old cfg)
    (hused : cfg.auth.enabled = true ∨ cfg.rateLimit.external.enabled = true) :
    after.cacheRedisSection.map RedisConfig.endpoints = fresh.cacheRedisSection.map RedisConfig.endpoints := by
  rw [hf.cacheRedis, if_pos hused]
  cases henabled : cfg.rateLimit.external.enabled with
  | true => 
    rw [(ha.cacheOn henabled).1, hb.limiter]
    exact endpoints_cacheSection hc.limiter r cfg
  | false =>
    rw [cacheRedisSection, (ha.cacheOff henabled).1]
    have hauth : cfg.auth.enabled = true := hused.resolve_right (by simp [henabled])
    rw [← hc.cache hauth henabled, ← hb.cacheRedis]
    rfl

theorem endpoints_handle (client : Option RedisHandle) :
    client.map (fun client => client.config.endpoints) = (client.map RedisHandle.config).map RedisConfig.endpoints := by
  rw [Option.map_map]
  rfl

theorem authCache_carried (hb : BuiltFrom r old built) (hf : BuiltFrom r cfg fresh)
    (ha : ReloadedFrom r cfg built after) (hc : Carried r old cfg) : after.inForce.authCache = fresh.inForce.authCache := by
  have hclient := (authClient_iff hb hf ha).mpr ⟨hc.authOff, hc.auth⟩
  unfold inForce
  simp only [hclient]
  cases henabled : cfg.auth.enabled with
  | false =>
    rw [hf.authClient, henabled]
    rfl
  | true =>
    rw [ha.authCache, hf.authCache henabled, endpoints_handle, endpoints_handle]
    exact congrArg _ (funext fun _ => cacheEndpoints_reload hb hf ha hc (Or.inl henabled))

theorem externalCache_carried (hb : BuiltFrom r old built) (hf : BuiltFrom r cfg fresh)
    (ha : ReloadedFrom r cfg built after) (hc : Carried r old cfg) :
    after.inForce.externalCache = fresh.inForce.externalCache := by
  have hsettings := (externalRL_iff hb hf ha).mpr ⟨hc.externalOff, hc.external⟩
  have hfresh := hf.external
  unfold inForce
  cases henabled : cfg.rateLimit.external.enabled with
  | false =>
    rw [henabled, if_neg Bool.false_ne_true] at hfresh
    rw [hfresh] at hsettings
    rw [Option.map_eq_none_iff.mp hsettings, Option.map_eq_none_iff.mp hfresh]
  | true =>
    rw [if_pos henabled] at hfresh
    rw [hfresh] at hsettings
    obtain ⟨ext, hext, -⟩ := Option.map_eq_some_iff.mp hsettings
    obtain ⟨ext', hext', -⟩ := Option.map_eq_some_iff.mp hfresh
    have hredis := ((ha.cacheOn henabled).2 (hf.clients.2 henabled)).2 ext hext
    have hredis' := hf.externalCache ext' hext'
    simp only [hext, hext', Option.bind_some, hredis, hredis', endpoints_handle]
    exact cacheEndpoints_reload hb hf ha hc (Or.inr henabled)

theorem cache_of_authCache (hf : BuiltFrom r cfg fresh)
    (ha : ReloadedFrom r cfg built after) (hforce : after.inForce = fresh.inForce) (hauth : cfg.auth.enabled = true)
    (hexternal : cfg.rateLimit.external.enabled = false) :
    built.cacheRedisSection.map RedisConfig.endpoints = fresh.cacheRedisSection.map RedisConfig.endpoints := by
  have hclient : after.authClient = fresh.authClient := congrArg InForce.auth hforce
  have hcache : after.inForce.authCache = fresh.inForce.authCache := congrArg InForce.authCache hforce
  have hfresh := hf.authClient
  rw [if_pos hauth] at hfresh
  rw [hfresh] at hclient
  simp only [inForce, hclient, hfresh, Option.bind_some, ha.authCache, hf.authCache hauth, (ha.cacheOff hexternal).1,
    endpoints_handle] at hcache
  exact hcache

/-- **Reload against restart.** A chain that was reloaded has in force what a chain built anew would have
exactly when the two configurations agree on everything that a reload leaves as it is. -/
theorem reload_like_restart_iff (hbuilt : new r old = .ok built) (hfresh : new r cfg = .ok fresh)
    (hreload : (built.reload r cfg).1 = .ok ()) :
    (built.reload r cfg).2.inForce = fresh.inForce ↔ Carried r old cfg := by
  have hb := new_spec hbuilt
  have hf := new_spec hfresh
  have ha := reload_spec hreload
  have hresponse : ∀ {cfg : FullConfig} {s : Live}, BuiltFrom r cfg s →
      s.responseCache.map RedisConfig.endpoints = responseCacheEndpoints r cfg := by
    intro cfg s h
    rw [h.responseCache, responseCacheEndpoints]
    split_ifs <;> rfl
  constructor
  · intro heq
    obtain ⟨authOff, auth⟩ := (authClient_iff hb hf ha).mp (congrArg InForce.auth heq)
    obtain ⟨externalOff, external⟩ := (externalRL_iff hb hf ha).mp (congrArg InForce.external heq)
    refine ⟨authOff, auth, externalOff, external, ?_, ?_, ?_, ?_, ?_, ?_, ?_⟩
    · intro name
      have hset : _ = _ := congrArg (fun f => name ∈ f.injection) heq
      simpa only [inForce, Set.mem_ofPred_eq, ha.injection, hb.injection, hf.injection] using hset.to_iff
    · have hlimit : _ = _ := congrArg InForce.concurrency heq
      simpa only [inForce, ha.concurrency, hb.concurrency, hf.concurrency] using hlimit
    · have hlimit : _ = _ := congrArg InForce.backstop heq
      simpa only [inForce, ha.backstop, hb.backstop, hf.backstop] using hlimit
    · have htimeout : _ = _ := congrArg InForce.requestTimeout heq
      simpa only [inForce, ha.requestTimeout, hb.requestTimeout, hf.requestTimeout] using htimeout
    · have hcache : _ = _ := congrArg InForce.responseCache heq
      simpa only [inForce, ha.responseCache, hresponse hb, hresponse hf] using hcache
    · have hlimiter : _ = _ := congrArg InForce.limiter heq
      simpa only [inForce, ha.limiter, hb.limiter, hf.limiter] using hlimiter
    · intro hauth hexternal
      have hcache := cache_of_authCache hf ha heq hauth hexternal
      rwa [hb.cacheRedis, hf.cacheRedis, if_pos (Or.inl hauth)] at hcache
  · intro hc
    have hinjection : { name | name ∈ (built.reload r cfg).2.allowedInjectionHeaders } =
        { name | name ∈ fresh.allowedInjectionHeaders } := by
      rw [ha.injection, hb.injection, hf.injection]
      exact Set.ext hc.injection
    unfold inForce
    rw [InForce.mk.injEq]
    refine ⟨(authClient_iff hb hf ha).mpr ⟨hc.authOff, hc.auth⟩, authCache_carried hb hf ha hc,
      (externalRL_iff hb hf ha).mpr ⟨hc.externalOff, hc.external⟩, externalCache_carried hb hf ha hc, hinjection,
      ?_, ?_, ?_, ?_, ?_⟩
    · rw [ha.concurrency, hb.concurrency, hf.concurrency, hc.concurrency]
    · rw [ha.backstop, hb.backstop, hf.backstop, hc.backstop]
    · rw [ha.requestTimeout, hb.requestTimeout, hf.requestTimeout, hc.requestTimeout]
    · rw [ha.responseCache, hresponse hb, hresponse hf, hc.responseCache]
    · rw [ha.limiter, hb.limiter, hf.limiter, hc.limiter]

end Restart

def reloadedAndFresh (r : Reach) (old cfg : FullConfig) : Option (Live × Live) :=
  match new r old, new r cfg with
  | .ok built, .ok fresh =>
    match built.reload r cfg with
    | (.ok (), after) => some (after, fresh)
    | (.error _, _) => none
  | _, _ => none

theorem exists_of_isOk {ε α : Type} {x : Except ε α} (h : x.isOk = true) : ∃ a, x = .ok a := by
  cases x with
  | error e => cases h
  | ok a => exact ⟨a, rfl⟩

def doubled : FullConfig := { plainFull false with rateLimit := plainSection 10 2 "1s" false }

theorem reload_like_restart_doubled :
    ∃ built fresh, new {} (plainFull false) = .ok built ∧ new {} doubled = .ok fresh ∧
      (built.reload {} doubled).2.inForce = fresh.inForce := by
  obtain ⟨built, hbuilt⟩ := exists_of_isOk (x := new {} (plainFull false)) (by decide +kernel)
  obtain ⟨fresh, hfresh⟩ := exists_of_isOk (x := new {} doubled) (by decide +kernel)
  refine ⟨built, fresh, hbuilt, hfresh, (reload_like_restart_iff hbuilt hfresh rfl).mpr ?_⟩
  exact
    { authOff := fun _ => rfl
      auth := fun hon => absurd hon Bool.false_ne_true
      externalOff := fun _ => rfl
      external := fun hon => absurd hon Bool.false_ne_true
      injection := fun _ => Iff.rfl
      concurrency := rfl
      backstop := rfl
      requestTimeout := rfl
      responseCache := by decide +kernel
      limiter := by decide +kernel
      cache := fun hon => absurd hon Bool.false_ne_true }

def guarded : FullConfig :=
  { plainFull false with
    auth := { enabled := true, httpURL := str "http://auth" }
    serving := { maxConcurrentRequests := 10 }
    globalPassthroughRPS := 100
    cacheEnabled := true
    redis := { endpoints := [str "redis-b:6379"] } }

theorem reload_unlike_restart :
    validate plainURL guarded = .ok guarded ∧ validate plainURL (plainFull false) = .ok (plainFull false) ∧
      requiresRestart (plainFull false) guarded = [] ∧
      (reloadedAndFresh {} guarded (plainFull false)).map
        (fun p => (p.1.authClient.isSome, p.2.authClient.isSome)) = some (true, false) ∧
      (reloadedAndFresh {} guarded (plainFull false)).map
        (fun p => (p.1.concurrencySem, p.2.concurrencySem)) = some (some 10, none) ∧
      (reloadedAndFresh {} guarded (plainFull false)).map
        (fun p => (p.1.globalBackstop.isSome, p.2.globalBackstop.isSome)) = some (true, false) ∧
      (reloadedAndFresh {} guarded (plainFull false)).map
        (fun p => (p.1.responseCache.isSome, p.2.responseCache.isSome)) = some (true, false) ∧
      (reloadedAndFresh {} guarded (plainFull false)).map
        (fun p => (p.1.limiterSection.map RedisConfig.endpoints, p.2.limiterSection.map RedisConfig.endpoints)) =
          some (some [str "redis-b:6379"], some [str "redis-a:6379"]) := by
  refine ⟨rfl, rfl, by decide +kernel, by decide +kernel, by decide +kernel, by decide +kernel, by decide +kernel,
    by decide +kernel⟩

end Live
end EdgeQuota.Middleware
