import EdgeQuota.Middleware.FullConfig

/-! The chain as all requests share it: what `NewChain` builds from a configuration, and what `Reload` makes
of it later. Every store is written as one update of the state. -/

namespace EdgeQuota.Middleware
open Go Config RateLimit Auth

structure RedisHandle where
  id : ℕ
  config : RedisConfig
  deriving DecidableEq

structure InstalledLimiter where
  limiter : Limiter
  client : RedisHandle

structure StaticSnapshot extends StaticParams where
  keyPrefix : GoString

def staticSnapshot (cfg : RateLimitConfig) : StaticSnapshot :=
  { staticParams cfg with keyPrefix := redisPrefix cfg }

def StaticSnapshot.newLimiter (p : StaticSnapshot) (client : RedisHandle) : InstalledLimiter :=
  ⟨Limiter.new p.ratePerSecond p.burst p.ttl p.keyPrefix, client⟩

structure FallbackSnapshot extends BucketParams where
  average : ℤ

def fallbackSnapshot (fb : BucketConfig) : FallbackSnapshot :=
  { parseBucketParams fb.average fb.burst fb.period [] with average := fb.average }

structure ExternalClient where
  id : ℕ
  settings : ExternalSettings
  redis : Option RedisHandle

structure BackendURLPolicy where
  allowedSchemes : List GoString
  denyPrivateNetworks : Bool
  allowedHosts : List GoString

def backendURLPolicy (p : URLPolicyConfig) : BackendURLPolicy :=
  ⟨p.allowedSchemes, p.denyPrivateNetworksEnabled, p.allowedHosts⟩

structure Live where
  cfg : FullConfig
  keyStrategy : KeyStrategy
  fallbackKeyStrategy : Option KeyStrategy := none
  staticRL : StaticSnapshot
  externalFallback : Option FallbackSnapshot := none
  limiter : Option InstalledLimiter := none
  redisUnhealthy : Bool := false
  cacheRedis : Option RedisHandle := none
  cacheRedisOwned : Bool := false
  authCacheRedis : Option RedisHandle := none
  responseCache : Option RedisConfig := none
  authClient : Option AuthClient := none
  externalRL : Option ExternalClient := none
  globalBackstop : Option InMemoryLimiter := none
  requestTimeout : ℤ := 0
  writeTimeout : ℤ := 0
  urlPolicy : BackendURLPolicy
  bypassPreflight : Bool := false
  accessLog : Bool := true
  concurrencySem : Option ℤ := none
  allowedInjectionHeaders : List GoString := []
  tracingLevel : TracingLevel := .external
  reconnecting : Bool := false
  closed : Bool := false
  allocated : ℕ := 0

/-- What the chain reaches while it is built or reloaded, and whether the clients of the services can be
created: that takes the CA file and an address that gRPC accepts. -/
structure Reach where
  redis : RedisClient.Network := {}
  cacheRedis : RedisClient.Network := {}
  responseCache : RedisClient.Network := {}
  authClient : Bool := true
  externalClient : Bool := true

inductive StartError where
  | chain (e : ChainError)
  | redis (e : RedisClient.ClientError)
  | authClient
  | externalClient

namespace Live

def adoptCacheRedis (rc : RedisConfig) (s : Live) : Option RedisHandle × Live :=
  (some ⟨s.allocated, rc⟩,
    { s with cacheRedis := some ⟨s.allocated, rc⟩, cacheRedisOwned := true, allocated := s.allocated + 1 })

def borrowCacheRedis (s : Live) : Option RedisHandle × Live :=
  match s.limiter with
  | some lim => (some lim.client, { s with cacheRedis := some lim.client, cacheRedisOwned := false })
  | none => (s.cacheRedis, s)

def resolveCacheRedis (net : RedisClient.Network) (cfg : FullConfig) (s : Live) : Option RedisHandle × Live :=
  match s.cacheRedis with
  | some existing => (some existing, s)
  | none =>
    match cfg.dedicatedCache with
    | some rc => if (RedisClient.newClient rc true net).isOk then s.adoptCacheRedis rc else s.borrowCacheRedis
    | none => s.borrowCacheRedis

def releaseCacheRedis (s : Live) : Live := { s with cacheRedis := none, cacheRedisOwned := false }

def storeFallback (cfg : FullConfig) (s : Live) : Except ConfigError Live :=
  if cfg.rateLimit.external.enabled then
    match newKeyStrategy cfg.rateLimit.external.fallback.keyStrategy with
    | .error e => .error e
    | .ok ks =>
      .ok { s with
        fallbackKeyStrategy := some ks
        externalFallback := some (fallbackSnapshot cfg.rateLimit.external.fallback) }
  else .ok s

def storeStatic (cfg : FullConfig) (s : Live) : Live := { s with staticRL := staticSnapshot cfg.rateLimit }

def storeConfig (cfg : FullConfig) (s : Live) : Live :=
  { s with cfg := cfg, limiter := s.limiter.map fun lim => (staticSnapshot cfg.rateLimit).newLimiter lim.client }

def storeExternal (cfg : FullConfig) (cache : Option RedisHandle) (s : Live) : Live :=
  { s with
    externalRL := some ⟨s.allocated, externalSettings cfg s.tracingLevel, cache⟩
    allocated := s.allocated + 1 }

def storeAuthClient (cfg : FullConfig) (s : Live) : Live :=
  { s with authClient := some (newAuthClient cfg.auth s.tracingLevel) }

def storeAuthCacheRedis (client : Option RedisHandle) (s : Live) : Live := { s with authCacheRedis := client }

def initRedis (r : Reach) (cfg : FullConfig) (s : Live) : Except StartError Live :=
  let p := parseRateLimitParams cfg.rateLimit
  if cfg.rateLimit.static.average = 0 ∧ cfg.rateLimit.external.enabled = false then .ok s
  else
    match RedisClient.newClient cfg.redis true r.redis with
    | .error e =>
      match p.failurePolicy with
      | .passThrough | .inMemoryFallback => .ok { s with reconnecting := true }
      | .unset | .failClosed | .other _ => .error (.redis e)
    | .ok _ =>
      if 0 < p.ratePerSecond ∨ cfg.rateLimit.external.enabled = true then
        .ok { s with
          limiter := some (s.staticRL.newLimiter ⟨s.allocated, cfg.redis⟩)
          allocated := s.allocated + 1 }
      else .ok s

def initAuth (r : Reach) (cfg : FullConfig) (s : Live) : Except StartError Live :=
  if cfg.auth.enabled then
    if r.authClient then
      let (authCache, s) := (s.storeAuthClient cfg).resolveCacheRedis r.cacheRedis cfg
      .ok (s.storeAuthCacheRedis authCache)
    else .error .authClient
  else .ok s

def initExternal (r : Reach) (cfg : FullConfig) (s : Live) : Except StartError Live :=
  if cfg.rateLimit.external.enabled then
    let (cache, s) := s.resolveCacheRedis r.cacheRedis cfg
    if r.externalClient then .ok (s.storeExternal cfg cache) else .error .externalClient
  else .ok s

def initResponseCache (r : Reach) (cfg : FullConfig) (s : Live) : Live :=
  if cfg.cacheEnabled ∧ (RedisClient.newClient cfg.responseCacheRedisConfig true r.responseCache).isOk then
    { s with responseCache := some cfg.responseCacheRedisConfig }
  else s

def concurrencyLimit (max : ℤ) : Option ℤ := if 0 < max then some max else none

def passthroughBackstop (rps : ℚ) : Option InMemoryLimiter := if 0 < rps then some ⟨rps, max ⌊rps⌋ 1⟩ else none

def start (cfg : FullConfig) (ks : KeyStrategy) : Live where
  cfg := cfg
  keyStrategy := ks
  staticRL := staticSnapshot cfg.rateLimit
  requestTimeout := durationOr cfg.server.requestTimeout 0
  urlPolicy := backendURLPolicy cfg.upstream.urlPolicy
  bypassPreflight := cfg.serving.bypassPreflightAuth
  accessLog := cfg.accessLog.getD true
  globalBackstop := passthroughBackstop cfg.globalPassthroughRPS
  concurrencySem := concurrencyLimit cfg.serving.maxConcurrentRequests
  allowedInjectionHeaders := cfg.auth.allowedInjectionHeaders.map canonicalHeaderKey
  tracingLevel := cfg.tracingLevel.resolved

def new (r : Reach) (cfg : FullConfig) : Except StartError Live :=
  match newKeyStrategy cfg.rateLimit.static.keyStrategy with
  | .error e => .error (.chain (.keyStrategy e))
  | .ok ks =>
    match (start cfg ks).storeFallback cfg with
    | .error e => .error (.chain (.fallbackKeyStrategy e))
    | .ok s => do
      let s ← s.initRedis r cfg
      let s ← s.initAuth r cfg
      let s ← s.initExternal r cfg
      pure (s.initResponseCache r cfg)

def reloadExternalRL (r : Reach) (cfg : FullConfig) (s : Live) : Live :=
  if cfg.rateLimit.external.enabled then
    let (cache, s) := s.releaseCacheRedis.resolveCacheRedis r.cacheRedis cfg
    if r.externalClient then s.storeExternal cfg cache else s
  else s

def authChanged (prev cfg : FullConfig) : Bool :=
  cfg.auth.enabled ≠ prev.auth.enabled ∨ cfg.auth.httpURL ≠ prev.auth.httpURL ∨
    cfg.auth.grpcAddress ≠ prev.auth.grpcAddress ∨ cfg.auth.timeout ≠ prev.auth.timeout ∨
    cfg.auth.failurePolicy ≠ prev.auth.failurePolicy

def reloadAuth (r : Reach) (prev cfg : FullConfig) (s : Live) : Live :=
  if cfg.auth.enabled && authChanged prev cfg && r.authClient then s.storeAuthClient cfg else s

def storeRest (cfg : FullConfig) (s : Live) : Live :=
  { s with
    urlPolicy := backendURLPolicy cfg.upstream.urlPolicy
    requestTimeout := durationOr cfg.server.requestTimeout s.requestTimeout
    writeTimeout := if cfg.server.writeTimeout = [] then 30000000000 else durationOr cfg.server.writeTimeout s.writeTimeout
    bypassPreflight := cfg.serving.bypassPreflightAuth
    accessLog := cfg.accessLog.getD true }

def reload (r : Reach) (cfg : FullConfig) (s : Live) : Except ChainError Unit × Live :=
  match newKeyStrategy cfg.rateLimit.static.keyStrategy with
  | .error e => (.error (.keyStrategy e), s)
  | .ok ks =>
    let s := { s with keyStrategy := ks }
    match s.storeFallback cfg with
    | .error e => (.error (.fallbackKeyStrategy e), s)
    | .ok s =>
      let prev := s.cfg
      let s := (s.storeStatic cfg).storeConfig cfg
      let s := (s.reloadExternalRL r cfg).reloadAuth r prev cfg
      (.ok (), (s.storeAuthCacheRedis s.cacheRedis).storeRest cfg)

end Live
end EdgeQuota.Middleware
