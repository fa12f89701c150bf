import EdgeQuota.Config.Redis
import EdgeQuota.Middleware.Charges

/-! The configuration as a whole: the sections of `Config` together with everything else that the chain and
the proxy are built from, what `Validate` accepts of it, and the clients of the two services that it
describes. -/

namespace EdgeQuota.Middleware
open Go Config RateLimit Auth

inductive TLSVersion where
  | unset
  | tls12
  | tls13
  | other (text : GoString)
  deriving DecidableEq

inductive ClientAuthMode where
  | unset
  | request
  | requireAny
  | requireAndVerify
  | other (text : GoString)
  deriving DecidableEq

structure MTLSConfig where
  enabled : Bool := false
  listenAddr : GoString := []
  clientCAFile : GoString := []
  clientAuth : ClientAuthMode := .unset

structure ServerTLSConfig where
  enabled : Bool := false
  certFile : GoString := []
  keyFile : GoString := []
  http3Enabled : Bool := false
  minVersion : TLSVersion := .unset
  mtls : MTLSConfig := {}

structure ListenConfig where
  address : GoString := []
  adminAddress : GoString := []
  tls : ServerTLSConfig := {}

structure ServingConfig where
  maxConcurrentRequests : ℤ := 0
  allowedWebSocketOrigins : List GoString := []
  maxWebSocketConnsPerKey : ℤ := 0
  maxWebSocketTransferBytes : ℤ := 0
  webSocketIdleTimeout : GoString := []
  bypassPreflightAuth : Bool := false

structure URLPolicyConfig where
  allowedSchemes : List GoString := []
  denyPrivateNetworks : Option Bool := none
  allowedHosts : List GoString := []

def URLPolicyConfig.denyPrivateNetworksEnabled (p : URLPolicyConfig) : Bool := p.denyPrivateNetworks.getD true

inductive BackendProtocol where
  | unset
  | auto
  | h1
  | h2
  | h3
  | other (text : GoString)
  deriving DecidableEq

structure UpstreamConfig where
  maxIdleConns : ℤ := 0
  tlsInsecureVerify : Bool := false
  maxRequestBodySize : ℤ := 0
  backendProtocol : BackendProtocol := .unset
  h3UDPReceiveBufferSize : ℤ := 0
  h3UDPSendBufferSize : ℤ := 0
  urlPolicy : URLPolicyConfig := {}

structure GRPCTLSConfig where
  enabled : Bool := false
  caFile : GoString := []
  serverName : GoString := []

def GRPCTLSConfig.resolveServerName (c : GRPCTLSConfig) (grpcAddress : GoString) : GoString :=
  if c.serverName ≠ [] then c.serverName
  else
    match Net.splitHostPort grpcAddress with
    | none => grpcAddress
    | some (host, _) => host

structure CircuitBreakerConfig where
  threshold : ℤ := 0
  resetTimeout : GoString := []

structure AuthSection extends AuthConfig where
  enabled : Bool := false
  timeout : GoString := []
  failurePolicy : AuthFailurePolicy := .unset
  httpURL : GoString := []
  forwardOriginalHeaders : Bool := false
  grpcAddress : GoString := []
  grpcTLS : GRPCTLSConfig := {}
  allowedInjectionHeaders : List GoString := []
  circuitBreaker : CircuitBreakerConfig := {}

structure ExternalClientConfig where
  timeout : GoString := []
  failurePolicy : ExternalRLFailurePolicy := .unset
  grpcTLS : GRPCTLSConfig := {}
  headerFilter : HeaderFilterConfig := {}
  maxConcurrentRequests : ℤ := 0
  maxCircuitBreakers : ℤ := 0
  maxLatency : GoString := []
  circuitBreaker : CircuitBreakerConfig := {}

inductive TracingLevel where
  | unset
  | basic
  | external
  | full
  | other (text : GoString)
  deriving DecidableEq

def TracingLevel.resolved : TracingLevel → TracingLevel
  | .basic => .basic
  | .full => .full
  | .external | .unset | .other _ => .external

structure FullConfig extends CoreConfig where
  listen : ListenConfig := {}
  serving : ServingConfig := {}
  upstream : UpstreamConfig := {}
  staticBackendURL : GoString := []
  fallbackBackendURL : GoString := []
  maxRecoveryAttempts : ℤ := 0
  globalPassthroughRPS : ℚ := 0
  externalClient : ExternalClientConfig := {}
  auth : AuthSection := {}
  redis : RedisConfig
  cacheRedis : Option RedisConfig := none
  cacheEnabled : Bool := false
  responseCacheRedis : Option RedisConfig := none
  accessLog : Option Bool := none
  tracingLevel : TracingLevel := .unset

namespace FullConfig

def dedicatedCache (s : FullConfig) : Option RedisConfig := s.cacheRedis.filter fun rc => rc.endpoints ≠ []

def cacheRedisConfig (s : FullConfig) : RedisConfig := s.dedicatedCache.getD s.redis

def responseCacheRedisConfig (s : FullConfig) : RedisConfig :=
  (s.responseCacheRedis.filter fun rc => rc.endpoints ≠ []).getD s.cacheRedisConfig

def Limits (s : FullConfig) : Prop := 0 < s.rateLimit.static.average ∨ s.rateLimit.external.enabled = true

instance (s : FullConfig) : Decidable s.Limits := inferInstanceAs (Decidable (_ ∨ _))

end FullConfig

structure ParsedURL where
  scheme : GoString
  host : GoString
  port : GoString
  withHost : GoString → GoString

section Validate
variable (parseURL : GoString → Except GoString ParsedURL)

def normalizeURL (raw : GoString) : Except GoString GoString :=
  match parseURL raw with
  | .error e => .error e
  | .ok u =>
    if u.scheme = [] ∨ u.host = [] then .error (str "scheme and host are required")
    else if u.port = [] then
      .ok (u.withHost
        (u.host ++ if toLower u.scheme = str "https" ∨ toLower u.scheme = str "wss" then str ":443" else str ":80"))
    else .ok (u.withHost u.host)

def validateBackend (s : FullConfig) : Except ConfigError FullConfig :=
  if s.rateLimit.external.enabled then
    if s.fallbackBackendURL = [] then
      .error ⟨"rate_limit.external.fallback.backend_url is required when external RL is enabled", [], none⟩
    else
      match normalizeURL parseURL s.fallbackBackendURL with
      | .error e =>
        .error ⟨"invalid rate_limit.external.fallback.backend_url %q: %w", [.str s.fallbackBackendURL, .str e], none⟩
      | .ok url => .ok { s with fallbackBackendURL := url }
  else if s.staticBackendURL = [] then
    .error ⟨"rate_limit.static.backend_url is required when external RL is not enabled", [], none⟩
  else
    match normalizeURL parseURL s.staticBackendURL with
    | .error e => .error ⟨"invalid rate_limit.static.backend_url %q: %w", [.str s.staticBackendURL, .str e], none⟩
    | .ok url => .ok { s with staticBackendURL := url }

def validateMTLS (s : FullConfig) : Except ConfigError Unit :=
  let mtls := s.listen.tls.mtls
  if !mtls.enabled then .ok ()
  else if !s.listen.tls.enabled then
    .error ⟨"server.tls.mtls.enabled requires server.tls.enabled to be true", [], none⟩
  else if mtls.clientCAFile = [] then
    .error ⟨"server.tls.mtls.client_ca_file is required when mTLS is enabled", [], none⟩
  else if mtls.listenAddr = [] then
    .error ⟨"server.tls.mtls.listen_addr is required when mTLS is enabled (dual-listener approach)", [], none⟩
  else if mtls.listenAddr = s.listen.address then
    .error ⟨"server.tls.mtls.listen_addr must differ from server.address (%s)", [.str s.listen.address], none⟩
  else
    match mtls.clientAuth with
    | .other text =>
      .error ⟨"invalid server.tls.mtls.client_auth %q: must be request, require_any, or require_and_verify",
        [.str text], none⟩
    | _ => .ok ()

def validateTLS (s : FullConfig) : Except ConfigError Unit :=
  if s.listen.tls.enabled ∧ (s.listen.tls.certFile = [] ∨ s.listen.tls.keyFile = []) then
    .error ⟨"server.tls.cert_file and server.tls.key_file are required when TLS is enabled", [], none⟩
  else if s.listen.tls.http3Enabled ∧ !s.listen.tls.enabled then
    .error ⟨"server.tls.http3_enabled requires server.tls.enabled to be true (QUIC mandates TLS)", [], none⟩
  else
    match s.listen.tls.minVersion with
    | .other text => .error ⟨"invalid server.tls.min_version %q: must be 1.2 or 1.3", [.str text], none⟩
    | _ => validateMTLS s

def validateAuth (s : FullConfig) : Except ConfigError Unit :=
  if s.auth.enabled then
    if s.auth.httpURL = [] ∧ s.auth.grpcAddress = [] then
      .error ⟨"auth.http.url or auth.grpc.address is required when auth is enabled", [], none⟩
    else
      match s.auth.failurePolicy with
      | .other text => .error ⟨"invalid auth.failure_policy %q: must be failclosed or failopen", [.str text], none⟩
      | _ => .ok ()
  else .ok ()

def validateCacheRedis (s : FullConfig) : Except ConfigError FullConfig :=
  match s.dedicatedCache with
  | none => .ok s
  | some rc =>
    let rc : RedisConfig := if rc.mode = .unset then { rc with mode := .single } else rc
    match validateRedisConfig rc "cache_redis" with
    | .error e => .error e
    | .ok () => .ok { s with cacheRedis := some rc }

def validateTracingLevel (s : FullConfig) : Except ConfigError Unit :=
  match s.tracingLevel with
  | .other text => .error ⟨"invalid tracing.level %q: must be basic, external, or full", [.str text], none⟩
  | _ => .ok ()

def validate (s : FullConfig) : Except ConfigError FullConfig := do
  let s ← validateBackend parseURL s
  validateDurations s.toCoreConfig
  validateTLS s
  validateAuth s
  let rateLimit ← validateRateLimit s.rateLimit
  let s : FullConfig := { s with rateLimit := rateLimit }
  validateRedisConfig s.redis "redis"
  let s ← validateCacheRedis s
  validateTracingLevel s
  pure s

theorem exists_of_bind_eq_ok {ε α β : Type} {x : Except ε α} {f : α → Except ε β} {b : β} (h : x >>= f = .ok b) :
    ∃ a, x = .ok a ∧ f a = .ok b := by
  cases x with
  | error e => cases h
  | ok a => exact ⟨a, rfl, h⟩

theorem redis_validateCacheRedis {s cfg : FullConfig} (h : validateCacheRedis s = .ok cfg) : cfg.redis = s.redis := by
  unfold validateCacheRedis at h
  split at h
  · cases h
    rfl
  · simp only at h
    split at h
    · cases h
    · cases h
      rfl

theorem redis_of_validate {s cfg : FullConfig} (h : validate parseURL s = .ok cfg) :
    validateRedisConfig cfg.redis "redis" = .ok () := by
  unfold validate at h
  obtain ⟨backend, -, h⟩ := exists_of_bind_eq_ok h
  obtain ⟨-, -, h⟩ := exists_of_bind_eq_ok h
  obtain ⟨-, -, h⟩ := exists_of_bind_eq_ok h
  obtain ⟨-, -, h⟩ := exists_of_bind_eq_ok h
  obtain ⟨rateLimit, -, h⟩ := exists_of_bind_eq_ok h
  obtain ⟨⟨⟩, hredis, h⟩ := exists_of_bind_eq_ok h
  obtain ⟨cached, hcache, h⟩ := exists_of_bind_eq_ok h
  obtain ⟨-, -, h⟩ := exists_of_bind_eq_ok h
  have hsame := redis_validateCacheRedis hcache
  rw [← Except.ok.inj h, hsame]
  exact hredis

end Validate

def requiresRestart (new old : FullConfig) : List String :=
  (if new.listen.address ≠ old.listen.address then ["server.address"] else []) ++
  (if new.listen.adminAddress ≠ old.listen.adminAddress then ["admin.address"] else []) ++
  (if new.redis.mode ≠ old.redis.mode then ["redis.mode"] else []) ++
  (if new.listen.tls.enabled ≠ old.listen.tls.enabled then ["server.tls.enabled"] else []) ++
  (if new.listen.tls.http3Enabled ≠ old.listen.tls.http3Enabled then ["server.tls.http3_enabled"] else []) ++
  (if new.listen.tls.mtls.enabled ≠ old.listen.tls.mtls.enabled then ["server.tls.mtls.enabled"] else []) ++
  (if new.listen.tls.mtls.listenAddr ≠ old.listen.tls.mtls.listenAddr then ["server.tls.mtls.listen_addr"] else [])

structure GRPCTarget where
  address : GoString
  tls : Option (GoString × GoString)

def grpcTarget (address : GoString) (tls : GRPCTLSConfig) : Option GRPCTarget :=
  if address = [] then none
  else some ⟨address, if tls.enabled then some (tls.caFile, tls.resolveServerName address) else none⟩

def durationOr (s : GoString) (default : ℤ) : ℤ := (Time.parseDuration s).toOption.getD default

def positiveOr (n default : ℤ) : ℤ := if 0 < n then n else default

def resolveResetTimeout (s : GoString) : ℤ := positiveOr (durationOr s 0) 30000000000

def traced (level : TracingLevel) : Bool := level = .external ∨ level = .full

structure AuthClient where
  client : Client
  httpURL : GoString
  timeout : ℤ
  forwardOriginalHeaders : Bool
  threshold : ℤ
  resetTimeout : ℤ
  grpc : Option GRPCTarget
  traced : Bool

def newAuthClient (cfg : AuthSection) (level : TracingLevel) : AuthClient where
  client := newClient cfg.toAuthConfig
  httpURL := cfg.httpURL
  timeout := durationOr cfg.timeout 5000000000
  forwardOriginalHeaders := cfg.forwardOriginalHeaders
  threshold := positiveOr cfg.circuitBreaker.threshold 5
  resetTimeout := resolveResetTimeout cfg.circuitBreaker.resetTimeout
  grpc := grpcTarget cfg.grpcAddress cfg.grpcTLS
  traced := traced level

structure ExternalSettings where
  httpURL : GoString
  timeout : ℤ
  headerFilter : HeaderFilter
  maxLatency : ℤ
  maxConcurrent : ℤ
  maxBreakers : ℤ
  threshold : ℤ
  resetTimeout : ℤ
  grpc : Option GRPCTarget
  traced : Bool

def externalSettings (s : FullConfig) (level : TracingLevel) : ExternalSettings where
  httpURL := s.rateLimit.external.httpURL
  timeout := durationOr s.externalClient.timeout 5000000000
  headerFilter := newHeaderFilter s.externalClient.headerFilter
  maxLatency := durationOr s.externalClient.maxLatency 0
  maxConcurrent := positiveOr s.externalClient.maxConcurrentRequests 50
  maxBreakers := positiveOr s.externalClient.maxCircuitBreakers 10000
  threshold := positiveOr s.externalClient.circuitBreaker.threshold 5
  resetTimeout := resolveResetTimeout s.externalClient.circuitBreaker.resetTimeout
  grpc := grpcTarget s.rateLimit.external.grpcAddress s.externalClient.grpcTLS
  traced := traced level

end EdgeQuota.Middleware
