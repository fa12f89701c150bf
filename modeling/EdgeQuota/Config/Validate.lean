import EdgeQuota.Go.Time

/-! The rate-limit section of the configuration and the validators that read it. A validator
returns the configuration it leaves behind, with its defaults filled in. -/

namespace EdgeQuota.Config
open Go

inductive FailurePolicy where
  | unset
  | passThrough
  | failClosed
  | inMemoryFallback
  | other (text : GoString)
  deriving DecidableEq

namespace FailurePolicy

def valid : FailurePolicy → Bool
  | passThrough | failClosed | inMemoryFallback => true
  | unset | other _ => false

def text : FailurePolicy → GoString
  | unset => []
  | passThrough => str "passthrough"
  | failClosed => str "failclosed"
  | inMemoryFallback => str "inmemoryfallback"
  | other s => s

end FailurePolicy

inductive KeyStrategyType where
  | unset
  | clientIP
  | header
  | composite
  | global
  | other (text : GoString)
  deriving DecidableEq

namespace KeyStrategyType

def valid : KeyStrategyType → Bool
  | clientIP | header | composite | global => true
  | unset | other _ => false

def text : KeyStrategyType → GoString
  | unset => []
  | clientIP => str "clientip"
  | header => str "header"
  | composite => str "composite"
  | global => str "global"
  | other s => s

end KeyStrategyType

structure KeyStrategyConfig where
  type : KeyStrategyType
  headerName : GoString := []
  pathPrefix : Bool := false
  globalKey : GoString := []
  trustedProxies : List GoString := []
  trustedIPDepth : ℤ := 0

structure BucketConfig where
  average : ℤ
  burst : ℤ
  period : GoString
  keyStrategy : KeyStrategyConfig

structure ExternalRLConfig where
  enabled : Bool
  httpURL : GoString
  grpcAddress : GoString
  fallback : BucketConfig

structure RateLimitConfig where
  static : BucketConfig
  failurePolicy : FailurePolicy
  failureCode : ℤ
  keyPrefix : GoString
  external : ExternalRLConfig
  minTTL : GoString

structure ServerConfig where
  readTimeout : GoString
  writeTimeout : GoString
  idleTimeout : GoString
  drainTimeout : GoString
  requestTimeout : GoString

structure TransportConfig where
  dialTimeout : GoString
  dialKeepAlive : GoString
  tlsHandshakeTimeout : GoString
  expectContinueTimeout : GoString
  h2ReadIdleTimeout : GoString
  h2PingTimeout : GoString
  webSocketDialTimeout : GoString

structure BackendConfig where
  timeout : GoString
  idleConnTimeout : GoString
  transport : TransportConfig

structure AdminConfig where
  readTimeout : GoString
  writeTimeout : GoString
  idleTimeout : GoString

structure CoreConfig where
  server : ServerConfig
  backend : BackendConfig
  admin : AdminConfig
  rateLimit : RateLimitConfig

inductive FmtArg where
  | str (s : GoString)
  | int (n : ℤ)
  deriving DecidableEq

structure ConfigError where
  format : String
  args : List FmtArg
  cause : Option Time.DurationError
  deriving DecidableEq

def durations (cfg : CoreConfig) : List (String × GoString) :=
  [("server.read_timeout", cfg.server.readTimeout),
   ("server.write_timeout", cfg.server.writeTimeout),
   ("server.idle_timeout", cfg.server.idleTimeout),
   ("server.drain_timeout", cfg.server.drainTimeout),
   ("server.request_timeout", cfg.server.requestTimeout),
   ("backend.timeout", cfg.backend.timeout),
   ("backend.idle_conn_timeout", cfg.backend.idleConnTimeout),
   ("admin.read_timeout", cfg.admin.readTimeout),
   ("admin.write_timeout", cfg.admin.writeTimeout),
   ("admin.idle_timeout", cfg.admin.idleTimeout),
   ("backend.transport.dial_timeout", cfg.backend.transport.dialTimeout),
   ("backend.transport.dial_keep_alive", cfg.backend.transport.dialKeepAlive),
   ("backend.transport.tls_handshake_timeout", cfg.backend.transport.tlsHandshakeTimeout),
   ("backend.transport.expect_continue_timeout", cfg.backend.transport.expectContinueTimeout),
   ("backend.transport.h2_read_idle_timeout", cfg.backend.transport.h2ReadIdleTimeout),
   ("backend.transport.h2_ping_timeout", cfg.backend.transport.h2PingTimeout),
   ("backend.transport.websocket_dial_timeout", cfg.backend.transport.webSocketDialTimeout),
   ("rate_limit.min_ttl", cfg.rateLimit.minTTL)]

def checkDurations : List (String × GoString) → Except ConfigError Unit
  | [] => .ok ()
  | (name, val) :: rest =>
    if val = [] then checkDurations rest
    else
      match Time.parseDuration val with
      | .error e => .error ⟨"invalid %s %q: %w", [.str (str name), .str val], some e⟩
      | .ok _ => checkDurations rest

def validateDurations (cfg : CoreConfig) : Except ConfigError Unit := checkDurations (durations cfg)

def validateKeyStrategy (section_ : String) (ks : KeyStrategyConfig) : Except ConfigError Unit :=
  if ks.type ≠ .unset ∧ ks.type.valid = false then
    .error ⟨"unknown %s.key_strategy.type %q", [.str (str section_), .str ks.type.text], none⟩
  else if (ks.type = .header ∨ ks.type = .composite) ∧ ks.headerName = [] then
    .error ⟨"%s.key_strategy.header_name is required when type is %q",
      [.str (str section_), .str ks.type.text], none⟩
  else .ok ()

def BucketConfig.withBurst (b : BucketConfig) : BucketConfig :=
  if b.burst < 1 then { b with burst := 1 } else b

def validateExternalRL (rl : RateLimitConfig) : Except ConfigError RateLimitConfig :=
  let ext := rl.external
  if ext.httpURL = [] ∧ ext.grpcAddress = [] then
    .error ⟨"rate_limit.external requires http.url or grpc.address when enabled", [], none⟩
  else if ext.fallback.keyStrategy.type = .unset then
    .error ⟨"rate_limit.external.fallback.key_strategy is required when external RL is enabled", [], none⟩
  else
    match validateKeyStrategy "rate_limit.external.fallback" ext.fallback.keyStrategy with
    | .error e => .error e
    | .ok () =>
      if ext.fallback.average ≤ 0 then
        .error ⟨"rate_limit.external.fallback.average must be > 0 when external RL is enabled", [], none⟩
      else .ok { rl with external := { ext with fallback := ext.fallback.withBurst } }

def validateRateLimit (rl : RateLimitConfig) : Except ConfigError RateLimitConfig :=
  if rl.static.average < 0 then .error ⟨"rate_limit.static.average must be >= 0", [], none⟩
  else
    let rl : RateLimitConfig := { rl with static := rl.static.withBurst }
    if rl.failurePolicy ≠ .unset ∧ rl.failurePolicy.valid = false then
      .error ⟨"invalid rate_limit.failure_policy %q: must be passthrough, failclosed, or inmemoryfallback",
        [.str rl.failurePolicy.text], none⟩
    else if rl.failureCode ≠ 0 ∧ (rl.failureCode < 400 ∨ 599 < rl.failureCode) then
      .error ⟨"invalid rate_limit.failure_code %d: must be 4xx or 5xx", [.int rl.failureCode], none⟩
    else
      match validateKeyStrategy "rate_limit.static" rl.static.keyStrategy with
      | .error e => .error e
      | .ok () => if rl.external.enabled then validateExternalRL rl else .ok rl

theorem BucketConfig.one_le_withBurst (b : BucketConfig) : 1 ≤ b.withBurst.burst := by
  unfold withBurst
  split_ifs with h
  · exact le_rfl
  · exact not_lt.mp h

theorem BucketConfig.average_withBurst (b : BucketConfig) : b.withBurst.average = b.average := by
  unfold withBurst
  split_ifs <;> rfl

theorem validateExternalRL_eq {rl rl' : RateLimitConfig} (h : validateExternalRL rl = .ok rl') :
    0 < rl.external.fallback.average ∧
      rl' = { rl with external := { rl.external with fallback := rl.external.fallback.withBurst } } := by
  unfold validateExternalRL at h
  simp only at h
  split at h
  · cases h
  split at h
  · cases h
  split at h
  · cases h
  split at h
  · cases h
  · rename_i havg
    exact ⟨not_le.mp havg, (Except.ok.inj h).symm⟩

/-- What an accepted section looks like, and what validation makes of it: the static bucket gets a burst,
and the external section its own. -/
structure Accepted (rl rl' : RateLimitConfig) : Prop where
  average : 0 ≤ rl.static.average
  failurePolicy : rl.failurePolicy = .unset ∨ rl.failurePolicy.valid = true
  failureCode : rl.failureCode = 0 ∨ 400 ≤ rl.failureCode ∧ rl.failureCode ≤ 599
  result : ∃ ext, rl' = { rl with static := rl.static.withBurst, external := ext }

theorem accepted_of_validateRateLimit {rl rl' : RateLimitConfig} (h : validateRateLimit rl = .ok rl') :
    Accepted rl rl' := by
  unfold validateRateLimit at h
  simp only at h
  split at h
  · cases h
  rename_i havg
  split at h
  · cases h
  rename_i hpolicy
  split at h
  · cases h
  rename_i hcode
  refine ⟨not_lt.mp havg, ?_, by omega, ?_⟩
  · by_contra hbad
    obtain ⟨hset, hinvalid⟩ := not_or.mp hbad
    exact hpolicy ⟨hset, Bool.eq_false_of_not_eq_true hinvalid⟩
  · split at h
    · cases h
    split at h
    · exact ⟨_, (validateExternalRL_eq h).2⟩
    · exact ⟨_, (Except.ok.inj h).symm⟩

theorem burst_of_validateRateLimit {rl rl' : RateLimitConfig} (h : validateRateLimit rl = .ok rl') :
    1 ≤ rl'.static.burst := by
  obtain ⟨ext, rfl⟩ := (accepted_of_validateRateLimit h).result
  exact rl.static.one_le_withBurst

theorem fallback_of_validateRateLimit {rl cfg : RateLimitConfig} (h : validateRateLimit rl = .ok cfg)
    (hext : cfg.external.enabled = true) : 0 < cfg.external.fallback.average ∧ 1 ≤ cfg.external.fallback.burst := by
  unfold validateRateLimit at h
  simp only at h
  split at h
  · cases h
  split at h
  · cases h
  split at h
  · cases h
  split at h
  · cases h
  split at h
  · obtain ⟨havg, rfl⟩ := validateExternalRL_eq h
    exact ⟨havg.trans_eq (BucketConfig.average_withBurst _).symm, BucketConfig.one_le_withBurst _⟩
  · rename_i hoff
    cases h
    exact absurd hext hoff

end EdgeQuota.Config
