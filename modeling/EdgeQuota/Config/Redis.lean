import EdgeQuota.Config.Validate
import EdgeQuota.Go.Http

/-! The Redis sections of the configuration, and the clients that are created from them. A client connects
when it is first used, except for one of a replicated setup: it has to find its master before it is there. -/

namespace EdgeQuota.Config
open Go

inductive RedisMode where
  | unset
  | single
  | replication
  | sentinel
  | cluster
  | other (text : GoString)
  deriving DecidableEq

namespace RedisMode

def valid : RedisMode → Bool
  | single | replication | sentinel | cluster => true
  | unset | other _ => false

def text : RedisMode → GoString
  | unset => []
  | single => str "single"
  | replication => str "replication"
  | sentinel => str "sentinel"
  | cluster => str "cluster"
  | other s => s

end RedisMode

structure RedisConfig where
  endpoints : List GoString := []
  mode : RedisMode := .single
  masterName : GoString := []
  username : GoString := []
  password : GoString := []
  db : ℤ := 0
  poolSize : ℤ := 0
  dialTimeout : GoString := []
  readTimeout : GoString := []
  writeTimeout : GoString := []
  tlsEnabled : Bool := false
  tlsInsecureSkipVerify : Bool := false
  sentinelUsername : GoString := []
  sentinelPassword : GoString := []
  deriving DecidableEq

def validateRedisConfig (rc : RedisConfig) (section_ : String) : Except ConfigError Unit :=
  if rc.mode.valid = false then .error ⟨"invalid %s.mode %q", [.str (str section_), .str rc.mode.text], none⟩
  else if rc.endpoints = [] then
    .error ⟨"%s.endpoints: at least one endpoint is required", [.str (str section_)], none⟩
  else if rc.mode = .single ∧ 1 < rc.endpoints.length then
    .error ⟨"%s.endpoints: single mode requires exactly one endpoint, got %d",
      [.str (str section_), .int rc.endpoints.length], none⟩
  else if rc.mode = .sentinel ∧ rc.masterName = [] then
    .error ⟨"%s.master_name is required for sentinel mode", [.str (str section_)], none⟩
  else if rc.mode = .replication ∧ rc.endpoints.length < 2 then
    .error ⟨"%s.endpoints: replication mode requires at least 2 endpoints, got %d",
      [.str (str section_), .int rc.endpoints.length], none⟩
  else .ok ()

theorem valid_of_validateRedisConfig {rc : RedisConfig} {section_ : String}
    (h : validateRedisConfig rc section_ = .ok ()) : rc.mode.valid = true := by
  unfold validateRedisConfig at h
  split at h
  · cases h
  · rename_i hvalid
    exact eq_true_of_ne_false hvalid

end EdgeQuota.Config

namespace EdgeQuota.RedisClient
open Go Config

inductive ClientError where
  | dialTimeout (e : Time.DurationError)
  | readTimeout (e : Time.DurationError)
  | writeTimeout (e : Time.DurationError)
  | unknownMode (mode : GoString)
  | noMaster (endpoints : List GoString)
  | unreachable

structure Options extends RedisConfig where
  dial : ℤ
  read : ℤ
  write : ℤ

def parseDur (s : GoString) (default : ℤ) : Except Time.DurationError ℤ :=
  if s = [] then .ok default else Time.parseDuration s

def parseOptions (cfg : RedisConfig) : Except ClientError Options :=
  match parseDur cfg.dialTimeout 5000000000 with
  | .error e => .error (.dialTimeout e)
  | .ok dial =>
    match parseDur cfg.readTimeout 3000000000 with
    | .error e => .error (.readTimeout e)
    | .ok read =>
      match parseDur cfg.writeTimeout 3000000000 with
      | .error e => .error (.writeTimeout e)
      | .ok write =>
        .ok
          { cfg with
            mode := if cfg.mode = .unset then .single else cfg.mode
            poolSize := if cfg.poolSize ≤ 0 then 10 else cfg.poolSize
            dial := dial
            read := read
            write := write }

structure Network where
  role : GoString → Option GoString := fun _ => none
  pong : Bool := true

def discoverMaster (o : Options) (net : Network) : Option GoString :=
  o.endpoints.find? fun addr => (net.role addr).any fun role => toLower role = str "master"

def newClient (cfg : RedisConfig) (ping : Bool) (net : Network) : Except ClientError Options :=
  match parseOptions cfg with
  | .error e => .error e
  | .ok o =>
    match o.mode with
    | .single | .sentinel | .cluster => if ping && !net.pong then .error .unreachable else .ok o
    | .replication =>
      match discoverMaster o net with
      | none => .error (.noMaster o.endpoints)
      | some _ => .ok o
    | .unset | .other _ => .error (.unknownMode o.mode.text)

def Lazy (cfg : RedisConfig) : Prop := cfg.mode ≠ .replication ∧ ∃ o, parseOptions cfg = .ok o

theorem mode_parseOptions {cfg : RedisConfig} {o : Options} (h : parseOptions cfg = .ok o) :
    o.mode = if cfg.mode = .unset then .single else cfg.mode := by
  unfold parseOptions at h
  split at h
  · cases h
  split at h
  · cases h
  split at h
  · cases h
  · cases h
    rfl

theorem newClient_of_lazy {cfg : RedisConfig} (hvalid : cfg.mode.valid = true) (hlazy : Lazy cfg) (net : Network) :
    ∃ o, newClient cfg false net = .ok o := by
  obtain ⟨hmode, o, ho⟩ := hlazy
  have homode := mode_parseOptions ho
  refine ⟨o, ?_⟩
  unfold newClient
  rw [ho]
  cases hm : cfg.mode with
  | replication => exact absurd hm hmode
  | unset | other text =>
    rw [hm] at hvalid
    cases hvalid
  | single | sentinel | cluster =>
    rw [hm] at homode
    simp only [homode]
    rfl

theorem lazy_of_newClient {cfg : RedisConfig} {ping : Bool} {o : Options} (h : newClient cfg ping {} = .ok o) :
    Lazy cfg := by
  unfold newClient at h
  split at h
  · cases h
  · rename_i o' ho
    refine ⟨fun hmode => ?_, o', ho⟩
    have homode := mode_parseOptions ho
    rw [hmode] at homode
    simp only [homode] at h
    have hnone : discoverMaster o' {} = none := by
      unfold discoverMaster
      exact List.find?_eq_none.mpr fun addr _ => Bool.false_ne_true
    simp [hnone] at h

end EdgeQuota.RedisClient
