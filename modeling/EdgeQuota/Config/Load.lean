import EdgeQuota.Config.Watcher
import EdgeQuota.Middleware.Reload

/-! Loading the configuration, at the start and when the watcher reloads it. A file that cannot be read counts
for none, and what is left are the defaults and the environment. -/

namespace EdgeQuota.Config
open Go Lib Middleware

def defaults : FullConfig where
  server :=
    { readTimeout := str "30s", writeTimeout := str "30s", idleTimeout := str "120s", drainTimeout := str "30s",
      requestTimeout := str "60s" }
  backend :=
    { timeout := str "30s"
      idleConnTimeout := str "90s"
      transport :=
        { dialTimeout := str "30s", dialKeepAlive := str "30s", tlsHandshakeTimeout := str "10s",
          expectContinueTimeout := str "1s", h2ReadIdleTimeout := str "30s", h2PingTimeout := str "15s",
          webSocketDialTimeout := str "10s" } }
  admin := { readTimeout := str "5s", writeTimeout := str "60s", idleTimeout := str "30s" }
  rateLimit :=
    { static := { average := 0, burst := 1, period := str "1s", keyStrategy := { type := .clientIP } }
      failurePolicy := .passThrough
      failureCode := 429
      keyPrefix := []
      external :=
        { enabled := false, httpURL := [], grpcAddress := []
          fallback := { average := 0, burst := 0, period := [], keyStrategy := { type := .unset } } }
      minTTL := [] }
  listen := { address := str ":8080", adminAddress := str ":9090" }
  upstream := { maxIdleConns := 100, maxRequestBodySize := 10485760 }
  externalClient := { timeout := str "5s" }
  auth := { timeout := str "5s" }
  redis :=
    { endpoints := [str "localhost:6379"], mode := .single, poolSize := 10, dialTimeout := str "5s",
      readTimeout := str "3s", writeTimeout := str "3s" }

def lowered {α : Type} (constants : List α) (text : α → GoString) (other : GoString → α) (x : α) : α :=
  (constants.find? fun c => text c = toLower (text x)).getD (other (toLower (text x)))

def FailurePolicy.lower : FailurePolicy → FailurePolicy :=
  lowered [.unset, .passThrough, .failClosed, .inMemoryFallback] text .other

def KeyStrategyType.lower : KeyStrategyType → KeyStrategyType :=
  lowered [.unset, .clientIP, .header, .composite, .global] text .other

def RedisMode.lower : RedisMode → RedisMode :=
  lowered [.unset, .single, .replication, .sentinel, .cluster] text .other

def authFailurePolicyText : AuthFailurePolicy → GoString
  | .unset => []
  | .failClosed => str "failclosed"
  | .failOpen => str "failopen"
  | .other s => s

def externalFailurePolicyText : ExternalRLFailurePolicy → GoString
  | .unset => []
  | .staticFallback => str "static_fallback"
  | .failClosed => str "failclosed"
  | .other s => s

def clientAuthText : ClientAuthMode → GoString
  | .unset => []
  | .request => str "request"
  | .requireAny => str "require_any"
  | .requireAndVerify => str "require_and_verify"
  | .other s => s

def tracingLevelText : TracingLevel → GoString
  | .unset => []
  | .basic => str "basic"
  | .external => str "external"
  | .full => str "full"
  | .other s => s

def normalizeTLSVersion : TLSVersion → TLSVersion
  | .other s =>
    if toLower s ∈ [str "1.3", str "tls13", str "tls1.3"] then .tls13
    else if toLower s ∈ [str "1.2", str "tls12", str "tls1.2"] then .tls12
    else .other s
  | v => v

def RedisConfig.lower (rc : RedisConfig) : RedisConfig := { rc with mode := rc.mode.lower }

def BucketConfig.lower (b : BucketConfig) : BucketConfig :=
  { b with keyStrategy := { b.keyStrategy with type := b.keyStrategy.type.lower } }

/-- The section of the response cache is not among those that are normalized. -/
def normalize (cfg : FullConfig) : FullConfig :=
  { cfg with
    rateLimit :=
      { cfg.rateLimit with
        failurePolicy := cfg.rateLimit.failurePolicy.lower
        static := cfg.rateLimit.static.lower
        external := { cfg.rateLimit.external with fallback := cfg.rateLimit.external.fallback.lower } }
    redis := cfg.redis.lower
    cacheRedis := cfg.cacheRedis.map RedisConfig.lower
    auth :=
      { cfg.auth with
        failurePolicy := lowered [.unset, .failClosed, .failOpen] authFailurePolicyText .other cfg.auth.failurePolicy }
    externalClient :=
      { cfg.externalClient with
        failurePolicy :=
          lowered [.unset, .staticFallback, .failClosed] externalFailurePolicyText .other
            cfg.externalClient.failurePolicy }
    listen :=
      { cfg.listen with
        tls :=
          { cfg.listen.tls with
            minVersion := normalizeTLSVersion cfg.listen.tls.minVersion
            mtls :=
              { cfg.listen.tls.mtls with
                clientAuth :=
                  lowered [.unset, .request, .requireAny, .requireAndVerify] clientAuthText .other
                    cfg.listen.tls.mtls.clientAuth } } }
    tracingLevel := lowered [.unset, .basic, .external, .full] tracingLevelText .other cfg.tracingLevel }

/-- What the process reads a configuration with: the parser of the file, which writes over what is there, and that of
the environment. -/
structure Loader where
  yaml : GoString → FullConfig → Except GoString FullConfig
  env : FullConfig → Except GoString FullConfig
  parseURL : GoString → Except GoString ParsedURL

inductive LoadError where
  | yaml (e : GoString)
  | env (e : GoString)
  | invalid (e : ConfigError)

def emptyRedis : RedisConfig := { mode := .unset }

/-- A section that is there only for the parser of the environment is dropped if it has got no endpoints. -/
def unlessEmpty (given parsed : Option RedisConfig) : Option RedisConfig :=
  if (parsed.getD emptyRedis).endpoints = [] ∧ given = none then none else parsed

namespace Loader

def readFile (l : Loader) (file : Option GoString) : Except LoadError FullConfig :=
  match file with
  | none => .ok defaults
  | some data =>
    match l.yaml data defaults with
    | .error e => .error (.yaml e)
    | .ok cfg => .ok cfg

def readEnv (l : Loader) (given : FullConfig) : Except LoadError FullConfig :=
  match l.env
      { given with
        cacheRedis := some (given.cacheRedis.getD emptyRedis)
        responseCacheRedis := some (given.responseCacheRedis.getD emptyRedis) } with
  | .error e => .error (.env e)
  | .ok cfg =>
    .ok { cfg with
      cacheRedis := unlessEmpty given.cacheRedis cfg.cacheRedis
      responseCacheRedis := unlessEmpty given.responseCacheRedis cfg.responseCacheRedis }

def loadFromPath (l : Loader) (file : Option GoString) : Except LoadError FullConfig := do
  let cfg ← l.readFile file
  let cfg ← l.readEnv cfg
  match validate l.parseURL (normalize cfg) with
  | .error e => .error (.invalid e)
  | .ok cfg => .ok cfg

/-- `Watcher.reload` on what it reads: what is published, and the configuration that is in force then. -/
def reload (l : Loader) (last : FullConfig) (file : Option GoString) : Option FullConfig × FullConfig :=
  match l.loadFromPath file with
  | .error _ => (none, last)
  | .ok cfg => if requiresRestart cfg last ≠ [] then (none, last) else (some cfg, cfg)

def reloads (l : Loader) : Machine FullConfig (Option GoString) (Option FullConfig) where
  step := l.reload

end Loader

def restartFields (cfg : FullConfig) : GoString × GoString × RedisMode × Bool × Bool × Bool × GoString :=
  (cfg.listen.address, cfg.listen.adminAddress, cfg.redis.mode, cfg.listen.tls.enabled, cfg.listen.tls.http3Enabled,
    cfg.listen.tls.mtls.enabled, cfg.listen.tls.mtls.listenAddr)

theorem requiresRestart_eq_nil {new old : FullConfig} :
    requiresRestart new old = [] ↔ restartFields new = restartFields old := by
  have hone : ∀ (p : Prop) [Decidable p] (name : String), (if ¬p then [name] else []) = [] ↔ p := by
    intro p _ name
    by_cases hp : p <;> simp [hp]
  simp only [requiresRestart, restartFields, List.append_eq_nil_iff, ne_eq, hone, Prod.mk.injEq, and_assoc]

namespace Loader
variable {l : Loader} {last : FullConfig}

theorem restartFields_reload (l : Loader) (last : FullConfig) (file : Option GoString) :
    restartFields (l.reload last file).2 = restartFields last := by
  unfold reload
  split
  · rfl
  · rename_i cfg _
    by_cases hrestart : requiresRestart cfg last = []
    · rw [if_neg (not_not.mpr hrestart)]
      exact requiresRestart_eq_nil.mp hrestart
    · rw [if_pos hrestart]

def KeepsUnread (l : Loader) (last : FullConfig) (file : Option GoString) : Prop :=
  file = none → l.reload last file = (none, last)

theorem keepsUnread_none_iff :
    l.KeepsUnread last none ↔ ∀ cfg, l.loadFromPath none = .ok cfg → restartFields cfg ≠ restartFields last := by
  unfold KeepsUnread reload
  cases hload : l.loadFromPath none with
  | error e => exact iff_of_true (fun _ => rfl) (by rintro cfg ⟨⟩)
  | ok cfg =>
    simp only [forall_const, Except.ok.injEq, forall_eq']
    by_cases hrestart : requiresRestart cfg last = []
    · rw [if_neg (not_not.mpr hrestart)]
      exact iff_of_false (by rintro ⟨⟩) (not_not.mpr (requiresRestart_eq_nil.mp hrestart))
    · rw [if_pos hrestart]
      exact iff_of_true rfl (requiresRestart_eq_nil.not.mp hrestart)

theorem along_keepsUnread_iff (l : Loader) (last : FullConfig) (files : List (Option GoString)) :
    l.reloads.Along l.KeepsUnread last files ↔
      (none ∈ files → ∀ cfg, l.loadFromPath none = .ok cfg → restartFields cfg ≠ restartFields last) := by
  induction files generalizing last with
  | nil => exact iff_of_true trivial (by rintro ⟨⟩)
  | cons file files ih =>
    -- The fields that decide are those of the first configuration, whatever has been published since.
    have hrest := ih (l.reload last file).2
    rw [restartFields_reload] at hrest
    refine (and_congr_right fun _ => hrest).trans ?_
    cases file with
    | some data =>
      have hkeeps : l.KeepsUnread last (some data) := by rintro ⟨⟩
      simp only [hkeeps, true_and, List.mem_cons, reduceCtorEq, false_or]
    | none =>
      rw [keepsUnread_none_iff]
      simp only [List.mem_cons, true_or, forall_const]
      exact and_iff_left_of_imp fun hall _ => hall

end Loader

/-- **An unreadable file and the running configuration.** In any history of the watcher, every reload that finds
the file unreadable publishes nothing and keeps what is in force, exactly if there is no such reload, or if the
defaults with the environment make no valid configuration, or one that differs from the running one in a field
that needs a restart. -/
theorem unreadable_never_published_iff {δ : Type} [DecidableEq δ] (hash : Option GoString → δ)
    (s : Watching (Option GoString) δ) (es : List (WatchEvent (Option GoString))) (l : Loader) (running : FullConfig) :
    let reads := ((watcher hash).outputs s es).reduceOption
    l.reloads.Along l.KeepsUnread running reads ↔
      (none ∈ reads → ∀ cfg, l.loadFromPath none = .ok cfg → requiresRestart cfg running ≠ []) := by
  intro reads
  simp only [ne_eq, requiresRestart_eq_nil]
  exact l.along_keepsUnread_iff running reads

def hundred : Loader where
  yaml _ cfg := .ok { cfg with rateLimit := { cfg.rateLimit with static := { cfg.rateLimit.static with average := 100 } } }
  env cfg := .ok { cfg with staticBackendURL := str "http://backend:80" }
  parseURL := Live.plainURL

theorem unreadable_published :
    let reads := ((watcher id).outputs (Watching.started (Option GoString) (some []) [])
      ([.proceed, .proceed, .update none] ++ quietTick _)).reduceOption
    reads = [none] ∧
      ∃ running, hundred.loadFromPath (some []) = .ok running ∧ running.rateLimit.static.average = 100 ∧
        (hundred.reloads.outputs running reads).map (fun o => o.map fun cfg => cfg.rateLimit.static.average) =
          [some 0] := by
  intro reads
  have hreads : reads = [none] := by decide +kernel
  refine ⟨hreads, ?_⟩
  rw [hreads]
  obtain ⟨running, hrunning, h⟩ := exists_of_any (x := hundred.loadFromPath (some []))
    (P := fun running => running.rateLimit.static.average = 100 ∧
      (hundred.reloads.outputs running [none]).map (fun o => o.map fun cfg => cfg.rateLimit.static.average) = [some 0])
    (by decide +kernel)
  exact ⟨running, hrunning, h⟩

end EdgeQuota.Config
