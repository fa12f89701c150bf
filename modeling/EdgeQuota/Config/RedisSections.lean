import EdgeQuota.Config.Load

/-! The three Redis sections on their way from the input to the clients. The spelling of enumerations is normalized,
and two of the sections are validated; the one of the response cache is used as it is read. -/

namespace EdgeQuota.Config
open Go Middleware RedisClient

def Loader.read (l : Loader) (file : Option GoString) : Except LoadError FullConfig := do
  let cfg ← l.readFile file
  l.readEnv cfg

structure RedisRules (rc : RedisConfig) : Prop where
  mode : rc.mode.valid = true
  endpoints : rc.endpoints ≠ []
  single : rc.mode = .single → rc.endpoints.length = 1
  sentinel : rc.mode = .sentinel → rc.masterName ≠ []
  replication : rc.mode = .replication → 2 ≤ rc.endpoints.length

theorem validateRedisConfig_iff {rc : RedisConfig} {section_ : String} :
    validateRedisConfig rc section_ = .ok () ↔ RedisRules rc := by
  unfold validateRedisConfig
  have hlength : rc.endpoints ≠ [] → 0 < rc.endpoints.length := List.length_pos_of_ne_nil
  split_ifs with hmode hendpoints hsingle hsentinel hreplication
  · exact iff_of_false (by rintro ⟨⟩) fun h => Bool.false_ne_true (hmode.symm.trans h.mode)
  · exact iff_of_false (by rintro ⟨⟩) fun h => h.endpoints hendpoints
  · exact iff_of_false (by rintro ⟨⟩) fun h => absurd (h.single hsingle.1) (by omega)
  · exact iff_of_false (by rintro ⟨⟩) fun h => h.sentinel hsentinel.1 hsentinel.2
  · exact iff_of_false (by rintro ⟨⟩) fun h => absurd (h.replication hreplication.1) (by omega)
  · refine iff_of_true rfl ⟨eq_true_of_ne_false hmode, hendpoints, fun h => ?_, fun h hname => ?_, fun h => ?_⟩
    · have hpos := hlength hendpoints
      have hone : ¬1 < rc.endpoints.length := fun hlt => hsingle ⟨h, hlt⟩
      omega
    · exact hsentinel ⟨h, hname⟩
    · exact not_lt.mp fun hlt => hreplication ⟨h, hlt⟩

def ofConfiguration : ClientError → Bool
  | .dialTimeout _ | .readTimeout _ | .writeTimeout _ | .unknownMode _ => true
  | .noMaster _ | .unreachable => false

def Creatable (rc : RedisConfig) : Prop :=
  ∀ ping net e, newClient rc ping net = .error e → ofConfiguration e = false

def timeouts (rc : RedisConfig) : List GoString := [rc.dialTimeout, rc.readTimeout, rc.writeTimeout]

def Timed (rc : RedisConfig) : Prop := ∀ s ∈ timeouts rc, s = [] ∨ ∃ d, Time.parseDuration s = .ok d

theorem parseDur_ok_iff {s : GoString} {default : ℤ} :
    (∃ d, parseDur s default = .ok d) ↔ s = [] ∨ ∃ d, Time.parseDuration s = .ok d := by
  unfold parseDur
  by_cases hs : s = []
  · exact iff_of_true ⟨default, if_pos hs⟩ (.inl hs)
  · simp only [hs, if_false, false_or]

theorem parseOptions_spec (rc : RedisConfig) :
    (Timed rc ∧ ∃ o, parseOptions rc = .ok o) ∨
      ¬Timed rc ∧ ∃ e, parseOptions rc = .error e ∧ ofConfiguration e = true := by
  have htimed : Timed rc ↔ (∃ d, parseDur rc.dialTimeout 5000000000 = .ok d) ∧
      (∃ d, parseDur rc.readTimeout 3000000000 = .ok d) ∧ ∃ d, parseDur rc.writeTimeout 3000000000 = .ok d := by
    simp only [Timed, timeouts, List.forall_mem_cons, parseDur_ok_iff, List.not_mem_nil, false_imp_iff, implies_true,
      and_true]
  rw [htimed]
  unfold parseOptions
  cases parseDur rc.dialTimeout 5000000000 with
  | error e => exact .inr ⟨by rintro ⟨⟨d, ⟨⟩⟩, -⟩, _, rfl, rfl⟩
  | ok dial =>
    cases parseDur rc.readTimeout 3000000000 with
    | error e => exact .inr ⟨by rintro ⟨-, ⟨d, ⟨⟩⟩, -⟩, _, rfl, rfl⟩
    | ok read =>
      cases parseDur rc.writeTimeout 3000000000 with
      | error e => exact .inr ⟨by rintro ⟨-, -, d, ⟨⟩⟩, _, rfl, rfl⟩
      | ok write => exact .inl ⟨⟨⟨dial, rfl⟩, ⟨read, rfl⟩, write, rfl⟩, _, rfl⟩

theorem RedisRules.creatable_iff {rc : RedisConfig} (h : RedisRules rc) : Creatable rc ↔ Timed rc := by
  rcases parseOptions_spec rc with ⟨htimed, o, ho⟩ | ⟨htimed, e, he, hblame⟩
  · refine iff_of_true (fun ping net e he => ?_) htimed
    have homode : o.mode = rc.mode := by
      rw [mode_parseOptions ho, if_neg]
      intro hunset
      have hvalid := h.mode
      rw [hunset] at hvalid
      cases hvalid
    have hvalid : o.mode.valid = true := homode ▸ h.mode
    unfold newClient at he
    rw [ho] at he
    cases hmode : o.mode with
    | unset | other text =>
      rw [hmode] at hvalid
      cases hvalid
    | replication =>
      simp only [hmode] at he
      split at he
      · cases he
        rfl
      · cases he
    | single | sentinel | cluster =>
      simp only [hmode] at he
      split_ifs at he
      cases he
      rfl
  · refine iff_of_false (fun hcreatable => ?_) htimed
    have hfails : newClient rc true {} = .error e := by
      unfold newClient
      rw [he]
    exact Bool.false_ne_true ((hcreatable true {} e hfails).symm.trans hblame)

def redisInUse (cfg : FullConfig) : List RedisConfig :=
  cfg.redis :: cfg.cacheRedisConfig :: if cfg.cacheEnabled then [cfg.responseCacheRedisConfig] else []

def responseSection (cfg : FullConfig) : Option RedisConfig :=
  (if cfg.cacheEnabled then cfg.responseCacheRedis else none).filter fun rc => rc.endpoints ≠ []

theorem validateBackend_sections {parseURL : GoString → Except GoString ParsedURL} {s s' : FullConfig}
    (h : validateBackend parseURL s = .ok s') :
    s'.redis = s.redis ∧ s'.cacheRedis = s.cacheRedis ∧ s'.cacheEnabled = s.cacheEnabled ∧
      s'.responseCacheRedis = s.responseCacheRedis := by
  unfold validateBackend at h
  split at h
  all_goals
    split at h
    · cases h
    · split at h
      · cases h
      · cases h
        exact ⟨rfl, rfl, rfl, rfl⟩

theorem cacheRedisConfig_of_some {cfg : FullConfig} {rc : RedisConfig} (h : cfg.cacheRedis = some rc)
    (hne : rc.endpoints ≠ []) : cfg.cacheRedisConfig = rc := by
  have hdedicated : cfg.dedicatedCache = some rc := by
    unfold FullConfig.dedicatedCache
    rw [h]
    exact Option.filter_some_pos (decide_eq_true hne)
  unfold FullConfig.cacheRedisConfig
  rw [hdedicated]
  rfl

theorem validateCacheRedis_section {s cfg : FullConfig} (h : validateCacheRedis s = .ok cfg) (hredis : RedisRules s.redis) :
    RedisRules cfg.cacheRedisConfig ∧ timeouts cfg.cacheRedisConfig = timeouts s.cacheRedisConfig ∧
      cfg.redis = s.redis ∧ cfg.cacheEnabled = s.cacheEnabled ∧ cfg.responseCacheRedis = s.responseCacheRedis := by
  unfold validateCacheRedis at h
  cases hdedicated : s.dedicatedCache with
  | none =>
    rw [hdedicated] at h
    obtain rfl := Except.ok.inj h
    have hmain : s.cacheRedisConfig = s.redis := by
      unfold FullConfig.cacheRedisConfig
      rw [hdedicated]
      rfl
    rw [hmain]
    exact ⟨hredis, rfl, rfl, rfl, rfl⟩
  | some rc =>
    rw [hdedicated] at h
    simp only at h
    split at h
    · cases h
    · rename_i hvalid
      obtain rfl := Except.ok.inj h
      have hrules := validateRedisConfig_iff.mp hvalid
      have hsection : s.cacheRedisConfig = rc := by
        unfold FullConfig.cacheRedisConfig
        rw [hdedicated]
        rfl
      rw [cacheRedisConfig_of_some rfl hrules.endpoints, hsection]
      refine ⟨hrules, ?_, rfl, rfl, rfl⟩
      split_ifs <;> rfl

structure SectionsOf (raw cfg : FullConfig) : Prop where
  redis : RedisRules cfg.redis
  cache : RedisRules cfg.cacheRedisConfig
  redisTimeouts : timeouts cfg.redis = timeouts raw.redis
  cacheTimeouts : timeouts cfg.cacheRedisConfig = timeouts raw.cacheRedisConfig
  cacheEnabled : cfg.cacheEnabled = raw.cacheEnabled
  response : cfg.responseCacheRedis = raw.responseCacheRedis

theorem timeouts_normalize (raw : FullConfig) :
    timeouts (normalize raw).cacheRedisConfig = timeouts raw.cacheRedisConfig := by
  have hfilter : (normalize raw).dedicatedCache = raw.dedicatedCache.map RedisConfig.lower := by
    unfold FullConfig.dedicatedCache
    exact Option.filter_map ..
  unfold FullConfig.cacheRedisConfig
  rw [hfilter]
  cases raw.dedicatedCache <;> rfl

theorem sectionsOf_validate {parseURL : GoString → Except GoString ParsedURL} {raw cfg : FullConfig}
    (h : validate parseURL (normalize raw) = .ok cfg) : SectionsOf raw cfg := by
  unfold validate at h
  obtain ⟨s, hbackend, h⟩ := exists_of_bind_eq_ok h
  obtain ⟨-, -, h⟩ := exists_of_bind_eq_ok h
  obtain ⟨-, -, h⟩ := exists_of_bind_eq_ok h
  obtain ⟨-, -, h⟩ := exists_of_bind_eq_ok h
  obtain ⟨rateLimit, -, h⟩ := exists_of_bind_eq_ok h
  obtain ⟨⟨⟩, hvalid, h⟩ := exists_of_bind_eq_ok h
  obtain ⟨cached, hcache, h⟩ := exists_of_bind_eq_ok h
  obtain ⟨-, -, h⟩ := exists_of_bind_eq_ok h
  obtain rfl := Except.ok.inj h
  obtain ⟨hredis, hcacheRedis, henabled, hresponse⟩ := validateBackend_sections hbackend
  have hrules := validateRedisConfig_iff.mp hvalid
  obtain ⟨hcached, htimeouts, hmain, hsame, hsection⟩ := validateCacheRedis_section hcache hrules
  have hbefore : FullConfig.cacheRedisConfig { s with rateLimit := rateLimit } = (normalize raw).cacheRedisConfig := by
    unfold FullConfig.cacheRedisConfig FullConfig.dedicatedCache
    simp only [hredis, hcacheRedis]
  refine ⟨?_, hcached, ?_, ?_, hsame.trans henabled, hsection.trans hresponse⟩
  · rw [hmain]
    exact hrules
  · have hnormalized : timeouts s.redis = timeouts (normalize raw).redis := congrArg timeouts hredis
    rw [hmain]
    exact hnormalized
  · rw [htimeouts, hbefore, timeouts_normalize]

theorem validate_of_load {l : Loader} {file : Option GoString} {raw cfg : FullConfig} (hread : l.read file = .ok raw)
    (hload : l.loadFromPath file = .ok cfg) : validate l.parseURL (normalize raw) = .ok cfg := by
  unfold Loader.loadFromPath at hload
  unfold Loader.read at hread
  obtain ⟨given, hgiven, henv⟩ := exists_of_bind_eq_ok hread
  obtain ⟨given', hgiven', hparse⟩ := exists_of_bind_eq_ok hload
  obtain ⟨parsed, hparsed, hchecked⟩ := exists_of_bind_eq_ok hparse
  obtain rfl := Except.ok.inj (hgiven.symm.trans hgiven')
  obtain rfl := Except.ok.inj (hparsed.symm.trans henv)
  split at hchecked
  · cases hchecked
  · rename_i hvalid
    exact hvalid.trans (congrArg Except.ok (Except.ok.inj hchecked))

theorem SectionsOf.rules_iff {raw cfg : FullConfig} (h : SectionsOf raw cfg) :
    (∀ rc ∈ redisInUse cfg, RedisRules rc) ↔ ∀ rc ∈ responseSection raw, RedisRules rc := by
  unfold redisInUse responseSection
  rw [← h.cacheEnabled, ← h.response]
  simp only [List.forall_mem_cons, h.redis, h.cache, true_and]
  cases cfg.cacheEnabled with
  | false => exact iff_of_true (by rintro rc ⟨⟩) (by rintro rc ⟨⟩)
  | true =>
    simp only [if_true, List.forall_mem_singleton, FullConfig.responseCacheRedisConfig]
    cases cfg.responseCacheRedis.filter fun rc => rc.endpoints ≠ [] with
    | none => exact iff_of_true h.cache (by rintro rc ⟨⟩)
    | some rc => simp

theorem SectionsOf.timed_iff {raw cfg : FullConfig} (h : SectionsOf raw cfg) :
    (∀ rc ∈ redisInUse cfg, Timed rc) ↔ ∀ rc ∈ redisInUse raw, Timed rc := by
  have hresponse : timeouts cfg.responseCacheRedisConfig = timeouts raw.responseCacheRedisConfig := by
    unfold FullConfig.responseCacheRedisConfig
    rw [h.response]
    cases raw.responseCacheRedis.filter fun rc => rc.endpoints ≠ [] with
    | none => exact h.cacheTimeouts
    | some rc => rfl
  unfold redisInUse Timed
  rw [h.cacheEnabled]
  cases raw.cacheEnabled with
  | false => simp [h.redisTimeouts, h.cacheTimeouts]
  | true => simp [h.redisTimeouts, h.cacheTimeouts, hresponse]

/-- **Sections in use.** Every Redis section that the program connects with keeps the rules and makes a client unless
the network fails, exactly if each of their timeouts is left out or a duration and the section of the response cache,
where it is used, keeps the rules as it is spelled in the input. The other sections keep the rules in any case. -/
theorem redis_sections_valid_iff {l : Loader} {file : Option GoString}
    {raw cfg : FullConfig} (hread : l.read file = .ok raw) (hload : l.loadFromPath file = .ok cfg) :
    (RedisRules cfg.redis ∧ RedisRules cfg.cacheRedisConfig) ∧
      ((∀ rc ∈ redisInUse cfg, (∀ section_, validateRedisConfig rc section_ = .ok ()) ∧ Creatable rc) ↔
        (∀ rc ∈ redisInUse raw, Timed rc) ∧ ∀ rc ∈ responseSection raw, RedisRules rc) := by
  have hsections := sectionsOf_validate (validate_of_load hread hload)
  refine ⟨⟨hsections.redis, hsections.cache⟩, ?_⟩
  have hone : ∀ rc, ((∀ section_, validateRedisConfig rc section_ = .ok ()) ∧ Creatable rc) ↔
      Timed rc ∧ RedisRules rc := by
    intro rc
    simp only [validateRedisConfig_iff, forall_const]
    exact (and_congr_right fun hrules => hrules.creatable_iff).trans and_comm
  simp only [hone, forall₂_and, hsections.rules_iff, hsections.timed_iff]

def spelled (main response : RedisMode) : Loader where
  yaml _ cfg := .ok
    { cfg with
      redis := { cfg.redis with mode := main }
      cacheEnabled := true
      responseCacheRedis := some { endpoints := [str "cache:6379"], mode := response } }
  env cfg := .ok { cfg with staticBackendURL := str "http://backend:80" }
  parseURL := Live.plainURL

theorem redis_sections_valid_spelled :
    ∃ cfg, (spelled (.other (str "Single")) .single).loadFromPath (some []) = .ok cfg ∧
      ∀ rc ∈ redisInUse cfg, (∀ section_, validateRedisConfig rc section_ = .ok ()) ∧ Creatable rc := by
  obtain ⟨cfg, hload, -⟩ := exists_of_any (x := (spelled (.other (str "Single")) .single).loadFromPath (some []))
    (P := fun _ => True) (by decide +kernel)
  obtain ⟨raw, hread, htimeouts, hresponse⟩ :=
    exists_of_any (x := (spelled (.other (str "Single")) .single).read (some []))
      (P := fun raw => (∀ rc ∈ redisInUse raw, ∀ s ∈ timeouts rc, s = [] ∨ (Time.parseDuration s).isOk = true) ∧
        responseSection raw = some { endpoints := [str "cache:6379"], mode := .single })
      (by decide +kernel)
  refine ⟨cfg, hload, (redis_sections_valid_iff hread hload).2.mpr ⟨fun rc hrc s hs => ?_, fun rc hrc => ?_⟩⟩
  · refine (htimeouts rc hrc s hs).imp_right fun hok => ?_
    cases hparse : Time.parseDuration s with
    | error e =>
      rw [hparse] at hok
      cases hok
    | ok d => exact ⟨d, rfl⟩
  · rw [hresponse] at hrc
    obtain rfl := Option.some.inj hrc
    have hvalid : validateRedisConfig { endpoints := [str "cache:6379"], mode := .single } "" = .ok () := by
      decide +kernel
    exact validateRedisConfig_iff.mp hvalid

theorem response_cache_mode_unknown :
    ∃ cfg, (spelled (.other (str "Single")) (.other (str "Single"))).loadFromPath (some []) = .ok cfg ∧
      cfg.cacheEnabled = true ∧ validateRedisConfig cfg.redis "redis" = .ok () ∧
      validateRedisConfig cfg.responseCacheRedisConfig "response_cache_redis" ≠ .ok () ∧
      newClient cfg.responseCacheRedisConfig true {} = .error (.unknownMode (str "Single")) := by
  obtain ⟨cfg, hload, henabled, hredis, hresponse⟩ :=
    exists_of_any (x := (spelled (.other (str "Single")) (.other (str "Single"))).loadFromPath (some []))
      (P := fun cfg => cfg.cacheEnabled = true ∧ validateRedisConfig cfg.redis "redis" = .ok () ∧
        cfg.responseCacheRedisConfig = { endpoints := [str "cache:6379"], mode := .other (str "Single") })
      (by decide +kernel)
  refine ⟨cfg, hload, henabled, hredis, ?_⟩
  rw [hresponse]
  exact ⟨by decide +kernel, rfl⟩

end EdgeQuota.Config
