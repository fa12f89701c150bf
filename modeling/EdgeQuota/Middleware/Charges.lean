import EdgeQuota.Middleware.Body
import EdgeQuota.RateLimit.KeyStrategy

/-! Which bucket in Redis a request is charged to, and at which rate. The key comes from a strategy, from
the external service, or from neither; the rate from the external answer, from the block that stands in
for it, or from the static section. -/

namespace EdgeQuota.Middleware
open Go Config RateLimit Auth

inductive ChainError where
  | keyStrategy (e : ConfigError)
  | fallbackKeyStrategy (e : ConfigError)

structure Built where
  chain : Chain
  keyStrategy : KeyStrategy
  fallbackKeyStrategy : Option KeyStrategy

/-- `NewChain` on the rate-limit section, with Redis in reach; what other sections configure is that of
`base`. -/
def newChain (base : Chain) (cfg : RateLimitConfig) : Except ChainError Built :=
  match newKeyStrategy cfg.static.keyStrategy with
  | .error e => .error (.keyStrategy e)
  | .ok ks =>
    let chain := { base with staticRL := staticParams cfg, limiter := initRedis cfg }
    if cfg.external.enabled then
      match newKeyStrategy cfg.external.fallback.keyStrategy with
      | .error e => .error (.fallbackKeyStrategy e)
      | .ok fbKS =>
        let fb := cfg.external.fallback
        let p := parseBucketParams fb.average fb.burst fb.period []
        .ok ⟨{ chain with externalRL := true, fallbackKeyStrategy := true, externalFallback := ⟨fb.average, p.burst⟩ },
          ks, some fbKS⟩
    else .ok ⟨{ chain with externalRL := false, fallbackKeyStrategy := false }, ks, none⟩

def Built.meets (b : Built) (o : Outcomes) (r : Request) : Outcomes :=
  { o with
    extract := (b.keyStrategy.extract r).toOption
    fallbackExtract := b.fallbackKeyStrategy.bind fun ks => (ks.extract r).toOption }

section External
variable {base : Chain} {cfg : RateLimitConfig} {b : Built}

structure Built.External (b : Built) (base : Chain) (cfg : RateLimitConfig) : Prop where
  externalRL : b.chain.externalRL = true
  limiter : b.chain.limiter = some (redisLimiter cfg)
  fallbackKeyStrategy : b.chain.fallbackKeyStrategy = true
  failurePolicy : b.chain.externalFailurePolicy = base.externalFailurePolicy
  fallback : b.chain.externalFallback = ⟨cfg.external.fallback.average, max cfg.external.fallback.burst 1⟩

theorem newChain_external (hb : newChain base cfg = .ok b) (hext : cfg.external.enabled = true) :
    b.External base cfg := by
  unfold newChain at hb
  split at hb
  · cases hb
  · simp only [hext, if_true] at hb
    split at hb
    · cases hb
    · obtain rfl := Except.ok.inj hb
      exact ⟨rfl, initRedis_external hext, rfl, rfl, rfl⟩

end External

section Charge
variable {c : Chain} {o : Outcomes} {r : Request} {s : Serving}

def Chain.charge (c : Chain) (o : Outcomes) : Option (Call GoString) :=
  if c.RateLimitingOff then none
  else
    match c.lookupKey o with
    | none => none
    | some key =>
      let (limits, resolvedKey) := c.fetchExternalLimits o key
      if ∃ l ∈ limits, l.average < 0 then none
      else
        match c.limiter.filter fun lim => !lim.closed with
        | none => none
        | some lim =>
          let e := effectiveLimits lim (limits.map LimitsResponse.toExternalLimits)
          some ⟨lim.keyPrefix ++ resolvedKey, ⟨e.rate, e.burst, e.ttl, o.moment.now⟩, o.moment.clock⟩

theorem serveAuthenticated_of_charge (hfault : o.moment.fault = none) {call : Call GoString}
    (h : c.charge o = some call) :
    ∃ key, c.lookupKey o = some key ∧
      let limits := (c.fetchExternalLimits o key).1
      c.serveAuthenticated o r s =
        Chain.serveResult o (c.routed o r key limits) s (parseScriptResult (script.step o.db call).1) ∧
      (Middleware.tryRedisLimit c.limiter (c.fetchExternalLimits o key).2 (limits.map LimitsResponse.toExternalLimits)
        o.moment o.db).2 = (script.step o.db call).2 := by
  unfold Chain.charge at h
  split at h
  · cases h
  rename_i hon
  split at h
  · cases h
  rename_i key hkey
  refine ⟨key, hkey, ?_⟩
  have hserve : c.serveAuthenticated o r s = c.serveLimited o r s key := by
    rw [Chain.serveAuthenticated, if_neg (Chain.rateLimitingOff_iff.not.mpr hon), hkey]
  rw [hserve]
  unfold Chain.serveLimited Chain.routed
  -- from here on only the outcome of the lookup matters
  generalize c.fetchExternalLimits o key = fetched at h ⊢
  obtain ⟨limits, resolvedKey⟩ := fetched
  simp only at h ⊢
  split at h
  · cases h
  rename_i hclosed
  split at h
  · cases h
  rename_i lim hlim
  obtain ⟨hlim, hopen⟩ := Option.filter_eq_some_iff.mp hlim
  have htry := tryRedisLimit_eq (Bool.not_eq_true' _ ▸ hopen) resolvedKey
    (limits.map LimitsResponse.toExternalLimits) hfault o.db
  obtain rfl := Option.some.inj h
  rw [externalLimitsFailClosed_of_open hclosed, hlim]
  simp only [Chain.tryRedisLimit, Chain.redisOutcome, hlim, htry, and_self]

theorem charge_external {base : Chain} {cfg : RateLimitConfig} {b : Built} (hb : newChain base cfg = .ok b)
    (hext : cfg.external.enabled = true) {limits : Option LimitsResponse} {key : GoString}
    (hfetch : b.chain.fetchExternalLimits o [] = (limits, key)) (hopen : ∀ l ∈ limits, 0 ≤ l.average) :
    let e := effectiveLimits (redisLimiter cfg) (limits.map LimitsResponse.toExternalLimits)
    b.chain.charge o =
      some ⟨redisPrefix cfg ++ key, ⟨e.rate, e.burst, e.ttl, o.moment.now⟩, o.moment.clock⟩ := by
  have hchain := newChain_external hb hext
  have hclosed : ¬∃ l ∈ limits, l.average < 0 := by simpa using hopen
  simp only [Chain.charge, if_neg (Chain.not_rateLimitingOff hchain.externalRL),
    Chain.lookupKey_external hchain.externalRL, hfetch, if_neg hclosed, hchain.limiter]
  rfl

end Charge

def LimitsResponse.kept (l : LimitsResponse) : Option LimitsResponse := if 0 < l.average then some l else none

theorem fetchExternalLimits_answered {c : Chain} {o : Outcomes} {l : LimitsResponse} (hext : c.externalRL = true)
    (hl : o.getLimits = some l) (hurl : l.backendURL ≠ []) (key : GoString) :
    c.fetchExternalLimits o key =
      (l.kept, if validTenantKey l.tenantKey then str "t:" ++ l.tenantKey else key) := by
  unfold Chain.fetchExternalLimits
  simp only [hext, Bool.not_true, Bool.false_eq_true, if_false, hl, if_neg hurl]
  rfl

def TenantKey (key : GoString) : Prop := ∃ k, validTenantKey k = true ∧ key = str "t:" ++ k

theorem tenantKey_acme : TenantKey (str "t:acme") := ⟨str "acme", by decide +kernel, rfl⟩

theorem not_tenantKey_remoteIP {addr : GoString} (h : Peer addr) : ¬TenantKey (remoteIP addr) := by
  obtain ⟨host, port, hsplit, hparse⟩ := h
  rintro ⟨k, -, hkey⟩
  have hhost : host = byte 't' :: (byte ':' :: k) := by
    rw [remoteIP, hsplit] at hkey
    exact hkey
  rw [hhost, Net.parseAddr_of_not_hex (by decide) (by decide)] at hparse
  cases hparse

def fromPeer : Request := { plainRequest with remoteAddr := str "192.0.2.1:4711" }

theorem peer_fromPeer : Peer fromPeer.remoteAddr :=
  ⟨str "192.0.2.1", str "4711", by decide +kernel, by decide +kernel⟩

theorem requiredHeader_canonical (name : GoString) {v : GoString} (hv : v ≠ []) :
    requiredHeader name [(canonicalHeaderKey name, v)] = .ok v := by
  have hget : Header.get [(canonicalHeaderKey name, v)] name = v := by
    simp [Header.get, Header.values]
  rw [requiredHeader, hget, if_neg hv]

/-- **Keys of tenants.** No client extracts the key of a tenant if and only if the key is its own address,
because no proxy is trusted, or a fixed one that is not the key of a tenant. -/
theorem tenant_keys_disjoint_iff (ks : KeyStrategy) :
    (∀ r : Request, Peer r.remoteAddr → ∀ key, ks.extract r = .ok key → ¬TenantKey key) ↔
      match ks with
      | .clientIP trustedNets _ => trustedNets = []
      | .header _ | .composite _ _ => False
      | .global key => ¬TenantKey key := by
  have hne : str "t:acme" ≠ [] := by decide
  cases ks with
  | clientIP nets depth =>
    constructor
    · intro h
      by_contra hnets
      -- the headers of a trusted peer name any key, whatever the depth
      obtain ⟨addr, hpeer, htrusted⟩ := exists_trusted_peer hnets
      have hforward := forwardedIP_single depth hne (by decide) (by decide +kernel)
      refine h { fromPeer with remoteAddr := addr, header := [(str "X-Forwarded-For", str "t:acme")] } hpeer _ ?_ tenantKey_acme
      simp only [KeyStrategy.extract, clientIP, htrusted, if_true, hforward, Option.getD_some]
    · rintro rfl r hpeer key hkey
      simp only [KeyStrategy.extract, clientIP, isTrusted_nil, Bool.false_eq_true, if_false, Except.ok.injEq] at hkey
      exact hkey ▸ not_tenantKey_remoteIP hpeer
  | header name =>
    refine iff_of_false (fun h => ?_) id
    exact h { fromPeer with header := [(canonicalHeaderKey name, str "t:acme")] } peer_fromPeer _
      (requiredHeader_canonical name hne) tenantKey_acme
  | composite name pathPrefix =>
    refine iff_of_false (fun h => ?_) id
    cases pathPrefix with
    | false =>
      refine h { fromPeer with header := [(canonicalHeaderKey name, str "t:acme")] } peer_fromPeer _ ?_ tenantKey_acme
      simp only [KeyStrategy.extract, requiredHeader_canonical name hne, Bool.false_eq_true, if_false]
    | true =>
      -- the colon that joins header and path completes the prefix
      refine h { fromPeer with header := [(canonicalHeaderKey name, str "t")], url := ⟨str "/acme", [], []⟩ }
        peer_fromPeer _ ?_ tenantKey_acme
      have ht : str "t" ≠ [] := by decide
      simp only [KeyStrategy.extract, requiredHeader_canonical name ht, if_true]
      decide +kernel
  | global key =>
    constructor
    · intro h
      exact h fromPeer peer_fromPeer key rfl
    · rintro h r - _ ⟨⟩
      exact h

def externalSection (fallback : BucketConfig) : RateLimitConfig :=
  { plainSection 0 1 "" true with external := ⟨true, str "http://limits", [], fallback⟩ }

def chargedKeys (fallback : BucketConfig) (o₁ o₂ : Outcomes) (r₁ r₂ : Request) : Option (Option GoString × Option GoString) :=
  (newChain (withoutRedis .passThrough true) (externalSection fallback)).toOption.map fun b =>
    ((b.chain.charge (b.meets o₁ r₁)).map Call.key, (b.chain.charge (b.meets o₂ r₂)).map Call.key)

/-- While the external service fails, a client that sends `X-User: t:acme` draws on the bucket of the tenant
`acme`; so does one that sends `X-User: t` for a path below `/acme`. -/
theorem tenant_bucket_drained :
    let tenant : Outcomes :=
      { getLimits := some { average := 10, burst := 10, period := str "1s", tenantKey := str "acme", backendURL := str "http://b" } }
    let byHeader : Request := { fromPeer with header := [(str "X-User", str "t:acme")] }
    let byPath : Request := { fromPeer with header := [(str "X-User", str "t")], url := ⟨str "/acme/x", [], []⟩ }
    chargedKeys ⟨5, 5, [], { type := .header, headerName := str "x-user" }⟩ tenant {} fromPeer byHeader =
        some (some (str "rl:edgequota:t:acme"), some (str "rl:edgequota:t:acme")) ∧
      chargedKeys ⟨5, 5, [], { type := .composite, headerName := str "x-user", pathPrefix := true }⟩
          tenant {} fromPeer byPath =
        some (some (str "rl:edgequota:t:acme"), some (str "rl:edgequota:t:acme")) := by
  decide +kernel

section Rejected
variable {base : Chain} {cfg : RateLimitConfig} {b : Built}

structure Rejected (o : Outcomes) (l : LimitsResponse) : Prop where
  getLimits : o.getLimits = some l
  backendURL : l.backendURL ≠ []
  average : 0 < l.average
  tenantKey : validTenantKey l.tenantKey = false

theorem charge_rejected (hb : newChain base cfg = .ok b) (hext : cfg.external.enabled = true) {o : Outcomes}
    {l : LimitsResponse} (h : Rejected o l) (r : Request) :
    (b.chain.charge (b.meets o r)).map Call.key = some (redisPrefix cfg) := by
  have hfetch : b.chain.fetchExternalLimits (b.meets o r) [] = (some l, []) := by
    have hl : (b.meets o r).getLimits = some l := h.getLimits
    rw [fetchExternalLimits_answered (newChain_external hb hext).externalRL hl h.backendURL, h.tenantKey,
      LimitsResponse.kept, if_pos h.average]
    rfl
  have hopen : ∀ l' ∈ some l, 0 ≤ l'.average := by
    rintro _ ⟨⟩
    exact h.average.le
  rw [charge_external hb hext hfetch hopen]
  exact congrArg some (List.append_nil _)

/-- **Rejected tenant keys.** In external mode no key is extracted before the service is asked, so that all
requests whose tenant key is rejected share one bucket, that of the empty key, whatever keys the strategy
would extract from them. -/
theorem rejected_tenants_share (hb : newChain base cfg = .ok b) (hext : cfg.external.enabled = true)
    {o₁ o₂ : Outcomes} {l₁ l₂ : LimitsResponse} (h₁ : Rejected o₁ l₁) (h₂ : Rejected o₂ l₂) (r₁ r₂ : Request) :
    (b.chain.charge (b.meets o₁ r₁)).map Call.key = some (redisPrefix cfg) ∧
      (b.chain.charge (b.meets o₂ r₂)).map Call.key = some (redisPrefix cfg) :=
  ⟨charge_rejected hb hext h₁ r₁, charge_rejected hb hext h₂ r₂⟩

end Rejected

def secondPeer : Request := { plainRequest with remoteAddr := str "192.0.2.2:4711" }

def rejecting : Outcomes :=
  { getLimits := some
      { average := 10, burst := 10, period := str "1s", tenantKey := str "acme corp", backendURL := str "http://b" } }

theorem rejected_rejecting : ∃ l, Rejected rejecting l := ⟨_, rfl, by decide, by decide, by decide +kernel⟩

theorem rejected_tenants_share_by_address :
    ∃ b, newChain (withoutRedis .passThrough true) (externalSection ⟨5, 5, [], { type := .clientIP }⟩) = .ok b ∧
      (b.meets rejecting fromPeer).fallbackExtract ≠ (b.meets rejecting secondPeer).fallbackExtract ∧
      (b.chain.charge (b.meets rejecting fromPeer)).map Call.key =
        (b.chain.charge (b.meets rejecting secondPeer)).map Call.key := by
  obtain ⟨l, h⟩ := rejected_rejecting
  have hb : newChain (withoutRedis .passThrough true) (externalSection ⟨5, 5, [], { type := .clientIP }⟩) = .ok _ := rfl
  obtain ⟨h₁, h₂⟩ := rejected_tenants_share hb rfl h h fromPeer secondPeer
  exact ⟨_, hb, by decide +kernel, h₁.trans h₂.symm⟩

theorem rejected_tenant_bucket :
    let fallback : BucketConfig := ⟨5, 5, [], { type := .clientIP }⟩
    chargedKeys fallback {} {} fromPeer secondPeer =
        some (some (str "rl:edgequota:192.0.2.1"), some (str "rl:edgequota:192.0.2.2")) ∧
      chargedKeys fallback rejecting rejecting fromPeer secondPeer =
        some (some (str "rl:edgequota:"), some (str "rl:edgequota:")) := by
  decide +kernel

section Fallback
variable {base : Chain} {cfg : RateLimitConfig} {b : Built} {o : Outcomes} {r : Request}

theorem ratePerSecond_inj {average p q : ℤ} (ha : 0 < average) (hp : 0 < p) (hq : 0 < q) :
    ratePerSecond average p = ratePerSecond average q ↔ p = q := by
  have haq : (average : ℚ) * 1000000000 ≠ 0 := by
    have : (0 : ℚ) < average := by exact_mod_cast ha
    positivity
  have hpq : (p : ℚ) ≠ 0 := by exact_mod_cast hp.ne'
  have hqq : (q : ℚ) ≠ 0 := by exact_mod_cast hq.ne'
  rw [ratePerSecond_eq, ratePerSecond_eq, div_eq_div_iff hpq hqq, mul_right_inj' haq, Int.cast_inj]
  exact eq_comm

/-- **Fallback limits.** A request for which the external service fails is charged at the rate and with the
capacity of the block that stands in for it if and only if the period of the block is one second: the
period is not among the limits that the failed lookup leaves behind. -/
theorem fallback_charge_iff {rl : RateLimitConfig} (hval : validateRateLimit rl = .ok cfg)
    (hb : newChain base cfg = .ok b) (hext : cfg.external.enabled = true)
    (hpolicy : base.externalFailurePolicy ≠ .failClosed) (hfailed : o.LookupFailed) {ks : KeyStrategy}
    (hks : b.fallbackKeyStrategy = some ks) {key : GoString} (hkey : ks.extract r = .ok key) :
    let fb := cfg.external.fallback
    (∃ call, b.chain.charge (b.meets o r) = some call ∧ call.key = redisPrefix cfg ++ key ∧
      call.args.rate = ratePerSecond fb.average (parsePeriod fb.period) / 1000000 ∧ call.args.burst = fb.burst) ↔
      parsePeriod fb.period = 1000000000 := by
  intro fb
  obtain ⟨havg, hburst⟩ : 0 < fb.average ∧ 1 ≤ fb.burst := fallback_of_validateRateLimit hval hext
  have hchain := newChain_external hb hext
  have hextract : (b.meets o r).fallbackExtract = some key := by
    simp only [Built.meets, hks, Option.bind_some, hkey]
    rfl
  have hfetch : b.chain.fetchExternalLimits (b.meets o r) [] =
      (some { average := fb.average, burst := max fb.burst 1, period := [] }, key) := by
    have hfailed : (b.meets o r).LookupFailed := hfailed
    rw [Chain.fetchExternalLimits_failed hchain.externalRL hfailed, Chain.fallbackLimits,
      if_neg (hchain.failurePolicy ▸ hpolicy), if_pos hchain.fallbackKeyStrategy, hextract, hchain.fallback]
  have hcharge := charge_external hb hext hfetch (by
    rintro _ ⟨⟩
    exact havg.le)
  have heff : effectiveLimits (redisLimiter cfg)
      (Option.map LimitsResponse.toExternalLimits (some { average := fb.average, burst := max fb.burst 1, period := [] })) =
      ⟨ratePerSecond fb.average 1000000000 / 1000000, fb.burst, (redisLimiter cfg).ttl⟩ := by
    -- a missing period is read as one second
    have hperiod : parsePeriod [] = 1000000000 := rfl
    refine (effectiveLimits_of_pos (N := .exact) _ havg).trans ?_
    simp only [hperiod, max_eq_left hburst]
    rfl
  have hrate : ratePerSecond fb.average 1000000000 / 1000000 =
      ratePerSecond fb.average (parsePeriod fb.period) / 1000000 ↔ parsePeriod fb.period = 1000000000 := by
    rw [div_left_inj' (by norm_num), ratePerSecond_inj havg (by norm_num) (parsePeriod_pos _)]
    exact eq_comm
  rw [heff] at hcharge
  rw [hcharge, ← hrate]
  constructor
  · rintro ⟨call, hcall, -, hcharged, -⟩
    cases hcall
    exact hcharged
  · intro h
    exact ⟨_, rfl, rfl, h, rfl⟩

end Fallback

theorem fallback_charge_per_second :
    ∃ b call, newChain (withoutRedis .passThrough true) (externalSection ⟨5, 7, str "1s", { type := .clientIP }⟩) = .ok b ∧
      b.chain.charge (b.meets {} fromPeer) = some call ∧ call.key = str "rl:edgequota:192.0.2.1" ∧
      call.args.rate = ratePerSecond 5 (parsePeriod (str "1s")) / 1000000 ∧ call.args.burst = 7 := by
  have hval : validateRateLimit (externalSection ⟨5, 7, str "1s", { type := .clientIP }⟩) = .ok _ := rfl
  have hb : newChain (withoutRedis .passThrough true) (externalSection ⟨5, 7, str "1s", { type := .clientIP }⟩) = .ok _ := rfl
  have hfailed : Outcomes.LookupFailed {} := by rintro _ ⟨⟩
  obtain ⟨call, hcall⟩ := (fallback_charge_iff hval hb rfl (by decide) hfailed rfl rfl).mpr (by decide +kernel)
  exact ⟨_, call, hb, hcall⟩

theorem fallback_charge_per_minute :
    let section_ := externalSection ⟨60, 60, str "1m", { type := .clientIP }⟩
    validateRateLimit section_ = .ok section_ ∧
      (newChain (withoutRedis .passThrough true) section_).toOption.map
          (fun b => (b.chain.charge (b.meets {} fromPeer)).map fun call => (call.key, call.args.rate, call.args.burst)) =
        some (some (str "rl:edgequota:192.0.2.1", 60 / 1000000, 60)) ∧
      ratePerSecond 60 (parsePeriod (str "1m")) / 1000000 = 1 / 1000000 := by
  refine ⟨rfl, ?_, ?_⟩ <;> decide +kernel

def Serving.HandedOn (s : Serving) : Prop := ∃ r w, .next r w ∈ s.trace

section Outage
variable {c : Chain} {o : Outcomes} {r : Request} {s : Serving}

theorem handedOn_serveAuthenticated (h : s.Untouched) (htrace : s.trace = []) :
    (c.serveAuthenticated o r s).HandedOn ↔ (c.rateDecision o).Forwards := by
  obtain ⟨calls, hcalls, hrenders⟩ := serveAuthenticated_serves (c := c) (o := o) (r := r) h
  unfold Serving.HandedOn
  rw [hcalls, htrace, List.nil_append]
  cases hd : c.rateDecision o with
  | forward result =>
    rw [hd] at hrenders
    obtain ⟨r', rfl⟩ := hrenders
    exact iff_of_true ⟨r', _, List.mem_singleton_self _⟩ ⟨result, rfl⟩
  | refuse why =>
    rw [hd] at hrenders
    obtain ⟨rfl, -⟩ := hrenders
    exact iff_of_false (by rintro ⟨_, _, ⟨⟩⟩) nofun
  | ignore =>
    rw [hd] at hrenders
    obtain rfl : calls = [] := hrenders
    exact iff_of_false (by rintro ⟨_, _, ⟨⟩⟩) nofun

def Chain.Outage (c : Chain) (o : Outcomes) : Prop := ∀ lim ∈ c.limiter, lim.closed = true ∨ o.moment.fault ≠ none

theorem redisOutcome_outage (h : c.Outage o) (key : GoString) (limits : Option LimitsResponse) (result : Result) :
    c.redisOutcome o key limits ≠ .result result := by
  unfold Chain.redisOutcome Middleware.tryRedisLimit tryRedisLimitIn
  cases hlim : c.limiter with
  | none => nofun
  | some lim =>
    rcases h lim hlim with hclosed | hfault
    · cases (limits.map LimitsResponse.toExternalLimits).filter (0 < ·.average) <;>
        simp [Limiter.allowIn, Limiter.allowWithOverridesIn, hclosed]
    · obtain ⟨e, he⟩ := Option.ne_none_iff_exists'.mp hfault
      cases (limits.map LimitsResponse.toExternalLimits).filter (0 < ·.average) <;>
        cases hclosed : lim.closed <;>
          simp [Limiter.allowIn, Limiter.allowWithOverridesIn, hclosed, Limiter.evalScriptIn, he, Except.map]

theorem rateDecision_outage (hout : c.Outage o) (hon : ¬c.RateLimitingOff) {key resolvedKey : GoString}
    (hkey : c.lookupKey o = some key) {limits : Option LimitsResponse}
    (hfetch : c.fetchExternalLimits o key = (limits, resolvedKey)) (hopen : ∀ l ∈ limits, 0 ≤ l.average)
    (hpolicy : (c.resolveFailurePolicy limits).1 = .inMemoryFallback) :
    (c.rateDecision o).Forwards ↔ o.fallbackAllow c.staticRL.fallback resolvedKey = true := by
  have hclosed : ¬∃ l ∈ limits, l.average < 0 := by simpa using hopen
  have hpolicyDecision : (c.policyDecision o resolvedKey limits).Forwards ↔
      o.fallbackAllow c.staticRL.fallback resolvedKey = true := by
    rw [Chain.policyDecision, hpolicy]
    exact Decision.forwards_ite
  have hredis := redisOutcome_outage hout resolvedKey limits
  rw [Chain.rateDecision, if_neg hon, hkey]
  simp only [hfetch, Chain.limitDecision, if_neg hclosed]
  cases hr : c.redisOutcome o resolvedKey limits with
  | result result => exact absurd hr (hredis result)
  | unavailable => exact hpolicyDecision
  | failed e => exact hpolicyDecision

def inMemory (e : Limits) : InMemoryLimiter := ⟨e.rate * 1000000, e.burst⟩

theorem inMemory_effectiveLimits {cfg : RateLimitConfig} (hstatic : c.staticRL = staticParams cfg) {lim : Limiter}
    (hlim : initRedis cfg = some lim) (limits : Option LimitsResponse) :
    inMemory (effectiveLimits lim (limits.map LimitsResponse.toExternalLimits)) = c.staticRL.fallback ↔
      ∀ l ∈ limits, 0 < l.average →
        ratePerSecond l.average (parsePeriod l.period) = c.staticRL.ratePerSecond ∧ max l.burst 1 = c.staticRL.burst := by
  obtain rfl := initRedis_eq hlim
  have hscale : ∀ x : ℚ, x / 1000000 * 1000000 = x := fun x => div_mul_cancel₀ x (by norm_num)
  have hsame : inMemory ⟨(redisLimiter cfg).rate, (redisLimiter cfg).burst, (redisLimiter cfg).ttl⟩ = c.staticRL.fallback := by
    rw [hstatic]
    exact congrArg (InMemoryLimiter.mk · _) (hscale _)
  by_cases hpos : ∃ l ∈ limits, 0 < l.average
  · obtain ⟨l, rfl, havg⟩ := hpos
    have hrate : inMemory (effectiveLimits (redisLimiter cfg) (some l.toExternalLimits)) =
        ⟨ratePerSecond l.average (parsePeriod l.period), max l.burst 1⟩ := by
      rw [effectiveLimits, effectiveLimits_of_pos _ havg]
      exact congrArg (InMemoryLimiter.mk · _) (hscale _)
    rw [Option.map_some, hrate]
    simp [havg, StaticParams.fallback]
  · have hnone : ∀ e ∈ limits.map LimitsResponse.toExternalLimits, ¬0 < e.average := by
      intro e he havg
      obtain ⟨l, hl, rfl⟩ := Option.map_eq_some_iff.mp he
      exact hpos ⟨l, hl, havg⟩
    rw [effectiveLimits, effectiveLimits_of_not_pos _ hnone]
    exact iff_of_true hsame fun l hl havg => absurd ⟨l, hl, havg⟩ hpos

/-- **Limits in an outage.** Where the in-memory limiter stands in for Redis, it decides as one with the
rate and the burst that Redis would have been called with, and is not disabled if their rate is positive, if
and only if the limits of the request, where they set a limit, are those of the static section. -/
theorem outage_limits_iff {cfg : RateLimitConfig} (hstatic : c.staticRL = staticParams cfg) {lim : Limiter}
    (hlim : initRedis cfg = some lim) (hout : c.Outage o) (hon : ¬c.RateLimitingOff) {key resolvedKey : GoString}
    (hkey : c.lookupKey o = some key) {limits : Option LimitsResponse}
    (hfetch : c.fetchExternalLimits o key = (limits, resolvedKey)) (hopen : ∀ l ∈ limits, 0 ≤ l.average)
    (hpolicy : (c.resolveFailurePolicy limits).1 = .inMemoryFallback) (r : Request) :
    let e := effectiveLimits lim (limits.map LimitsResponse.toExternalLimits)
    ((∀ allow : InMemoryLimiter → GoString → Bool,
        (c.serveAuthenticated { o with fallbackAllow := allow } r { w := {} }).HandedOn ↔
          allow (inMemory e) resolvedKey = true) ∧
      (0 < e.rate → c.staticRL.fallback.disabled = false)) ↔
      ∀ l ∈ limits, 0 < l.average →
        ratePerSecond l.average (parsePeriod l.period) = c.staticRL.ratePerSecond ∧ max l.burst 1 = c.staticRL.burst := by
  intro e
  have hdecides : ∀ allow : InMemoryLimiter → GoString → Bool,
      (c.serveAuthenticated { o with fallbackAllow := allow } r { w := {} }).HandedOn ↔
        allow c.staticRL.fallback resolvedKey = true := by
    intro allow
    rw [handedOn_serveAuthenticated ⟨rfl, rfl⟩ rfl]
    exact rateDecision_outage (o := { o with fallbackAllow := allow }) hout hon hkey hfetch hopen hpolicy
  rw [← inMemory_effectiveLimits hstatic hlim limits]
  constructor
  · rintro ⟨h, -⟩
    -- only the static limiter lets this request through
    let allow : InMemoryLimiter → GoString → Bool := fun l _ =>
      decide (l.rate = c.staticRL.fallback.rate ∧ l.burst = c.staticRL.fallback.burst)
    have hsame := (h allow).mp ((hdecides allow).mpr (decide_eq_true ⟨rfl, rfl⟩))
    obtain ⟨hrate, hburst⟩ := of_decide_eq_true hsame
    show InMemoryLimiter.mk _ _ = InMemoryLimiter.mk _ _
    exact congrArg₂ InMemoryLimiter.mk hrate hburst
  · intro h
    refine ⟨fun allow => (hdecides allow).trans (by rw [h]), fun hpos => ?_⟩
    rw [← h]
    exact decide_eq_false (not_le.mpr (mul_pos hpos (by norm_num)))

end Outage

def inMemorySection (average burst : ℤ) : RateLimitConfig :=
  { plainSection average burst "1s" true with failurePolicy := .inMemoryFallback }

def inOutage (average burst : ℤ) : Chain :=
  { withoutRedis .inMemoryFallback true with staticRL := staticParams (inMemorySection average burst) }

def limitedTenant (average burst : ℤ) : Outcomes :=
  { getLimits := some
      { average := average, burst := burst, period := str "1s", tenantKey := str "acme", backendURL := str "http://b" } }

theorem outage_limits_same :
    (∀ allow : InMemoryLimiter → GoString → Bool,
      ((inOutage 10 20).serveAuthenticated { limitedTenant 10 20 with fallbackAllow := allow } fromPeer { w := {} }).HandedOn ↔
        allow (inMemory (effectiveLimits (redisLimiter (inMemorySection 10 20)) (some ⟨10, 20, str "1s"⟩))) (str "t:acme") =
          true) ∧
      (0 < (effectiveLimits (redisLimiter (inMemorySection 10 20)) (some ⟨10, 20, str "1s"⟩)).rate →
        (inOutage 10 20).staticRL.fallback.disabled = false) := by
  have hout : (inOutage 10 20).Outage (limitedTenant 10 20) := by rintro _ ⟨⟩
  refine (outage_limits_iff rfl (initRedis_external rfl) hout (by decide) rfl rfl ?_ rfl fromPeer).mpr ?_
  · rintro _ ⟨⟩
    decide
  · rintro _ ⟨⟩ -
    decide +kernel

/-- With no static limit the in-memory limiter is disabled, and a tenant that is limited to one request a
second is not limited at all. -/
theorem outage_unlimited :
    (inOutage 0 1).staticRL.fallback.disabled = true ∧
      ((inOutage 0 1).serveAuthenticated { limitedTenant 1 1 with fallbackAllow := fun l _ => l.disabled }
        fromPeer { w := {} }).calls.length = 1 ∧
      (inMemory (effectiveLimits (redisLimiter (inMemorySection 0 1)) (some ⟨1, 1, str "1s"⟩))).disabled = false := by
  decide +kernel

end EdgeQuota.Middleware
