import EdgeQuota.Middleware.Charges
import EdgeQuota.Middleware.Edge

/-! What becomes of the answer of the external service: the backend, the protocol and the timeout that it
sets for a request, and its limit. All of them hang on one record, which an answer without a limit does
not leave behind. -/

namespace EdgeQuota.Middleware
open Go Config RateLimit Auth Lib

structure Settings where
  backend : Option BackendURL
  protocol : GoString
  timeout : Option ℤ
  deriving DecidableEq

def settings (target : Option BackendURL) (protocol : GoString) (r : Request) : Settings where
  backend := effectiveBackend target r
  protocol := if r.context.backendProtocol = [] then protocol else r.context.backendProtocol
  timeout := r.context.timeout

section Settings
variable {c : Chain} {o : Outcomes} {r : Request} {target : Option BackendURL} {protocol : GoString}

def Chain.deadline (c : Chain) (r : Request) (limits : Option LimitsResponse) : Option ℤ :=
  if isStreamingRequest r ∨ c.resolveTimeout limits ≤ 0 then none else some (c.resolveTimeout limits)

def Chain.requested (c : Chain) (r : Request) (protocol : GoString) (l : LimitsResponse) (u : BackendURL) : Settings where
  backend := some u
  protocol := if l.backendProtocol ∈ [str "h1", str "h2", str "h3"] then l.backendProtocol else protocol
  timeout := c.deadline r (some l)

def Chain.unasked (c : Chain) (r : Request) (target : Option BackendURL) (protocol : GoString) : Settings where
  backend := target
  protocol := protocol
  timeout := c.deadline r none

theorem context_applyRequestTimeout (hctx : r.context = {}) (key : GoString) (limits : Option LimitsResponse) :
    (c.applyRequestTimeout { r with context := { r.context with key := key } } limits).context =
      { key := key, timeout := c.deadline r limits } := by
  have hstream : isStreamingRequest { r with context := { r.context with key := key } } = isStreamingRequest r := rfl
  rw [Chain.applyRequestTimeout, Chain.deadline, hstream, hctx]
  by_cases hs : isStreamingRequest r = true
  · rw [if_pos hs, if_pos (Or.inl hs)]
  · by_cases ht : 0 < c.resolveTimeout limits
    · rw [if_neg hs, if_pos ht, if_neg (not_or.mpr ⟨hs, not_le.mpr ht⟩)]
    · rw [if_neg hs, if_neg ht, if_pos (Or.inr (not_lt.mp ht))]

theorem settings_routed_none (hctx : r.context = {}) (key : GoString) :
    settings target protocol (c.routed o r key none) = c.unasked r target protocol := by
  have htimeout := context_applyRequestTimeout (c := c) hctx key none
  simp only [settings, Chain.routed, injectBackendProtocol, injectBackendURL, effectiveBackend, htimeout]
  rfl

theorem settings_routed_some (hctx : r.context = {}) (key : GoString) {l : LimitsResponse} (hurl : l.backendURL ≠ [])
    {u : BackendURL} (hu : o.parseBackend l.backendURL = some u) :
    settings target protocol (c.routed o r key (some l)) = c.requested r protocol l u := by
  have htimeout := context_applyRequestTimeout (c := c) hctx key (some l)
  simp only [settings, Chain.routed, injectBackendProtocol, injectBackendURL, effectiveBackend, if_neg hurl, hu]
  by_cases hp : l.backendProtocol ∈ [str "h1", str "h2", str "h3"]
  · have hne : l.backendProtocol ≠ [] := by
      rintro h
      rw [h] at hp
      exact absurd hp (by decide)
    simp only [if_pos hp, if_neg hne, htimeout, Chain.requested]
    rfl
  · simp only [if_neg hp, htimeout, Chain.requested]
    rfl

end Settings

structure Obeyed (target : Option BackendURL) (protocol : GoString) (want : Settings) (unlimited : Prop) (s : Serving) :
    Prop where
  settings : ∀ r w, .next r w ∈ s.trace → settings target protocol r = want
  handedOn : unlimited → s.HandedOn

theorem exists_refused (call : Call GoString) (hr : 0 < call.args.rate) :
    ∃ db : Redis GoString, (parseScriptResult (script.step db call).1).allowed = false := by
  -- no token left, and none earned since
  let slot : Slot Hash ℤ := ⟨setFields (fun _ => none) [(.last, call.args.now), (.tokens, 0)], none⟩
  refine ⟨Keyspace.empty.write call.key (some slot), ?_⟩
  have hfind : (Keyspace.empty.write call.key (some slot)).find call.clock call.key = some slot :=
    Keyspace.find_eq_some.mpr ⟨Keyspace.write_self .., rfl⟩
  have havailable : available call.args slot.value = min (call.args.burst : ℚ) 0 := by
    rw [available_eq]
    simp [slot, setFields]
  have hrefused : ¬1 ≤ available call.args slot.value := by
    rw [havailable, not_le]
    exact (min_le_right _ _).trans_lt one_pos
  rw [script_step hr, hmget_of_find_some hfind]
  exact beq_eq_false_iff_ne.mpr fun h => hrefused ((replyOf_allowed _ _).mp h)

theorem obeyed_serveResult {o : Outcomes} {r : Request} {target : Option BackendURL} {protocol : GoString}
    {want : Settings} {unlimited : Prop} (result : Result) :
    Obeyed target protocol want unlimited (Chain.serveResult o r { w := {} } result) ↔
      (result.allowed = true → settings target protocol r = want) ∧ (unlimited → result.allowed = true) := by
  unfold Chain.serveResult
  cases hallowed : result.allowed with
  | true =>
    have hmem : ∀ r' w, .next r' w ∈ ((setRateLimitHeaders { w := {} } result).next o r).trace ↔
        r' = r ∧ w = (setRateLimitHeaders { w := {} } result).w := by
      intro r' w
      simp [Serving.next, setRateLimitHeaders, Serving.setHeader]
    constructor
    · intro h
      exact ⟨fun _ => h.settings r _ ((hmem r _).mpr ⟨rfl, rfl⟩), fun _ => rfl⟩
    · rintro ⟨h, -⟩
      refine ⟨fun r' w hr' => ?_, fun _ => ⟨r, _, (hmem r _).mpr ⟨rfl, rfl⟩⟩⟩
      rw [((hmem r' w).mp hr').1]
      exact h rfl
  | false =>
    have hnone : ∀ r' w, .next r' w ∉ (serveRateLimited (setRateLimitHeaders { w := {} } result) o result).trace := by
      intro r' w hmem
      exact ((handsOn_serveRateLimited (P := fun _ => False) result).next r' w hmem).elim (List.not_mem_nil ·) id
    constructor
    · intro h
      refine ⟨fun h => absurd h Bool.false_ne_true, fun hu => ?_⟩
      obtain ⟨r', w, hmem⟩ := h.handedOn hu
      exact absurd hmem (hnone r' w)
    · rintro ⟨-, h⟩
      exact ⟨fun r' w hmem => absurd hmem (hnone r' w), fun hu => absurd (h hu) Bool.false_ne_true⟩

def answerCall (cfg : RateLimitConfig) (l : LimitsResponse) (m : Moment) : Call GoString :=
  let e := effectiveLimits (redisLimiter cfg) (l.kept.map LimitsResponse.toExternalLimits)
  ⟨redisPrefix cfg ++ if validTenantKey l.tenantKey then str "t:" ++ l.tenantKey else [],
    ⟨e.rate, e.burst, e.ttl, m.now⟩, m.clock⟩

section Answered
variable {base : Chain} {cfg : RateLimitConfig} {b : Built} {o : Outcomes} {l : LimitsResponse} {r : Request}

theorem obeyed_answer_iff (hb : newChain base cfg = .ok b) (hext : cfg.external.enabled = true)
    (hl : o.getLimits = some l) (hurl : l.backendURL ≠ []) (hfault : o.moment.fault = none)
    (target : Option BackendURL) (protocol : GoString) (want : Settings) (unlimited : Prop) :
    Obeyed target protocol want unlimited (b.chain.serveAuthenticated o r { w := {} }) ↔
      let result := parseScriptResult (script.step o.db (answerCall cfg l o.moment)).1
      (result.allowed = true → settings target protocol (b.chain.routed o r [] l.kept) = want) ∧
        (unlimited → result.allowed = true) := by
  have hon := (newChain_external hb hext).externalRL
  have hopen : ∀ l' ∈ l.kept, 0 ≤ l'.average := by
    intro l' hl'
    obtain ⟨havg, hsame⟩ := Option.ite_none_right_eq_some.mp hl'
    exact Option.some.inj hsame ▸ havg.le
  have hfetch := fetchExternalLimits_answered hon hl hurl []
  obtain ⟨_, hkey, hserve, -⟩ :=
    serveAuthenticated_of_charge (r := r) (s := { w := {} }) hfault (charge_external hb hext hfetch hopen)
  obtain rfl : [] = _ := Option.some.inj ((Chain.lookupKey_external hon o).symm.trans hkey)
  rw [hserve, hfetch]
  exact obeyed_serveResult _

theorem answerCall_rate (h : l.average = 0) (m : Moment) :
    0 < (answerCall cfg l m).args.rate ↔ 0 < cfg.static.average := by
  have hkept : l.kept = none := if_neg (by omega)
  have hrate : (answerCall cfg l m).args.rate = (parseRateLimitParams cfg).ratePerSecond / 1000000 := by
    simp only [answerCall, hkept]
    rfl
  rw [hrate, div_pos_iff_of_pos_right (by norm_num), ratePerSecond_parseRateLimitParams]

theorem answerCall_allowed (h : l.average = 0) (hstatic : ¬0 < cfg.static.average) (m : Moment) (db : Redis GoString) :
    (parseScriptResult (script.step db (answerCall cfg l m)).1).allowed = true := by
  have hoff : (answerCall cfg l m).args.rate ≤ 0 := not_lt.mp ((answerCall_rate h m).not.mpr hstatic)
  have hdisabled := rateLimitLua_disabled (answerCall cfg l m).key hoff m.clock db
  exact congrArg (fun reply => (parseScriptResult reply.1).allowed) hdisabled

/-- **External answers.** An answer that names a backend is obeyed whatever Redis holds if and only if it
sets a limit, or sets nothing that is not set without it while no static limit is configured. -/
theorem external_answer_obeyed_iff (hb : newChain base cfg = .ok b) (hext : cfg.external.enabled = true)
    (hl : o.getLimits = some l) (hurl : l.backendURL ≠ []) {u : BackendURL}
    (hu : o.parseBackend l.backendURL = some u) (havg : 0 ≤ l.average) (hctx : r.context = {})
    (target : Option BackendURL) (protocol : GoString) :
    (∀ (m : Moment) (db : Redis GoString), m.fault = none →
      Obeyed target protocol (b.chain.requested r protocol l u) (l.average = 0)
        (b.chain.serveAuthenticated { o with moment := m, db := db } r { w := {} })) ↔
      0 < l.average ∨
        b.chain.requested r protocol l u = b.chain.unasked r target protocol ∧ cfg.static.average ≤ 0 := by
  have hobeyed : ∀ (m : Moment) (db : Redis GoString), m.fault = none → _ := fun m db hfault =>
    obeyed_answer_iff (o := { o with moment := m, db := db }) (r := r) hb hext hl hurl hfault target protocol
      (b.chain.requested r protocol l u) (l.average = 0)
  rcases havg.lt_or_eq with hpos | hzero
  · refine iff_of_true (fun m db hfault => (hobeyed m db hfault).mpr ⟨fun _ => ?_, fun h => ?_⟩) (Or.inl hpos)
    · have hkept : l.kept = some l := if_pos hpos
      rw [hkept]
      exact settings_routed_some hctx [] hurl hu
    · omega
  · have hkept : l.kept = none := if_neg (by omega)
    have hsettings : ∀ o : Outcomes, settings target protocol (b.chain.routed o r [] l.kept) =
        b.chain.unasked r target protocol := by
      intro o
      rw [hkept]
      exact settings_routed_none hctx []
    let m : Moment := ⟨0, 0, none⟩
    by_cases hstatic : 0 < cfg.static.average
    · refine iff_of_false (fun h => ?_) (by omega)
      -- the static limit refuses what the answer does not limit
      obtain ⟨db, hrefused⟩ := exists_refused (answerCall cfg l m) ((answerCall_rate hzero.symm m).mpr hstatic)
      have hallowed := ((hobeyed m db rfl).mp (h m db rfl)).2 hzero.symm
      exact absurd (hallowed.symm.trans hrefused) (by decide)
    · have hallowed := answerCall_allowed hzero.symm hstatic
      constructor
      · intro h
        have hsame := ((hobeyed m Keyspace.empty rfl).mp (h m Keyspace.empty rfl)).1 (hallowed m _)
        exact Or.inr ⟨hsame.symm.trans (hsettings _), not_lt.mp hstatic⟩
      · rintro (hpos | ⟨hsame, -⟩) m db hfault
        · omega
        · exact (hobeyed m db hfault).mpr ⟨fun _ => (hsettings _).trans hsame.symm, fun _ => hallowed m db⟩

end Answered

def routedAnswer (average : ℤ) : Outcomes where
  getLimits := some
    { average := average, burst := 10, period := str "1s", backendURL := str "http://v.example", backendProtocol := str "h2"
      requestTimeout := str "5s" }
  parseBackend := fun _ => some (backendAt "v.example")

theorem external_answer_obeyed_limited :
    ∃ b, newChain (withoutRedis .passThrough true) (plainSection 1 1 "1s" true) = .ok b ∧
      ∀ (m : Moment) (db : Redis GoString), m.fault = none → ∀ r w,
        .next r w ∈ (b.chain.serveAuthenticated { routedAnswer 10 with moment := m, db := db } fromPeer { w := {} }).trace →
        settings (some (backendAt "default:8080")) (str "h1") r = ⟨some (backendAt "v.example"), str "h2", some 5000000000⟩ := by
  have hb : newChain (withoutRedis .passThrough true) (plainSection 1 1 "1s" true) = .ok _ := rfl
  have hobeyed := (external_answer_obeyed_iff (o := routedAnswer 10) (r := fromPeer) hb rfl rfl (by decide) rfl
    (by decide) rfl (some (backendAt "default:8080")) (str "h1")).mpr (Or.inl (by decide))
  refine ⟨_, hb, fun m db hfault r w hmem => ?_⟩
  rw [(hobeyed m db hfault).settings r w hmem]
  decide +kernel

/-- The first request with an answer that sets no limit goes to the default backend, without the protocol
and the timeout of the answer; the second is refused by the static limit. -/
theorem external_answer_dropped :
    (newChain (withoutRedis .passThrough true) (plainSection 1 1 "1s" true)).toOption.map
        (fun b =>
          let first := b.chain.serveAuthenticated (routedAnswer 0) fromPeer { w := {} }
          let db := (b.chain.charge (routedAnswer 0)).elim Keyspace.empty fun call => (script.step Keyspace.empty call).2
          let second := b.chain.serveAuthenticated { routedAnswer 0 with db := db } fromPeer { w := {} }
          (first.calls.map fun
              | .next r _ => some (settings (some (backendAt "default:8080")) (str "h1") r)
              | _ => none,
            second.calls, second.w.sent.map Prod.fst)) =
      some ([some ⟨some (backendAt "default:8080"), str "h1", none⟩], [], [429]) := by
  decide +kernel

end EdgeQuota.Middleware
