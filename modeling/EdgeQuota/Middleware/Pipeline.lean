import EdgeQuota.Middleware.Decision

/-! The chain carries out what it decides on a request, whatever the request meets: the handler
behind it is called at most once and for a reason, and otherwise the client is refused. The codes of
two kinds of refusal come from services outside, and nothing checks them. -/

namespace EdgeQuota.Middleware
open Go Config RateLimit Auth

def Serving.Untouched (s : Serving) : Prop := s.w.sent = [] ∧ s.w.wroteHeader = false

def ErrorWritten (w : ResponseWriter) : Prop :=
  ∃ code header, w.sent = [(code, header)] ∧ w.wroteHeader = true ∧ ErrorStatus code

def Serving.limited (s : Serving) : Option Result → ResponseWriter
  | some result => (setRateLimitHeaders s result).w
  | none => s.w

def Renders (s₀ : Serving) (calls : List Effect) (w : ResponseWriter) : Decision → Prop
  | .forward result => ∃ r', calls = [.next r' (s₀.limited result)]
  | .refuse why => calls = [] ∧ (ErrorWritten w ↔ ErrorStatus why.code)
  | .ignore => calls = []

def Serves (s s' : Serving) (d : Decision) : Prop :=
  ∃ calls, s'.trace = s.trace ++ calls ∧ Renders s calls s'.w d

section Render
variable {c : Chain} {o : Outcomes} {r : Request} {s : Serving}

theorem Serving.Untouched.setHeader (h : s.Untouched) (key value : GoString) : (s.setHeader key value).Untouched := h

theorem Serving.Untouched.setHeaders (h : s.Untouched) (lines : List (GoString × GoString)) :
    (lines.foldl (fun s l => s.setHeader l.1 l.2) s).Untouched := by
  induction lines generalizing s with
  | nil => exact h
  | cons l lines ih => exact ih (h.setHeader l.1 l.2)

theorem trace_setHeaders (lines : List (GoString × GoString)) :
    (lines.foldl (fun s l => s.setHeader l.1 l.2) s).trace = s.trace := by
  induction lines generalizing s with
  | nil => rfl
  | cons l lines ih => exact ih

theorem errorWritten_write {w : ResponseWriter} (hsent : w.sent = []) (hopen : w.wroteHeader = false) (code : ℤ)
    (b : GoString) (n : ℕ) : ErrorWritten ((w.writeHeader code).write b n) ↔ ErrorStatus code := by
  by_cases hinterim : 100 ≤ code ∧ code ≤ 199 ∧ code ≠ 101
  · -- the status does not end the headers, and the body follows under an implicit 200
    have htwo : ((w.writeHeader code).write b n).sent = [(code, w.header), (200, w.header)] := by
      simp [ResponseWriter.write, ResponseWriter.writeHeader, hopen, hinterim, hsent]
    constructor
    · rintro ⟨code', header, hs, -⟩
      rw [htwo] at hs
      cases hs
    · rintro ⟨hlo, -⟩
      omega
  · have hone : ((w.writeHeader code).write b n).sent = [(code, w.header)] ∧
        ((w.writeHeader code).write b n).wroteHeader = true := by
      simp [ResponseWriter.write, ResponseWriter.writeHeader, hopen, hinterim, hsent]
    constructor
    · rintro ⟨code', header, hs, -, hcode⟩
      rw [hone.1] at hs
      cases hs
      exact hcode
    · exact fun hcode => ⟨code, w.header, hone.1, hone.2, hcode⟩

theorem writeJSONError_serves (h : s.Untouched) (why : Refusal) (errType message : GoString) (retryAfter : ℕ) :
    Serves s (s.writeJSONError why.code errType message retryAfter) (.refuse why) := by
  unfold Serving.writeJSONError
  by_cases hvalid : validStatus why.code = true
  · simp only [hvalid, if_true]
    have hset := h.setHeader (str "Content-Type") (str "application/json")
    exact ⟨[], (List.append_nil _).symm, rfl, errorWritten_write hset.1 hset.2 why.code _ _⟩
  · simp only [hvalid]
    refine ⟨[], (List.append_nil _).symm, rfl, ?_, fun hcode => absurd ?_ hvalid⟩
    · rintro ⟨code, header, hs, -⟩
      cases h.1.symm.trans hs
    · unfold validStatus
      obtain ⟨hlo, hhi⟩ := hcode
      simp only [Bool.and_eq_true, decide_eq_true_eq]
      omega

theorem Serves.of_trace {s₀ s' : Serving} {why : Refusal} (h : Serves s s' (.refuse why))
    (htrace : s.trace = s₀.trace) : Serves s₀ s' (.refuse why) := by
  unfold Serves at h ⊢
  rw [← htrace]
  exact h

theorem next_serves : Serves s (s.next o r) (.forward none) := ⟨[.next r s.w], rfl, r, rfl⟩

theorem serveRateLimited_serves (h : s.Untouched) (result : Result) :
    Serves s (serveRateLimited s o result) (.refuse .rateLimited) :=
  (writeJSONError_serves ((h.setHeader _ _).setHeader _ _) .rateLimited _ _ _).of_trace rfl

theorem serveResult_serves (h : s.Untouched) (result : Result) :
    Serves s (Chain.serveResult o r s result) (if result.allowed then .forward (some result) else .refuse .rateLimited) := by
  unfold Chain.serveResult
  split_ifs
  · exact ⟨[.next r (s.limited (some result))], rfl, r, rfl⟩
  · exact (serveRateLimited_serves (((h.setHeader _ _).setHeader _ _).setHeader _ _) result).of_trace rfl

theorem handleRedisFailurePolicy_serves (h : s.Untouched) (key : GoString) (limits : Option LimitsResponse) :
    Serves s (c.handleRedisFailurePolicy o r s key limits) (c.policyDecision o key limits) := by
  unfold Chain.handleRedisFailurePolicy Chain.policyDecision
  cases hfp : (c.resolveFailurePolicy limits).1 <;> simp only [hfp]
  case passThrough =>
    split_ifs
    · exact serveRateLimited_serves h _
    · exact next_serves
  case failClosed => exact writeJSONError_serves h (.failClosed _) _ _ _
  case inMemoryFallback =>
    split_ifs
    · exact next_serves
    · exact serveRateLimited_serves h _
  all_goals exact ⟨[], (List.append_nil _).symm, rfl⟩

theorem externalLimitsFailClosed_of_open {limits : Option LimitsResponse} (h : ¬∃ l ∈ limits, l.average < 0) :
    c.externalLimitsFailClosed s limits = none := by
  unfold Chain.externalLimitsFailClosed
  cases limits with
  | none => rfl
  | some l => exact if_pos (not_lt.mp fun hl => h ⟨l, rfl, hl⟩)

theorem serveLimited_serves (h : s.Untouched) (key : GoString) :
    Serves s (c.serveLimited o r s key)
      (c.limitDecision o (c.fetchExternalLimits o key).2 (c.fetchExternalLimits o key).1) := by
  unfold Chain.serveLimited Chain.limitDecision
  generalize c.fetchExternalLimits o key = fetched
  obtain ⟨limits, resolvedKey⟩ := fetched
  simp only
  by_cases hclosed : ∃ l ∈ limits, l.average < 0
  · obtain ⟨l, rfl, hl⟩ := hclosed
    have hneg : ∃ l' ∈ some l, l'.average < 0 := ⟨l, rfl, hl⟩
    simp only [Chain.externalLimitsFailClosed, if_neg (not_le.mpr hl), if_pos hneg]
    exact writeJSONError_serves h (.externalClosed _) _ _ _
  · rw [externalLimitsFailClosed_of_open hclosed, if_neg hclosed]
    unfold Chain.tryRedisLimit
    cases hredis : c.redisOutcome o resolvedKey limits with
    | result result => exact serveResult_serves h result
    | unavailable => exact handleRedisFailurePolicy_serves h resolvedKey limits
    | failed e => exact handleRedisFailurePolicy_serves h resolvedKey limits

theorem serveAuthenticated_serves (h : s.Untouched) : Serves s (c.serveAuthenticated o r s) (c.rateDecision o) := by
  unfold Chain.serveAuthenticated Chain.rateDecision
  rw [if_congr Chain.rateLimitingOff_iff rfl rfl]
  split_ifs
  · exact next_serves
  · cases c.lookupKey o with
    | none => exact writeJSONError_serves h .noKey _ _ _
    | some key => exact serveLimited_serves h key

def Serving.Same (s s' : Serving) : Prop := s'.w = s.w ∧ s'.trace = s.trace

theorem Serving.Untouched.of_same {s' : Serving} (h : s.Untouched) (hsame : s.Same s') : s'.Untouched := by
  unfold Serving.Untouched
  rw [hsame.1]
  exact h

theorem Serves.of_same {s₀ s' : Serving} {d : Decision} (h : Serves s s' d) (hsame : s₀.Same s) : Serves s₀ s' d := by
  obtain ⟨calls, htrace, hrenders⟩ := h
  refine ⟨calls, hsame.2 ▸ htrace, ?_⟩
  have hlimited : s.limited = s₀.limited := by
    funext result
    cases result with
    | none => exact hsame.1
    | some result => simp only [Serving.limited, setRateLimitHeaders, Serving.setHeader, hsame.1]
  cases d with
  | forward result =>
    obtain ⟨r', hcalls⟩ := hrenders
    exact ⟨r', hlimited ▸ hcalls⟩
  | refuse why => exact hrenders
  | ignore => exact hrenders

/-- What a part of the chain leaves behind that lets a request on or answers it: the response is
untouched, or the decision is carried out. -/
def Passes (s : Serving) (out : Option Request × Serving) (d : Decision) : Prop :=
  match out.1 with
  | some _ => d.Forwards ∧ s.Same out.2
  | none => ¬d.Forwards ∧ Serves s out.2 d

theorem Passes.of_same {s₀ : Serving} {out : Option Request × Serving} {d : Decision} (h : Passes s out d)
    (hsame : s₀.Same s) : Passes s₀ out d := by
  rcases out with ⟨_ | r', s'⟩
  · exact ⟨h.1, h.2.of_same hsame⟩
  · exact ⟨h.1, h.2.1.trans hsame.1, h.2.2.trans hsame.2⟩

theorem Passes.map {out : Option Request × Serving} {d : Decision} (h : Passes s out d) (f : Request → Request) :
    Passes s (out.1.map f, out.2) d := by
  rcases out with ⟨_ | r', s'⟩ <;> exact h

theorem applyAuthResponse_passes (h : s.Untouched) (resp : CheckResponse) :
    Passes s (c.applyAuthResponse r s resp)
      (if resp.allowed then .forward none
       else .refuse (.authDenied (if resp.statusCode = 0 then 403 else resp.statusCode))) := by
  unfold Chain.applyAuthResponse
  cases resp.allowed with
  | true => exact ⟨⟨none, rfl⟩, rfl, rfl⟩
  | false =>
    refine ⟨nofun, Serves.of_trace ?_ (trace_setHeaders resp.responseHeaders)⟩
    exact writeJSONError_serves (h.setHeaders resp.responseHeaders) (.authDenied _) _ _ _

theorem bufferBody_same : s.Same (c.bufferBody r s).2.2 := by
  unfold Chain.bufferBody
  split_ifs
  · cases r.body <;> exact ⟨rfl, rfl⟩
  · exact ⟨rfl, rfl⟩

theorem checkAuth_passes (h : s.Untouched) (hclient : c.authClient = true) :
    Passes s (c.checkAuth o r s) (c.authDecision o) := by
  unfold Chain.authDecision Chain.checkAuth
  rw [hclient, Bool.not_true, if_neg Bool.false_ne_true]
  -- the check goes on from the state in which the body has been read
  have hsame := bufferBody_same (c := c) (r := r) (s := s)
  generalize c.bufferBody r s = buffered at hsame ⊢
  obtain ⟨bytes, copy, s'⟩ := buffered
  refine Passes.of_same (s := s') ?_ hsame
  replace h := h.of_same hsame
  cases o.cachedAuth with
  | some cached => exact applyAuthResponse_passes h cached
  | none =>
    cases o.authCheck with
    | some resp => exact applyAuthResponse_passes h resp
    | none =>
      simp only [Option.or_none]
      split_ifs
      · exact ⟨⟨none, rfl⟩, rfl, rfl⟩
      · exact ⟨nofun, writeJSONError_serves h .authUnavailable _ _ _⟩

theorem runAuth_passes (h : s.Untouched) : Passes s (c.runAuth o r s) (c.authDecision o) := by
  unfold Chain.runAuth
  split_ifs with hclient
  · exact (checkAuth_passes h hclient).map _
  · unfold Chain.authDecision
    rw [if_pos (by rwa [Bool.not_eq_true', ← Bool.not_eq_true])]
    exact ⟨⟨none, rfl⟩, rfl, rfl⟩

theorem serveAdmitted_serves (h : s.Untouched) :
    Serves s (c.serveAdmitted o r s) ((c.authDecision o).andThen (c.rateDecision o)) := by
  have hauth := runAuth_passes (c := c) (o := o) (r := r) h
  unfold Chain.serveAdmitted
  rcases hrun : c.runAuth o r s with ⟨_ | r', s'⟩
  · rw [hrun] at hauth
    obtain ⟨hne, hserves⟩ := hauth
    rw [Decision.andThen_of_not_forwards hne]
    exact hserves
  · rw [hrun] at hauth
    obtain ⟨⟨result, hforward⟩, hsame⟩ := hauth
    rw [hforward]
    exact (serveAuthenticated_serves (h.of_same hsame)).of_same hsame

end Render

theorem values_injectHeaders (o : Outcomes) (r : Request) {key : GoString}
    (hkey : ∀ h ∈ identityHeaders, canonicalHeaderKey h ≠ canonicalHeaderKey key) :
    (injectHeaders o r).header.values key = r.header.values key := by
  simp only [identityHeaders, List.forall_mem_cons] at hkey
  obtain ⟨h1, h2, h3, h4, -⟩ := hkey
  unfold injectHeaders
  cases o.identity with
  | none => simp [Request.setHeader, identityHeaders, Header.values_set, Header.values_del, h1, h2, h3, h4]
  | some id => simp [Request.setHeader, identityHeaders, Header.values_set, Header.values_del, h1, h2, h3, h4]

theorem values_prepareRequest (o : Outcomes) (r : Request) (w : ResponseWriter) {key : GoString}
    (hkey : ∀ h ∈ requestIDHeader :: identityHeaders, canonicalHeaderKey h ≠ canonicalHeaderKey key) :
    (prepareRequest o r w).1.header.values key = r.header.values key := by
  obtain ⟨hid, hidentity⟩ := List.forall_mem_cons.mp hkey
  show (injectHeaders o (ensureRequestID o r).2).header.values key = _
  rw [values_injectHeaders o _ hidentity, ensureRequestID]
  split_ifs
  · rfl
  · exact (Header.values_set ..).trans (if_neg hid)

theorem isCORSPreflight_prepareRequest (o : Outcomes) (r : Request) (w : ResponseWriter) :
    isCORSPreflight (prepareRequest o r w).1 = isCORSPreflight r := by
  have hmethod : (prepareRequest o r w).1.method = r.method := by
    show (injectHeaders o (ensureRequestID o r).2).method = r.method
    unfold injectHeaders ensureRequestID
    cases o.identity <;> simp only [Request.setHeader] <;> split_ifs <;> rfl
  unfold isCORSPreflight Header.get
  rw [hmethod, values_prepareRequest o r w (by decide +kernel), values_prepareRequest o r w (by decide +kernel)]

theorem bypasses_prepareRequest (c : Chain) (o : Outcomes) (r : Request) (w : ResponseWriter) :
    (c.bypassPreflight && isCORSPreflight (prepareRequest o r w).1) = true ↔ c.Bypassed r := by
  rw [isCORSPreflight_prepareRequest, Bool.and_eq_true]
  exact Iff.rfl

def Effect.isNext : Effect → Bool
  | .next _ _ => true
  | .acquire | .release => false

def Serving.calls (s : Serving) : List Effect := s.trace.filter Effect.isNext

theorem Renders.filter_isNext {s₀ : Serving} {calls : List Effect} {w : ResponseWriter} {d : Decision}
    (h : Renders s₀ calls w d) : calls.filter Effect.isNext = calls := by
  cases d with
  | forward result =>
    obtain ⟨r', rfl⟩ := h
    rfl
  | refuse why =>
    obtain ⟨rfl, -⟩ := h
    rfl
  | ignore =>
    obtain rfl : calls = [] := h
    rfl

def Chain.HoldsSlot (c : Chain) (o : Outcomes) (r : Request) : Prop :=
  c.concurrencySem = true ∧ o.slot = true ∧ ¬c.Bypassed r

instance (c : Chain) (o : Outcomes) (r : Request) : Decidable (c.HoldsSlot o r) :=
  inferInstanceAs (Decidable (_ ∧ _ ∧ _))

theorem serveHTTP_renders (c : Chain) (o : Outcomes) (r : Request) :
    ∃ calls, Renders (prepareRequest o r {}).2 calls (c.serveHTTP o r {}).w (c.decision o r) ∧
      (c.serveHTTP o r {}).trace = if c.HoldsSlot o r then .acquire :: calls ++ [.release] else calls := by
  have huntouched : (prepareRequest o r {}).2.Untouched := ⟨rfl, rfl⟩
  unfold Chain.serveHTTP Chain.decision
  simp only [bypasses_prepareRequest]
  by_cases hb : c.Bypassed r
  · have hslot : ¬c.HoldsSlot o r := fun hslot => hslot.2.2 hb
    simp only [if_pos hb, if_neg hslot]
    exact ⟨[.next _ _], ⟨_, rfl⟩, rfl⟩
  simp only [if_neg hb]
  unfold Chain.acquireConcurrency Chain.releaseConcurrency
  cases hsem : c.concurrencySem with
  | false =>
    have hslot : ¬c.HoldsSlot o r := fun hslot => Bool.false_ne_true (hsem.symm.trans hslot.1)
    obtain ⟨calls, htrace, hrenders⟩ := serveAdmitted_serves (c := c) (o := o) huntouched
    exact ⟨calls, hrenders, htrace.trans (if_neg hslot).symm⟩
  | true =>
    cases hfree : o.slot with
    | false =>
      have hslot : ¬c.HoldsSlot o r := fun hslot => Bool.false_ne_true (hfree.symm.trans hslot.2.1)
      obtain ⟨calls, htrace, hrenders⟩ := writeJSONError_serves huntouched .overloaded (str "overloaded")
        (str "server at capacity") 0
      exact ⟨calls, hrenders, htrace.trans (if_neg hslot).symm⟩
    | true =>
      have hslot : c.HoldsSlot o r := ⟨hsem, hfree, hb⟩
      obtain ⟨calls, htrace, hrenders⟩ := serveAdmitted_serves (c := c) (o := o) (r := (prepareRequest o r {}).1)
        (s := { (prepareRequest o r {}).2 with trace := [.acquire] }) huntouched
      refine ⟨calls, hrenders, Eq.trans ?_ (if_pos hslot).symm⟩
      exact congrArg (· ++ [Effect.release]) htrace

/-- **The decision of the pipeline.** Whatever a request meets, the handler behind the chain is called
at most once, and only for a preflight that is let through or for a request that holds its slot, passed
authentication and passed rate limiting; the slot is given back once, after the handler has returned or
panicked; and closing on a failed lookup keeps the request from the backend. Otherwise exactly one error
is written, if and only if the codes that the services and the configuration supply are errors. -/
theorem pipeline_decision_iff {c : Chain} (hfp : c.staticRL.failurePolicy.valid = true) (o : Outcomes) (r : Request) :
    let s := c.serveHTTP o r {}
    (s.calls.length ≤ 1 ∧
      (s.calls ≠ [] →
        c.Bypassed r ∨ (c.concurrencySem = true → c.HoldsSlot o r) ∧ c.AuthPassed o ∧ c.RatePassed o) ∧
      s.trace = (if c.HoldsSlot o r then .acquire :: s.calls ++ [.release] else s.calls) ∧
      (c.externalRL = true → c.externalFailurePolicy = .failClosed → o.LookupFailed → ¬c.Bypassed r →
        s.calls = [])) ∧
    ((s.calls = [] → ErrorWritten s.w) ↔ c.ErrorCodes o r) := by
  intro s
  obtain ⟨calls, hrenders, htrace⟩ := serveHTTP_renders c o r
  have hcalls : s.calls = calls := by
    show (c.serveHTTP o r {}).trace.filter Effect.isNext = calls
    rw [htrace]
    split_ifs
    · rw [List.cons_append, List.filter_cons_of_neg (by decide), List.filter_append, hrenders.filter_isNext]
      exact List.append_nil _
    · exact hrenders.filter_isNext
  rw [hcalls, ← Chain.decision_errorsOnly]
  unfold Decision.ErrorsOnly
  cases hd : c.decision o r with
  | ignore => exact absurd hd (Chain.decision_ne_ignore hfp o r)
  | refuse why =>
    rw [hd] at hrenders
    obtain ⟨rfl, herror⟩ := hrenders
    refine ⟨⟨Nat.zero_le 1, fun h => absurd rfl h, htrace, fun _ _ _ _ => rfl⟩, fun h why' hwhy => ?_, fun h _ => ?_⟩
    · cases hwhy
      exact herror.mp (h rfl)
    · exact herror.mpr (h why rfl)
  | forward result =>
    rw [hd] at hrenders
    obtain ⟨r', rfl⟩ := hrenders
    have hstages : ¬c.Bypassed r →
        (c.concurrencySem = true → c.HoldsSlot o r) ∧ (c.authDecision o).Forwards ∧ (c.rateDecision o).Forwards := by
      intro hb
      unfold Chain.decision at hd
      rw [if_neg hb] at hd
      split_ifs at hd with hfull
      have hauth : (c.authDecision o).Forwards := by
        by_contra hne
        rw [Decision.andThen_of_not_forwards hne] at hd
        exact hne ⟨result, hd⟩
      have hrate : (c.rateDecision o).Forwards := by
        obtain ⟨_, heq⟩ := hauth
        rw [heq] at hd
        exact ⟨result, hd⟩
      refine ⟨fun hsem => ⟨hsem, ?_, hb⟩, hauth, hrate⟩
      simpa [hsem] using hfull
    refine ⟨⟨le_rfl, fun _ => ?_, htrace, fun hext hclosed hfailed hb => ?_⟩, fun _ _ h => ?_, nofun⟩
    · by_cases hb : c.Bypassed r
      · exact Or.inl hb
      · obtain ⟨hslot, hauth, hrate⟩ := hstages hb
        exact Or.inr ⟨hslot, Chain.authDecision_forwards.mp hauth, Chain.rateDecision_forwards hrate⟩
    · exact absurd (hstages hb).2.2 (Chain.rateDecision_closed hext hclosed hfailed)
    · cases h

def withoutRedis (policy : FailurePolicy) (external : Bool) : Chain where
  concurrencySem := true
  authClient := true
  staticRL :=
    { ratePerSecond := 1, burst := 1, ttl := 2, period := 1000000000, failurePolicy := policy, failureCode := 429,
      average := 1 }
  externalRL := external

def plainRequest : Request := { method := str "GET", url := ⟨str "/", [], []⟩, header := [] }

def allowedByAuth : Outcomes := { authCheck := some { allowed := true }, panics := true }

theorem pipeline_decision_closed :
    (withoutRedis .failClosed false).decision allowedByAuth plainRequest = .refuse (.failClosed 429) ∧
      ErrorWritten ((withoutRedis .failClosed false).serveHTTP allowedByAuth plainRequest {}).w ∧
      ((withoutRedis .passThrough false).serveHTTP allowedByAuth plainRequest {}).trace =
        .acquire :: ((withoutRedis .passThrough false).serveHTTP allowedByAuth plainRequest {}).calls ++ [.release] ∧
      ((withoutRedis .passThrough false).serveHTTP allowedByAuth plainRequest {}).calls.length = 1 := by
  have hclosed := pipeline_decision_iff (c := withoutRedis .failClosed false) rfl allowedByAuth plainRequest
  have hpassed := pipeline_decision_iff (c := withoutRedis .passThrough false) rfl allowedByAuth plainRequest
  refine ⟨by decide +kernel, hclosed.2.mpr (fun _ _ => ⟨?_, fun _ _ _ _ => ⟨?_, fun _ _ _ => ?_⟩⟩) (by decide +kernel),
    ?_, by decide +kernel⟩
  · rintro - _ ⟨⟩ ⟨⟩
  · exact fun _ => Or.inr ⟨by decide, by decide⟩
  · exact ⟨show (400 : ℤ) ≤ 429 by decide, show (429 : ℤ) ≤ 599 by decide⟩
  · exact hpassed.1.2.2.1.trans (if_pos (by decide +kernel))

/-- The external service closes a request with code 99 and nothing is written; authentication denies one
with code 150 and the client receives a 200. -/
theorem pipeline_decision_unanswered :
    let closing : Outcomes :=
      { authCheck := some { allowed := true }
        getLimits := some
          { average := 10, burst := 10, period := str "1s", failurePolicy := .failClosed, failureCode := 99,
            backendURL := str "http://b" } }
    let denying : Outcomes := { authCheck := some { allowed := false, statusCode := 150 } }
    (withoutRedis .passThrough true).staticRL.failurePolicy.valid = true ∧
      ((withoutRedis .passThrough true).serveHTTP closing plainRequest {}).calls = [] ∧
      ((withoutRedis .passThrough true).serveHTTP closing plainRequest {}).w.sent = [] ∧
      ((withoutRedis .passThrough true).serveHTTP closing plainRequest {}).panicked = true ∧
      ((withoutRedis .passThrough true).serveHTTP denying plainRequest {}).calls = [] ∧
      ((withoutRedis .passThrough true).serveHTTP denying plainRequest {}).w.sent.map Prod.fst = [150, 200] := by
  decide +kernel

/-- **Codes of refusals.** Under a configuration that is accepted, a refused request gets exactly one
response and an error, if and only if the service that refused it named no code or an error. -/
theorem refusal_status_iff {rl cfg : RateLimitConfig} (hval : validateRateLimit rl = .ok cfg) {c : Chain}
    (hstatic : c.staticRL = staticParams cfg) {o : Outcomes} {r : Request} {why : Refusal}
    (hd : c.decision o r = .refuse why) : ErrorWritten (c.serveHTTP o r {}).w ↔ c.SuppliesError o why := by
  obtain ⟨calls, hrenders, -⟩ := serveHTTP_renders c o r
  rw [hd] at hrenders
  have hcode : ErrorStatus c.staticRL.failureCode := by
    rw [hstatic]
    exact (Chain.staticParams_of_accepted hval).2
  exact hrenders.2.trans (Chain.decision_refuse hcode hd)

def closingChain : Chain := { withoutRedis .passThrough true with staticRL := staticParams (plainSection 1 1 "1s" true) }

def closedWith (code : ℤ) : Outcomes :=
  { authCheck := some { allowed := true }
    getLimits := some
      { average := 10, burst := 10, period := str "1s", failurePolicy := .failClosed, failureCode := code,
        backendURL := str "http://b" } }

def deniedWith (code : ℤ) : Outcomes := { authCheck := some { allowed := false, statusCode := code } }

theorem refusal_status_error :
    ErrorWritten (closingChain.serveHTTP (closedWith 503) plainRequest {}).w ∧
      ErrorWritten (closingChain.serveHTTP (deniedWith 0) plainRequest {}).w := by
  have hval : validateRateLimit (plainSection 1 1 "1s" true) = .ok (plainSection 1 1 "1s" true) := rfl
  have hclosed : closingChain.decision (closedWith 503) plainRequest = .refuse (.failClosed 503) := by decide +kernel
  have hdenied : closingChain.decision (deniedWith 0) plainRequest = .refuse (.authDenied 403) := by decide +kernel
  refine ⟨(refusal_status_iff hval rfl hclosed).mpr ?_, (refusal_status_iff hval rfl hdenied).mpr ?_⟩
  · rintro - _ ⟨⟩ - - -
    exact ⟨by decide, by decide⟩
  · rintro _ ⟨⟩
    exact Or.inl rfl

/-- Closed with 200 the client is told that all went well, with 1000 the server panics; denied with 99 it
panics, and with 302 the client is sent elsewhere. -/
theorem refusal_status_success :
    validateRateLimit (plainSection 1 1 "1s" true) = .ok (plainSection 1 1 "1s" true) ∧
      closingChain.decision (closedWith 200) plainRequest = .refuse (.failClosed 200) ∧
      (closingChain.serveHTTP (closedWith 200) plainRequest {}).w.sent.map Prod.fst = [200] ∧
      (closingChain.serveHTTP (closedWith 1000) plainRequest {}).w.sent = [] ∧
      (closingChain.serveHTTP (closedWith 1000) plainRequest {}).panicked = true ∧
      (closingChain.serveHTTP (deniedWith 99) plainRequest {}).panicked = true ∧
      (closingChain.serveHTTP (deniedWith 302) plainRequest {}).w.sent.map Prod.fst = [302] := by
  refine ⟨rfl, ?_⟩
  decide +kernel

end EdgeQuota.Middleware
