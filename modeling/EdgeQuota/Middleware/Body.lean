import EdgeQuota.Middleware.Pipeline

/-! The body of a request on its way through the chain. To show it to the authentication service the
check reads it from the connection, and puts what it has read into a copy of the request that nobody
reads afterwards: the handler behind the chain finds the connection where the check left it. -/

namespace EdgeQuota.Middleware
open Go Config RateLimit Auth

structure HandsOn (P : Request → Prop) (s s' : Serving) : Prop where
  conn : s'.conn = s.conn
  next : ∀ r w, .next r w ∈ s'.trace → .next r w ∈ s.trace ∨ P r

section HandsOn
variable {P : Request → Prop} {c : Chain} {o : Outcomes} {r : Request} {s s' s'' : Serving}

theorem HandsOn.trans (h : HandsOn P s s') (h' : HandsOn P s' s'') : HandsOn P s s'' where
  conn := h'.conn.trans h.conn
  next r w hmem := (h'.next r w hmem).elim (h.next r w) Or.inr

theorem handsOn_of_trace (hconn : s'.conn = s.conn) (htrace : s'.trace = s.trace) : HandsOn P s s' :=
  ⟨hconn, fun _ _ hmem => Or.inl (htrace ▸ hmem)⟩

theorem handsOn_setHeader (key value : GoString) : HandsOn P s (s.setHeader key value) := handsOn_of_trace rfl rfl

theorem handsOn_next (h : P r) : HandsOn P s (s.next o r) := by
  refine ⟨rfl, fun r' w hmem => (List.mem_append.mp hmem).imp id fun hnew => ?_⟩
  cases List.mem_singleton.mp hnew
  exact h

theorem handsOn_writeJSONError (code : ℤ) (errType message : GoString) (retryAfter : ℕ) :
    HandsOn P s (s.writeJSONError code errType message retryAfter) := by
  unfold Serving.writeJSONError
  simp only
  split_ifs <;> exact handsOn_of_trace rfl rfl

theorem handsOn_serveRateLimited (result : Result) : HandsOn P s (serveRateLimited s o result) := by
  unfold serveRateLimited
  exact ((handsOn_setHeader _ _).trans (handsOn_setHeader _ _)).trans (handsOn_writeJSONError _ _ _ _)

theorem handsOn_serveResult (h : P r) (result : Result) : HandsOn P s (Chain.serveResult o r s result) := by
  have hheaders : HandsOn P s (setRateLimitHeaders s result) :=
    ((handsOn_setHeader _ _).trans (handsOn_setHeader _ _)).trans (handsOn_setHeader _ _)
  unfold Chain.serveResult
  simp only
  split_ifs
  · exact hheaders.trans (handsOn_next h)
  · exact hheaders.trans (handsOn_serveRateLimited result)

theorem handsOn_handleRedisFailurePolicy (h : P r) (key : GoString) (limits : Option LimitsResponse) :
    HandsOn P s (c.handleRedisFailurePolicy o r s key limits) := by
  unfold Chain.handleRedisFailurePolicy
  cases hfp : (c.resolveFailurePolicy limits).1 <;> simp only [hfp]
  case passThrough =>
    split_ifs
    · exact handsOn_serveRateLimited _
    · exact handsOn_next h
  case failClosed => exact handsOn_writeJSONError _ _ _ _
  case inMemoryFallback =>
    split_ifs
    · exact handsOn_next h
    · exact handsOn_serveRateLimited _
  all_goals exact handsOn_of_trace rfl rfl

def Chain.routed (c : Chain) (o : Outcomes) (r : Request) (key : GoString) (limits : Option LimitsResponse) : Request :=
  injectBackendProtocol
    (injectBackendURL o (c.applyRequestTimeout { r with context := { r.context with key := key } } limits) limits) limits

theorem handsOn_externalLimitsFailClosed {limits : Option LimitsResponse}
    (h : c.externalLimitsFailClosed s limits = some s') : HandsOn P s s' := by
  unfold Chain.externalLimitsFailClosed at h
  cases limits with
  | none => cases h
  | some l =>
    by_cases hopen : 0 ≤ l.average
    · simp only [if_pos hopen] at h
      cases h
    · simp only [if_neg hopen] at h
      obtain rfl := Option.some.inj h
      exact handsOn_writeJSONError _ _ _ _

theorem handsOn_serveLimited {key : GoString} (h : P (c.routed o r key (c.fetchExternalLimits o key).1)) :
    HandsOn P s (c.serveLimited o r s key) := by
  unfold Chain.serveLimited
  unfold Chain.routed at h
  generalize c.fetchExternalLimits o key = fetched at h ⊢
  obtain ⟨limits, resolvedKey⟩ := fetched
  simp only at h ⊢
  cases hclosed : c.externalLimitsFailClosed s limits with
  | some s' => exact handsOn_externalLimitsFailClosed hclosed
  | none =>
    simp only [Chain.tryRedisLimit]
    cases c.redisOutcome o resolvedKey limits with
    | result result => exact handsOn_serveResult h result
    | unavailable => exact handsOn_handleRedisFailurePolicy h resolvedKey limits
    | failed e => exact handsOn_handleRedisFailurePolicy h resolvedKey limits

theorem handsOn_serveAuthenticated (hoff : P r)
    (h : ∀ key ∈ c.lookupKey o, P (c.routed o r key (c.fetchExternalLimits o key).1)) :
    HandsOn P s (c.serveAuthenticated o r s) := by
  unfold Chain.serveAuthenticated
  split_ifs
  · exact handsOn_next hoff
  · cases hkey : c.lookupKey o with
    | none => exact handsOn_writeJSONError _ _ _ _
    | some key => exact handsOn_serveLimited (h key hkey)

def Rerouted (r r' : Request) : Prop := ∃ ctx : Context, ctx.key = r.context.key ∧ r' = { r with context := ctx }

theorem Rerouted.refl (r : Request) : Rerouted r r := ⟨r.context, rfl, rfl⟩

theorem Rerouted.trans {r r' r'' : Request} (h : Rerouted r r') (h' : Rerouted r' r'') : Rerouted r r'' := by
  obtain ⟨ctx, hkey, rfl⟩ := h
  obtain ⟨ctx', hkey', rfl⟩ := h'
  exact ⟨ctx', hkey'.trans hkey, rfl⟩

theorem rerouted_applyRequestTimeout (c : Chain) (r : Request) (limits : Option LimitsResponse) :
    Rerouted r (c.applyRequestTimeout r limits) := by
  unfold Chain.applyRequestTimeout
  split_ifs
  · exact Rerouted.refl r
  · exact ⟨{ r.context with timeout := some (c.resolveTimeout limits) }, rfl, rfl⟩
  · exact Rerouted.refl r

theorem rerouted_injectBackendURL (o : Outcomes) (r : Request) (limits : Option LimitsResponse) :
    Rerouted r (injectBackendURL o r limits) := by
  cases limits with
  | none => exact Rerouted.refl r
  | some l =>
    simp only [injectBackendURL]
    split_ifs
    · exact Rerouted.refl r
    · cases o.parseBackend l.backendURL with
      | none => exact Rerouted.refl r
      | some u => exact ⟨{ r.context with backendURL := some u }, rfl, rfl⟩

theorem rerouted_injectBackendProtocol (r : Request) (limits : Option LimitsResponse) :
    Rerouted r (injectBackendProtocol r limits) := by
  cases limits with
  | none => exact Rerouted.refl r
  | some l =>
    simp only [injectBackendProtocol]
    split_ifs
    · exact ⟨{ r.context with backendProtocol := l.backendProtocol }, rfl, rfl⟩
    · exact Rerouted.refl r

theorem routed_eq (c : Chain) (o : Outcomes) (r : Request) (key : GoString) (limits : Option LimitsResponse) :
    ∃ ctx : Context, ctx.key = key ∧ c.routed o r key limits = { r with context := ctx } := by
  have htimeout := rerouted_applyRequestTimeout c { r with context := { r.context with key := key } } limits
  have hurl := htimeout.trans (rerouted_injectBackendURL o _ limits)
  obtain ⟨ctx, hkey, heq⟩ := hurl.trans (rerouted_injectBackendProtocol _ limits)
  exact ⟨ctx, hkey, heq⟩

theorem body_routed (key : GoString) (limits : Option LimitsResponse) : (c.routed o r key limits).body = r.body := by
  obtain ⟨ctx, -, heq⟩ := routed_eq c o r key limits
  rw [heq]

end HandsOn

section Delivered
variable {c : Chain} {o : Outcomes} {r : Request} {s : Serving}

theorem drop_eq_self_iff {b : GoString} {n : ℕ} (hn : 0 < n) : b.drop n = b ↔ b = [] := by
  refine ⟨fun h => ?_, fun h => h ▸ List.drop_nil⟩
  have hlen := congrArg List.length h
  rw [List.length_drop] at hlen
  exact List.eq_nil_of_length_eq_zero (by omega)

theorem bytes_bufferBody (hpropagate : c.client.propagateBody = true) (harrived : r.Arrived) :
    r.body.bytes (c.bufferBody r s).2.2.conn = (r.body.bytes s.conn).drop c.client.maxBodySize := by
  unfold Chain.bufferBody
  rw [if_pos hpropagate]
  cases hbody : r.body with
  | noBody => exact List.drop_nil.symm
  | connection => exact (s.conn.readAll_bytes c.client.maxBodySize).2
  | buffer b => exact absurd hbody (harrived b)

theorem conn_setHeaders (lines : List (GoString × GoString)) :
    (lines.foldl (fun s l => s.setHeader l.1 l.2) s).conn = s.conn := by
  induction lines generalizing s with
  | nil => rfl
  | cons l lines ih => exact ih

theorem handsOn_applyAuthResponse {P : Request → Prop} (resp : CheckResponse) :
    HandsOn P s (c.applyAuthResponse r s resp).2 := by
  unfold Chain.applyAuthResponse
  cases resp.allowed with
  | true => exact handsOn_of_trace rfl rfl
  | false => exact (handsOn_of_trace (conn_setHeaders _) (trace_setHeaders _)).trans (handsOn_writeJSONError _ _ _ _)

theorem handsOn_checkAuth {P : Request → Prop} : HandsOn P (c.bufferBody r s).2.2 (c.checkAuth o r s).2 := by
  unfold Chain.checkAuth
  simp only
  split
  · exact handsOn_applyAuthResponse _
  · split
    · exact handsOn_applyAuthResponse _
    · split_ifs
      · exact handsOn_of_trace rfl rfl
      · exact handsOn_writeJSONError 503 _ _ 0

theorem handsOn_serveAdmitted (hclient : c.authClient = true) :
    HandsOn (fun r' => r'.body = r.body) (c.bufferBody r s).2.2 (c.serveAdmitted o r s) := by
  have hcheck := handsOn_checkAuth (P := fun r' => r'.body = r.body) (c := c) (o := o) (r := r) (s := s)
  unfold Chain.serveAdmitted Chain.runAuth
  rw [if_pos hclient]
  rcases hrun : c.checkAuth o r s with ⟨_ | copy, s'⟩
  · rw [hrun] at hcheck
    exact hcheck
  · rw [hrun] at hcheck
    refine hcheck.trans (handsOn_serveAuthenticated rfl fun key _ => ?_)
    exact body_routed key _

theorem body_prepareRequest (o : Outcomes) (r : Request) (w : ResponseWriter) :
    (prepareRequest o r w).1.body = r.body := by
  show (injectHeaders o (ensureRequestID o r).2).body = r.body
  unfold injectHeaders ensureRequestID
  cases o.identity <;> simp only [Request.setHeader] <;> split_ifs <;> rfl

theorem handsOn_acquireConcurrency {P : Request → Prop} : HandsOn P s (c.acquireConcurrency o s).2 := by
  unfold Chain.acquireConcurrency
  split_ifs
  · exact handsOn_of_trace rfl rfl
  · exact ⟨rfl, fun r w hmem => Or.inl (by simpa using hmem)⟩
  · exact handsOn_writeJSONError 503 _ _ 0

theorem handsOn_releaseConcurrency {P : Request → Prop} : HandsOn P s (c.releaseConcurrency s) := by
  unfold Chain.releaseConcurrency
  split_ifs
  · exact ⟨rfl, fun r w hmem => Or.inl (by simpa using hmem)⟩
  · exact handsOn_of_trace rfl rfl

/-- **The body behind the check.** With authentication and body propagation on, whatever the request
meets and however its body is cut into pieces, the handler behind the chain reads the bytes that the
client sent if and only if there are none, or the request is a preflight that is not checked. -/
theorem body_delivered_iff (hclient : c.authClient = true) (hpropagate : c.client.propagateBody = true)
    (harrived : r.Arrived) {r' : Request} {w' : ResponseWriter} (hnext : .next r' w' ∈ (c.serveHTTP o r {}).trace) :
    r'.body.bytes (c.serveHTTP o r {}).conn = r.body.bytes o.clientBody ↔
      c.Bypassed r ∨ r.body.bytes o.clientBody = [] := by
  have hbody := body_prepareRequest o r {}
  by_cases hb : c.Bypassed r
  · have hserve : c.serveHTTP o r {} = (prepareRequest o r {}).2.next o (prepareRequest o r {}).1 := 
      if_pos ((bypasses_prepareRequest c o r {}).mpr hb)
    rw [hserve] at hnext ⊢
    cases List.mem_singleton.mp hnext
    exact iff_of_true (congrArg _ hbody) (Or.inl hb)
  · have hslot := handsOn_acquireConcurrency (P := fun _ => False) (c := c) (o := o) (s := (prepareRequest o r {}).2)
    unfold Chain.serveHTTP at hnext ⊢
    simp only [if_neg ((bypasses_prepareRequest c o r {}).not.mpr hb)] at hnext ⊢
    rcases hacquire : c.acquireConcurrency o (prepareRequest o r {}).2 with ⟨_ | _, s⟩
    · simp only [hacquire] at hnext hslot
      cases hslot.next r' w' hnext <;> contradiction
    · simp only [hacquire] at hnext hslot ⊢
      have hserve := (handsOn_serveAdmitted (o := o) (r := (prepareRequest o r {}).1) (s := s) hclient).trans
        (handsOn_releaseConcurrency (c := c))
      have harrived' : Request.Arrived (prepareRequest o r {}).1 := fun b => hbody ▸ harrived b
      have hread := bytes_bufferBody (s := s) hpropagate harrived'
      -- nothing was handed on before the check
      have hbefore : Effect.next r' w' ∉ (c.bufferBody (prepareRequest o r {}).1 s).2.2.trace := by
        rw [bufferBody_same.2]
        exact fun hmem => (hslot.next r' w' hmem).elim (List.not_mem_nil ·) id
      have hbody' : r'.body = r.body := ((hserve.next r' w' hnext).resolve_left hbefore).trans hbody
      rw [hbody] at hread
      rw [hserve.conn, hbody', hread, hslot.conn]
      exact (drop_eq_self_iff c.client.maxBodySize_pos).trans (or_iff_right hb).symm

end Delivered

def showsBody : Chain :=
  { withoutRedis .passThrough false with client := newClient { propagateRequestBody := true, maxAuthBodySize := 1 } }

def sending (pieces : List GoString) : Outcomes := { allowedByAuth with clientBody := { pieces := pieces } }

def post : Request := { plainRequest with method := str "POST", body := .connection }

/-- A preflight with a body, on a chain that lets preflights through. -/
def preflight : Request :=
  { plainRequest with
    method := str "OPTIONS", body := .connection,
    header := [(str "Origin", str "https://a.example"), (str "Access-Control-Request-Method", str "PUT")] }

theorem body_delivered_untouched :
    let served (c : Chain) (pieces : List GoString) (r : Request) := c.serveHTTP (sending pieces) r {}
    let bypassing : Chain := { showsBody with bypassPreflight := true }
    (∃ r' w', (served showsBody [] post).calls = [.next r' w'] ∧ r'.body.bytes (served showsBody [] post).conn = []) ∧
      ∃ r' w', (served bypassing [str "ab"] preflight).calls = [.next r' w'] ∧
        r'.body.bytes (served bypassing [str "ab"] preflight).conn = str "ab" := by
  intro served bypassing
  constructor
  · have hcalls : (served showsBody [] post).calls =
        [.next (showsBody.routed (sending []) (prepareRequest (sending []) post {}).1 [] none)
          (prepareRequest (sending []) post {}).2.w] := by decide +kernel
    have hnext : .next _ _ ∈ (served showsBody [] post).trace :=
      List.mem_of_mem_filter (hcalls ▸ List.mem_singleton_self _)
    exact ⟨_, _, hcalls, (body_delivered_iff rfl rfl (by rintro b ⟨⟩) hnext).mpr (Or.inr rfl)⟩
  · have hcalls : (served bypassing [str "ab"] preflight).calls =
        [.next (prepareRequest (sending [str "ab"]) preflight {}).1
          (prepareRequest (sending [str "ab"]) preflight {}).2.w] := by decide +kernel
    have hnext : .next _ _ ∈ (served bypassing [str "ab"] preflight).trace :=
      List.mem_of_mem_filter (hcalls ▸ List.mem_singleton_self _)
    have hbypassed : bypassing.Bypassed preflight := by decide +kernel
    have hbytes := (body_delivered_iff rfl rfl (by rintro b ⟨⟩) hnext).mpr (Or.inl hbypassed)
    exact ⟨_, _, hcalls, hbytes.trans (by decide +kernel)⟩

theorem body_shortened :
    let bodies pieces := let s := showsBody.serveHTTP (sending pieces) post {}
      s.calls.map fun
        | .next r' _ => r'.body.bytes s.conn
        | _ => []
    bodies [str "ab", str "c"] = [str "bc"] ∧ bodies [str "a"] = [[]] := by
  decide +kernel

end EdgeQuota.Middleware
