import EdgeQuota.Middleware.Body
import EdgeQuota.Proxy.Outgoing

/-! Who a request comes from. The chain removes the identity headers that a client sends and writes
those of the verified certificate; afterwards the authentication service may set headers of its own,
but none of these and none of the others that are denied to it. What the chain and the service have set
goes to the backend through a reverse proxy that the client can still give orders to. -/

namespace EdgeQuota.Middleware
open Go Config RateLimit Auth

structure Certificate where
  raw : GoString
  serialNumber : ℤ
  subject : GoString

structure VerifiedChain where
  leaf : Certificate
  issuers : List Certificate := []

structure ConnectionState where
  peerCertificates : List Certificate := []
  verifiedChains : List VerifiedChain := []

def extractIdentity (sha256 : GoString → GoString) (leaf : Certificate) : Identity :=
  ⟨hexEncode (sha256 leaf.raw), formatInt leaf.serialNumber, leaf.subject⟩

def verifiedIdentity (sha256 : GoString → GoString) : Option ConnectionState → Option Identity
  | none => none
  | some tls => tls.verifiedChains.head?.map fun chain => extractIdentity sha256 chain.leaf

def identityLines : Option Identity → List (GoString × GoString)
  | none => [(str "X-EdgeQuota-MTLS", str "false")]
  | some id =>
    [(str "X-EdgeQuota-MTLS", str "true"), (str "X-EdgeQuota-Client-Fingerprint-SHA256", id.fingerprint),
     (str "X-EdgeQuota-Client-Serial", id.serial), (str "X-EdgeQuota-Client-Subject", id.subject)]

theorem header_injectHeaders (o : Outcomes) (r : Request) :
    (injectHeaders o r).header =
      (identityLines o.identity).foldl (fun h l => h.set l.1 l.2) (identityHeaders.foldl Header.del r.header) := by
  unfold injectHeaders
  cases o.identity <;> rfl

structure Identified (id : Option Identity) (h : Header) : Prop where
  mtls : h.values (str "X-EdgeQuota-MTLS") = [if id.isSome then str "true" else str "false"]
  fingerprint : h.values (str "X-EdgeQuota-Client-Fingerprint-SHA256") = (id.map Identity.fingerprint).toList
  serial : h.values (str "X-EdgeQuota-Client-Serial") = (id.map Identity.serial).toList
  subject : h.values (str "X-EdgeQuota-Client-Subject") = (id.map Identity.subject).toList

theorem Identified.congr {id : Option Identity} {h h' : Header} (hid : Identified id h)
    (hsame : ∀ name ∈ identityHeaders, h'.values name = h.values name) : Identified id h' := by
  simp only [identityHeaders, List.forall_mem_cons] at hsame
  obtain ⟨hmtls, hfingerprint, hserial, hsubject, -⟩ := hsame
  exact ⟨hmtls.trans hid.mtls, hfingerprint.trans hid.fingerprint, hserial.trans hid.serial, hsubject.trans hid.subject⟩

theorem identified_injectHeaders (o : Outcomes) (r : Request) : Identified o.identity (injectHeaders o r).header := by
  have hvalues : ∀ name ∈ identityHeaders,
      (injectHeaders o r).header.values name = (Header.lastValue (identityLines o.identity) name).toList := by
    intro name hname
    rw [header_injectHeaders, Header.values_foldl_set, Header.values_foldl_del, if_pos (List.mem_map_of_mem hname)]
    cases Header.lastValue (identityLines o.identity) name <;> rfl
  simp only [identityHeaders, List.forall_mem_cons] at hvalues
  obtain ⟨hmtls, hfingerprint, hserial, hsubject, -⟩ := hvalues
  refine ⟨hmtls.trans ?_, hfingerprint.trans ?_, hserial.trans ?_, hsubject.trans ?_⟩ <;>
    cases o.identity <;> rfl

namespace Chain
variable (c : Chain)

def injectable (canonical : GoString) : Bool :=
  !decide (canonical ∈ injectionDenyHeaders ∧ canonical ∉ c.allowedInjectionHeaders)

theorem injectRequestHeaders_eq (r : Request) (lines : List (GoString × GoString)) :
    c.injectRequestHeaders r lines =
      { r with
        header := (lines.filter fun l => c.injectable (canonicalHeaderKey l.1)).foldl (fun h l => h.set l.1 l.2) r.header } := by
  unfold injectRequestHeaders
  induction lines generalizing r with
  | nil => rfl
  | cons l lines ih =>
    rw [List.foldl_cons, ih, List.filter_cons]
    unfold injectable
    by_cases hdenied : canonicalHeaderKey l.1 ∈ injectionDenyHeaders ∧ canonicalHeaderKey l.1 ∉ c.allowedInjectionHeaders
    · simp [hdenied]
    · simp only [if_neg hdenied, decide_eq_false hdenied, Bool.not_false, if_true, List.foldl_cons, Request.setHeader]

theorem values_injectRequestHeaders {r : Request} {lines : List (GoString × GoString)} {key : GoString}
    (hkey : c.injectable (canonicalHeaderKey key) = false) :
    (c.injectRequestHeaders r lines).header.values key = r.header.values key := by
  have hnone : Header.lastValue (lines.filter fun l => c.injectable (canonicalHeaderKey l.1)) key = none := by
    unfold Header.lastValue
    rw [Option.map_eq_none_iff, List.find?_eq_none]
    intro l hl
    rw [List.mem_reverse, List.mem_filter] at hl
    intro hsame
    rw [of_decide_eq_true hsame, hkey] at hl
    exact Bool.false_ne_true hl.2
  rw [injectRequestHeaders_eq, Header.values_foldl_set, hnone]
  rfl

def authorized (c : Chain) (o : Outcomes) (r : Request) : Option Request :=
  if c.authClient then
    match o.cachedAuth.or o.authCheck with
    | some resp => if resp.allowed then some (c.injectRequestHeaders r resp.requestHeaders) else none
    | none => if c.authFailurePolicy = .failOpen then some r else none
  else some r

def answered (o : Outcomes) : List (GoString × GoString) :=
  if c.authClient then ((o.cachedAuth.or o.authCheck).map CheckResponse.requestHeaders).getD [] else []

variable {c} {o : Outcomes} {r : Request} {s : Serving}

theorem authorized_eq_some {a : Request} (h : c.authorized o r = some a) :
    a = c.injectRequestHeaders r (c.answered o) := by
  unfold authorized at h
  unfold answered
  by_cases hclient : c.authClient = true
  · rw [if_pos hclient] at h
    rw [if_pos hclient]
    cases hresp : o.cachedAuth.or o.authCheck with
    | some resp =>
      rw [hresp] at h
      exact (Option.some.inj (Option.ite_none_right_eq_some.mp h).2).symm
    | none =>
      rw [hresp] at h
      exact (Option.some.inj (Option.ite_none_right_eq_some.mp h).2).symm
  · rw [if_neg hclient] at h
    rw [if_neg hclient]
    exact (Option.some.inj h).symm

theorem fst_runAuth : (c.runAuth o r s).1 = c.authorized o r := by
  have hbuffer : { r with body := (c.bufferBody r s).2.1.body } = (c.bufferBody r s).2.1 := by
    unfold bufferBody
    split_ifs
    · cases r.body <;> rfl
    · rfl
  have hinject : ∀ resp : CheckResponse,
      ((c.applyAuthResponse (c.bufferBody r s).2.1 (c.bufferBody r s).2.2 resp).1.map fun copy =>
        { r with header := copy.header }) =
      if resp.allowed then some (c.injectRequestHeaders r resp.requestHeaders) else none := by
    intro resp
    unfold applyAuthResponse
    cases resp.allowed with
    | true =>
      rw [← hbuffer]
      simp only [if_true, Option.map_some, injectRequestHeaders_eq]
    | false => rfl
  unfold runAuth authorized checkAuth
  by_cases hclient : c.authClient = true
  · rw [if_pos hclient, if_pos hclient]
    cases o.cachedAuth with
    | some cached => exact hinject cached
    | none =>
      cases o.authCheck with
      | some resp => exact hinject resp
      | none =>
        by_cases hopen : c.authFailurePolicy = .failOpen
        · simp only [Option.or_none, if_pos hopen, Option.map_some]
          rw [← hbuffer]
        · simp only [Option.or_none, if_neg hopen, Option.map_none]
  · rw [if_neg hclient, if_neg hclient]

theorem header_routed (key : GoString) (limits : Option LimitsResponse) : (c.routed o r key limits).header = r.header := by
  obtain ⟨ctx, -, heq⟩ := routed_eq c o r key limits
  rw [heq]

theorem next_serveAdmitted (hs : s.Untouched) {r' : Request} {w : ResponseWriter}
    (h : .next r' w ∈ (c.serveAdmitted o r s).trace) :
    .next r' w ∈ s.trace ∨
      ∃ a s', c.authorized o r = some a ∧ s'.trace = s.trace ∧ .next r' w ∈ (c.serveAuthenticated o a s').trace := by
  have hpasses := runAuth_passes (c := c) (o := o) (r := r) hs
  have hauthorized := fst_runAuth (c := c) (o := o) (r := r) (s := s)
  unfold serveAdmitted at h
  rcases hrun : c.runAuth o r s with ⟨_ | a, s'⟩
  · rw [hrun] at hpasses h
    obtain ⟨hne, calls, htrace, hrenders⟩ := hpasses
    have hcalls : calls = [] := by
      cases hd : c.authDecision o with
      | forward result => exact absurd ⟨result, hd⟩ hne
      | refuse why =>
        rw [hd] at hrenders
        exact hrenders.1
      | ignore =>
        rw [hd] at hrenders
        exact hrenders
    simp only at h
    rw [htrace, hcalls, List.append_nil] at h
    exact Or.inl h
  · rw [hrun] at hpasses h hauthorized
    exact Or.inr ⟨a, s', hauthorized.symm, hpasses.2.2, h⟩

theorem next_serveHTTP {r' : Request} {w : ResponseWriter} (h : .next r' w ∈ (c.serveHTTP o r {}).trace) :
    (c.Bypassed r ∧ r' = (prepareRequest o r {}).1) ∨
      ¬c.Bypassed r ∧ ∃ a s', c.authorized o (prepareRequest o r {}).1 = some a ∧ .next r' w ∉ s'.trace ∧
        .next r' w ∈ (c.serveAuthenticated o a s').trace := by
  have huntouched : (prepareRequest o r {}).2.Untouched := ⟨rfl, rfl⟩
  have hrelease : ∀ s : Serving, .next r' w ∈ (c.releaseConcurrency s).trace → .next r' w ∈ s.trace := by
    intro s hmem
    exact ((handsOn_releaseConcurrency (P := fun _ => False)).next r' w hmem).resolve_right id
  unfold serveHTTP at h
  simp only [bypasses_prepareRequest] at h
  by_cases hb : c.Bypassed r
  · rw [if_pos hb] at h
    cases List.mem_singleton.mp h
    exact Or.inl ⟨hb, rfl⟩
  · rw [if_neg hb] at h
    refine Or.inr ⟨hb, ?_⟩
    have hacquire := handsOn_acquireConcurrency (P := fun _ => False) (c := c) (o := o) (s := (prepareRequest o r {}).2)
    rcases hacq : c.acquireConcurrency o (prepareRequest o r {}).2 with ⟨_ | _, s'⟩
    · rw [hacq] at h hacquire
      cases (hacquire.next r' w h).resolve_right id
    · have hw : s'.w = (prepareRequest o r {}).2.w := by
        unfold acquireConcurrency at hacq
        split_ifs at hacq <;> cases hacq <;> rfl
      have hadmitted : s'.Untouched := by
        unfold Serving.Untouched
        rw [hw]
        exact huntouched
      rw [hacq] at h hacquire
      have hnone : .next r' w ∉ s'.trace := by
        intro hmem
        cases (hacquire.next r' w hmem).resolve_right id
      obtain ⟨a, s'', ha, htrace, hnext⟩ := (next_serveAdmitted hadmitted (hrelease _ h)).resolve_left hnone
      exact ⟨a, s'', ha, htrace ▸ hnone, hnext⟩

theorem header_serveHTTP {r' : Request} {w : ResponseWriter} (h : .next r' w ∈ (c.serveHTTP o r {}).trace) :
    (c.Bypassed r ∧ r' = (prepareRequest o r {}).1) ∨
      ¬c.Bypassed r ∧ ∃ a, c.authorized o (prepareRequest o r {}).1 = some a ∧ r'.header = a.header := by
  refine (next_serveHTTP h).imp_right fun ⟨hb, a, s', ha, hnone, hnext⟩ => ⟨hb, a, ha, ?_⟩
  have hon : HandsOn (fun r' => r'.header = a.header) s' (c.serveAuthenticated o a s') :=
    handsOn_serveAuthenticated rfl fun key _ => header_routed key _
  exact (hon.next r' w hnext).resolve_left hnone

end Chain

/-- Of the request as it was prepared, the identity and every header that is denied to the service and not
allowed again are what they were. -/
structure Protected (c : Chain) (id : Option Identity) (prepared r : Request) : Prop where
  identity : Identified id r.header
  denied : ∀ name ∈ injectionDenyHeaders, name ∉ c.allowedInjectionHeaders →
    r.header.values name = prepared.header.values name

section Protected
variable {c : Chain} {id : Option Identity} {prepared r : Request}

theorem Protected.congr (h : Protected c id prepared r) {r' : Request} (hheader : r'.header = r.header) :
    Protected c id prepared r' := by
  refine ⟨?_, fun name hname hallowed => ?_⟩
  · rw [hheader]
    exact h.identity
  · rw [hheader]
    exact h.denied name hname hallowed

theorem Protected.inject (hallowed : ∀ name ∈ identityHeaders, canonicalHeaderKey name ∉ c.allowedInjectionHeaders)
    (h : Protected c id prepared r) (lines : List (GoString × GoString)) :
    Protected c id prepared (c.injectRequestHeaders r lines) := by
  have hidentity : ∀ name ∈ identityHeaders, canonicalHeaderKey name ∈ injectionDenyHeaders := by decide +kernel
  have hcanonical : ∀ name ∈ injectionDenyHeaders, canonicalHeaderKey name = name := by decide +kernel
  have hdenied : ∀ name, canonicalHeaderKey name ∈ injectionDenyHeaders →
      canonicalHeaderKey name ∉ c.allowedInjectionHeaders →
      (c.injectRequestHeaders r lines).header.values name = r.header.values name := by
    intro name hname hnot
    apply c.values_injectRequestHeaders
    rw [Chain.injectable, decide_eq_true ⟨hname, hnot⟩]
    rfl
  refine ⟨h.identity.congr fun name hname => hdenied name (hidentity name hname) (hallowed name hname), ?_⟩
  intro name hname hnot
  rw [← h.denied name hname hnot]
  exact hdenied name (by rwa [hcanonical name hname]) (by rwa [hcanonical name hname])

end Protected

/-- **Identities are not forged.** Whatever headers a client sends and whatever headers authentication
answers with, in any spelling, the request that rate limiting and the handler behind the chain see carries
the identity of the verified certificate, or none, and what is denied to the service is as it was. -/
theorem identity_not_forged {sha256 : GoString → GoString} {tls : Option ConnectionState} {o : Outcomes}
    (hid : o.identity = verifiedIdentity sha256 tls) {c : Chain}
    (hallowed : ∀ name ∈ identityHeaders, canonicalHeaderKey name ∉ c.allowedInjectionHeaders) (r : Request) :
    let prepared := (prepareRequest o r {}).1
    let Kept := Protected c (verifiedIdentity sha256 tls) prepared
    (∀ resps : List CheckResponse, Kept (resps.foldl (fun r resp => c.injectRequestHeaders r resp.requestHeaders) prepared)) ∧
      (∀ s a, (c.runAuth o prepared s).1 = some a → Kept a) ∧
      ∀ r' w, .next r' w ∈ (c.serveHTTP o r {}).trace → Kept r' := by
  intro prepared Kept
  have hprepared : Kept prepared := by
    refine ⟨?_, fun _ _ _ => rfl⟩
    rw [← hid]
    exact identified_injectHeaders o _
  have hauthorized : ∀ a, c.authorized o prepared = some a → Kept a := by
    intro a ha
    rw [Chain.authorized_eq_some ha]
    exact hprepared.inject hallowed _
  refine ⟨fun resps => ?_, fun s a ha => hauthorized a (Chain.fst_runAuth.symm.trans ha), fun r' w h => ?_⟩
  · have hfold : ∀ r, Kept r → Kept (resps.foldl (fun r resp => c.injectRequestHeaders r resp.requestHeaders) r) := by
      induction resps with
      | nil => exact fun _ hr => hr
      | cons resp resps ih => exact fun r hr => ih _ (hr.inject hallowed _)
    exact hfold prepared hprepared
  · rcases Chain.header_serveHTTP h with ⟨-, rfl⟩ | ⟨-, a, ha, hheader⟩
    · exact hprepared
    · exact (hauthorized a ha).congr hheader

def trusting : Chain := { withoutRedis .passThrough false with allowedInjectionHeaders := [str "X-Real-Ip"] }

def forging : Outcomes :=
  { authCheck := some
      { allowed := true
        requestHeaders :=
          [(str "x-edgequota-mtls", str "true"), (str "X-EDGEQUOTA-CLIENT-SUBJECT", str "CN=root"),
           (str "x-tenant-id", str "acme")] } }

def impostor : Request :=
  { plainRequest with
    header := [(str "X-Edgequota-Mtls", str "true"), (str "X-Edgequota-Client-Serial", str "1")] }

theorem identity_not_forged_unverified :
    (trusting.serveHTTP forging impostor {}).calls.length = 1 ∧
      ∀ r' w, .next r' w ∈ (trusting.serveHTTP forging impostor {}).trace → Identified none r'.header := by
  have hid : forging.identity =
      verifiedIdentity (fun s => s) (some { peerCertificates := [⟨str "der", 1, str "CN=root"⟩] }) := rfl
  refine ⟨by decide +kernel, fun r' w h => ?_⟩
  exact ((identity_not_forged hid (c := trusting) (by decide +kernel) impostor).2.2 r' w h).identity

namespace Chain

def injected (c : Chain) (o : Outcomes) (r : Request) : List (GoString × GoString) :=
  if c.Bypassed r then [] else (c.answered o).filter fun l => c.injectable (canonicalHeaderKey l.1)

/-- The value that a header added by the chain is meant to have: of an identity header that the service may
set, too, the service has the last word. -/
def intended (c : Chain) (o : Outcomes) (r : Request) (name : GoString) : Option GoString :=
  Header.lastValue (identityLines o.identity ++ c.injected o r) name

variable {c : Chain} {o : Outcomes} {r : Request}

theorem values_intended {r' : Request} {w : ResponseWriter} (h : .next r' w ∈ (c.serveHTTP o r {}).trace)
    {name v : GoString} (hv : c.intended o r name = some v) : r'.header.values name = [v] := by
  have hprepared : (prepareRequest o r {}).1.header =
      (identityLines o.identity).foldl (fun h l => h.set l.1 l.2)
        (identityHeaders.foldl Header.del (ensureRequestID o r).2.header) := header_injectHeaders o _
  have hheader : r'.header =
      (c.injected o r).foldl (fun h l => h.set l.1 l.2) (prepareRequest o r {}).1.header := by
    unfold injected
    rcases header_serveHTTP h with ⟨hb, rfl⟩ | ⟨hb, a, ha, hheader⟩
    · rw [if_pos hb]
      rfl
    · rw [hheader, authorized_eq_some ha, injectRequestHeaders_eq, if_neg hb]
  rw [hheader, hprepared, ← List.foldl_append, Header.values_foldl_set]
  unfold intended at hv
  rw [hv]
  rfl

end Chain

/-- **Stripped headers.** A header that the chain adds reaches the backend with the value that it is meant to
have exactly when the request does not have it removed as one of a single connection, as every client can
in `Connection`, and the trace context has no other value for it. -/
theorem added_header_delivered_iff {c : Chain} {o : Outcomes} {r r' : Request} {w : ResponseWriter}
    (h : .next r' w ∈ (c.serveHTTP o r {}).trace) {route : Proxy.Route} {sent : Proxy.Sent}
    (hsent : Proxy.toBackend route r' = some sent) {name v : GoString}
    (hname : ∀ p ∈ Proxy.proxyHeaders, canonicalHeaderKey p ≠ canonicalHeaderKey name)
    (hempty : v = [] → ∀ p ∈ Proxy.forwardingHeaders, canonicalHeaderKey p ≠ canonicalHeaderKey name)
    (hv : c.intended o r name = some v) :
    sent.request.header.values name = [v] ↔
      (Proxy.HopByHop r'.header name ∧ canonicalHeaderKey (str "User-Agent") = canonicalHeaderKey name ∧ v = []) ∨
      (¬Proxy.HopByHop r'.header name ∧ ∀ v' ∈ Header.lastValue route.trace.lines name, v' = v) :=
  Proxy.values_toBackend hsent hname hempty (Chain.values_intended h hv)

def sentValues (c : Chain) (o : Outcomes) (route : Proxy.Route) (r : Request) (name : GoString) : List (List GoString) :=
  (c.serveHTTP o r {}).trace.filterMap fun
    | .next r' _ => (Proxy.toBackend route r').map fun sent => sent.request.header.values name
    | _ => none

theorem mem_sentValues {c : Chain} {o : Outcomes} {route : Proxy.Route} {r : Request} {name : GoString}
    {values : List GoString} (h : values ∈ sentValues c o route r name) :
    ∃ r' w sent, .next r' w ∈ (c.serveHTTP o r {}).trace ∧ Proxy.toBackend route r' = some sent ∧
      sent.request.header.values name = values := by
  obtain ⟨e, he, hvalues⟩ := List.mem_filterMap.mp h
  cases e with
  | next r' w =>
    obtain ⟨sent, hsent, heq⟩ := Option.map_eq_some_iff.mp hvalues
    exact ⟨r', w, sent, he, hsent, heq⟩
  | _ => cases hvalues

def plainRoute : Proxy.Route := { target := some ⟨str "http", str "backend:80", []⟩ }

theorem added_header_delivered_plain :
    ∃ r' w sent, .next r' w ∈ (trusting.serveHTTP forging impostor {}).trace ∧
      Proxy.toBackend plainRoute r' = some sent ∧ sent.request.header.values (str "X-EdgeQuota-MTLS") = [str "false"] ∧
      ¬Proxy.HopByHop r'.header (str "X-EdgeQuota-MTLS") := by
  have hmem : [str "false"] ∈ sentValues trusting forging plainRoute impostor (str "X-EdgeQuota-MTLS") := by
    decide +kernel
  obtain ⟨r', w, sent, h, hsent, hvalues⟩ := mem_sentValues hmem
  have hdelivered := (added_header_delivered_iff h hsent (v := str "false")
    (by decide +kernel) (by decide +kernel) (by decide +kernel)).mp hvalues
  refine ⟨r', w, sent, h, hsent, hvalues, ?_⟩
  rcases hdelivered with ⟨-, hagent, -⟩ | ⟨hop, -⟩
  · exact absurd hagent (by decide +kernel)
  · exact hop

def stripping : Request :=
  { impostor with header := (str "Connection", str "x-edgequota-mtls, X-Tenant-Id") :: impostor.header }

theorem added_header_stripped :
    trusting.intended forging stripping (str "X-EdgeQuota-MTLS") = some (str "false") ∧
      sentValues trusting forging plainRoute stripping (str "X-EdgeQuota-MTLS") = [[]] ∧
      trusting.intended forging stripping (str "X-Tenant-Id") = some (str "acme") ∧
      sentValues trusting forging plainRoute stripping (str "X-Tenant-Id") = [[]] := by
  decide +kernel

end EdgeQuota.Middleware
