import EdgeQuota.Auth.Check
import EdgeQuota.Config.Headers
import EdgeQuota.Go.Json

/-! The client of the authentication service: what it shows the service of a request, and what it makes
of an answer over HTTP. -/

namespace EdgeQuota.Auth
open Go Config

structure AuthConfig where
  headerFilter : HeaderFilterConfig := {}
  propagateRequestBody : Bool := false
  maxAuthBodySize : ℤ := 0

structure Client where
  headerFilter : HeaderFilter
  propagateBody : Bool
  maxBodySize : ℕ
  maxBodySize_pos : 0 < maxBodySize

def defaultMaxAuthBodySize : ℕ := 64 * 1024

/-- Without a list of its own, the filter lets the credentials through that the service is there to check. -/
def newClient (cfg : AuthConfig) : Client where
  headerFilter := newHeaderFilter
    (if cfg.headerFilter.allowList = [] ∧ cfg.headerFilter.denyList = [] then
      { cfg.headerFilter with denyList := defaultAuthDenyHeaders }
     else cfg.headerFilter)
  propagateBody := cfg.propagateRequestBody
  maxBodySize := if cfg.maxAuthBodySize ≤ 0 then defaultMaxAuthBodySize else cfg.maxAuthBodySize.toNat
  maxBodySize_pos := by
    split_ifs
    · decide
    · omega

structure CheckRequest where
  method : GoString
  path : GoString
  headers : StringMap
  remoteAddr : GoString
  body : GoString
  deriving DecidableEq

def Client.buildCheckRequest (c : Client) (r : Request) (body : GoString) : CheckRequest :=
  let headers := c.headerFilter.buildFilteredHeaderMap r.header
  { method := r.method
    path := r.url.path
    headers := if r.host = [] then headers else headers.insert (str "Host") r.host
    remoteAddr := r.remoteAddr
    body := body }

structure WireResponse where
  allowed : Bool := false
  cacheMaxAgeSeconds : Option ℤ := none
  cacheNoStore : Option Bool := none
  cacheTags : Option (List GoString) := none
  denyBody : Option GoString := none
  requestHeaders : Option StringMap := none
  responseHeaders : Option StringMap := none
  statusCode : ℤ := 0

namespace WireResponse
open Json

def fields : List (StructField WireResponse) :=
  [field "allowed" allowed (fun x r => { r with allowed := x }) decodeBool,
   field "cache_max_age_seconds" cacheMaxAgeSeconds (fun x r => { r with cacheMaxAgeSeconds := x })
     (decodePointer 0 (decodeInt 64)),
   field "cache_no_store" cacheNoStore (fun x r => { r with cacheNoStore := x }) (decodePointer false decodeBool),
   field "cache_tags" cacheTags (fun x r => { r with cacheTags := x }) (decodePointer [] decodeStrings),
   field "deny_body" denyBody (fun x r => { r with denyBody := x }) (decodePointer [] decodeString),
   field "request_headers" requestHeaders (fun x r => { r with requestHeaders := x })
     (decodePointer .empty decodeStringMap),
   field "response_headers" responseHeaders (fun x r => { r with responseHeaders := x })
     (decodePointer .empty decodeStringMap),
   field "status_code" statusCode (fun x r => { r with statusCode := x }) (decodeInt 32)]

def unmarshal (data : GoString) : Option WireResponse := Json.unmarshal fields {} data

end WireResponse

def derefStringMap (m : Option StringMap) : List (GoString × GoString) := (m.getD .empty).entries

def checkResponseFromHTTP (r : WireResponse) : CheckResponse where
  allowed := r.allowed
  statusCode := r.statusCode
  denyBody := r.denyBody.getD []
  responseHeaders := derefStringMap r.responseHeaders
  requestHeaders := derefStringMap r.requestHeaders
  cacheMaxAgeSec := r.cacheMaxAgeSeconds
  cacheNoStore := r.cacheNoStore.getD false
  cacheTags := r.cacheTags.getD []

structure Clock where
  now : ℤ := 0
  parseTime : GoString → Option ℤ := fun _ => none

def maxDuration : ℤ := 2 ^ 63 - 1

def parseAuthMaxAge (cc : GoString) : ℤ :=
  let ages := (cc.splitOn (byte ',')).filterMap fun directive =>
    let lower := toLower (trimSpace directive)
    if (str "max-age=").isPrefixOf lower then
      (atoi (trimSpace (lower.drop (str "max-age=").length))).filter fun n => decide (0 < n)
    else none
  ages.headD 0

def resolveHTTPCacheTTL (clock : Clock) (h : Header) (resp : CheckResponse) : CheckResponse :=
  let cc := h.get (str "Cache-Control")
  let secs := parseAuthMaxAge cc
  let lower := toLower cc
  if cc ≠ [] ∧ 0 < secs then { resp with cacheMaxAgeSec := some secs, cacheNoStore := false }
  else if cc ≠ [] ∧ (contains lower (str "no-cache") ∨ contains lower (str "no-store")) then
    { resp with cacheMaxAgeSec := none, cacheNoStore := true }
  else
    let expires := h.get (str "Expires")
    match if expires = [] then none else clock.parseTime expires with
    | none => resp
    | some expTime =>
      let ttl := min (expTime - clock.now) maxDuration
      -- the seconds are truncated
      if 0 < ttl then { resp with cacheMaxAgeSec := some (ttl / 1000000000), cacheNoStore := false }
      else { resp with cacheMaxAgeSec := none, cacheNoStore := true }

structure HTTPResponse where
  statusCode : ℤ
  header : Header := []
  body : GoString := []

def HTTPResponse.location (resp : HTTPResponse) : GoString := resp.header.get (str "Location")

def HTTPResponse.redirects (resp : HTTPResponse) : Bool :=
  [301, 302, 303, 307, 308].contains resp.statusCode && resp.location != []

/-- `http.Client.Do` without a `CheckRedirect`, from an answer on. A redirect is followed as far as its
location is a URL, the request there is answered and requests are left; the answers are those to the
requests that follow, up to one that fails. -/
def followRedirects (parses : GoString → Bool) : ℕ → HTTPResponse → List HTTPResponse → Option HTTPResponse
  | left, resp, answers =>
    if resp.redirects then
      if parses resp.location then
        match left, answers with
        | left + 1, next :: answers => followRedirects parses left next answers
        | _, _ => none
      else none
    else some resp

def checkHTTP (clock : Clock) (resp : HTTPResponse) : CheckResponse :=
  let respBody := resp.body.take 4096
  if resp.statusCode = 200 then
    let result : CheckResponse := { allowed := true, statusCode := 200 }
    let result :=
      match if respBody = [] then none else WireResponse.unmarshal respBody with
      | some parsed =>
        { result with
          requestHeaders := derefStringMap parsed.requestHeaders
          cacheMaxAgeSec := parsed.cacheMaxAgeSeconds
          cacheNoStore := parsed.cacheNoStore.getD false
          cacheTags := parsed.cacheTags.getD [] }
      | none => result
    resolveHTTPCacheTTL clock resp.header result
  else
    let denied : CheckResponse := { allowed := false, statusCode := resp.statusCode, denyBody := respBody }
    match WireResponse.unmarshal respBody with
    | some wireResp =>
      if wireResp.statusCode ≠ 0 then resolveHTTPCacheTTL clock resp.header (checkResponseFromHTTP wireResp) else denied
    | none => denied

/-- `checkHTTP` with the answer of the service and those that redirects lead to: ten requests at most. -/
def askHTTP (clock : Clock) (parses : GoString → Bool) (answer : HTTPResponse) (answers : List HTTPResponse) :
    Option CheckResponse := (followRedirects parses 9 answer answers).map (checkHTTP clock)

theorem followRedirects_eq_some {parses : GoString → Bool} {left : ℕ} {resp : HTTPResponse} {answers : List HTTPResponse}
    (h : resp.redirects = false) : followRedirects parses left resp answers = some resp := by
  unfold followRedirects
  rw [h]
  rfl

theorem resolveHTTPCacheTTL_eq (clock : Clock) (h : Header) (resp : CheckResponse) :
    ∃ age noStore, resolveHTTPCacheTTL clock h resp = { resp with cacheMaxAgeSec := age, cacheNoStore := noStore } := by
  unfold resolveHTTPCacheTTL
  dsimp only
  split
  · exact ⟨_, _, rfl⟩
  split
  · exact ⟨_, _, rfl⟩
  split
  · exact ⟨_, _, rfl⟩
  split
  · exact ⟨_, _, rfl⟩
  · exact ⟨_, _, rfl⟩

def ValidMap (m : StringMap) : Prop := ∀ l ∈ m.entries, ValidUTF8 l.1 ∧ ValidUTF8 l.2

theorem validMap_empty : ValidMap .empty := by rintro l ⟨⟩

structure WireResponse.Valid (r : WireResponse) : Prop where
  cacheTags : ∀ ts ∈ r.cacheTags, ∀ t ∈ ts, ValidUTF8 t
  denyBody : ∀ b ∈ r.denyBody, ValidUTF8 b
  requestHeaders : ∀ m ∈ r.requestHeaders, ValidMap m
  responseHeaders : ∀ m ∈ r.responseHeaders, ValidMap m

namespace WireResponse
open Json

theorem valid_zero : Valid {} := by constructor <;> rintro _ ⟨⟩

theorem valid_unmarshal {data : GoString} {r : WireResponse} (h : unmarshal data = some r) : r.Valid := by
  have hmap : ∀ (v : Value), v.Valid → ∀ (p p' : Option StringMap), (∀ m ∈ p, ValidMap m) →
      decodePointer .empty decodeStringMap v p = some p' → ∀ m ∈ p', ValidMap m :=
    fun v hv p p' hp => decodePointer_induction (I := ValidMap) validMap_empty (fun _ _ => decodeStringMap_valid hv) hp
  refine unmarshal_induction (I := Valid) ?_ valid_zero h
  intro f hf v s s' hv hs hdecode
  simp only [fields, List.mem_cons, List.not_mem_nil, or_false] at hf
  rcases hf with rfl | rfl | rfl | rfl | rfl | rfl | rfl | rfl <;>
    obtain ⟨x, hx, rfl⟩ := Option.map_eq_some_iff.mp hdecode
  · exact ⟨hs.cacheTags, hs.denyBody, hs.requestHeaders, hs.responseHeaders⟩
  · exact ⟨hs.cacheTags, hs.denyBody, hs.requestHeaders, hs.responseHeaders⟩
  · exact ⟨hs.cacheTags, hs.denyBody, hs.requestHeaders, hs.responseHeaders⟩
  · refine ⟨?_, hs.denyBody, hs.requestHeaders, hs.responseHeaders⟩
    exact decodePointer_induction (I := fun ts => ∀ t ∈ ts, ValidUTF8 t) (by rintro t ⟨⟩) (fun _ _ => decodeStrings_valid hv)
      hs.cacheTags hx
  · refine ⟨hs.cacheTags, ?_, hs.requestHeaders, hs.responseHeaders⟩
    exact decodePointer_induction (I := ValidUTF8) validUTF8_nil (fun _ _ => decodeString_valid hv) hs.denyBody hx
  · exact ⟨hs.cacheTags, hs.denyBody, hmap v hv _ _ hs.requestHeaders hx, hs.responseHeaders⟩
  · exact ⟨hs.cacheTags, hs.denyBody, hs.requestHeaders, hmap v hv _ _ hs.responseHeaders hx⟩
  · exact ⟨hs.cacheTags, hs.denyBody, hs.requestHeaders, hs.responseHeaders⟩

end WireResponse

theorem map_toValidUTF8 {o : Option StringMap} (h : ∀ m ∈ o, ValidMap m) :
    (derefStringMap o).map (fun l => (toValidUTF8 l.1, toValidUTF8 l.2)) = derefStringMap o := by
  have hlines : ∀ l ∈ derefStringMap o, (toValidUTF8 l.1, toValidUTF8 l.2) = l := by
    cases o with
    | none => rintro l ⟨⟩
    | some m =>
      intro l hl
      obtain ⟨hname, hvalue⟩ := h m rfl l hl
      exact Prod.ext hname hvalue
  exact (List.map_congr_left hlines).trans (List.map_id _)

theorem marshal_resolveHTTPCacheTTL {resp : CheckResponse} (h : resp.marshal = resp) (clock : Clock) (header : Header) :
    (resolveHTTPCacheTTL clock header resp).marshal = resolveHTTPCacheTTL clock header resp := by
  obtain ⟨age, noStore, heq⟩ := resolveHTTPCacheTTL_eq clock header resp
  rw [heq]
  exact congrArg (fun resp : CheckResponse => { resp with cacheMaxAgeSec := age, cacheNoStore := noStore }) h

theorem map_cacheTags {o : Option (List GoString)} (h : ∀ ts ∈ o, ∀ t ∈ ts, ValidUTF8 t) :
    (o.getD []).map toValidUTF8 = o.getD [] := by
  cases o with
  | none => rfl
  | some ts => exact (List.map_congr_left (h ts rfl)).trans (List.map_id ts)

theorem marshal_checkResponseFromHTTP {r : WireResponse} (h : r.Valid) :
    (checkResponseFromHTTP r).marshal = checkResponseFromHTTP r := by
  have hdeny : toValidUTF8 (r.denyBody.getD []) = r.denyBody.getD [] := by
    cases hb : r.denyBody with
    | none => rfl
    | some b => exact h.denyBody b hb
  simp only [CheckResponse.marshal, checkResponseFromHTTP, map_toValidUTF8 h.requestHeaders,
    map_toValidUTF8 h.responseHeaders, map_cacheTags h.cacheTags, hdeny]

section CheckHTTP
variable {clock : Clock} {resp : HTTPResponse}

theorem checkHTTP_ok (clock : Clock) (h : resp.statusCode = 200) :
    ∃ parsed : WireResponse, parsed.Valid ∧
      checkHTTP clock resp = resolveHTTPCacheTTL clock resp.header
        { checkResponseFromHTTP parsed with allowed := true, statusCode := 200, denyBody := [], responseHeaders := [] } := by
  unfold checkHTTP
  dsimp only
  rw [if_pos h]
  split
  · rename_i parsed hparsed
    split_ifs at hparsed
    exact ⟨parsed, WireResponse.valid_unmarshal hparsed, rfl⟩
  · exact ⟨{}, WireResponse.valid_zero, rfl⟩

def HTTPResponse.Overrides (resp : HTTPResponse) (wireResp : WireResponse) : Prop :=
  WireResponse.unmarshal (resp.body.take 4096) = some wireResp ∧ wireResp.statusCode ≠ 0

def HTTPResponse.Grants (resp : HTTPResponse) : Prop := ∃ wireResp, resp.Overrides wireResp ∧ wireResp.allowed = true

theorem checkHTTP_overridden (h : resp.statusCode ≠ 200) {wireResp : WireResponse} (hwire : resp.Overrides wireResp) :
    checkHTTP clock resp = resolveHTTPCacheTTL clock resp.header (checkResponseFromHTTP wireResp) := by
  unfold checkHTTP
  dsimp only
  rw [if_neg h, hwire.1]
  exact if_pos hwire.2

theorem checkHTTP_denied (h : resp.statusCode ≠ 200) (hwire : ∀ wireResp, ¬resp.Overrides wireResp) :
    checkHTTP clock resp = { allowed := false, statusCode := resp.statusCode, denyBody := resp.body.take 4096 } := by
  unfold checkHTTP
  dsimp only
  rw [if_neg h]
  cases hunmarshal : WireResponse.unmarshal (resp.body.take 4096) with
  | none => rfl
  | some wireResp => exact if_neg fun hcode => hwire wireResp ⟨hunmarshal, hcode⟩

theorem marshal_checkHTTP (h : 0 < (checkHTTP clock resp).resolveCacheTTL) :
    (checkHTTP clock resp).marshal = checkHTTP clock resp := by
  by_cases hok : resp.statusCode = 200
  · obtain ⟨parsed, hvalid, heq⟩ := checkHTTP_ok clock hok
    rw [heq]
    refine marshal_resolveHTTPCacheTTL ?_ clock resp.header
    exact congrArg (fun r : CheckResponse =>
      { r with allowed := true, statusCode := 200, denyBody := [], responseHeaders := [] }) (marshal_checkResponseFromHTTP hvalid)
  by_cases hwire : ∃ wireResp, resp.Overrides wireResp
  · obtain ⟨wireResp, hwire⟩ := hwire
    rw [checkHTTP_overridden hok hwire]
    exact marshal_resolveHTTPCacheTTL (marshal_checkResponseFromHTTP (WireResponse.valid_unmarshal hwire.1)) clock _
  · -- nothing else says that it may be cached
    rw [checkHTTP_denied hok (not_exists.mp hwire)] at h
    exact absurd h (lt_irrefl 0)

end CheckHTTP
end EdgeQuota.Auth
