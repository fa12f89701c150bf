import EdgeQuota.Auth.Client
import EdgeQuota.Middleware.RedisLimit
import EdgeQuota.Proxy.ResponseCache
import EdgeQuota.RateLimit.Fallback

/-! The chain that every request passes: authentication, rate limiting, and the handler behind it.
What the request meets on the way is given with it; the chain itself answers, hands on, and holds
a slot of the concurrency limit meanwhile. -/

namespace EdgeQuota.Middleware
open Go Config RateLimit Auth

inductive AuthFailurePolicy where
  | unset
  | failClosed
  | failOpen
  | other (text : GoString)
  deriving DecidableEq

inductive ExternalRLFailurePolicy where
  | unset
  | staticFallback
  | failClosed
  | other (text : GoString)
  deriving DecidableEq

structure StaticParams extends RateLimitParams where
  average : ℤ

def StaticParams.fallback (p : StaticParams) : InMemoryLimiter := ⟨p.ratePerSecond, p.burst⟩

def staticParams (cfg : RateLimitConfig) : StaticParams :=
  { parseRateLimitParams cfg with average := cfg.static.average }

structure FallbackParams where
  average : ℤ
  burst : ℤ

/-- The snapshots that one request reads; a Boolean tells whether a part is installed. -/
structure Chain where
  bypassPreflight : Bool := false
  concurrencySem : Bool := false
  authClient : Bool := false
  authFailurePolicy : AuthFailurePolicy := .unset
  client : Client := newClient {}
  allowedInjectionHeaders : List GoString := []
  staticRL : StaticParams
  externalRL : Bool := false
  externalFailurePolicy : ExternalRLFailurePolicy := .unset
  fallbackKeyStrategy : Bool := false
  externalFallback : FallbackParams := ⟨0, 1⟩
  limiter : Option Limiter := none
  globalBackstop : Bool := false
  requestTimeout : ℤ := 0

structure LimitsResponse extends ExternalLimits where
  tenantKey : GoString := []
  failurePolicy : FailurePolicy := .unset
  failureCode : ℤ := 0
  backendURL : GoString := []
  backendProtocol : GoString := []
  requestTimeout : GoString := []

structure Identity where
  fingerprint : GoString
  serial : GoString
  subject : GoString

/-- What a request meets: each field is the outcome of one call, if the chain comes to make it. -/
structure Outcomes where
  clientBody : BodyReader := {}
  generatedID : GoString := []
  identity : Option Identity := none
  slot : Bool := true
  cachedAuth : Option CheckResponse := none
  authCheck : Option CheckResponse := none
  extract : Option GoString := some []
  getLimits : Option LimitsResponse := none
  fallbackExtract : Option GoString := none
  parseBackend : GoString → Option BackendURL := fun _ => none
  moment : Moment := ⟨0, 0, none⟩
  db : Redis GoString := Lib.Keyspace.empty
  fallbackAllow : InMemoryLimiter → GoString → Bool := fun _ _ => true
  backstopAllow : Bool := true
  random : ℚ := 0
  panics : Bool := false

inductive Effect where
  | acquire
  | release
  | next (r : Request) (w : ResponseWriter)
  deriving DecidableEq

/-- The writer of the client, what is still to be read of its body, what has been done besides writing,
and whether a panic is under way. -/
structure Serving where
  w : ResponseWriter
  conn : BodyReader := {}
  trace : List Effect := []
  panicked : Bool := false
  deriving DecidableEq

def requestIDHeader : GoString := str "X-Request-Id"

def marshalError (errType message : GoString) (retryAfter : ℕ) (requestID : GoString) : GoString :=
  str "\x7b\"error\":" ++ jsonString errType ++ str ",\"message\":" ++ jsonString message ++
    (if retryAfter = 0 then [] else str ",\"retry_after\":" ++ itoa retryAfter) ++
    (if requestID = [] then [] else str ",\"request_id\":" ++ jsonString requestID) ++ str "\x7d"

namespace Serving

def setHeader (s : Serving) (key value : GoString) : Serving :=
  { s with w := { s.w with header := s.w.header.set key value } }

def writeJSONError (s : Serving) (code : ℤ) (errType message : GoString) (retryAfter : ℕ) : Serving :=
  let body := marshalError errType message retryAfter (s.w.header.get requestIDHeader)
  let s := s.setHeader (str "Content-Type") (str "application/json")
  if validStatus code then
    { s with w := (s.w.writeHeader code).write body (if bodyAllowed code then body.length else 0) }
  else { s with panicked := true }

def next (s : Serving) (o : Outcomes) (r : Request) : Serving :=
  { s with trace := s.trace ++ [.next r s.w], panicked := o.panics }

end Serving

def setRateLimitHeaders (s : Serving) (result : Result) : Serving :=
  ((s.setHeader (str "X-RateLimit-Limit") (formatInt result.limit)).setHeader
    (str "X-RateLimit-Remaining") (formatInt result.remaining)).setHeader
      (str "X-RateLimit-Reset") (formatInt (ceilSecondsIn .binary64 result.resetAfter))

def jitterFactor (random : ℚ) : ℚ :=
  float64.fl (float64.fl (9 / 10) + float64.fl (random * float64.fl (2 / 10)))

def serveRateLimited (s : Serving) (o : Outcomes) (result : Result) : Serving :=
  let retryDuration := truncate (float64.fl (float64.fl result.retryAfter * jitterFactor o.random))
  let retrySeconds := (max 1 (ceilSecondsIn .binary64 retryDuration)).toNat
  ((s.setHeader (str "Retry-After") (itoa retrySeconds)).setHeader
    (str "X-Retry-In") (Time.durationString retryDuration)).writeJSONError
      429 (str "rate_limited") (str "Too Many Requests") retrySeconds

def validToken (maxLen : ℕ) (s : GoString) : Bool :=
  !s.isEmpty && decide (s.length ≤ maxLen) &&
    s.all fun c => isLower c || isUpper c || isDigit c || (str "-_.:").contains c

def validRequestID (s : GoString) : Bool := validToken 128 s

def validTenantKey (s : GoString) : Bool := validToken 256 s

def Request.setHeader (r : Request) (key value : GoString) : Request :=
  { r with header := r.header.set key value }

def ensureRequestID (o : Outcomes) (r : Request) : GoString × Request :=
  let reqID := r.header.get requestIDHeader
  if validRequestID reqID then (reqID, r)
  else (o.generatedID, Request.setHeader r requestIDHeader o.generatedID)

def identityHeaders : List GoString :=
  [str "X-EdgeQuota-MTLS", str "X-EdgeQuota-Client-Fingerprint-SHA256", str "X-EdgeQuota-Client-Serial",
   str "X-EdgeQuota-Client-Subject"]

def injectHeaders (o : Outcomes) (r : Request) : Request :=
  let r := { r with header := identityHeaders.foldl Header.del r.header }
  match o.identity with
  | none => Request.setHeader r (str "X-EdgeQuota-MTLS") (str "false")
  | some id =>
    let r := Request.setHeader r (str "X-EdgeQuota-MTLS") (str "true")
    let r := Request.setHeader r (str "X-EdgeQuota-Client-Fingerprint-SHA256") id.fingerprint
    let r := Request.setHeader r (str "X-EdgeQuota-Client-Serial") id.serial
    Request.setHeader r (str "X-EdgeQuota-Client-Subject") id.subject

def prepareRequest (o : Outcomes) (r : Request) (w : ResponseWriter) : Request × Serving :=
  let (reqID, r) := ensureRequestID o r
  let s : Serving := { w := w, conn := o.clientBody }
  (injectHeaders o r, s.setHeader requestIDHeader reqID)

def isCORSPreflight (r : Request) : Bool :=
  r.method = str "OPTIONS" && r.header.get (str "Origin") ≠ [] &&
    r.header.get (str "Access-Control-Request-Method") ≠ []

def injectionDenyHeaders : List GoString :=
  [str "Host", str "Content-Length", str "Transfer-Encoding", str "Connection", str "Te", str "Upgrade",
   str "Proxy-Authorization", str "Proxy-Connection", str "Keep-Alive", str "Trailer", str "X-Forwarded-For",
   str "X-Forwarded-Host", str "X-Forwarded-Proto", str "X-Real-Ip", str "X-Request-Id", str "X-Edgequota-Mtls",
   str "X-Edgequota-Client-Fingerprint-Sha256", str "X-Edgequota-Client-Serial", str "X-Edgequota-Client-Subject"]

namespace Chain

def injectRequestHeaders (c : Chain) (r : Request) (lines : List (GoString × GoString)) : Request :=
  lines.foldl
    (fun r l =>
      let canonical := canonicalHeaderKey l.1
      if canonical ∈ injectionDenyHeaders ∧ canonical ∉ c.allowedInjectionHeaders then r
      else Request.setHeader r l.1 l.2) r

def applyAuthResponse (c : Chain) (r : Request) (s : Serving) (resp : CheckResponse) : Option Request × Serving :=
  if resp.allowed then (some (c.injectRequestHeaders r resp.requestHeaders), s)
  else
    let s := resp.responseHeaders.foldl (fun s l => s.setHeader l.1 l.2) s
    let code := if resp.statusCode = 0 then 403 else resp.statusCode
    let denyMsg := if resp.denyBody = [] then statusText code else resp.denyBody
    (none, s.writeJSONError code (str "auth_denied") denyMsg 0)

/-- The bytes for the authentication service; the request they were read from gets them as its body. -/
def bufferBody (c : Chain) (r : Request) (s : Serving) : GoString × Request × Serving :=
  if c.client.propagateBody then
    match r.body with
    | .noBody => ([], r, s)
    | .connection =>
      let (bodyBytes, conn) := s.conn.readAll c.client.maxBodySize
      (bodyBytes, { r with body := .buffer bodyBytes }, { s with conn := conn })
    | .buffer b => (b.take c.client.maxBodySize, { r with body := .buffer (b.take c.client.maxBodySize) }, s)
  else ([], r, s)

def checkRequest (c : Chain) (r : Request) (s : Serving) : CheckRequest :=
  let (bodyBytes, r, _) := c.bufferBody r s
  c.client.buildCheckRequest r bodyBytes

def checkAuth (c : Chain) (o : Outcomes) (r : Request) (s : Serving) : Option Request × Serving :=
  let (_, r, s) := c.bufferBody r s
  match o.cachedAuth with
  | some cached => c.applyAuthResponse r s cached
  | none =>
    match o.authCheck with
    | some resp => c.applyAuthResponse r s resp
    | none =>
      if c.authFailurePolicy = .failOpen then (some r, s)
      else (none, s.writeJSONError 503 (str "auth_unavailable") (str "authentication service unavailable") 0)

def runAuth (c : Chain) (o : Outcomes) (r : Request) (s : Serving) : Option Request × Serving :=
  if c.authClient then
    let (copy, s) := c.checkAuth o r s
    (copy.map fun copy => { r with header := copy.header }, s)
  else (some r, s)

def fallbackLimits (c : Chain) (o : Outcomes) (key : GoString) : Option LimitsResponse × GoString :=
  if c.externalFailurePolicy = .failClosed then (some { average := -1, burst := 0, period := [] }, key)
  else if c.fallbackKeyStrategy then
    match o.fallbackExtract with
    | none => (none, key)
    | some fbKey =>
      (some { average := c.externalFallback.average, burst := c.externalFallback.burst, period := [] }, fbKey)
  else (none, key)

def fetchExternalLimits (c : Chain) (o : Outcomes) (key : GoString) : Option LimitsResponse × GoString :=
  if !c.externalRL then (none, key)
  else
    match o.getLimits with
    | none => c.fallbackLimits o key
    | some limits =>
      if limits.backendURL = [] then c.fallbackLimits o key
      else
        let key := if validTenantKey limits.tenantKey then str "t:" ++ limits.tenantKey else key
        (if 0 < limits.average then some limits else none, key)

end Chain

def injectBackendURL (o : Outcomes) (r : Request) (limits : Option LimitsResponse) : Request :=
  match limits with
  | none => r
  | some l =>
    if l.backendURL = [] then r
    else
      match o.parseBackend l.backendURL with
      | none => r
      | some u => { r with context := { r.context with backendURL := some u } }

def injectBackendProtocol (r : Request) (limits : Option LimitsResponse) : Request :=
  match limits with
  | none => r
  | some l =>
    if l.backendProtocol ∈ [str "h1", str "h2", str "h3"] then
      { r with context := { r.context with backendProtocol := l.backendProtocol } }
    else r

def isStreamingRequest (r : Request) : Bool := Proxy.isSSE r || Proxy.isWebSocketUpgrade r || Proxy.isGRPC r

namespace Chain

def resolveTimeout (c : Chain) (limits : Option LimitsResponse) : ℤ :=
  match limits with
  | none => c.requestTimeout
  | some l =>
    match Time.parseDuration l.requestTimeout with
    | .error _ => c.requestTimeout
    | .ok d => if 0 < d then d else c.requestTimeout

def applyRequestTimeout (c : Chain) (r : Request) (limits : Option LimitsResponse) : Request :=
  if isStreamingRequest r then r
  else if 0 < c.resolveTimeout limits then
    { r with context := { r.context with timeout := some (c.resolveTimeout limits) } }
  else r

def externalLimitsFailClosed (c : Chain) (s : Serving) (limits : Option LimitsResponse) : Option Serving :=
  match limits with
  | none => none
  | some l =>
    if 0 ≤ l.average then none
    else
      let code := if c.staticRL.failureCode = 0 then 503 else c.staticRL.failureCode
      some (s.writeJSONError code (str "rate_limited") (str "service unavailable (external RL fail-closed)") 0)

def serveResult (o : Outcomes) (r : Request) (s : Serving) (result : Result) : Serving :=
  let s := setRateLimitHeaders s result
  if result.allowed then s.next o r else serveRateLimited s o result

def redisOutcome (c : Chain) (o : Outcomes) (key : GoString) (limits : Option LimitsResponse) : RedisOutcome :=
  (Middleware.tryRedisLimit c.limiter key (limits.map LimitsResponse.toExternalLimits) o.moment o.db).1

def tryRedisLimit (c : Chain) (o : Outcomes) (r : Request) (s : Serving) (key : GoString)
    (limits : Option LimitsResponse) : Option Serving :=
  match c.redisOutcome o key limits with
  | .result result => some (serveResult o r s result)
  | .unavailable | .failed _ => none

def resolveFailurePolicy (c : Chain) (limits : Option LimitsResponse) : FailurePolicy × ℤ :=
  match limits with
  | none => (c.staticRL.failurePolicy, c.staticRL.failureCode)
  | some l =>
    (if l.failurePolicy.valid then l.failurePolicy else c.staticRL.failurePolicy,
     if 0 < l.failureCode then l.failureCode else c.staticRL.failureCode)

def refusal (c : Chain) : Result := ⟨false, 1000000000, 0, c.staticRL.burst, 0⟩

def handleRedisFailurePolicy (c : Chain) (o : Outcomes) (r : Request) (s : Serving) (key : GoString)
    (limits : Option LimitsResponse) : Serving :=
  let (fp, fc) := c.resolveFailurePolicy limits
  match fp with
  | .passThrough =>
    if c.globalBackstop && !o.backstopAllow then serveRateLimited s o c.refusal else s.next o r
  | .failClosed => s.writeJSONError fc (str "service_unavailable") (statusText fc) 0
  | .inMemoryFallback =>
    if o.fallbackAllow c.staticRL.fallback key then s.next o r else serveRateLimited s o c.refusal
  | .unset | .other _ => s

def acquireConcurrency (c : Chain) (o : Outcomes) (s : Serving) : Bool × Serving :=
  if !c.concurrencySem then (true, s)
  else if o.slot then (true, { s with trace := s.trace ++ [.acquire] })
  else (false, s.writeJSONError 503 (str "overloaded") (str "server at capacity") 0)

def releaseConcurrency (c : Chain) (s : Serving) : Serving :=
  if c.concurrencySem then { s with trace := s.trace ++ [.release] } else s

def serveLimited (c : Chain) (o : Outcomes) (r : Request) (s : Serving) (key : GoString) : Serving :=
  let r := { r with context := { r.context with key := key } }
  let (limits, resolvedKey) := c.fetchExternalLimits o key
  let r := c.applyRequestTimeout r limits
  let r := injectBackendURL o r limits
  let r := injectBackendProtocol r limits
  match c.externalLimitsFailClosed s limits with
  | some s => s
  | none =>
    match c.tryRedisLimit o r s resolvedKey limits with
    | some s => s
    | none => c.handleRedisFailurePolicy o r s resolvedKey limits

def lookupKey (c : Chain) (o : Outcomes) : Option GoString := if c.externalRL then some [] else o.extract

def serveAuthenticated (c : Chain) (o : Outcomes) (r : Request) (s : Serving) : Serving :=
  if c.staticRL.average = 0 ∧ !c.externalRL then s.next o r
  else
    match c.lookupKey o with
    | none => s.writeJSONError 500 (str "key_extraction_failed") (str "could not extract rate-limit key") 0
    | some key => c.serveLimited o r s key

def serveAdmitted (c : Chain) (o : Outcomes) (r : Request) (s : Serving) : Serving :=
  match c.runAuth o r s with
  | (none, s) => s
  | (some r, s) => c.serveAuthenticated o r s

def serveHTTP (c : Chain) (o : Outcomes) (r : Request) (w : ResponseWriter) : Serving :=
  let (r, s) := prepareRequest o r w
  if c.bypassPreflight && isCORSPreflight r then s.next o r
  else
    match c.acquireConcurrency o s with
    | (false, s) => s
    | (true, s) => c.releaseConcurrency (c.serveAdmitted o r s)

end Chain
end EdgeQuota.Middleware
