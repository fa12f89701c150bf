import EdgeQuota.Cache.Writer

/-! Requests through the proxy with a response cache installed. The commands of concurrent requests
and purges interleave in any order. -/

namespace EdgeQuota.Proxy
open Go Lib Cache

def isGRPC (r : Request) : Bool := (str "application/grpc").isPrefixOf (r.header.get (str "Content-Type"))

def isWebSocketUpgrade (r : Request) : Bool :=
  equalFold (r.header.get (str "Upgrade")) (str "websocket") &&
    contains (toLower (r.header.get (str "Connection"))) (str "upgrade")

def isSSE (r : Request) : Bool := contains (r.header.get (str "Accept")) (str "text/event-stream")

/-- What became of a task: a request answered from the cache with a stored entry at a reading of the
clock, one answered by the backend, one that does not concern the cache, or a purge. -/
inductive Outcome where
  | hit (r : Request) (s : Stored) (now : ℤ) (w : ResponseWriter)
  | miss (r : Request) (w : ResponseWriter)
  | bypass (r : Request)
  | purged (n : ℕ)

def maxAge : ℤ := 2147483648

def age (e : Entry) (now : ℤ) : ℤ :=
  let upstreamAge :=
    match atoi (trimSpace (e.headers.get (str "Age"))) with
    | some a => if 0 < a then min a maxAge else 0
    | none => 0
  let resident := max 0 ((now - e.createdAt) / 1000000000)
  min (upstreamAge + resident) maxAge

def replay (w : ResponseWriter) (e : Entry) (now : ℤ) : ResponseWriter :=
  let header := e.headers.foldl (fun h l => h.add l.1 l.2) w.header
  let header := (header.set (str "Age") (itoa (age e now).toNat)).set (str "X-Cache") (str "HIT")
  ({ w with header := header }.writeHeader e.statusCode).write e.body e.body.length

def serveEntry (r : Request) (w : ResponseWriter) (s : Stored) : Program (Option Outcome) := do
  send (.record .hit)
  let now : ℤ ← send .now
  pure (some (.hit r s now (replay w s.entry now)))

def serveCached (r : Request) (w : ResponseWriter) : Program (Option Outcome) := do
  let cacheKey := keyFromRequest r []
  match ← Store.get cacheKey with
  | none => pure none
  | some s =>
    let varyKey := keyFromRequest r s.entry.vary
    if s.entry.vary ≠ [] ∧ varyKey ≠ cacheKey then
      match ← Store.get varyKey with
      | none => pure none
      | some s => serveEntry r w s
    else serveEntry r w s

def proxyWithCache (maxBodySize : ℕ) (r : Request) (w : ResponseWriter) : Program Outcome := do
  let cacheKey := keyFromRequest r []
  let handling : Handling ← send (.upstream r w)
  let cw := (CachingResponseWriter.new w r).relay maxBodySize handling
  cw.finish cacheKey
  pure (.miss r cw.w)

def serveHTTP (maxBodySize : ℕ) (r : Request) (w : ResponseWriter) : Program Outcome :=
  if isWebSocketUpgrade r then pure (.bypass r)
  else if isGRPC r then pure (.bypass r)
  else if r.method = str "GET" ∧ !isSSE r then do
    match ← serveCached r w with
    | some o => pure o
    | none => proxyWithCache maxBodySize r w
  else pure (.bypass r)

inductive Task where
  | request (r : Request) (w : ResponseWriter)
  | delete (key : GoString)
  | deleteByTag (tag : GoString)

def perform (maxBodySize : ℕ) : Task → Program Outcome
  | .request r w => serveHTTP maxBodySize r w
  | .delete key => do
    let removed ← Store.delete key
    pure (.purged (if removed then 1 else 0))
  | .deleteByTag tag => do
    let n ← Store.deleteByTag tag
    pure (.purged n)

def proxy (maxBodySize : ℕ) :
    Machine (Pool World Command Reply Outcome) (Sched Task Surroundings) (Option Outcome) :=
  Pool.interleave exec (perform maxBodySize)

end EdgeQuota.Proxy
