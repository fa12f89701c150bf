import EdgeQuota.Auth.Client
import EdgeQuota.Cache.Store

/-! The cache of the authentication service's decisions, in Redis. -/

namespace EdgeQuota.Middleware
open Go Lib Cache Config Auth

def authCacheKeyPrefix : GoString := str "auth:cache:"

def authCacheTagPrefix : GoString := str "auth:tag:"

def authCacheKeyEphemeral : List GoString := defaultEphemeralHeaders.map toLower

/-- The key of a request, of which the hash function is a parameter. Neither the body nor the remote
address is part of it. -/
def authCacheKey (sha256 : GoString → GoString) (req : CheckRequest) : GoString :=
  authCacheKeyPrefix ++ hexEncode (sha256 (flatKey authCacheKeyEphemeral req.method req.path req.headers))

def getAuthFromCache (key : GoString) : Program (Option CheckResponse) := send (.getAuth key)

def indexAuthTags (key : GoString) : List GoString → Program Unit
  | [] => pure ()
  | tag :: tags => do
    let _ : Bool ← send (.sadd (authCacheTagPrefix ++ tag) key)
    indexAuthTags key tags

def setAuthInCache (key : GoString) (resp : CheckResponse) (ttl : ℤ) : Program Unit :=
  if ttl ≤ 0 then pure ()
  else do
    let _ : Bool ← send (.setAuth key resp.marshal ttl)
    indexAuthTags key resp.cacheTags

/-- The decision that `checkAuth` applies: the cached one, or else that of the service, if it answers, which is
cached first. -/
def checkAuthCached (key : GoString) (check : Option CheckResponse) : Program (Option CheckResponse) := do
  match ← getAuthFromCache key with
  | some cached => pure (some cached)
  | none =>
    match check with
    | none => pure none
    | some resp =>
      setAuthInCache key resp resp.resolveCacheTTL
      pure (some resp)

theorem run_checkAuthCached (key : GoString) (check : Option CheckResponse) (w : World) (env : ℕ → Surroundings) :
    (Prog.run exec (checkAuthCached key check) w env).1 = (Prog.run exec (getAuthFromCache key) w env).1.or check := by
  unfold checkAuthCached
  rw [Prog.run_bind]
  cases (Prog.run exec (getAuthFromCache key) w env).1 with
  | some cached => rfl
  | none =>
    cases check with
    | none => rfl
    | some resp => simp

def deleteAuthByTag (tag : GoString) : Program ℕ := do
  let keys : Option (List GoString) ← send (.smembers (authCacheTagPrefix ++ tag))
  if keys.getD [] = [] then pure 0
  else
    let n : Option ℕ ← send (.del (keys.getD []))
    let _ : Option ℕ ← send (.del [authCacheTagPrefix ++ tag])
    pure (n.getD 0)

end EdgeQuota.Middleware
