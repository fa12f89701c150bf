import EdgeQuota.Go.Strings

/-! The answers of the external authentication service. -/

namespace EdgeQuota.Auth
open Go

structure CheckResponse where
  allowed : Bool
  statusCode : ℤ := 0
  responseHeaders : List (GoString × GoString) := []
  denyBody : GoString := []
  requestHeaders : List (GoString × GoString) := []
  cacheMaxAgeSec : Option ℤ := none
  cacheNoStore : Bool := false
  cacheTags : List GoString := []
  deriving DecidableEq

namespace CheckResponse

def marshal (r : CheckResponse) : CheckResponse :=
  { r with
    responseHeaders := r.responseHeaders.map fun l => (toValidUTF8 l.1, toValidUTF8 l.2)
    denyBody := toValidUTF8 r.denyBody
    requestHeaders := r.requestHeaders.map fun l => (toValidUTF8 l.1, toValidUTF8 l.2)
    cacheTags := r.cacheTags.map toValidUTF8 }

def resolveCacheTTL (r : CheckResponse) : ℤ :=
  if r.cacheNoStore then 0
  else
    match r.cacheMaxAgeSec with
    | some n => if 0 < n then int64 (n * 1000000000) else 0
    | none => 0

end CheckResponse
end EdgeQuota.Auth
