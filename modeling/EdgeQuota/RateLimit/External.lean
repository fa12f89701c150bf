import EdgeQuota.Config.Headers

/-! The client of the external rate-limit service: what it asks about a request, and the key under which
it shares the answers. -/

namespace EdgeQuota.RateLimit
open Go Config

structure ExternalRequest where
  headers : StringMap
  method : GoString
  path : GoString
  deriving DecidableEq

structure ExternalClient where
  headerFilter : HeaderFilter
  cacheKeyExclude : List GoString

def newExternalClient (headerFilter : HeaderFilterConfig) : ExternalClient :=
  ⟨newHeaderFilter headerFilter, buildEphemeralSet⟩

namespace ExternalClient

def externalRequest (ec : ExternalClient) (r : Request) : ExternalRequest :=
  let headers := ec.headerFilter.buildFilteredHeaderMap r.header
  { headers := if r.host = [] then headers else headers.insert (str "Host") r.host
    method := r.method
    path := r.url.path }

def lookupKey (ec : ExternalClient) (req : ExternalRequest) : GoString :=
  flatKey ec.cacheKeyExclude req.method req.path req.headers

/-- **Isolation of lookups.** Whatever request shares the key of a request is the same request if and
only if no separator occurs in its method and path and every header of it is ephemeral. Among requests
without a separator in them the key of each is its own. -/
theorem lookupKey_identifies_iff (headerFilter : HeaderFilterConfig) (req : ExternalRequest) :
    let ec := newExternalClient headerFilter
    ((∀ req', ec.lookupKey req' = ec.lookupKey req →
      SameRequest ec.cacheKeyExclude req.method req.path req.headers req'.method req'.path req'.headers) ↔
    byte '|' ∉ req.method ∧ byte '|' ∉ req.path ∧ stableHeaders buildEphemeralSet req.headers = []) ∧
    ∀ req', Separated ec.cacheKeyExclude req.method req.path req.headers →
      Separated ec.cacheKeyExclude req'.method req'.path req'.headers → ec.lookupKey req' = ec.lookupKey req →
      SameRequest ec.cacheKeyExclude req.method req.path req.headers req'.method req'.path req'.headers := by
  intro ec
  refine ⟨Iff.trans ?_ (flatKey_identifies_iff buildEphemeralSet req.method req.path req.headers),
    fun req' h h' hkey => flatKey_identifies_separated h h' hkey⟩
  constructor
  · exact fun h method' path' headers' hkey => h ⟨headers', method', path'⟩ hkey
  · exact fun h req' hkey => h req'.method req'.path req'.headers hkey

theorem lookupKey_shared :
    let ec := newExternalClient {}
    let marks := [(str "X-Request-Id", str "1"), (str "X-Edgequota-Mtls", str "false")]
    let r : Request :=
      { method := str "GET", url := ⟨str "/a", [], []⟩, header := (str "Accept", str "v") :: marks, host := str "h" }
    let r' : Request := { method := str "GET", url := ⟨str "/a|Accept=v", [], []⟩, header := marks, host := str "h" }
    (ec.externalRequest r).path ≠ (ec.externalRequest r').path ∧
      ec.lookupKey (ec.externalRequest r) = ec.lookupKey (ec.externalRequest r') := by
  decide +kernel

end ExternalClient
end EdgeQuota.RateLimit
