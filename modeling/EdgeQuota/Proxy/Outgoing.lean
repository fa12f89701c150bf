import EdgeQuota.Go.Net
import EdgeQuota.Proxy.ReverseProxy
import EdgeQuota.Proxy.WebSocket

/-! A request on its way to the backend through `httputil.ReverseProxy`. The director writes to a copy of
the request; only then are the hop-by-hop headers removed from it, and with them whatever the request
itself names in `Connection`. -/

namespace EdgeQuota.Proxy
open Go

structure TraceContext where
  tracestate : Option GoString := none
  traceparent : Option GoString := none
  baggage : Option GoString := none

def TraceContext.lines (t : TraceContext) : List (GoString × GoString) :=
  (t.tracestate.map fun v => (str "tracestate", v)).toList ++
    (t.traceparent.map fun v => (str "traceparent", v)).toList ++ (t.baggage.map fun v => (str "baggage", v)).toList

def singleJoiningSlash (a b : GoString) : GoString :=
  let aslash := a.getLast? = some (byte '/')
  let bslash := b.head? = some (byte '/')
  if aslash ∧ bslash then a ++ b.tail else if ¬aslash ∧ ¬bslash then a ++ str "/" ++ b else a ++ b

structure Route where
  target : Option BackendURL := none
  tls : Bool := false
  trace : TraceContext := {}

def director (route : Route) (r : Request) : Option (BackendURL × Request) :=
  match r.context.backendURL.or route.target with
  | none => none
  | some effective =>
    let r :=
      if effective.path ≠ [] ∧ effective.path ≠ str "/" then
        { r with url := { r.url with path := singleJoiningSlash effective.path r.url.path } }
      else r
    let r := setForwardingHeaders r route.tls
    some (effective, { r with header := route.trace.lines.foldl (fun h l => h.set l.1 l.2) r.header })

def valuesContainToken (values : List GoString) (token : GoString) : Bool :=
  values.any fun v => (v.splitOn (byte ',')).any fun t =>
    let t := trim [[0x20], [0x09]] t
    t.all (· < 0x80) && toLower t == toLower token

def upgradeType (h : Header) : GoString :=
  if valuesContainToken (h.values (str "Connection")) (str "Upgrade") then h.get (str "Upgrade") else []

def isPrint (s : GoString) : Bool := s.all fun c => 0x20 ≤ c && c ≤ 0x7E

def appendForwardedFor (remoteAddr : GoString) (h : Header) : Header :=
  match Net.splitHostPort remoteAddr with
  | none => h
  | some (clientIP, _) =>
    h.set (str "X-Forwarded-For") ((str ", ").intercalate (h.values (str "X-Forwarded-For") ++ [clientIP]))

def defaultUserAgent (h : Header) : Header :=
  if h.values (str "User-Agent") = [] then h.set (str "User-Agent") [] else h

def restoreTe (inbound h : Header) : Header :=
  if valuesContainToken (inbound.values (str "Te")) (str "trailers") then h.set (str "Te") (str "trailers") else h

def restoreUpgrade (upgrade : GoString) (h : Header) : Header :=
  if upgrade = [] then h else (h.set (str "Connection") (str "Upgrade")).set (str "Upgrade") upgrade

structure Sent where
  backend : BackendURL
  request : Request

def reverseProxy (route : Route) (r : Request) : Option Sent :=
  match director route r with
  | none => none
  | some (backend, outreq) =>
    let upgrade := upgradeType outreq.header
    if !isPrint upgrade then none
    else
      let h := restoreUpgrade upgrade (restoreTe r.header (removeHopByHopHeaders outreq.header))
      some ⟨backend, { outreq with header := defaultUserAgent (appendForwardedFor r.remoteAddr h) }⟩

def toBackend (route : Route) (r : Request) : Option Sent :=
  if isWebSocketUpgrade r then none
  else reverseProxy route (if isGRPC r then { r with header := r.header.set (str "TE") (str "trailers") } else r)

def HopByHop (h : Header) (name : GoString) : Prop :=
  (∃ token ∈ (h.values (str "Connection")).flatMap fun line => (line.splitOn (byte ',')).map trimString,
    token ≠ [] ∧ canonicalHeaderKey token = canonicalHeaderKey name) ∨
  ∃ hop ∈ hopHeaders, canonicalHeaderKey hop = canonicalHeaderKey name

theorem values_removeHopByHopHeaders (h : Header) (name : GoString) :
    (HopByHop h name → (removeHopByHopHeaders h).values name = []) ∧
      (¬HopByHop h name → (removeHopByHopHeaders h).values name = h.values name) := by
  have hmem : canonicalHeaderKey name ∈
      (((h.values (str "Connection")).flatMap fun line => ((line.splitOn (byte ',')).map trimString).filter (· ≠ [])) ++
        hopHeaders).map canonicalHeaderKey ↔ HopByHop h name := by
    unfold HopByHop
    simp only [List.map_append, List.mem_append, List.mem_map, List.mem_flatMap, List.mem_filter, decide_eq_true_eq]
    constructor
    · rintro (⟨token, ⟨line, hline, ⟨part, hpart, rfl⟩, hne⟩, heq⟩ | hop)
      · exact Or.inl ⟨_, ⟨line, hline, part, hpart, rfl⟩, hne, heq⟩
      · exact Or.inr hop
    · rintro (⟨token, ⟨line, hline, part, hpart, rfl⟩, hne, heq⟩ | hop)
      · exact Or.inl ⟨_, ⟨line, hline, ⟨part, hpart, rfl⟩, hne⟩, heq⟩
      · exact Or.inr hop
  unfold removeHopByHopHeaders
  simp only [Header.values_foldl_del]
  exact ⟨fun hop => if_pos (hmem.mpr hop), fun hop => if_neg (mt hmem.mp hop)⟩

def proxyHeaders : List GoString :=
  ["Te", "Connection", "Upgrade", "X-Forwarded-For", "Host", "Content-Length"].map str

/-- Written where they are empty. -/
def forwardingHeaders : List GoString := ["X-Forwarded-Host", "X-Forwarded-Proto"].map str

section Values
variable {name : GoString}

theorem values_set_of_ne {h : Header} {key value : GoString} (hne : canonicalHeaderKey key ≠ canonicalHeaderKey name) :
    (h.set key value).values name = h.values name := by
  rw [Header.values_set, if_neg hne]

theorem values_set_of_empty {h : Header} {key : GoString} (value : GoString)
    (hkept : canonicalHeaderKey key = canonicalHeaderKey name → h.get name ≠ []) :
    (if h.get key = [] then h.set key value else h).values name = h.values name := by
  by_cases hkey : canonicalHeaderKey key = canonicalHeaderKey name
  · have hget : h.get key = h.get name := by unfold Header.get Header.values; rw [hkey]
    rw [if_neg (hget ▸ hkept hkey)]
  · split_ifs
    · exact values_set_of_ne hkey
    · rfl

theorem kept_of_ne {h : Header} (hne : ∀ p ∈ forwardingHeaders, canonicalHeaderKey p ≠ canonicalHeaderKey name) :
    ∀ p ∈ forwardingHeaders, canonicalHeaderKey p = canonicalHeaderKey name → h.get name ≠ [] :=
  fun p hp heq => absurd heq (hne p hp)

theorem values_setForwardingHeaders (r : Request) (tls : Bool)
    (hkept : ∀ p ∈ forwardingHeaders, canonicalHeaderKey p = canonicalHeaderKey name → r.header.get name ≠ []) :
    (setForwardingHeaders r tls).header.values name = r.header.values name := by
  simp only [forwardingHeaders, List.map_cons, List.map_nil, List.forall_mem_cons] at hkept
  obtain ⟨hhost, hproto, -⟩ := hkept
  have hfirst := values_set_of_empty r.host hhost
  unfold setForwardingHeaders
  simp only [apply_ite Request.header]
  rw [values_set_of_empty _ fun heq => ?_, hfirst]
  rw [Header.get, hfirst]
  exact hproto heq

theorem values_restore (hte : canonicalHeaderKey (str "Te") ≠ canonicalHeaderKey name)
    (hconnection : canonicalHeaderKey (str "Connection") ≠ canonicalHeaderKey name)
    (hupgrade : canonicalHeaderKey (str "Upgrade") ≠ canonicalHeaderKey name) (inbound h : Header) (upgrade : GoString) :
    (restoreUpgrade upgrade (restoreTe inbound h)).values name = h.values name := by
  have hrestoredTe : (restoreTe inbound h).values name = h.values name := by
    unfold restoreTe
    split_ifs
    · exact values_set_of_ne hte
    · rfl
  unfold restoreUpgrade
  split_ifs
  · exact hrestoredTe
  · rw [values_set_of_ne hupgrade, values_set_of_ne hconnection, hrestoredTe]

theorem values_restored (hname : ∀ p ∈ proxyHeaders, canonicalHeaderKey p ≠ canonicalHeaderKey name)
    (inbound h : Header) (upgrade remoteAddr : GoString) :
    (appendForwardedFor remoteAddr (restoreUpgrade upgrade (restoreTe inbound h))).values name = h.values name := by
  simp only [proxyHeaders, List.map_cons, List.forall_mem_cons] at hname
  obtain ⟨hte, hconnection, hupgrade, hfor, -⟩ := hname
  have hrestored := values_restore hte hconnection hupgrade inbound h upgrade
  unfold appendForwardedFor
  split
  · exact hrestored
  · rw [values_set_of_ne hfor, hrestored]

theorem values_defaultUserAgent (h : Header) (name : GoString) :
    (defaultUserAgent h).values name =
      if canonicalHeaderKey (str "User-Agent") = canonicalHeaderKey name ∧ h.values name = [] then [[]]
      else h.values name := by
  have hsame : canonicalHeaderKey (str "User-Agent") = canonicalHeaderKey name →
      h.values (str "User-Agent") = h.values name := by
    intro heq
    unfold Header.values
    rw [heq]
  unfold defaultUserAgent
  by_cases hagent : canonicalHeaderKey (str "User-Agent") = canonicalHeaderKey name
  · rw [hsame hagent]
    split_ifs <;> simp_all [Header.values_set]
  · have hset : (h.set (str "User-Agent") []).values name = h.values name := values_set_of_ne hagent
    split_ifs <;> simp_all

theorem hopByHop_congr {h h' : Header} (hsame : h'.values (str "Connection") = h.values (str "Connection")) :
    HopByHop h' name ↔ HopByHop h name := by
  unfold HopByHop
  rw [hsame]

theorem lastValue_trace_eq_none (t : TraceContext)
    (hname : ∀ key ∈ ["tracestate", "traceparent", "baggage"].map str, canonicalHeaderKey key ≠ canonicalHeaderKey name) :
    Header.lastValue t.lines name = none := by
  simp only [List.map_cons, List.map_nil, List.forall_mem_cons] at hname
  obtain ⟨hstate, hparent, hbaggage, -⟩ := hname
  have hlines : ∀ l ∈ t.lines.reverse, ¬decide (canonicalHeaderKey l.1 = canonicalHeaderKey name) = true := by
    intro l hl
    rw [List.mem_reverse] at hl
    unfold TraceContext.lines at hl
    simp only [List.mem_append, Option.mem_toList, Option.map_eq_some_iff] at hl
    rw [decide_eq_true_eq]
    rcases hl with (⟨v, -, rfl⟩ | ⟨v, -, rfl⟩) | ⟨v, -, rfl⟩
    · exact hstate
    · exact hparent
    · exact hbaggage
  unfold Header.lastValue
  rw [List.find?_eq_none.mpr hlines, Option.map_none]

theorem values_director {route : Route} {r outreq : Request} {backend : BackendURL}
    (h : director route r = some (backend, outreq))
    (hkept : ∀ p ∈ forwardingHeaders, canonicalHeaderKey p = canonicalHeaderKey name → r.header.get name ≠ []) :
    outreq.header.values name = (Header.lastValue route.trace.lines name).elim (r.header.values name) fun v => [v] := by
  unfold director at h
  split at h
  · cases h
  cases h
  have hpath : ∀ url tls, (setForwardingHeaders { r with url := url } tls).header = (setForwardingHeaders r tls).header := by
    intro url tls
    unfold setForwardingHeaders
    simp only
    split_ifs <;> rfl
  simp only
  split_ifs
  · rw [Header.values_foldl_set, hpath, values_setForwardingHeaders _ _ hkept]
  · rw [Header.values_foldl_set, values_setForwardingHeaders _ _ hkept]

theorem values_removed {route : Route} {r outreq : Request} {backend : BackendURL}
    (h : director route r = some (backend, outreq)) (name : GoString) :
    (HopByHop r.header name → (removeHopByHopHeaders outreq.header).values name = []) ∧
      (¬HopByHop r.header name → (removeHopByHopHeaders outreq.header).values name = outreq.header.values name) := by
  have hconnection : outreq.header.values (str "Connection") = r.header.values (str "Connection") := by
    rw [values_director h (kept_of_ne (by decide +kernel)), lastValue_trace_eq_none _ (by decide +kernel)]
    rfl
  have hremove := values_removeHopByHopHeaders outreq.header name
  rw [hopByHop_congr hconnection] at hremove
  exact hremove

theorem header_reverseProxy {route : Route} {r : Request} {sent : Sent} (hsent : reverseProxy route r = some sent) :
    ∃ backend outreq, director route r = some (backend, outreq) ∧
      sent.request.header = defaultUserAgent (appendForwardedFor r.remoteAddr
        (restoreUpgrade (upgradeType outreq.header) (restoreTe r.header (removeHopByHopHeaders outreq.header)))) := by
  unfold reverseProxy at hsent
  split at hsent
  · cases hsent
  rename_i backend outreq hdirector
  simp only at hsent
  split at hsent
  · cases hsent
  obtain rfl := Option.some.inj hsent
  exact ⟨backend, outreq, hdirector, rfl⟩

theorem values_reverseProxy {route : Route} {r : Request} {sent : Sent} (hsent : reverseProxy route r = some sent)
    (hname : ∀ p ∈ proxyHeaders, canonicalHeaderKey p ≠ canonicalHeaderKey name) {v : GoString}
    (hempty : v = [] → ∀ p ∈ forwardingHeaders, canonicalHeaderKey p ≠ canonicalHeaderKey name)
    (hv : r.header.values name = [v]) :
    sent.request.header.values name = [v] ↔
      (HopByHop r.header name ∧ canonicalHeaderKey (str "User-Agent") = canonicalHeaderKey name ∧ v = []) ∨
      (¬HopByHop r.header name ∧ ∀ v' ∈ Header.lastValue route.trace.lines name, v' = v) := by
  obtain ⟨backend, outreq, hdirector, hheader⟩ := header_reverseProxy hsent
  have hvalues := values_director hdirector fun p hp heq hnil =>
    hempty (by rwa [Header.get, hv] at hnil) p hp heq
  obtain ⟨hremoved, hkept⟩ := values_removed hdirector name
  rw [hheader]
  simp only [values_defaultUserAgent, values_restored hname]
  by_cases hop : HopByHop r.header name
  · rw [hremoved hop]
    simp only [hop, true_and, not_true_eq_false, false_and, or_false, and_true]
    split_ifs with hagent
    · simp [hagent, eq_comm]
    · simp [hagent]
  · rw [hkept hop, hvalues, hv]
    simp only [hop, false_and, not_false_eq_true, true_and, false_or]
    cases Header.lastValue route.trace.lines name with
    | none => simp
    | some v' => simp

theorem values_toBackend {route : Route} {r : Request} {sent : Sent} (hsent : toBackend route r = some sent)
    (hname : ∀ p ∈ proxyHeaders, canonicalHeaderKey p ≠ canonicalHeaderKey name) {v : GoString}
    (hempty : v = [] → ∀ p ∈ forwardingHeaders, canonicalHeaderKey p ≠ canonicalHeaderKey name)
    (hv : r.header.values name = [v]) :
    sent.request.header.values name = [v] ↔
      (HopByHop r.header name ∧ canonicalHeaderKey (str "User-Agent") = canonicalHeaderKey name ∧ v = []) ∨
      (¬HopByHop r.header name ∧ ∀ v' ∈ Header.lastValue route.trace.lines name, v' = v) := by
  have hte : canonicalHeaderKey (str "TE") ≠ canonicalHeaderKey name := hname (str "Te") (by decide +kernel)
  have hconnection : (r.header.set (str "TE") (str "trailers")).values (str "Connection") =
      r.header.values (str "Connection") := values_set_of_ne (by decide +kernel)
  unfold toBackend at hsent
  split at hsent
  · cases hsent
  split at hsent
  · have hgrpc := values_reverseProxy hsent hname hempty ((values_set_of_ne hte).trans hv)
    rw [hopByHop_congr hconnection] at hgrpc
    exact hgrpc
  · exact values_reverseProxy hsent hname hempty hv

end Values
end EdgeQuota.Proxy
