import EdgeQuota.Go.Url
import EdgeQuota.Proxy.Outgoing

/-! Where a request to open a WebSocket goes, against where the reverse proxy sends any other. The handler has
a director and a dialer of its own. -/

namespace EdgeQuota.Proxy
open Go

/-- A connection and the URL that is asked for on it. The certificate of the backend has to be for the name, if
there is one. -/
structure Destination where
  host : GoString
  port : GoString
  tls : Bool
  verified : Option GoString
  url : URL
  deriving DecidableEq

def httpDestination (idna : Idna) (insecure : Bool) (route : Route) (r : Request) : Option Destination :=
  (director route r).map fun (u, outreq) =>
    { host := idna.ascii u.hostname
      port := u.portOr (defaultPort u.scheme)
      tls := u.scheme = str "https"
      verified := if u.scheme = str "https" ∧ insecure = false then some (idna.ascii u.hostname) else none
      url := outreq.url }

/-- `dialWebSocketBackend`, with a backend that takes any connection: it needs an address with a port, and the
configuration for TLS names no server to verify. -/
def dialWebSocketBackend (insecure : Bool) (addr : GoString) (tls : Bool) : Bool :=
  (Net.splitHostPort addr).isSome && (!tls || insecure)

def WebSocketProxy.destination (p : WebSocketProxy) (insecure : Bool) (r : Request) : Option Destination :=
  (p.connect r {} { dial := dialWebSocketBackend insecure }).backend.bind fun conn =>
    (Net.splitHostPort conn.addr).map fun (host, port) =>
      { host := host, port := port, tls := conn.tls, verified := none, url := conn.request.url }

theorem url_setForwardedFor (r : Request) (clientIP : Option GoString) : (setForwardedFor r clientIP).url = r.url := by
  cases clientIP <;> rfl

theorem destination_eq {p : WebSocketProxy} {insecure : Bool} {r : Request} {u : BackendURL}
    (hu : p.effective r = some u) :
    p.destination insecure r =
      if u.scheme = str "https" ∧ insecure = false then none
      else (Net.splitHostPort u.host).map fun (host, port) =>
        { host := host, port := port, tls := u.scheme = str "https", verified := none, url := r.url } := by
  unfold WebSocketProxy.destination WebSocketProxy.connect dialWebSocketBackend
  simp only [hu]
  cases hsplit : Net.splitHostPort u.host with
  | none => simp
  | some hp =>
    by_cases hrefused : u.scheme = str "https" ∧ insecure = false
    · simp [hrefused]
    · have hdialed : (!decide (u.scheme = str "https") || insecure) = true := by
        by_contra hne
        simp only [Bool.or_eq_true, Bool.not_eq_true', decide_eq_false_iff_not, not_or, not_not] at hne
        exact hrefused ⟨hne.1, eq_false_of_ne_true hne.2⟩
      rw [if_neg hrefused]
      simp [hdialed, hsplit, url_setForwardingHeaders, url_setForwardedFor]

theorem singleJoiningSlash_ne {a : GoString} (hempty : a ≠ []) (hslash : a ≠ str "/") (b : GoString) :
    singleJoiningSlash a b ≠ b := by
  intro heq
  have hlength := congrArg List.length heq
  have hpos : 0 < a.length := List.length_pos_of_ne_nil hempty
  unfold singleJoiningSlash at hlength
  simp only at hlength
  split_ifs at hlength with hboth hneither
  · -- one slash is left out, so that the rest of the prefix is empty
    have hb : 0 < b.length := List.length_pos_of_mem (List.mem_of_mem_head? hboth.2)
    rw [List.length_append, List.length_tail] at hlength
    obtain ⟨c, rfl⟩ := List.length_eq_one_iff.mp (show a.length = 1 by omega)
    rw [List.getLast?_singleton] at hboth
    exact hslash (congrArg (fun c => [c]) (Option.some.inj hboth.1))
  · rw [List.length_append, List.length_append] at hlength
    omega
  · rw [List.length_append] at hlength
    omega

theorem httpDestination_eq (idna : Idna) (insecure : Bool) {route : Route} {r : Request} {u : BackendURL}
    (hu : r.context.backendURL.or route.target = some u) :
    ∃ url, httpDestination idna insecure route r =
        some
          { host := idna.ascii u.hostname
            port := u.portOr (defaultPort u.scheme)
            tls := u.scheme = str "https"
            verified := if u.scheme = str "https" ∧ insecure = false then some (idna.ascii u.hostname) else none
            url := url } ∧
      (url = r.url ↔ u.path = [] ∨ u.path = str "/") := by
  unfold httpDestination director
  simp only [hu, Option.map_some]
  refine ⟨_, rfl, ?_⟩
  rw [url_setForwardingHeaders]
  by_cases hjoined : u.path ≠ [] ∧ u.path ≠ str "/"
  · rw [if_pos hjoined]
    refine iff_of_false ?_ (not_or.mpr hjoined)
    intro heq
    exact singleJoiningSlash_ne hjoined.1 hjoined.2 r.url.path (congrArg URL.path heq)
  · rw [if_neg hjoined]
    refine iff_of_true rfl ?_
    by_contra hne
    exact hjoined (not_or.mp hne)

theorem portOr_defaultPort {u : BackendURL} (hscheme : u.scheme = str "http" ∨ u.scheme = str "https") :
    u.port = u.portOr (defaultPort u.scheme) ↔ u.port ≠ [] := by
  unfold BackendURL.portOr
  split_ifs with hnone
  · refine iff_of_false ?_ (not_not.mpr hnone)
    rw [hnone]
    rcases hscheme with hs | hs <;> rw [hs] <;> decide
  · exact iff_of_true rfl hnone

/-- **WebSockets are routed like other requests.** For a backend of either scheme, a request to open a WebSocket goes
to the host and port, with the TLS and under the path that the reverse proxy has for any other request,
exactly if the URL has a port, no certificate has to be verified, there is no path to join, and the
name needs no conversion. -/
theorem webSocket_routed_like_http_iff {idna : Idna} {insecure : Bool} {route : Route} {p : WebSocketProxy} {r : Request}
    {u : BackendURL} (hsame : p.backendURL = route.target) (hu : r.context.backendURL.or route.target = some u)
    (hscheme : u.scheme = str "http" ∨ u.scheme = str "https") (hparsed : u.Parsed) :
    p.destination insecure r = httpDestination idna insecure route r ↔
      u.port ≠ [] ∧ (u.scheme = str "https" → insecure = true) ∧ (u.path = [] ∨ u.path = str "/") ∧
        idna.ascii u.hostname = u.hostname := by
  have heffective : p.effective r = some u := by
    rw [WebSocketProxy.effective, hsame, hu]
  obtain ⟨url, hhttp, hurl⟩ := httpDestination_eq idna insecure hu
  rw [destination_eq heffective, hhttp]
  by_cases hrefused : u.scheme = str "https" ∧ insecure = false
  · rw [if_pos hrefused]
    refine iff_of_false (by rintro ⟨⟩) ?_
    rintro ⟨-, htls, -⟩
    exact absurd (htls hrefused.1) (ne_true_of_eq_false hrefused.2)
  · have htls : u.scheme = str "https" → insecure = true := fun hs => eq_true_of_ne_false fun hi => hrefused ⟨hs, hi⟩
    obtain ⟨hp, htext, hname, hport⟩ := hparsed.split
    rw [if_neg hrefused, if_neg hrefused, ← htext, splitHostPort_text]
    cases hgiven : hp.port with
    | none =>
      rw [hgiven] at hport
      exact iff_of_false (by rintro ⟨⟩) fun hall => hall.1 hport
    | some port =>
      rw [hgiven, Option.getD_some] at hport
      simp only [Option.map_some, Option.some.injEq, Destination.mk.injEq, true_and]
      rw [← hname, ← hport, portOr_defaultPort hscheme, ← hurl]
      constructor
      · rintro ⟨hascii, hne, hsent⟩
        exact ⟨hne, htls, hsent.symm, hascii.symm⟩
      · rintro ⟨hne, -, hsent, hascii⟩
        exact ⟨hascii.symm, hne, hsent.symm⟩

def plainRoute (u : BackendURL) : Route := { target := some u }

def upgrading : Request :=
  { method := str "GET"
    url := { path := str "/chat", rawPath := [], rawQuery := [] }
    header := [(str "Upgrade", str "websocket"), (str "Connection", str "Upgrade")] }

theorem webSocket_routed_plain :
    let u : BackendURL := ⟨str "http", str "backend:8080", []⟩
    WebSocketProxy.destination { backendURL := some u } false upgrading =
      httpDestination noIdna false (plainRoute u) upgrading := by
  intro u
  have hparsed : u.Parsed := ⟨⟨str "backend", some (str "8080"), by decide, by decide, by decide⟩, rfl⟩
  refine (webSocket_routed_like_http_iff (u := u) rfl rfl (Or.inl rfl) hparsed).mpr ⟨by decide, ?_, Or.inl rfl, by decide⟩
  intro hs
  exact absurd hs (by decide)

def upgradingTo (u : BackendURL) : Request := { upgrading with context := { backendURL := some u } }

theorem webSocket_routed_elsewhere :
    let default : BackendURL := ⟨str "http", str "default:8080", []⟩
    let ws := fun u : BackendURL => WebSocketProxy.destination { backendURL := some default } false (upgradingTo u)
    let http := fun u : BackendURL => httpDestination noIdna false (plainRoute default) (upgradingTo u)
    let chat : URL := { path := str "/chat", rawPath := [], rawQuery := [] }
    (ws ⟨str "http", str "backend", []⟩ = none ∧
        http ⟨str "http", str "backend", []⟩ = some ⟨str "backend", str "80", false, none, chat⟩) ∧
      (ws ⟨str "https", str "backend:443", []⟩ = none ∧
        http ⟨str "https", str "backend:443", []⟩ =
          some ⟨str "backend", str "443", true, some (str "backend"), chat⟩) ∧
      ws ⟨str "http", str "backend:80", str "/v1"⟩ = some ⟨str "backend", str "80", false, none, chat⟩ ∧
        http ⟨str "http", str "backend:80", str "/v1"⟩ =
          some ⟨str "backend", str "80", false, none, { chat with path := str "/v1/chat" }⟩ := by
  decide +kernel

end EdgeQuota.Proxy
