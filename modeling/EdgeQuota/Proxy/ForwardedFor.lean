import EdgeQuota.Proxy.Outgoing
import EdgeQuota.RateLimit.Keys

/-! The list of proxies that a backend is handed, by the reverse proxy for an ordinary request and by the proxy's own
code for a WebSocket upgrade. -/

namespace EdgeQuota.Proxy
open Go RateLimit

def listed (lines : List GoString) : List GoString := (lines.flatMap entriesOf).filter (· ≠ [])

theorem listed_append (a b : List GoString) : listed (a ++ b) = listed a ++ listed b := by
  unfold listed
  rw [List.flatMap_append, List.filter_append]

example : listed [str "a, ,b", str "c"] = [str "a", str "b", str "c"] := by decide +kernel

theorem listed_empty : listed [[]] = [] := by decide

theorem trimSpace_space (s : GoString) : trimSpace (byte ' ' :: s) = trimSpace s := rfl

theorem entriesOf_space (s : GoString) : entriesOf (byte ' ' :: s) = entriesOf s := by
  obtain ⟨x, xs, hsplit⟩ := List.exists_cons_of_ne_nil (List.splitOn_ne_nil (byte ',') s)
  have hcons : (byte ' ' :: s).splitOn (byte ',') = (byte ' ' :: x) :: xs := by
    rw [List.splitOn_cons_eq_if_modifyHead, if_neg (by decide), hsplit]
    rfl
  unfold entriesOf
  rw [hcons, hsplit, List.map_cons, List.map_cons, trimSpace_space]

theorem entriesOf_joined (a b : GoString) : entriesOf (a ++ str ", " ++ b) = entriesOf a ++ entriesOf b := by
  have htext : a ++ str ", " ++ b = a ++ byte ',' :: byte ' ' :: b := by
    rw [List.append_assoc]
    rfl
  have hsplit : entriesOf (a ++ byte ',' :: byte ' ' :: b) = entriesOf a ++ entriesOf (byte ' ' :: b) := by
    unfold entriesOf
    rw [List.splitOn_append_cons_self, List.map_append]
  rw [htext, hsplit, entriesOf_space]

theorem listed_joined (a b : GoString) : listed [a ++ str ", " ++ b] = listed [a] ++ listed [b] := by
  unfold listed
  simp only [List.flatMap_singleton, entriesOf_joined, List.filter_append]

theorem listed_intercalate {lines : List GoString} (hne : lines ≠ []) :
    listed [(str ", ").intercalate lines] = listed lines := by
  induction lines with
  | nil => exact absurd rfl hne
  | cons line lines ih =>
    cases lines with
    | nil => rw [List.intercalate_singleton]
    | cons next lines =>
      rw [List.intercalate_cons_cons, listed_joined, ih (List.cons_ne_nil _ _), ← listed_append, List.singleton_append]

section Ordinary
variable {route : Route} {r : Request} {sent : Sent} {ip port : GoString}

theorem forwardedFor_reverseProxy (hsent : reverseProxy route r = some sent)
    (hsplit : Net.splitHostPort r.remoteAddr = some (ip, port)) :
    ∃ kept, sent.request.header.values (str "X-Forwarded-For") = [(str ", ").intercalate (kept ++ [ip])] ∧
      (HopByHop r.header (str "X-Forwarded-For") → kept = []) ∧
      (¬HopByHop r.header (str "X-Forwarded-For") → kept = r.header.values (str "X-Forwarded-For")) := by
  obtain ⟨backend, outreq, hdirector, hheader⟩ := header_reverseProxy hsent
  have hvalues : outreq.header.values (str "X-Forwarded-For") = r.header.values (str "X-Forwarded-For") := by
    rw [values_director hdirector (kept_of_ne (by decide +kernel)), lastValue_trace_eq_none _ (by decide +kernel),
      Option.elim_none]
  obtain ⟨hremoved, hkept⟩ := values_removed hdirector (str "X-Forwarded-For")
  refine ⟨(removeHopByHopHeaders outreq.header).values (str "X-Forwarded-For"), ?_, hremoved, fun hop =>
    (hkept hop).trans hvalues⟩
  rw [hheader, values_defaultUserAgent, if_neg (fun h => absurd h.1 (by decide +kernel)), appendForwardedFor, hsplit]
  simp only [Header.values_set, if_true]
  rw [values_restore (by decide +kernel) (by decide +kernel) (by decide +kernel)]

theorem forwardedFor_toBackend (hsent : toBackend route r = some sent)
    (hsplit : Net.splitHostPort r.remoteAddr = some (ip, port)) :
    ∃ kept, sent.request.header.values (str "X-Forwarded-For") = [(str ", ").intercalate (kept ++ [ip])] ∧
      (HopByHop r.header (str "X-Forwarded-For") → kept = []) ∧
      (¬HopByHop r.header (str "X-Forwarded-For") → kept = r.header.values (str "X-Forwarded-For")) := by
  unfold toBackend at hsent
  split at hsent
  · cases hsent
  split at hsent
  · have hgrpc := forwardedFor_reverseProxy hsent hsplit
    have hconnection : (r.header.set (str "TE") (str "trailers")).values (str "Connection") =
        r.header.values (str "Connection") := values_set_of_ne (by decide +kernel)
    have hfor : (r.header.set (str "TE") (str "trailers")).values (str "X-Forwarded-For") =
        r.header.values (str "X-Forwarded-For") := values_set_of_ne (by decide +kernel)
    simp only [hopByHop_congr hconnection, hfor] at hgrpc
    exact hgrpc
  · exact forwardedFor_reverseProxy hsent hsplit

end Ordinary

section Upgrades
variable {p : WebSocketProxy} {r : Request} {w : ResponseWriter} {u : Upgrade} {conn : BackendConn}

theorem header_connect (hconn : (p.connect r w u).backend = some conn) :
    conn.request.header = (setForwardedFor (setForwardingHeaders r u.tls) u.clientIP).header := by
  unfold WebSocketProxy.connect at hconn
  split at hconn
  · cases hconn
  simp only at hconn
  split_ifs at hconn
  · obtain rfl := Option.some.inj hconn
    rfl
  · obtain rfl := Option.some.inj hconn
    rfl
  · obtain rfl := Option.some.inj hconn
    rfl

theorem header_handleWebSocket (hconn : (p.handleWebSocket r w u).backend = some conn) :
    conn.request.header = (setForwardedFor (setForwardingHeaders r u.tls) u.clientIP).header := by
  unfold WebSocketProxy.handleWebSocket at hconn
  split_ifs at hconn
  exact header_connect hconn

theorem forwardedFor_handleWebSocket (hconn : (p.handleWebSocket r w u).backend = some conn) {ip : GoString}
    (hip : u.clientIP = some ip) :
    conn.request.header.values (str "X-Forwarded-For") =
      [if r.header.get (str "X-Forwarded-For") = [] then ip
        else r.header.get (str "X-Forwarded-For") ++ str ", " ++ ip] := by
  have hprior : (setForwardingHeaders r u.tls).header.get (str "X-Forwarded-For") =
      r.header.get (str "X-Forwarded-For") := by
    unfold Header.get
    rw [values_setForwardingHeaders _ _ (kept_of_ne (by decide +kernel))]
  rw [header_handleWebSocket hconn, hip]
  simp only [setForwardedFor, Header.values_set, if_true, hprior]

theorem listed_handleWebSocket (hconn : (p.handleWebSocket r w u).backend = some conn) {ip : GoString}
    (hip : u.clientIP = some ip) :
    listed (conn.request.header.values (str "X-Forwarded-For")) =
      listed ((r.header.values (str "X-Forwarded-For")).take 1) ++ listed [ip] := by
  have hfirst : listed ((r.header.values (str "X-Forwarded-For")).take 1) =
      listed [r.header.get (str "X-Forwarded-For")] := by
    unfold Header.get
    cases r.header.values (str "X-Forwarded-For") with
    | nil => exact listed_empty.symm
    | cons line lines => rfl
  rw [forwardedFor_handleWebSocket hconn hip, hfirst]
  split_ifs with hnil
  · rw [hnil, listed_empty, List.nil_append]
  · exact listed_joined _ _

end Upgrades

theorem listed_take_eq_iff (lines : List GoString) : listed (lines.take 1) = listed lines ↔ listed lines.tail = [] := by
  cases lines with
  | nil => exact iff_of_true rfl rfl
  | cons line lines =>
    have hsplit : listed (line :: lines) = listed [line] ++ listed lines := listed_append [line] lines
    rw [hsplit, List.tail_cons, List.take_succ_cons, List.take_zero, List.self_eq_append_right]

/-- **One list for both.** An upgrade and an ordinary request come with the same lines from the same peer. The ordinary
request is sent on with all entries and the peer's address, unless it has the header removed itself. The upgrade is
exactly if no line but the first has an entry, and so it agrees with the ordinary request exactly then, or, if that has
the header removed, exactly if the first line has none. -/
theorem forwarded_for_iff {p : WebSocketProxy} {r r' : Request} {w : ResponseWriter} {u : Upgrade} {conn : BackendConn}
    {route : Route} {sent : Sent} {ip port : GoString}
    (hsplit : Net.splitHostPort r.remoteAddr = some (ip, port)) (hip : u.clientIP = some ip)
    (hconn : (p.handleWebSocket r w u).backend = some conn) (hsent : toBackend route r' = some sent)
    (haddr : r'.remoteAddr = r.remoteAddr)
    (hlines : r'.header.values (str "X-Forwarded-For") = r.header.values (str "X-Forwarded-For")) :
    let lines := r.header.values (str "X-Forwarded-For")
    let upgrade := listed (conn.request.header.values (str "X-Forwarded-For"))
    let ordinary := listed (sent.request.header.values (str "X-Forwarded-For"))
    (upgrade = listed lines ++ listed [ip] ↔ listed lines.tail = []) ∧
      (¬HopByHop r'.header (str "X-Forwarded-For") →
        ordinary = listed lines ++ listed [ip] ∧ (upgrade = ordinary ↔ listed lines.tail = [])) ∧
      (HopByHop r'.header (str "X-Forwarded-For") → (upgrade = ordinary ↔ listed (lines.take 1) = [])) := by
  intro lines upgrade ordinary
  have hupgrade : upgrade = listed (lines.take 1) ++ listed [ip] := listed_handleWebSocket hconn hip
  obtain ⟨kept, hvalues, hremoved, hkept⟩ := forwardedFor_toBackend hsent (haddr ▸ hsplit)
  have hordinary : ordinary = listed kept ++ listed [ip] := by
    have hne : kept ++ [ip] ≠ [] := List.append_ne_nil_of_right_ne_nil _ (List.cons_ne_nil _ _)
    rw [← listed_append, ← listed_intercalate hne, ← hvalues]
  refine ⟨?_, ?_, ?_⟩
  · rw [hupgrade, List.append_left_inj, listed_take_eq_iff]
  · intro hop
    rw [hkept hop, hlines] at hordinary
    refine ⟨hordinary, ?_⟩
    rw [hupgrade, hordinary, List.append_left_inj, listed_take_eq_iff]
  · intro hop
    rw [hremoved hop] at hordinary
    rw [hupgrade, hordinary, List.append_left_inj]
    rfl

def proxied (upgrade : Bool) (lines : List GoString) : Request where
  method := str "GET"
  url := ⟨str "/chat", [], []⟩
  header := (if upgrade then [(str "Connection", str "Upgrade"), (str "Upgrade", str "websocket")] else []) ++
    lines.map fun line => (str "X-Forwarded-For", line)
  host := str "edge"
  remoteAddr := str "203.0.113.9:4711"

def oneBackend : BackendURL := { scheme := str "http", host := str "backend:8080", path := [] }

theorem forwarded_for_iff_one_line :
    let lines := [str "198.51.100.7, 10.0.0.5"]
    let session := ({ backendURL := some oneBackend } : WebSocketProxy).handleWebSocket (proxied true lines) {}
      { clientIP := some (str "203.0.113.9") }
    ∃ conn sent, session.backend = some conn ∧
      toBackend { target := some oneBackend } (proxied false lines) = some sent ∧
      listed (conn.request.header.values (str "X-Forwarded-For")) = listed lines ++ listed [str "203.0.113.9"] := by
  intro lines session
  have hsplit : Net.splitHostPort (proxied true lines).remoteAddr = some (str "203.0.113.9", str "4711") := by
    decide +kernel
  obtain ⟨conn, hconn⟩ : ∃ conn, session.backend = some conn := ⟨_, rfl⟩
  obtain ⟨sent, hsent⟩ : ∃ sent, toBackend { target := some oneBackend } (proxied false lines) = some sent := ⟨_, rfl⟩
  refine ⟨conn, sent, hconn, hsent, ?_⟩
  exact (forwarded_for_iff hsplit rfl hconn hsent rfl (by decide +kernel)).1.mpr (by decide +kernel)

theorem forwarded_for_two_lines :
    let lines := [str "198.51.100.7", str "10.0.0.5"]
    let session := ({ backendURL := some oneBackend } : WebSocketProxy).handleWebSocket (proxied true lines) {}
      { clientIP := some (str "203.0.113.9") }
    session.backend.map (fun conn => conn.request.header.values (str "X-Forwarded-For")) =
        some [str "198.51.100.7, 203.0.113.9"] ∧
      (toBackend { target := some oneBackend } (proxied false lines)).map
          (fun sent => sent.request.header.values (str "X-Forwarded-For")) =
        some [str "198.51.100.7, 10.0.0.5, 203.0.113.9"] := by
  decide +kernel

end EdgeQuota.Proxy
