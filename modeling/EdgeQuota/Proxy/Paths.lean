import EdgeQuota.Proxy.Outgoing

/-! The path that the backend is sent. A URL keeps its path twice, decoded and, where that is needed to tell how it was
written, as it was; the director writes the prefix of the backend to the first of the two only. -/

namespace EdgeQuota.Proxy
open Go

def setPath (text : GoString) : Option (GoString × GoString) :=
  (unescape text).map fun path => (path, if text = escape path then [] else text)

/-- The URL that the request to the backend is written with. An upgrade to a WebSocket is not the director's. -/
def sentURL (route : Route) (r : Request) : Option (BackendURL × URL) :=
  if isWebSocketUpgrade r then (r.context.backendURL.or route.target).map fun backend => (backend, r.url)
  else (toBackend route r).map fun sent => (sent.backend, sent.request.url)

def trimSlash (s : GoString) : GoString := if s.getLast? = some (byte '/') then s.dropLast else s

section Slash
variable {s t path : GoString}

theorem trimSlash_concat (s : GoString) : trimSlash (s ++ [byte '/']) = s := by
  unfold trimSlash
  rw [if_pos List.getLast?_concat, List.dropLast_concat]

theorem eq_trimSlash (s : GoString) : s = trimSlash s ∧ s.getLast? ≠ some (byte '/') ∨ s = trimSlash s ++ [byte '/'] := by
  by_cases hlast : s.getLast? = some (byte '/')
  · right
    obtain ⟨front, rfl⟩ := List.getLast?_eq_some_iff.mp hlast
    rw [trimSlash_concat]
  · left
    exact ⟨(if_neg hlast).symm, hlast⟩

theorem singleJoiningSlash_eq (a : GoString) {b : GoString} (hb : b.head? = some (byte '/')) :
    singleJoiningSlash a b = trimSlash a ++ b := by
  obtain ⟨rest, rfl⟩ : ∃ rest, b = byte '/' :: rest := by
    cases b with
    | nil => cases hb
    | cons c rest => exact ⟨rest, by rw [Option.some.inj hb]⟩
  unfold singleJoiningSlash
  rcases eq_trimSlash a with ⟨heq, hlast⟩ | heq
  · simp only [hlast, hb, false_and, if_false, not_true_eq_false, and_false]
    rw [← heq]
  · have hlast : a.getLast? = some (byte '/') := by
      rw [heq]
      exact List.getLast?_concat
    simp only [hlast, hb, and_self, if_true, List.tail_cons]
    conv_lhs => rw [heq]
    simp

theorem trimSlash_eq_nil : trimSlash s = [] ↔ s = [] ∨ s = str "/" := by
  rcases eq_trimSlash s with ⟨heq, hlast⟩ | heq
  · rw [← heq]
    refine ⟨Or.inl, ?_⟩
    rintro (rfl | rfl)
    · rfl
    · exact absurd (by decide) hlast
  · constructor
    · intro hnil
      rw [hnil] at heq
      exact .inr heq
    · rintro (rfl | rfl)
      · cases heq
      · decide

theorem trimSlash_escape (s : GoString) : trimSlash (escape s) = escape (trimSlash s) := by
  have hslash : escape [byte '/'] = [byte '/'] := by decide
  rcases eq_trimSlash s with ⟨heq, hlast⟩ | heq
  · rw [← heq]
    refine if_neg fun hends => hlast ?_
    obtain ⟨front, hfront⟩ := List.getLast?_eq_some_iff.mp hends
    have hdecoded := unescape_escape s
    rw [hfront] at hdecoded
    obtain ⟨rest, -, rfl⟩ := unescape_concat (by decide) (by decide) hdecoded
    exact List.getLast?_concat
  · conv_lhs => rw [heq, escape_append, hslash, trimSlash_concat]

end Slash

section Paths
variable {text path raw : GoString}

theorem head_of_setPath (h : setPath text = some (path, raw)) (hslash : text.head? = some (byte '/')) :
    path.head? = some (byte '/') := by
  obtain ⟨decoded, hdecoded, heq⟩ := Option.map_eq_some_iff.mp h
  obtain ⟨rfl, -⟩ := Prod.mk.inj heq
  cases text with
  | nil => cases hslash
  | cons c rest =>
    obtain rfl := Option.some.inj hslash
    rw [unescape_cons (by decide)] at hdecoded
    obtain ⟨tail, -, rfl⟩ := Option.map_eq_some_iff.mp hdecoded
    rfl

theorem unescape_of_setPath (h : setPath text = some (path, raw)) (hraw : raw ≠ []) : unescape raw = some path := by
  obtain ⟨decoded, hdecoded, heq⟩ := Option.map_eq_some_iff.mp h
  obtain ⟨rfl, rfl⟩ := Prod.mk.inj heq
  split_ifs at hraw ⊢
  · exact absurd rfl hraw
  · exact hdecoded

theorem escapedPath_extended {u : URL} {front : GoString} (h : u.rawPath ≠ [] → unescape u.rawPath = some u.path)
    (hslash : u.path.head? = some (byte '/')) (hfront : front ≠ []) :
    URL.escapedPath { u with path := front ++ u.path } = escape front ++ escape u.path := by
  have hraw : ¬(u.rawPath ≠ [] ∧ validEncoded u.rawPath = true ∧ unescape u.rawPath = some (front ++ u.path)) := by
    rintro ⟨hne, -, hdecoded⟩
    rw [h hne] at hdecoded
    exact hfront (List.append_left_eq_self.mp (Option.some.inj hdecoded).symm)
  have hstar : front ++ u.path ≠ str "*" := by
    intro heq
    have hmem : byte '/' ∈ front ++ u.path := List.mem_append_right _ (List.mem_of_head? hslash)
    rw [heq] at hmem
    exact absurd hmem (by decide)
  unfold URL.escapedPath
  rw [if_neg hraw, if_neg hstar, escape_append]

theorem append_escapedPath_iff (p u : URL) :
    trimSlash p.escapedPath ++ u.escapedPath = escape (trimSlash p.path) ++ escape u.path ↔
      p.escapedPath = escape p.path ∧ u.escapedPath = escape u.path := by
  constructor
  · intro h
    have hp := unescape_escapedPath p
    rcases eq_trimSlash p.escapedPath with ⟨heq, -⟩ | heq
    · rw [← heq] at h
      have hdecoded : p.path ++ u.path = trimSlash p.path ++ u.path := by
        have hboth := congrArg unescape h
        rw [unescape_append hp, unescape_escapedPath, unescape_append (unescape_escape _), unescape_escape] at hboth
        exact Option.some.inj hboth
      have hsame := List.append_cancel_right hdecoded
      rw [← hsame] at h
      exact append_inj_of_unescape h hp (unescape_escape _)
    · rw [heq] at hp
      obtain ⟨front, hfront, hpath⟩ := unescape_concat (by decide) (by decide) hp
      rw [hpath, trimSlash_concat] at h
      obtain ⟨hbegins, hrest⟩ := append_inj_of_unescape h hfront (unescape_escape front)
      refine ⟨?_, hrest⟩
      rw [heq, hbegins, hpath, escape_append]
      rfl
  · rintro ⟨hp, hu⟩
    rw [hp, hu, trimSlash_escape]

theorem url_director {route : Route} {r out : Request} {backend : BackendURL} (h : director route r = some (backend, out)) :
    out.url = if trimSlash backend.path = [] then r.url
      else { r.url with path := singleJoiningSlash backend.path r.url.path } := by
  unfold director at h
  split at h
  · cases h
  · rename_i effective _
    obtain ⟨rfl, rfl⟩ := Prod.mk.inj (Option.some.inj h)
    simp only [url_setForwardingHeaders]
    by_cases hnil : trimSlash effective.path = []
    · rw [if_pos hnil, if_neg (not_and_or.mpr ((trimSlash_eq_nil.mp hnil).imp not_not.mpr not_not.mpr))]
    · rw [if_neg hnil, if_pos (not_or.mp (mt trimSlash_eq_nil.mpr hnil))]

theorem url_toBackend {route : Route} {r : Request} {sent : Sent} (h : toBackend route r = some sent) :
    sent.request.url = if trimSlash sent.backend.path = [] then r.url
      else { r.url with path := singleJoiningSlash sent.backend.path r.url.path } := by
  have hproxy : ∀ r' : Request, r'.url = r.url → reverseProxy route r' = some sent →
      sent.request.url = if trimSlash sent.backend.path = [] then r.url
        else { r.url with path := singleJoiningSlash sent.backend.path r.url.path } := by
    intro r' hurl hsent
    unfold reverseProxy at hsent
    split at hsent
    · cases hsent
    · rename_i backend out hdirector
      simp only at hsent
      split_ifs at hsent
      obtain rfl := Option.some.inj hsent
      have hout := url_director hdirector
      rw [← hurl]
      exact hout
  unfold toBackend at h
  split_ifs at h with hws hgrpc
  · exact hproxy { r with header := r.header.set (str "TE") (str "trailers") } rfl h
  · exact hproxy r rfl h

end Paths

/-- **Prefixes of paths.** The backend is sent its escaped prefix, without a slash at the end, followed by the escaped
path of the client, exactly if there is nothing in front of such a slash, or if the request is no upgrade to a WebSocket
and both the prefix and the path are escaped as Go would do it. -/
theorem sentURL_escapedPath_iff {route : Route} {r : Request} {backend : BackendURL} {url : URL}
    (hsent : sentURL route r = some (backend, url)) {text raw : GoString} (hbackend : setPath text = some (backend.path, raw))
    {target : GoString} (htarget : setPath target = some (r.url.path, r.url.rawPath))
    (hslash : target.head? = some (byte '/')) :
    let escapedPrefix := URL.escapedPath ⟨backend.path, raw, []⟩
    url.escapedPath = trimSlash escapedPrefix ++ r.url.escapedPath ↔
      trimSlash escapedPrefix = [] ∨
        isWebSocketUpgrade r = false ∧ escapedPrefix = escape backend.path ∧ r.url.escapedPath = escape r.url.path := by
  intro escapedPrefix
  have hdecoded : unescape escapedPrefix = some backend.path := unescape_escapedPath ⟨backend.path, raw, []⟩
  have hempty : trimSlash escapedPrefix = [] → trimSlash backend.path = [] := by
    intro h
    rw [trimSlash_eq_nil]
    rcases trimSlash_eq_nil.mp h with h | h
    · rw [h] at hdecoded
      exact .inl (Option.some.inj hdecoded).symm
    · rw [h] at hdecoded
      exact .inr (Option.some.inj hdecoded).symm
  have hsame : r.url.escapedPath = trimSlash escapedPrefix ++ r.url.escapedPath ↔ trimSlash escapedPrefix = [] := by
    rw [eq_comm]
    exact List.append_left_eq_self
  unfold sentURL at hsent
  split_ifs at hsent with hws
  · obtain ⟨backend', -, heq⟩ := Option.map_eq_some_iff.mp hsent
    obtain ⟨-, rfl⟩ := Prod.mk.inj heq
    rw [hsame, hws]
    simp
  · obtain ⟨sent, htoBackend, heq⟩ := Option.map_eq_some_iff.mp hsent
    obtain ⟨rfl, rfl⟩ := Prod.mk.inj heq
    have hplain : isWebSocketUpgrade r = false := Bool.eq_false_iff.mpr hws
    rw [url_toBackend htoBackend]
    by_cases hpath : trimSlash sent.backend.path = []
    · rw [if_pos hpath, hsame]
      refine (or_iff_left_of_imp ?_).symm
      rintro ⟨-, hescaped, -⟩
      rw [hescaped, trimSlash_escape, hpath]
      rfl
    · have hhead := head_of_setPath htarget hslash
      rw [if_neg hpath, singleJoiningSlash_eq _ hhead,
        escapedPath_extended (unescape_of_setPath htarget) hhead hpath, eq_comm,
        append_escapedPath_iff ⟨sent.backend.path, raw, []⟩ r.url]
      simp only [mt hempty hpath, hplain, true_and, false_or]
      rfl

def apiRoute : Route := { target := some ⟨str "http", str "backend:80", str "/api"⟩ }

def asking (path raw : GoString) : Request := { method := str "GET", url := ⟨path, raw, []⟩, header := [] }

theorem sentURL_escapedPath_plain :
    ∃ backend url, sentURL apiRoute (asking (str "/a b") []) = some (backend, url) ∧
      url.escapedPath = str "/api" ++ (asking (str "/a b") []).url.escapedPath := by
  have hsent : sentURL apiRoute (asking (str "/a b") []) =
      some (⟨str "http", str "backend:80", str "/api"⟩, ⟨str "/api/a b", [], []⟩) := by decide +kernel
  have hbackend : setPath (str "/api") = some (str "/api", []) := by decide +kernel
  have htarget : setPath (str "/a%20b") = some (str "/a b", []) := by decide +kernel
  have hiff := sentURL_escapedPath_iff hsent hbackend htarget (by decide +kernel)
  exact ⟨_, _, hsent, hiff.mpr (by decide +kernel)⟩

theorem sentURL_escapedPath_encoded_slash :
    setPath (str "/a%2Fb") = some (str "/a/b", str "/a%2Fb") ∧
      (asking (str "/a/b") (str "/a%2Fb")).url.escapedPath = str "/a%2Fb" ∧
      (sentURL apiRoute (asking (str "/a/b") (str "/a%2Fb"))).map (fun sent => sent.2.escapedPath) =
        some (str "/api/a/b") := by
  decide +kernel

end EdgeQuota.Proxy
