import EdgeQuota.Go.Http
import EdgeQuota.Lib.FlatText

/-! Which headers of a request the external services are shown, and the text that stands for a request
wherever an answer of theirs is shared. -/

namespace EdgeQuota.Config
open Go Lib

structure HeaderFilterConfig where
  allowList : List GoString := []
  denyList : List GoString := []

def defaultSensitiveHeaders : List GoString :=
  [str "Authorization", str "Cookie", str "Set-Cookie", str "Proxy-Authorization", str "Proxy-Authenticate",
   str "X-Api-Key", str "X-Csrf-Token", str "X-Xsrf-Token"]

def defaultAuthDenyHeaders : List GoString :=
  [str "Cookie", str "Set-Cookie", str "Proxy-Authorization", str "Proxy-Authenticate", str "X-Csrf-Token",
   str "X-Xsrf-Token"]

def defaultEphemeralHeaders : List GoString :=
  [str "Traceparent", str "Tracestate", str "X-B3-Traceid", str "X-B3-Spanid", str "X-B3-Parentspanid",
   str "X-B3-Sampled", str "X-B3-Flags", str "B3", str "Uber-Trace-Id", str "X-Amzn-Trace-Id",
   str "X-Cloud-Trace-Context", str "X-Request-Id", str "X-Correlation-Id", str "Request-Id", str "X-Req-Id",
   str "X-Envoy-Attempt-Count", str "X-Envoy-External-Address", str "X-Envoy-Decorator-Operation",
   str "X-Envoy-Upstream-Service-Time", str "X-Forwarded-For", str "X-Forwarded-Proto", str "X-Forwarded-Host",
   str "X-Forwarded-Port", str "X-Real-Ip", str "Forwarded", str "Via", str "X-Amz-Cf-Id", str "Cf-Ray",
   str "Cdn-Loop", str "X-Request-Start", str "X-Queue-Start", str "True-Client-Ip"]

def buildEphemeralSet : List GoString := defaultEphemeralHeaders.map toLower

structure HeaderFilter where
  allowSet : Option (List GoString) := none
  denySet : Option (List GoString) := none

def newHeaderFilter (cfg : HeaderFilterConfig) : HeaderFilter :=
  if cfg.allowList ≠ [] then { allowSet := some (cfg.allowList.map toLower) }
  else
    let deny := if cfg.denyList = [] then defaultSensitiveHeaders else cfg.denyList
    { denySet := some (deny.map toLower) }

namespace HeaderFilter

def allowed (hf : HeaderFilter) (name : GoString) : Bool :=
  match hf.allowSet, hf.denySet with
  | some allow, _ => allow.contains (toLower name)
  | none, some deny => !deny.contains (toLower name)
  | none, none => true

def buildFilteredHeaderMap (hf : HeaderFilter) (h : Header) : StringMap :=
  h.foldl (fun m l => if hf.allowed l.1 && (m.find l.1).isNone then m.insert l.1 l.2 else m) .empty

end HeaderFilter

def stableHeaders (exclude : List GoString) (headers : StringMap) : List (GoString × GoString) :=
  (sortStrings (headers.names.filter fun k => toLower k ∉ exclude)).map fun k => (k, headers.get k)

def flatKey (exclude : List GoString) (method path : GoString) (headers : StringMap) : GoString :=
  flatText (byte '|') (byte '=') method path (stableHeaders exclude headers)

structure SameRequest (exclude : List GoString) (method path : GoString) (headers : StringMap)
    (method' path' : GoString) (headers' : StringMap) : Prop where
  method : method' = method
  path : path' = path
  header : ∀ name, toLower name ∉ exclude → headers'.find name = headers.find name

section Stable
variable {exclude : List GoString} {headers : StringMap}

theorem map_fst_stableHeaders (exclude : List GoString) (headers : StringMap) :
    (stableHeaders exclude headers).map Prod.fst = sortStrings (headers.names.filter fun k => toLower k ∉ exclude) := by
  rw [stableHeaders, List.map_map]
  exact List.map_id _

theorem mem_stableHeaders {name value : GoString} :
    (name, value) ∈ stableHeaders exclude headers ↔ toLower name ∉ exclude ∧ headers.find name = some value := by
  rw [stableHeaders, List.mem_map]
  constructor
  · rintro ⟨k, hk, heq⟩
    rw [mem_sortStrings, List.mem_filter, decide_eq_true_eq] at hk
    obtain ⟨l, hl, rfl⟩ := List.mem_map.mp hk.1
    obtain ⟨rfl, rfl⟩ := Prod.mk.inj heq
    rw [headers.get_of_mem hl]
    exact ⟨hk.2, headers.mem_entries_iff.mp hl⟩
  · rintro ⟨hstable, hfind⟩
    have hmem := headers.mem_entries_iff.mpr hfind
    refine ⟨name, ?_, Prod.ext rfl (headers.get_of_mem hmem)⟩
    rw [mem_sortStrings, List.mem_filter, decide_eq_true_eq]
    exact ⟨List.mem_map.mpr ⟨_, hmem, rfl⟩, hstable⟩

theorem stableHeaders_eq_nil :
    stableHeaders exclude headers = [] ↔ ∀ name, toLower name ∉ exclude → headers.find name = none := by
  rw [List.eq_nil_iff_forall_not_mem]
  constructor
  · intro h name hstable
    by_contra hne
    obtain ⟨value, hvalue⟩ := Option.ne_none_iff_exists'.mp hne
    exact h (name, value) (mem_stableHeaders.mpr ⟨hstable, hvalue⟩)
  · rintro h ⟨name, value⟩ hmem
    obtain ⟨hstable, hfind⟩ := mem_stableHeaders.mp hmem
    rw [h name hstable] at hfind
    cases hfind

theorem exists_stableHeaders_tail {f : GoString × GoString} {fs : List (GoString × GoString)}
    (h : stableHeaders exclude headers = f :: fs) : ∃ headers', stableHeaders exclude headers' = fs := by
  have hnames := map_fst_stableHeaders exclude headers
  have hsorted := pairwise_sortStrings (headers.names.filter fun k => toLower k ∉ exclude)
  have hnodup : (sortStrings (headers.names.filter fun k => toLower k ∉ exclude)).Nodup :=
    (perm_sortStrings _).nodup_iff.mpr (headers.nodup.filter _)
  rw [← hnames, h, List.map_cons] at hsorted hnodup
  have hstable : ∀ k ∈ fs.map Prod.fst, toLower k ∉ exclude := by
    intro k hk
    obtain ⟨l, hl, rfl⟩ := List.mem_map.mp hk
    exact (mem_stableHeaders.mp (h ▸ List.mem_cons_of_mem f hl)).1
  refine ⟨⟨fs, (List.nodup_cons.mp hnodup).2⟩, ?_⟩
  have hfilter : (fs.map Prod.fst).filter (fun k => toLower k ∉ exclude) = fs.map Prod.fst := by
    refine List.filter_eq_self.mpr fun k hk => ?_
    exact decide_eq_true (hstable k hk)
  rw [stableHeaders]
  show (sortStrings ((fs.map Prod.fst).filter fun k => toLower k ∉ exclude)).map _ = fs
  rw [hfilter, sortStrings_of_pairwise (List.pairwise_cons.mp hsorted).2, List.map_map]
  refine (List.map_congr_left fun l hl => ?_).trans (List.map_id fs)
  exact Prod.ext rfl (StringMap.get_of_mem _ hl)

end Stable

theorem flatKey_identifies_iff (exclude : List GoString) (method path : GoString) (headers : StringMap) :
    (∀ method' path' headers', flatKey exclude method' path' headers' = flatKey exclude method path headers →
      SameRequest exclude method path headers method' path' headers') ↔
    byte '|' ∉ method ∧ byte '|' ∉ path ∧ stableHeaders exclude headers = [] := by
  constructor
  · intro h
    refine ⟨fun hmem => ?_, fun hmem => ?_, ?_⟩
    · obtain ⟨a, b, rfl⟩ := List.append_of_mem hmem
      have hsame := h a (b ++ byte '|' :: path) headers (flatText_shift ..).symm
      have hlen := congrArg List.length hsame.method
      rw [List.length_append, List.length_cons] at hlen
      omega
    · obtain ⟨a, b, rfl⟩ := List.append_of_mem hmem
      have hsame := h (method ++ byte '|' :: a) b headers (flatText_shift ..)
      have hlen := congrArg List.length hsame.method
      rw [List.length_append, List.length_cons] at hlen
      omega
    · cases hfields : stableHeaders exclude headers with
      | nil => rfl
      | cons f fs =>
        obtain ⟨headers', htail⟩ := exists_stableHeaders_tail hfields
        have hkey : flatKey exclude method (path ++ byte '|' :: f.1 ++ byte '=' :: f.2) headers' =
            flatKey exclude method path headers := by
          rw [flatKey, flatKey, htail, hfields]
          exact flatText_fold ..
        have hlen := congrArg List.length (h _ _ _ hkey).path
        rw [List.length_append, List.length_append, List.length_cons, List.length_cons] at hlen
        omega
  · rintro ⟨hmethod, hpath, hnone⟩ method' path' headers' hkey
    rw [flatKey, flatKey, hnone] at hkey
    obtain ⟨rfl, rfl, hnone'⟩ := flatText_inj_of_bare hmethod hpath hkey
    refine ⟨rfl, rfl, fun name hstable => ?_⟩
    rw [stableHeaders_eq_nil.mp hnone name hstable, stableHeaders_eq_nil.mp hnone' name hstable]

/-- No separator in the method, the path and the headers that count, and no `=` in the name of one. -/
structure Separated (exclude : List GoString) (method path : GoString) (headers : StringMap) : Prop where
  method : byte '|' ∉ method
  path : byte '|' ∉ path
  header : ∀ f ∈ stableHeaders exclude headers, BareField (byte '|') (byte '=') f

theorem flatKey_identifies_separated {exclude : List GoString} {method path : GoString} {headers : StringMap}
    {method' path' : GoString} {headers' : StringMap} (h : Separated exclude method path headers)
    (h' : Separated exclude method' path' headers')
    (hkey : flatKey exclude method' path' headers' = flatKey exclude method path headers) :
    SameRequest exclude method path headers method' path' headers' := by
  obtain ⟨rfl, rfl, hfields⟩ := flatText_inj_of_bareFields (by decide) h.method h.path h.header h'.method h'.path
    h'.header hkey
  refine ⟨rfl, rfl, fun name hstable => Option.ext fun value => ?_⟩
  have hmem := congrArg ((name, value) ∈ ·) hfields
  simp only [mem_stableHeaders, hstable, not_false_eq_true, true_and, eq_iff_iff] at hmem
  exact hmem

end EdgeQuota.Config
