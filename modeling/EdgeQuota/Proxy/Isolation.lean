import EdgeQuota.Proxy.Ownership
import Mathlib.Data.List.ReduceOption

/-! Whose response a request is answered with. A cache key is one flat string, so slots keep to
the requests they were written for as long as no separator turns up inside a field and one value
tells the whole list of a header that responses vary on. -/

namespace EdgeQuota.Proxy
open Go Lib Cache

/-- The headers that net/http takes out of the header map of a request it reads. -/
def takenOut : List GoString := [str "Host", str "Transfer-Encoding", str "Trailer"]

/-- The values of a header as the client sent them: `Host` is read into a field of its own. -/
def sentValues (r : Request) (h : GoString) : List GoString :=
  if canonicalHeaderKey h = str "Host" then [r.host] else r.header.values h

/-- A hit delivers a response, not a pointer, and one that was given to a request with the same
method and target and the same values of every header it varies on. -/
def Outcome.Isolated : Outcome → Prop
  | .hit r s _ _ =>
    s.pointer = false ∧ r.method = s.storedFor.method ∧ r.url.escapedPath = s.storedFor.url.escapedPath ∧
      r.url.rawQuery = s.storedFor.url.rawQuery ∧
      ∀ h ∈ s.entry.vary, sentValues r h = sentValues s.storedFor h
  | .miss _ _ | .bypass _ | .purged _ => True

instance : DecidablePred Outcome.Isolated := fun o => by
  cases o <;> unfold Outcome.Isolated <;> infer_instance

structure FieldName (h : GoString) : Prop where
  valid : h.all validHeaderFieldByte = true
  plain : byte '|' ∉ h
  kept : canonicalHeaderKey h ∉ takenOut

structure Plain (names : List GoString) (r : Request) : Prop where
  query : byte '|' ∉ r.url.rawQuery
  single : ∀ h ∈ names, r.header.Single h
  values : ∀ h ∈ names, byte '|' ∉ r.header.get h

def PlainTask (names : List GoString) : Task → Prop
  | .request r _ => Plain names r
  | .delete _ | .deleteByTag _ => True

def Listed (maxBodySize : ℕ) (names : List GoString) : Command → Surroundings → Prop
  | .upstream r w, env =>
    ∀ h ∈ ((CachingResponseWriter.new w r).relay maxBodySize env.handling).vary, h ∈ names
  | _, _ => True

instance : DecidablePred FieldName := fun h =>
  decidable_of_iff (h.all validHeaderFieldByte = true ∧ byte '|' ∉ h ∧ canonicalHeaderKey h ∉ takenOut)
    ⟨fun h => ⟨h.1, h.2.1, h.2.2⟩, fun h => ⟨h.1, h.2, h.3⟩⟩

instance (names : List GoString) (r : Request) : Decidable (Plain names r) :=
  decidable_of_iff (byte '|' ∉ r.url.rawQuery ∧ (∀ h ∈ names, r.header.Single h) ∧
    ∀ h ∈ names, byte '|' ∉ r.header.get h) ⟨fun h => ⟨h.1, h.2.1, h.2.2⟩, fun h => ⟨h.1, h.2, h.3⟩⟩

instance (names : List GoString) : DecidablePred (PlainTask names) := fun t => by
  cases t <;> unfold PlainTask <;> infer_instance

instance (maxBodySize : ℕ) (names : List GoString) (c : Command) (env : Surroundings) :
    Decidable (Listed maxBodySize names c env) := by
  cases c <;> unfold Listed <;> infer_instance

variable {names : List GoString} {maxBodySize : ℕ}

theorem FieldName.ascii {h : GoString} (hn : FieldName h) : ∀ c ∈ h, c < 0x80 := by
  intro c hc
  exact validHeaderFieldByte_ascii (List.all_eq_true.mp hn.valid c hc)

theorem FieldName.notMem_eq {h : GoString} (hn : FieldName h) : byte '=' ∉ h := by
  intro hc
  have := List.all_eq_true.mp hn.valid _ hc
  revert this
  decide +kernel

theorem FieldName.sentValues {h : GoString} (hn : FieldName h) (r : Request) :
    sentValues r h = r.header.values h := by
  refine if_neg fun hhost => hn.kept ?_
  rw [hhost]
  exact List.mem_cons_self

theorem Plain.legible (hnames : ∀ h ∈ names, FieldName h) {r : Request} (hr : Plain names r)
    (hget : r.method = str "GET") {vary : List GoString} (hv : ∀ h ∈ vary, h ∈ names) : Legible r vary where
  method := by
    rw [hget]
    decide +kernel
  query := hr.query
  names := fun h hh => ⟨(hnames h (hv h hh)).plain, (hnames h (hv h hh)).notMem_eq⟩
  values := fun h hh => hr.values h (hv h hh)

/-- A slot holds what its key says: a response under the key of its request and its `Vary`, or a
pointer under the base key of its request. -/
structure Owned (names : List GoString) (key : GoString) (s : Stored) : Prop where
  plain : Plain names s.storedFor
  method : s.storedFor.method = str "GET"
  listed : ∀ h ∈ s.entry.vary, h ∈ names
  key_eq : key = keyFromRequest s.storedFor (if s.pointer then [] else s.entry.vary)
  varies : s.pointer = true → s.entry.vary ≠ []

theorem isolated_of_owned (hnames : ∀ h ∈ names, FieldName h) {r : Request} (hr : Plain names r)
    (hget : r.method = str "GET") {vary : List GoString} (hv : ∀ h ∈ vary, h ∈ names) {s : Stored}
    (hs : Owned names (keyFromRequest r vary) s) (hvary : vary = [] → s.entry.vary = []) (now : ℤ)
    (w : ResponseWriter) : (Outcome.hit r s now w).Isolated := by
  have hlisted : ∀ h ∈ (if s.pointer = true then [] else s.entry.vary), h ∈ names := by
    split_ifs
    · exact nofun
    · exact hs.listed
  obtain ⟨hmethod, hpath, hquery, hperm, hvalues⟩ := keyFromRequest_inj (hr.legible hnames hget hv)
    (hs.plain.legible hnames hs.method hlisted) hs.key_eq
  have hpointer : s.pointer = false := by
    -- a pointer sits under a base key, and a base key is read only for its own request
    by_contra hp
    rw [Bool.not_eq_false] at hp
    rw [if_pos hp, List.perm_nil] at hperm
    exact hs.varies hp (hvary hperm)
  rw [hpointer, if_neg Bool.false_ne_true] at hvalues
  refine ⟨hpointer, hmethod, hpath, hquery, fun h hh => ?_⟩
  have hname := hnames h (hs.listed h hh)
  rw [hname.sentValues, hname.sentValues, Header.values_eq_of_single (hr.single h (hs.listed h hh)),
    Header.values_eq_of_single (hs.plain.single h (hs.listed h hh)), hvalues h hh]

theorem Owned.marshal (hnames : ∀ h ∈ names, FieldName h) {key : GoString} {s : Stored} (hs : Owned names key s) :
    Owned names key { s with entry := s.entry.marshal } := by
  have hvary : s.entry.marshal.vary = s.entry.vary := by
    refine (List.map_congr_left fun h hh => ?_).trans (List.map_id' _)
    exact toValidUTF8_ascii (hnames h (hs.listed h hh)).ascii
  exact ⟨hs.plain, hs.method, hvary.symm ▸ hs.listed, by simpa only [hvary] using hs.key_eq,
    fun hp => hvary.symm ▸ hs.varies hp⟩

theorem stores_owned (hnames : ∀ h ∈ names, FieldName h) {cw : CachingResponseWriter} (hreq : Plain names cw.req)
    (hget : cw.req.method = str "GET") (hvary : ∀ h ∈ cw.vary, h ∈ names) : Stores (Owned names) cw where
  response body now := Owned.marshal hnames (s := cw.responseEntry body now) ⟨hreq, hget, hvary, rfl, nofun⟩
  pointer hne now := Owned.marshal hnames (s := cw.pointerEntry now)
    ⟨hreq, hget, hvary, rfl, fun _ hv => hne (congrArg (keyFromRequest cw.req) hv)⟩

theorem answers_owned (hnames : ∀ h ∈ names, FieldName h) {r : Request} (hr : Plain names r)
    (hget : r.method = str "GET") (w : ResponseWriter) : Answers (Owned names) Outcome.Isolated r w where
  plain s hs hkey := by
    have hnil : s.entry.vary = [] := by
      by_contra hv
      have hbase : Legible r [] := hr.legible hnames hget (by simp)
      refine hv (List.perm_nil.mp ?_)
      exact (keyFromRequest_inj (hr.legible hnames hget hs.listed) hbase (hkey hv)).2.2.2.1
    exact fun now => isolated_of_owned hnames hr hget (by simp) hs (fun _ => hnil) now _
  variant s s' hs hvary hs' now := isolated_of_owned hnames hr hget hs.listed hs' (fun h => absurd h hvary) now _
  miss _ := trivial

theorem guards_owned (hnames : ∀ h ∈ names, FieldName h) {t : Task} (ht : PlainTask names t) :
    Guards (Listed maxBodySize names) (Owned names) Outcome.Isolated (perform maxBodySize t) := by
  refine guards_perform maxBodySize (fun r w hrequest => ?_) fun _ => trivial
  subst hrequest
  refine guards_serveHTTP (fun hget => answers_owned hnames ht hget w) trivial fun hget env hlisted _ => ?_
  have hreq := CachingResponseWriter.req_relay maxBodySize (CachingResponseWriter.new w r) env.handling
  exact stores_owned hnames (hreq.symm ▸ ht) (hreq.symm ▸ hget) hlisted

/-- **Slot isolation.** In every interleaving of requests and purges in which queries hold no `|`,
the headers listed in `Vary` are field names without it that net/http leaves in the header map, and
each request has at most one value of each of them, neither empty nor with a `|` in it, every hit answers
a request with a response to the same target and the same values of the headers it varies on. -/
theorem cache_isolation (hnames : ∀ h ∈ names, FieldName h) {es : List (Sched Task Surroundings)}
    (hes : (proxy maxBodySize).Along (Pool.Within (PlainTask names) (Listed maxBodySize names))
      (Pool.init World.empty) es) :
    ∀ o, some o ∈ (proxy maxBodySize).outputs (Pool.init World.empty) es → o.Isolated :=
  Pool.interleave_sound (fun _ ht => guards_owned hnames ht) holds_empty hes

def getRequest (path query : String) (lines : List (String × String)) : Request :=
  { method := str "GET"
    url := ⟨str path, [], str query⟩
    header := lines.map fun l => (str l.1, str l.2) }

def atHost (host : String) : Request := { getRequest "/p" "q" [] with host := str host }

def varying (name body : String) : Surroundings :=
  { handling :=
    { ops :=
      [.addHeader (str "Cache-Control") (str "max-age=60"), .addHeader (str "Vary") (str name),
        .writeHeader 200, .write (str body) (str body).length] } }

def alone (r : Request) (env : Surroundings) : List (Sched Task Surroundings) :=
  .start 0 (.request r {}) :: List.replicate 10 (.step 0 env)

def hits (os : List (Option Outcome)) : List (Request × Stored) :=
  os.filterMap fun
    | some (.hit r s _ _) => some (r, s)
    | _ => none

theorem cache_isolation_same_header :
    (hits ((proxy 1024).outputs (Pool.init World.empty)
      (alone (getRequest "/p" "q" [("X", "a")]) (varying "X" "body") ++
        alone (getRequest "/p" "q" [("X", "a")]) (varying "X" "body")))).length = 1 ∧
    ((proxy 1024).outputs (Pool.init World.empty)
      (alone (getRequest "/p" "q" [("X", "a")]) (varying "X" "body") ++
        alone (getRequest "/p" "q" [("X", "a")]) (varying "X" "body"))).reduceOption.Forall Outcome.Isolated := by
  have hnames : ∀ h ∈ [str "X"], FieldName h := by decide +kernel
  refine ⟨by decide +kernel, List.forall_iff_forall_mem.mpr fun o ho => ?_⟩
  exact cache_isolation hnames (by decide +kernel) o (List.reduceOption_mem_iff.mp ho)

/-- Two header lists with the same first value share a slot; a query that spells out a variant puts
its own pointer where the variant of another target is looked up; and responses that vary on `Host`
share one slot, since the header map holds no `Host`. -/
theorem cache_isolation_fails :
    (hits ((proxy 1024).outputs (Pool.init World.empty)
      (alone (getRequest "/p" "q" [("X", "a"), ("X", "b")]) (varying "X" "for b") ++
        alone (getRequest "/p" "q" [("X", "a"), ("X", "c")]) (varying "X" "for c")))).map (fun p =>
      (p.1.header.values (str "X"), p.2.storedFor.header.values (str "X"), p.2.entry.vary, p.2.entry.body)) =
        [([str "a", str "c"], [str "a", str "b"], [str "X"], str "for b")] ∧
    (hits ((proxy 1024).outputs (Pool.init World.empty)
      (alone (getRequest "/p" "q" [("X", "a")]) (varying "X" "body") ++
        alone (getRequest "/p" "q|X=a" []) (varying "Y" "other") ++
        alone (getRequest "/p" "q" [("X", "a")]) (varying "X" "body")))).map (fun p =>
      (p.1.url.rawQuery, p.2.storedFor.url.rawQuery, p.2.pointer, p.2.entry.body)) =
        [(str "q", str "q|X=a", true, [])] ∧
    (hits ((proxy 1024).outputs (Pool.init World.empty)
      (alone (atHost "a.example") (varying "Host" "for a") ++ alone (atHost "b.example") (varying "Host" "for b")))).map
      (fun p => (p.1.host, p.2.storedFor.host, p.2.entry.vary, p.2.entry.body)) =
        [(str "b.example", str "a.example", [str "Host"], str "for a")] :=
  ⟨by decide +kernel, by decide +kernel, by decide +kernel⟩

end EdgeQuota.Proxy
