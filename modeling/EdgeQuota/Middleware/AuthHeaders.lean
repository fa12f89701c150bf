import EdgeQuota.Middleware.Identity

/-! The headers that the authentication service asks for in the document of its answer. Of the answer only a part is
read, a document that does not fit the type is passed over as a whole, and the request goes on either way. -/

namespace EdgeQuota.Middleware
open Go Auth Json

def stringMembers : Value → List (GoString × GoString)
  | .object fs =>
    fs.filterMap fun f =>
      match f.2 with
      | .string s => some (f.1, s)
      | _ => none
  | _ => []

def headerEntries : Value → List (GoString × GoString)
  | .object members => members.flatMap fun m => if m.1 = str "request_headers" then stringMembers m.2 else []
  | _ => []

def Answered (clock : Clock) (resp : HTTPResponse) (o : Outcomes) : Prop :=
  o.cachedAuth = none ∧ ∃ lines, lines.Perm (checkHTTP clock resp).requestHeaders ∧
    o.authCheck = some { checkHTTP clock resp with requestHeaders := lines }

/-- Every entry that is not denied is set on the request that goes on to rate limiting, and on the one that is
handed to the proxy. -/
def HeadersKept (c : Chain) (clock : Clock) (resp : HTTPResponse) (entries : List (GoString × GoString)) : Prop :=
  ∀ o, Answered clock resp o → ∀ r,
    (∀ s r', (c.runAuth o r s).1 = some r' →
      ∀ l ∈ entries, c.injectable (canonicalHeaderKey l.1) = true → r'.header.values l.1 = [l.2]) ∧
    (∀ r' w, .next r' w ∈ (c.serveHTTP o r {}).trace → ¬c.Bypassed r →
      ∀ l ∈ entries, c.injectable (canonicalHeaderKey l.1) = true → r'.header.values l.1 = [l.2])

def Agrees (c : Chain) (entries lines : List (GoString × GoString)) : Prop :=
  ∀ l ∈ entries, c.injectable (canonicalHeaderKey l.1) = true →
    (∃ l' ∈ lines, canonicalHeaderKey l'.1 = canonicalHeaderKey l.1) ∧
      ∀ l' ∈ lines, canonicalHeaderKey l'.1 = canonicalHeaderKey l.1 → l'.2 = l.2

section Lines
variable {lines : List (GoString × GoString)} {key value : GoString}

theorem mem_of_lastValue (h : Header.lastValue lines key = some value) :
    ∃ l ∈ lines, canonicalHeaderKey l.1 = canonicalHeaderKey key ∧ l.2 = value := by
  obtain ⟨l, hfind, rfl⟩ := Option.map_eq_some_iff.mp h
  have hmem := List.mem_of_find?_eq_some hfind
  have hsame := List.find?_some hfind
  exact ⟨l, List.mem_reverse.mp hmem, of_decide_eq_true hsame, rfl⟩

theorem lastValue_isSome {l : GoString × GoString} (hl : l ∈ lines)
    (hsame : canonicalHeaderKey l.1 = canonicalHeaderKey key) : ∃ v, Header.lastValue lines key = some v := by
  have hfind : (lines.reverse.find? fun l => canonicalHeaderKey l.1 = canonicalHeaderKey key).isSome = true := by
    rw [List.find?_isSome]
    exact ⟨l, List.mem_reverse.mpr hl, decide_eq_true hsame⟩
  obtain ⟨found, hfound⟩ := Option.isSome_iff_exists.mp hfind
  exact ⟨found.2, by rw [Header.lastValue, hfound]; rfl⟩

theorem lastValue_concat (lines : List (GoString × GoString)) {l : GoString × GoString}
    (hsame : canonicalHeaderKey l.1 = canonicalHeaderKey key) : Header.lastValue (lines ++ [l]) key = some l.2 := by
  unfold Header.lastValue
  rw [List.reverse_concat, List.find?_cons]
  simp only [hsame, decide_true]
  rfl

theorem agrees_iff (c : Chain) (entries lines : List (GoString × GoString)) :
    Agrees c entries lines ↔ ∀ l ∈ entries, c.injectable (canonicalHeaderKey l.1) = true →
      ∀ lines' : List (GoString × GoString), lines'.Perm lines →
        Header.lastValue (lines'.filter fun l => c.injectable (canonicalHeaderKey l.1)) l.1 = some l.2 := by
  refine forall₃_congr fun l hl hinjectable => ?_
  constructor
  · rintro ⟨⟨l', hl', hsame⟩, hall⟩ lines' hperm
    have hkept : l' ∈ lines'.filter fun l => c.injectable (canonicalHeaderKey l.1) := by
      rw [List.mem_filter, hsame]
      exact ⟨hperm.mem_iff.mpr hl', hinjectable⟩
    obtain ⟨v, hv⟩ := lastValue_isSome hkept hsame
    obtain ⟨l'', hl'', hsame', rfl⟩ := mem_of_lastValue hv
    rw [hv, hall l'' (hperm.mem_iff.mp (List.mem_of_mem_filter hl'')) hsame']
  · intro h
    refine ⟨?_, fun l' hl' hsame => ?_⟩
    · obtain ⟨l', hl', hsame, -⟩ := mem_of_lastValue (h lines (List.Perm.refl lines))
      exact ⟨l', List.mem_of_mem_filter hl', hsame⟩
    · -- the order in which that line comes last
      have hlast := h (lines.erase l' ++ [l']) ((List.perm_append_singleton _ _).trans (List.perm_cons_erase hl').symm)
      rw [List.filter_append, List.filter_singleton, hsame, hinjectable] at hlast
      simp only [cond_true] at hlast
      rw [lastValue_concat _ hsame] at hlast
      exact Option.some.inj hlast

end Lines

theorem requestHeaders_checkHTTP {resp : HTTPResponse} (clock : Clock) (hok : resp.statusCode = 200) :
    (checkHTTP clock resp).requestHeaders =
      ((WireResponse.unmarshal (resp.body.take 4096)).map fun parsed => derefStringMap parsed.requestHeaders).getD [] := by
  have hempty : WireResponse.unmarshal [] = none := rfl
  have hparsed : (if resp.body.take 4096 = [] then none else WireResponse.unmarshal (resp.body.take 4096)) =
      WireResponse.unmarshal (resp.body.take 4096) := by
    split_ifs with hnil
    · rw [hnil, hempty]
    · rfl
  unfold checkHTTP
  dsimp only
  rw [if_pos hok, hparsed]
  obtain ⟨age, noStore, heq⟩ := resolveHTTPCacheTTL_eq clock resp.header _
  rw [heq]
  cases WireResponse.unmarshal (resp.body.take 4096) <;> rfl

theorem allowed_checkHTTP {resp : HTTPResponse} (clock : Clock) (hok : resp.statusCode = 200) :
    (checkHTTP clock resp).allowed = true := by
  obtain ⟨parsed, -, heq⟩ := checkHTTP_ok clock hok
  obtain ⟨age, noStore, hresolved⟩ := resolveHTTPCacheTTL_eq clock resp.header
    { checkResponseFromHTTP parsed with allowed := true, statusCode := 200, denyBody := [], responseHeaders := [] }
  rw [heq, hresolved]

theorem authorized_checkHTTP {c : Chain} (hclient : c.authClient = true) {clock : Clock} {resp : HTTPResponse}
    (hok : resp.statusCode = 200) {o : Outcomes} {lines : List (GoString × GoString)} (hcached : o.cachedAuth = none)
    (hcheck : o.authCheck = some { checkHTTP clock resp with requestHeaders := lines }) (r : Request) :
    c.authorized o r = some (c.injectRequestHeaders r lines) := by
  unfold Chain.authorized
  rw [if_pos hclient, hcached, hcheck]
  exact if_pos (allowed_checkHTTP clock hok)

theorem values_injectRequestHeaders (c : Chain) (r : Request) (lines : List (GoString × GoString)) (name : GoString) :
    (c.injectRequestHeaders r lines).header.values name =
      (Header.lastValue (lines.filter fun l => c.injectable (canonicalHeaderKey l.1)) name).elim (r.header.values name)
        fun v => [v] := by
  rw [c.injectRequestHeaders_eq]
  exact Header.values_foldl_set _ _ _

theorem headersKept_iff_agrees (c : Chain) (hclient : c.authClient = true) (clock : Clock) {resp : HTTPResponse}
    (hok : resp.statusCode = 200) (entries : List (GoString × GoString)) :
    HeadersKept c clock resp entries ↔ Agrees c entries (checkHTTP clock resp).requestHeaders := by
  rw [agrees_iff]
  constructor
  · intro h l hl hinjectable lines hperm
    -- a request without headers of its own
    have hset := (h { authCheck := some { checkHTTP clock resp with requestHeaders := lines } } ⟨rfl, lines, hperm, rfl⟩
      plainRequest).1 { w := {} } _ (Chain.fst_runAuth.trans (authorized_checkHTTP hclient hok rfl rfl plainRequest)) l hl
      hinjectable
    rw [values_injectRequestHeaders] at hset
    cases hlast : Header.lastValue (lines.filter fun l => c.injectable (canonicalHeaderKey l.1)) l.1 with
    | none =>
      rw [hlast] at hset
      cases hset
    | some v =>
      rw [hlast] at hset
      exact congrArg some (List.singleton_injective hset)
  · rintro h o ⟨hcached, lines, hperm, hcheck⟩ r
    have hset : ∀ r, ∀ l ∈ entries, c.injectable (canonicalHeaderKey l.1) = true →
        (c.injectRequestHeaders r lines).header.values l.1 = [l.2] := by
      intro r l hl hinjectable
      rw [values_injectRequestHeaders, h l hl hinjectable lines hperm]
      rfl
    refine ⟨fun s r' hr' => ?_, fun r' w hnext hbypassed => ?_⟩
    · rw [Chain.fst_runAuth, authorized_checkHTTP hclient hok hcached hcheck] at hr'
      obtain rfl := Option.some.inj hr'
      exact hset r
    · rcases Chain.header_serveHTTP hnext with ⟨hb, -⟩ | ⟨-, a, ha, hheader⟩
      · exact absurd hb hbypassed
      · rw [authorized_checkHTTP hclient hok hcached hcheck] at ha
        obtain rfl := Option.some.inj ha
        rw [hheader]
        exact hset _

section Members
variable {fs : List (GoString × Value)} {m m' : StringMap}

theorem decodeMembers (hnames : (fs.map Prod.fst).Nodup)
    (h : fs.foldlM (fun (m : StringMap) f => (decodeString f.2 []).map (m.insert f.1)) m = some m') :
    (∀ f ∈ fs, ∀ s, decodeString f.2 [] = some s → (f.1, s) ∈ m'.entries) ∧
      (∀ l ∈ m.entries, l.1 ∉ fs.map Prod.fst → l ∈ m'.entries) ∧
      ∀ l ∈ m'.entries, l ∈ m.entries ∨ ∃ f ∈ fs, f.1 = l.1 ∧ decodeString f.2 [] = some l.2 := by
  induction fs generalizing m with
  | nil =>
    obtain rfl := Option.some.inj h
    exact ⟨by rintro f ⟨⟩, fun l hl _ => hl, fun l hl => .inl hl⟩
  | cons f fs ih =>
    rw [List.foldlM_cons] at h
    obtain ⟨inserted, hinsert, hrest⟩ := Option.bind_eq_some_iff.mp h
    obtain ⟨s, hs, rfl⟩ := Option.map_eq_some_iff.mp hinsert
    obtain ⟨hfresh, hnames⟩ := List.nodup_cons.mp hnames
    obtain ⟨hmembers, hkept, honly⟩ := ih hnames hrest
    refine ⟨?_, fun l hl hother => ?_, fun l hl => ?_⟩
    · intro g hg value hvalue
      rcases List.mem_cons.mp hg with rfl | hg
      · obtain rfl := Option.some.inj (hs.symm.trans hvalue)
        exact hkept (g.1, s) (List.mem_append_right _ (List.mem_singleton_self _)) hfresh
      · exact hmembers g hg value hvalue
    · obtain ⟨hne, hother⟩ := not_or.mp (mt List.mem_cons.mpr hother)
      exact hkept l (List.mem_append_left _ (List.mem_filter.mpr ⟨hl, decide_eq_true hne⟩)) hother
    · rcases honly l hl with hold | ⟨g, hg, hname, hvalue⟩
      · rcases List.mem_append.mp hold with hold | hnew
        · exact .inl (List.mem_of_mem_filter hold)
        · obtain rfl := List.mem_singleton.mp hnew
          exact .inr ⟨f, List.mem_cons_self .., rfl, hs⟩
      · exact .inr ⟨g, List.mem_cons_of_mem _ hg, hname, hvalue⟩

end Members

theorem requestHeaders_decodeMember {r r' : WireResponse} {member : GoString × Value}
    (hother : equalFold (str "request_headers") member.1 = false) (h : decodeMember WireResponse.fields r member = some r') :
    r'.requestHeaders = r.requestHeaders := by
  unfold decodeMember at h
  cases hfield : fieldFor WireResponse.fields member.1 with
  | none =>
    rw [hfield] at h
    rw [Option.some.inj h]
  | some fd =>
    rw [hfield] at h
    obtain ⟨hmem, hname⟩ : fd ∈ WireResponse.fields ∧ (fd.name = member.1 ∨ equalFold fd.name member.1 = true) := by
      rcases Option.or_eq_some_iff.mp hfield with hfind | ⟨-, hfind⟩
      · have hsame := List.find?_some hfind
        exact ⟨List.mem_of_find?_eq_some hfind, .inl (of_decide_eq_true hsame)⟩
      · have hfold := List.find?_some hfind
        exact ⟨List.mem_of_find?_eq_some hfind, .inr hfold⟩
    simp only [WireResponse.fields, List.mem_cons, List.not_mem_nil, or_false] at hmem
    rcases hmem with rfl | rfl | rfl | rfl | rfl | rfl | rfl | rfl
    case inr.inr.inr.inr.inr.inl =>
      exfalso
      rcases hname with hname | hfold
      · rw [← hname] at hother
        exact absurd hother (by decide +kernel)
      · exact Bool.false_ne_true (hother.symm.trans hfold)
    all_goals
      obtain ⟨x, -, rfl⟩ := Option.map_eq_some_iff.mp h
      rfl

theorem requestHeaders_foldlM {members : List (GoString × Value)}
    (hothers : ∀ member ∈ members, equalFold (str "request_headers") member.1 = false) {r r' : WireResponse}
    (h : members.foldlM (decodeMember WireResponse.fields) r = some r') : r'.requestHeaders = r.requestHeaders :=
  foldlM_induction (I := fun s => s.requestHeaders = r.requestHeaders)
    (fun _ _ _ hs hother hstep => (requestHeaders_decodeMember hother hstep).trans hs) hothers rfl h

def NamedOnce (v : Value) : Prop :=
  ∃ before fs after, v = .object (before ++ (str "request_headers", .object fs) :: after) ∧
    (∀ member ∈ before ++ after, equalFold (str "request_headers") member.1 = false) ∧
    (fs.map fun f => canonicalHeaderKey f.1).Nodup

theorem mem_of_headerEntries {before fs after : List (GoString × Value)}
    (hothers : ∀ member ∈ before ++ after, equalFold (str "request_headers") member.1 = false) {l : GoString × GoString}
    (hl : l ∈ headerEntries (.object (before ++ (str "request_headers", .object fs) :: after))) :
    (l.1, .string l.2) ∈ fs := by
  obtain ⟨member, hmember, hl⟩ := List.mem_flatMap.mp hl
  by_cases hname : member.1 = str "request_headers"
  · rw [if_pos hname] at hl
    have hnone : member ∉ before ++ after := by
      intro hother
      have hfold := hothers member hother
      rw [hname] at hfold
      exact absurd hfold (by decide +kernel)
    rw [List.mem_append, not_or] at hnone
    obtain rfl := (List.mem_cons.mp ((List.mem_append.mp hmember).resolve_left hnone.1)).resolve_right hnone.2
    obtain ⟨f, hf, hstring⟩ := List.mem_filterMap.mp hl
    obtain ⟨name, value⟩ := f
    cases value with
    | string s =>
      obtain rfl := Option.some.inj hstring
      exact hf
    | _ => cases hstring
  · rw [if_neg hname] at hl
    cases hl

theorem agrees_of_namedOnce (c : Chain) {v : Value} (h : NamedOnce v) {parsed : WireResponse}
    (hdecode : decodeStruct WireResponse.fields v {} = some parsed) :
    Agrees c (headerEntries v) (derefStringMap parsed.requestHeaders) := by
  obtain ⟨before, fs, after, rfl, hothers, hnames⟩ := h
  obtain ⟨hbefore, hafter⟩ := List.forall_mem_append.mp hothers
  rw [decodeStruct_object, List.foldlM_append] at hdecode
  obtain ⟨r₁, hr₁, hrest⟩ := Option.bind_eq_some_iff.mp hdecode
  rw [List.foldlM_cons] at hrest
  obtain ⟨r₂, hr₂, hr₃⟩ := Option.bind_eq_some_iff.mp hrest
  have hnone := requestHeaders_foldlM hbefore hr₁
  have hkept := requestHeaders_foldlM hafter hr₃
  obtain ⟨m, hm, hmap⟩ : ∃ m, decodeStringMap (.object fs) .empty = some m ∧ r₂.requestHeaders = some m := by
    obtain ⟨p, hp, rfl⟩ := Option.map_eq_some_iff.mp hr₂
    rw [hnone] at hp
    obtain ⟨m, hm, rfl⟩ := Option.map_eq_some_iff.mp hp
    exact ⟨m, hm, rfl⟩
  have hlines : derefStringMap parsed.requestHeaders = m.entries := by
    rw [hkept, hmap]
    rfl
  have hspelled : ((fs.map Prod.fst).map canonicalHeaderKey).Nodup := by
    rw [List.map_map]
    exact hnames
  obtain ⟨hmembers, -, honly⟩ := decodeMembers hspelled.of_map hm
  rw [hlines]
  intro l hl hinjectable
  have hmem := mem_of_headerEntries hothers hl
  refine ⟨⟨l, hmembers _ hmem l.2 rfl, rfl⟩, fun l' hl' hsame => ?_⟩
  rcases honly l' hl' with hempty | ⟨f, hf, hname, hvalue⟩
  · cases hempty
  · have hone : f = (l.1, .string l.2) := List.inj_on_of_nodup_map hnames hf hmem (by rw [hname, hsame])
    rw [hone] at hvalue
    exact (Option.some.inj hvalue).symm

/-- **Headers of the authentication service.** After an answer with 200 whose body is a JSON document, every entry of
`request_headers` that is not denied is set on the request that goes on, exactly if there is no such entry, or if the
first 4096 bytes of the body decode and the headers decoded have the values of these entries under their names and no
others. It is enough that the body is that short, decodes, and names the headers once, each in a spelling of its own. -/
theorem auth_headers_kept_iff (c : Chain) (hclient : c.authClient = true) (clock : Clock) {resp : HTTPResponse}
    (hok : resp.statusCode = 200) {v : Value} (hjson : Json.parse resp.body = some v) :
    (HeadersKept c clock resp (headerEntries v) ↔
      (∀ l ∈ headerEntries v, c.injectable (canonicalHeaderKey l.1) = false) ∨
        ∃ parsed, WireResponse.unmarshal (resp.body.take 4096) = some parsed ∧
          Agrees c (headerEntries v) (derefStringMap parsed.requestHeaders)) ∧
    (resp.body.length ≤ 4096 → (∃ parsed, decodeStruct WireResponse.fields v {} = some parsed) → NamedOnce v →
      HeadersKept c clock resp (headerEntries v)) := by
  rw [headersKept_iff_agrees c hclient clock hok, requestHeaders_checkHTTP clock hok]
  refine ⟨?_, fun hlength hdecode honce => ?_⟩
  · cases hunmarshal : WireResponse.unmarshal (resp.body.take 4096) with
    | none =>
      simp only [Option.map_none, Option.getD_none, reduceCtorEq, false_and, exists_false, or_false]
      constructor
      · intro h l hl
        refine Bool.eq_false_iff.mpr fun hinjectable => ?_
        obtain ⟨⟨l', hl', -⟩, -⟩ := h l hl hinjectable
        cases hl'
      · exact fun h l hl hinjectable => absurd hinjectable (Bool.eq_false_iff.mp (h l hl))
    | some parsed =>
      simp only [Option.map_some, Option.getD_some, Option.some.injEq, exists_eq_left']
      refine ⟨Or.inr, ?_⟩
      rintro (hdenied | hagrees)
      · exact fun l hl hinjectable => absurd hinjectable (Bool.eq_false_iff.mp (hdenied l hl))
      · exact hagrees
  · obtain ⟨parsed, hdecode⟩ := hdecode
    have hunmarshal : WireResponse.unmarshal (resp.body.take 4096) = some parsed := by
      rw [List.take_of_length_le hlength]
      unfold WireResponse.unmarshal Json.unmarshal
      rw [hjson]
      exact hdecode
    rw [hunmarshal]
    exact agrees_of_namedOnce c honce hdecode

def tenantBody (more : GoString) : GoString :=
  str "\x7b\"request_headers\":\x7b\"X-Tenant-Id\":\"acme\"\x7d" ++ more ++ str "\x7d"

def tenantOf (body : GoString) : Option (List GoString) :=
  (trusting.runAuth { authCheck := some (checkHTTP {} { statusCode := 200, body := body }) } plainRequest { w := {} }).1.map
    fun r' => r'.header.values (str "X-Tenant-Id")

theorem auth_headers_kept_short :
    ∃ v, Json.parse (tenantBody []) = some v ∧ headerEntries v = [(str "X-Tenant-Id", str "acme")] ∧
      HeadersKept trusting {} { statusCode := 200, body := tenantBody [] } (headerEntries v) := by
  have hjson : Json.parse (tenantBody []) =
      some (.object [(str "request_headers", .object [(str "X-Tenant-Id", .string (str "acme"))])]) := rfl
  have honce : NamedOnce (.object [(str "request_headers", .object [(str "X-Tenant-Id", .string (str "acme"))])]) :=
    ⟨[], [(str "X-Tenant-Id", .string (str "acme"))], [], rfl, by simp, by simp⟩
  have hkept := (auth_headers_kept_iff trusting rfl {} (rfl : (⟨200, [], tenantBody []⟩ : HTTPResponse).statusCode = 200)
    hjson).2 (by decide +kernel) ⟨_, rfl⟩ honce
  exact ⟨_, hjson, rfl, hkept⟩

theorem auth_headers_lost :
    4096 < (tenantBody (List.replicate 4096 (byte ' '))).length ∧
      ∀ more ∈ [List.replicate 4096 (byte ' '), str ",\"cache_max_age_seconds\":\"60\""],
        (Json.parse (tenantBody more)).map headerEntries = some [(str "X-Tenant-Id", str "acme")] ∧
          tenantOf (tenantBody more) = some [] := by
  decide +kernel

end EdgeQuota.Middleware
