import EdgeQuota.RateLimit.KeyStrategy

/-! What the keys of the strategies identify: the address that a trusted proxy has seen, and the tenant and the path of
a composite key. -/

namespace EdgeQuota.RateLimit
open Go

def entriesOf (line : GoString) : List GoString := (line.splitOn (byte ',')).map trimSpace

def forwardedEntries (h : Header) : List GoString := (h.values (str "X-Forwarded-For")).flatMap entriesOf

def forwardedShape (h : Header) : List ℕ := (h.values (str "X-Forwarded-For")).map fun line => (entriesOf line).length

def fromRight (n : ℕ) (es : List GoString) : GoString := es.getD (es.length - n) []

def picked (n : ℕ) (line : GoString) : GoString :=
  (entriesOf line).getD (if n ≤ (entriesOf line).length then (entriesOf line).length - n else 0) []

theorem entriesOf_ne_nil (line : GoString) : entriesOf line ≠ [] := by
  unfold entriesOf
  rw [ne_eq, List.map_eq_nil_iff]
  exact List.splitOn_ne_nil _ _

theorem length_forwardedEntries (h : Header) : (forwardedEntries h).length = (forwardedShape h).sum := by
  unfold forwardedEntries forwardedShape
  rw [List.length_flatMap]

theorem forwardedIP_of_picked {n : ℕ} (hn : 1 ≤ n) {h : Header} {line : GoString} {lines : List GoString}
    (hlines : h.values (str "X-Forwarded-For") = line :: lines) (hpicked : picked n line ≠ []) :
    forwardedIP n h = some (picked n line) := by
  have hget : h.get (str "X-Forwarded-For") = line := by rw [Header.get, hlines, List.headD_cons]
  have hline : line ≠ [] := by
    rintro rfl
    apply hpicked
    have hempty : entriesOf [] = [[]] := by decide
    unfold picked
    rw [hempty]
    cases (if n ≤ [([] : GoString)].length then [([] : GoString)].length - n else 0) <;> rfl
  have hidx : (if 0 < (n : ℤ) ∧ (n : ℤ) ≤ (entriesOf line).length then (entriesOf line).length - (n : ℤ).toNat else 0) =
      if n ≤ (entriesOf line).length then (entriesOf line).length - n else 0 := by
    have hpos : 0 < (n : ℤ) := by omega
    simp only [hpos, true_and, Nat.cast_le, Int.toNat_natCast]
  unfold forwardedIP
  simp only [hget]
  rw [← entriesOf, hidx, ← picked, if_pos ⟨hline, hpicked⟩]

section Picked
variable {h : Header} {n : ℕ}

theorem picked_of_one_line (hle : n ≤ (forwardedShape h).sum) {line : GoString}
    (hlines : h.values (str "X-Forwarded-For") = [line]) : picked n line = fromRight n (forwardedEntries h) := by
  have hentries : forwardedEntries h = entriesOf line := by
    unfold forwardedEntries
    rw [hlines, List.flatMap_singleton]
  have hlength : n ≤ (entriesOf line).length := by
    rw [← hentries, length_forwardedEntries]
    exact hle
  rw [picked, if_pos hlength, hentries, fromRight]

theorem picked_of_sum (hsum : (forwardedShape h).sum = n) {line : GoString} {lines : List GoString}
    (hlines : h.values (str "X-Forwarded-For") = line :: lines) :
    picked n line = fromRight n (forwardedEntries h) := by
  have hentries : forwardedEntries h = entriesOf line ++ lines.flatMap entriesOf := by
    unfold forwardedEntries
    rw [hlines, List.flatMap_cons]
  have hlength : (forwardedEntries h).length = n := (length_forwardedEntries h).trans hsum
  have hfirst : (entriesOf line).length ≤ n := by
    rw [← hlength, hentries, List.length_append]
    omega
  have hidx : (if n ≤ (entriesOf line).length then (entriesOf line).length - n else 0) = 0 := by
    split_ifs <;> omega
  obtain ⟨e, es, hcons⟩ := List.exists_cons_of_ne_nil (entriesOf_ne_nil line)
  rw [picked, hidx, fromRight, hlength, Nat.sub_self, hentries, hcons]
  rfl

end Picked

def mark (p i : ℕ) : GoString := if i = p then str "b" else str "a"

def markedLines (p : ℕ) : ℕ → List ℕ → List GoString
  | _, [] => []
  | i, k :: ks => join (byte ',') ((List.range' i k).map (mark p)) :: markedLines p (i + k) ks

theorem entriesOf_marked (p i : ℕ) {k : ℕ} (hk : 1 ≤ k) :
    entriesOf (join (byte ',') ((List.range' i k).map (mark p))) = (List.range' i k).map (mark p) := by
  have hmark : ∀ j, mark p j = str "b" ∨ mark p j = str "a" := by
    intro j
    unfold mark
    split_ifs
    · exact Or.inl rfl
    · exact Or.inr rfl
  have hcomma : ∀ e ∈ (List.range' i k).map (mark p), byte ',' ∉ e := by
    intro e he
    obtain ⟨j, -, rfl⟩ := List.mem_map.mp he
    rcases hmark j with h | h <;> rw [h] <;> decide
  have hne : (List.range' i k).map (mark p) ≠ [] := by
    rw [ne_eq, List.map_eq_nil_iff, List.range'_eq_nil_iff]
    omega
  unfold entriesOf join
  rw [List.splitOn_intercalate _ hcomma hne, List.map_map]
  apply List.map_congr_left
  intro j _
  rcases hmark j with h | h <;> rw [Function.comp_apply, h] <;> decide

theorem flatMap_markedLines (p i : ℕ) {ks : List ℕ} (hks : ∀ k ∈ ks, 1 ≤ k) :
    (markedLines p i ks).flatMap entriesOf = (List.range' i ks.sum).map (mark p) := by
  induction ks generalizing i with
  | nil => rfl
  | cons k ks ih =>
    obtain ⟨hk, hrest⟩ := List.forall_mem_cons.mp hks
    rw [markedLines, List.flatMap_cons, entriesOf_marked p i hk, ih (i + k) hrest, ← List.map_append, List.sum_cons,
      List.range'_append_1]

theorem length_markedLines (p i : ℕ) {ks : List ℕ} (hks : ∀ k ∈ ks, 1 ≤ k) :
    (markedLines p i ks).map (fun line => (entriesOf line).length) = ks := by
  induction ks generalizing i with
  | nil => rfl
  | cons k ks ih =>
    obtain ⟨hk, hrest⟩ := List.forall_mem_cons.mp hks
    rw [markedLines, List.map_cons, entriesOf_marked p i hk, ih (i + k) hrest, List.length_map, List.length_range']

theorem getD_marked (p : ℕ) {i k : ℕ} (h : i < k) : ((List.range' 0 k).map (mark p)).getD i [] = mark p i := by
  rw [List.getD_eq_getElem?_getD, List.getElem?_map, List.getElem?_range' h, Option.map_some, Option.getD_some, one_mul,
    Nat.zero_add]

def forwarded (addr : GoString) (lines : List GoString) : Request where
  method := str "GET"
  url := ⟨str "/", [], []⟩
  header := lines.map fun line => (str "X-Forwarded-For", line)
  remoteAddr := addr

theorem values_forwarded (addr : GoString) (lines : List GoString) :
    (forwarded addr lines).header.values (str "X-Forwarded-For") = lines := by
  have hcanon : canonicalHeaderKey (str "X-Forwarded-For") = str "X-Forwarded-For" := by decide
  change ((lines.map fun line => (str "X-Forwarded-For", line)).filter
    fun l => decide (l.1 = canonicalHeaderKey (str "X-Forwarded-For"))).map Prod.snd = lines
  rw [hcanon]
  induction lines with
  | nil => rfl
  | cons line lines ih =>
    rw [List.map_cons, List.filter_cons, decide_eq_true rfl, if_pos rfl, List.map_cons, ih]

theorem extract_of_trusted {nets : List Net.IPNet} {r : Request} {n : ℕ}
    (htrusted : isTrusted nets (remoteIP r.remoteAddr) = true) {ip : GoString}
    (hip : forwardedIP n r.header = some ip) : (KeyStrategy.clientIP nets n).extract r = .ok ip := by
  unfold KeyStrategy.extract clientIP
  simp only [htrusted, if_true, hip, Option.getD_some]

theorem exists_misread {nets : List Net.IPNet} {addr : GoString} (htrusted : isTrusted nets (remoteIP addr) = true)
    {n : ℕ} {ks : List ℕ} (hn : 1 ≤ n) (hks : ∀ k ∈ ks, 1 ≤ k) (hlt : n < ks.sum) (hlines : ks.length ≠ 1) :
    ∃ r : Request, r.remoteAddr = addr ∧ forwardedShape r.header = ks ∧
      fromRight n (forwardedEntries r.header) ≠ [] ∧
      (KeyStrategy.clientIP nets n).extract r ≠ .ok (fromRight n (forwardedEntries r.header)) := by
  obtain ⟨k, ks, rfl⟩ := List.exists_cons_of_ne_nil fun hnil : ks = [] => by
    rw [hnil, List.sum_nil] at hlt
    omega
  obtain ⟨k', ks', rfl⟩ := List.exists_cons_of_ne_nil fun hnil : ks = [] => hlines (by rw [hnil]; rfl)
  have hk : 1 ≤ k := hks k (by simp)
  have hk' : 1 ≤ k' := hks k' (by simp)
  set p := (k :: k' :: ks').sum - n with hp
  have hsum : (k :: k' :: ks').sum = k + (k' + ks'.sum) := by rw [List.sum_cons, List.sum_cons]
  set r := forwarded addr (markedLines p 0 (k :: k' :: ks')) with hr
  have hvalues : r.header.values (str "X-Forwarded-For") = markedLines p 0 (k :: k' :: ks') := values_forwarded _ _
  have hentries : forwardedEntries r.header = (List.range' 0 (k :: k' :: ks').sum).map (mark p) := by
    unfold forwardedEntries
    rw [hvalues, flatMap_markedLines p 0 hks]
  have hright : fromRight n (forwardedEntries r.header) = str "b" := by
    rw [hentries, fromRight, List.length_map, List.length_range', ← hp, getD_marked p (by omega), mark, if_pos rfl]
  have hpicked : picked n (join (byte ',') ((List.range' 0 k).map (mark p))) = str "a" := by
    have hidx : (if n ≤ k then k - n else 0) < k ∧ (if n ≤ k then k - n else 0) ≠ p := by
      rw [hsum] at hlt hp
      split_ifs <;> omega
    rw [picked, entriesOf_marked p 0 hk, List.length_map, List.length_range', getD_marked p hidx.1, mark, if_neg hidx.2]
  have hip : forwardedIP n r.header = some (str "a") := by
    rw [forwardedIP_of_picked hn hvalues (by rw [hpicked]; decide), hpicked]
  refine ⟨r, rfl, ?_, ?_, ?_⟩
  · unfold forwardedShape
    rw [hvalues, length_markedLines p 0 hks]
  · rw [hright]
    decide
  · rw [extract_of_trusted htrusted hip, hright]
    decide

/-- **Client addresses.** What is sent through no trusted proxy is charged to its remote address alone. Behind a trusted
proxy the key is the entry at the configured depth from the right, for all contents of lines with so many entries each,
exactly if there is one line or the list has just as many entries as the depth: of several lines only the first is read. -/
theorem client_ip_key_iff (nets : List Net.IPNet) :
    (∀ (depth : ℤ) (r r' : Request), isTrusted nets (remoteIP r.remoteAddr) = false → r'.remoteAddr = r.remoteAddr →
      (KeyStrategy.clientIP nets depth).extract r' = (KeyStrategy.clientIP nets depth).extract r) ∧
    ∀ addr, isTrusted nets (remoteIP addr) = true → ∀ (n : ℕ) (ks : List ℕ), 1 ≤ n → (∀ k ∈ ks, 1 ≤ k) → n ≤ ks.sum →
      ((∀ r : Request, r.remoteAddr = addr → forwardedShape r.header = ks →
          fromRight n (forwardedEntries r.header) ≠ [] →
          (KeyStrategy.clientIP nets n).extract r = .ok (fromRight n (forwardedEntries r.header))) ↔
        ks.length = 1 ∨ ks.sum = n) := by
  constructor
  · intro depth r r' huntrusted haddr
    unfold KeyStrategy.extract clientIP
    simp only [haddr, huntrusted, Bool.false_eq_true, if_false]
  · intro addr htrusted n ks hn hks hle
    constructor
    · intro hall
      by_contra hother
      rw [not_or] at hother
      obtain ⟨r, haddr, hshape, hne, hmisread⟩ :=
        exists_misread htrusted hn hks (lt_of_le_of_ne hle (Ne.symm hother.2)) hother.1
      exact hmisread (hall r haddr hshape hne)
    · intro hshapes r haddr hshape hne
      have htrusted' : isTrusted nets (remoteIP r.remoteAddr) = true := by rw [haddr, htrusted]
      subst hshape
      obtain ⟨line, lines, hlines⟩ := List.exists_cons_of_ne_nil
        fun hnil : r.header.values (str "X-Forwarded-For") = [] => by
          unfold forwardedShape at hle
          rw [hnil, List.map_nil, List.sum_nil] at hle
          omega
      have hpicked : picked n line = fromRight n (forwardedEntries r.header) := by
        rcases hshapes with hone | hsum
        · have hnil : lines = [] := by
            unfold forwardedShape at hone
            rw [hlines, List.length_map, List.length_cons] at hone
            exact List.length_eq_zero_iff.mp (by omega)
          rw [hnil] at hlines
          exact picked_of_one_line hle hlines
        · exact picked_of_sum hsum hlines
      rw [← hpicked] at hne ⊢
      exact extract_of_trusted htrusted' (forwardedIP_of_picked hn hlines hne)

theorem client_ip_key_forged :
    let cfg : Config.KeyStrategyConfig :=
      { type := .clientIP, trustedProxies := [str "10.0.0.0/8"], trustedIPDepth := 1 }
    let r := forwarded (str "10.0.0.1:4711") [str "6.6.6.6", str "198.51.100.7"]
    (∃ ks, newKeyStrategy cfg = .ok ks ∧ ks.extract r = .ok (str "6.6.6.6")) ∧
      fromRight 1 (forwardedEntries r.header) = str "198.51.100.7" := by
  intro cfg r
  exact ⟨⟨_, rfl, by decide +kernel⟩, by decide +kernel⟩

def segmentOf (path : GoString) : GoString :=
  if (cut (byte '/') path).2.isSome ∧ (cut (byte '/') path).1 ≠ [] then (cut (byte '/') path).1
  else if path = [] then str "root" else path

def firstSegment (path : GoString) : Option GoString := (path.splitOn (byte '/')).find? (· ≠ [])

section Segments
variable {a : GoString}

theorem segmentOf_plain (ha : byte '/' ∉ a) (hne : a ≠ []) : segmentOf a = a := by
  rw [segmentOf, cut_of_notMem ha, if_neg (by simp), if_neg hne]

theorem segmentOf_cut (ha : byte '/' ∉ a) (hne : a ≠ []) (x : GoString) : segmentOf (a ++ byte '/' :: x) = a := by
  rw [segmentOf, cut_append ha, if_pos ⟨rfl, hne⟩]

theorem segmentOf_slash (x : GoString) : segmentOf (byte '/' :: x) = byte '/' :: x := by
  have hcut : cut (byte '/') (byte '/' :: x) = ([], some x) := cut_append List.not_mem_nil x
  rw [segmentOf, hcut, if_neg (fun h => h.2 rfl), if_neg (List.cons_ne_nil _ _)]

theorem firstSegment_plain (ha : byte '/' ∉ a) (hne : a ≠ []) : firstSegment a = some a := by
  rw [firstSegment, List.splitOn_eq_singleton ha, List.find?_cons_of_pos (by simpa using hne)]

theorem firstSegment_cut (ha : byte '/' ∉ a) (hne : a ≠ []) (x : GoString) :
    firstSegment (a ++ byte '/' :: x) = some a := by
  rw [firstSegment, List.splitOn_append_cons_self_of_not_mem ha, List.find?_cons_of_pos (by simpa using hne)]

theorem firstSegment_slash (x : GoString) : firstSegment (byte '/' :: x) = firstSegment x := by
  have hsplit : (byte '/' :: x).splitOn (byte '/') = [] :: x.splitOn (byte '/') :=
    List.splitOn_append_cons_self_of_not_mem List.not_mem_nil x
  rw [firstSegment, hsplit, List.find?_cons_of_neg (by simp), firstSegment]

theorem path_cases (p : GoString) : p = [] ∨ (byte '/' ∉ p ∧ p ≠ []) ∨
    (∃ a x, p = a ++ byte '/' :: x ∧ byte '/' ∉ a ∧ a ≠ []) ∨ ∃ x, p = byte '/' :: x := by
  by_cases hmem : byte '/' ∈ p
  · obtain ⟨a, x, rfl, ha⟩ := List.eq_append_cons_of_mem hmem
    by_cases hnil : a = []
    · subst hnil
      exact Or.inr (Or.inr (Or.inr ⟨x, rfl⟩))
    · exact Or.inr (Or.inr (Or.inl ⟨a, x, rfl, ha, hnil⟩))
  · by_cases hnil : p = []
    · exact Or.inl hnil
    · exact Or.inr (Or.inl ⟨hmem, hnil⟩)

def IsSegment (s : GoString) : Prop := s ≠ [] ∧ (byte '/' ∉ s ∨ s.head? = some (byte '/'))

theorem segmentOf_isSegment (p : GoString) : IsSegment (segmentOf p) := by
  rcases path_cases p with rfl | ⟨hmem, hne⟩ | ⟨a, x, rfl, ha, hne⟩ | ⟨x, rfl⟩
  · exact ⟨by decide, by decide⟩
  · rw [segmentOf_plain hmem hne]
    exact ⟨hne, Or.inl hmem⟩
  · rw [segmentOf_cut ha hne]
    exact ⟨hne, Or.inl ha⟩
  · rw [segmentOf_slash]
    exact ⟨List.cons_ne_nil _ _, Or.inr rfl⟩

theorem segmentOf_of_isSegment {s : GoString} (hs : IsSegment s) : segmentOf s = s := by
  rcases path_cases s with rfl | ⟨hmem, hne⟩ | ⟨a, x, rfl, ha, hne⟩ | ⟨x, rfl⟩
  · exact absurd rfl hs.1
  · exact segmentOf_plain hmem hne
  · rcases hs.2 with hmem | hhead
    · simp at hmem
    · obtain ⟨c, a, rfl⟩ := List.exists_cons_of_ne_nil hne
      rw [List.cons_append, List.head?_cons, Option.some_inj] at hhead
      exact absurd (List.mem_cons.mpr (Or.inl hhead.symm)) ha
  · exact segmentOf_slash x

theorem segmentOf_eq {q : GoString} (hq : q.head? ≠ some (byte '/')) :
    segmentOf q = (firstSegment q).getD (str "root") ∧ byte '/' ∉ segmentOf q := by
  rcases path_cases q with rfl | ⟨hmem, hne⟩ | ⟨a, x, rfl, ha, hne⟩ | ⟨x, rfl⟩
  · decide
  · rw [segmentOf_plain hmem hne, firstSegment_plain hmem hne]
    exact ⟨rfl, hmem⟩
  · rw [segmentOf_cut ha hne, firstSegment_cut ha hne]
    exact ⟨rfl, ha⟩
  · exact absurd rfl hq

end Segments

def unslashed (path : GoString) : GoString := if path.head? = some (byte '/') then path.tail else path

theorem firstPathSegment_eq (path : GoString) : firstPathSegment path = segmentOf (unslashed path) := rfl

theorem firstPathSegment_slash (x : GoString) : firstPathSegment (byte '/' :: x) = segmentOf x := by
  rw [firstPathSegment_eq, unslashed, if_pos List.head?_cons, List.tail_cons]

theorem firstSegment_unslashed (path : GoString) : firstSegment (unslashed path) = firstSegment path := by
  unfold unslashed
  split_ifs with hhead
  · obtain ⟨x, rfl⟩ := List.head?_eq_some_iff.mp hhead
    rw [List.tail_cons, firstSegment_slash]
  · rfl

theorem doubled_iff (path : GoString) : str "//" <+: path ↔ (unslashed path).head? = some (byte '/') := by
  constructor
  · rintro ⟨x, rfl⟩
    rfl
  · intro hhead
    unfold unslashed at hhead
    split_ifs at hhead with hslash
    · obtain ⟨x, rfl⟩ := List.head?_eq_some_iff.mp hslash
      obtain ⟨y, hy⟩ := List.head?_eq_some_iff.mp hhead
      rw [List.tail_cons] at hy
      exact ⟨y, by rw [hy]; rfl⟩
    · exact absurd hhead hslash

theorem firstPathSegment_doubled (x : GoString) : firstPathSegment (str "//" ++ x) = byte '/' :: x :=
  (firstPathSegment_slash (byte '/' :: x)).trans (segmentOf_slash x)

theorem firstPathSegment_of_not_doubled {p : GoString} (hp : ¬str "//" <+: p) :
    firstPathSegment p = (firstSegment p).getD (str "root") ∧ byte '/' ∉ firstPathSegment p := by
  rw [doubled_iff] at hp
  rw [firstPathSegment_eq, ← firstSegment_unslashed p]
  exact segmentOf_eq hp

theorem firstPathSegment_ne_of_doubled {p p' : GoString} (hp : str "//" <+: p) (hp' : ¬str "//" <+: p') :
    firstPathSegment p ≠ firstPathSegment p' := by
  obtain ⟨x, rfl⟩ := hp
  intro heq
  apply (firstPathSegment_of_not_doubled hp').2
  rw [← heq, firstPathSegment_doubled]
  exact List.mem_cons_self

theorem firstPathSegment_eq_iff {p p' : GoString} (hsegment : firstSegment p = firstSegment p') :
    firstPathSegment p = firstPathSegment p' ↔ p = p' ∨ ¬str "//" <+: p ∧ ¬str "//" <+: p' := by
  by_cases hp : str "//" <+: p
  · by_cases hp' : str "//" <+: p'
    · obtain ⟨x, rfl⟩ := hp
      obtain ⟨x', rfl⟩ := hp'
      rw [firstPathSegment_doubled, firstPathSegment_doubled, List.cons_inj_right, List.append_right_inj]
      exact (or_iff_left fun h => h.1 (List.prefix_append _ _)).symm
    · refine iff_of_false (firstPathSegment_ne_of_doubled hp hp') ?_
      rintro (rfl | h)
      · exact hp' hp
      · exact h.1 hp
  · by_cases hp' : str "//" <+: p'
    · refine iff_of_false (firstPathSegment_ne_of_doubled hp' hp).symm ?_
      rintro (rfl | h)
      · exact hp hp'
      · exact h.2 hp'
    · rw [(firstPathSegment_of_not_doubled hp).1, (firstPathSegment_of_not_doubled hp').1, hsegment]
      exact iff_of_true rfl (Or.inr ⟨hp, hp'⟩)

theorem extract_composite {name : GoString} {r : Request} (hne : r.header.get name ≠ []) :
    (KeyStrategy.composite name true).extract r =
      .ok (r.header.get name ++ byte ':' :: firstPathSegment r.url.path) := by
  have hvalue : requiredHeader name r.header = .ok (r.header.get name) := if_neg hne
  simp only [KeyStrategy.extract, hvalue, if_true, List.append_assoc]
  rfl

theorem extract_composite_empty {name : GoString} {r : Request} (hnil : r.header.get name = []) :
    (KeyStrategy.composite name true).extract r =
      .error ⟨"header %q is empty or missing", [.str name], none⟩ := by
  have hvalue : requiredHeader name r.header = .error ⟨"header %q is empty or missing", [.str name], none⟩ := if_pos hnil
  simp only [KeyStrategy.extract, hvalue]

def tenantRequest (name tenant path : GoString) : Request where
  method := str "GET"
  url := ⟨path, [], []⟩
  header := [(canonicalHeaderKey name, tenant)]

theorem get_tenantRequest (name tenant path : GoString) :
    (tenantRequest name tenant path).header.get name = tenant := by
  unfold Header.get Header.values tenantRequest
  rw [List.filter_cons, decide_eq_true rfl, if_pos rfl]
  rfl

theorem extract_tenantRequest (name path : GoString) {tenant : GoString} (hne : tenant ≠ []) :
    (KeyStrategy.composite name true).extract (tenantRequest name tenant path) =
      .ok (tenant ++ byte ':' :: firstPathSegment path) := by
  have hget := get_tenantRequest name tenant path
  rw [extract_composite (by rw [hget]; exact hne), hget]
  rfl

theorem separated_eq {a b s t : GoString} {sep : UInt8} (h : a ++ sep :: s = b ++ sep :: t) :
    (a = b ∧ s = t) ∨ (∃ x, b = a ++ sep :: x ∧ s = x ++ sep :: t) ∨ ∃ x, a = b ++ sep :: x ∧ t = x ++ sep :: s := by
  rcases List.append_eq_append_iff.mp h with ⟨x, hb, hs⟩ | ⟨x, ha, ht⟩
  · cases x with
    | nil =>
      rw [List.append_nil] at hb
      rw [List.nil_append, List.cons.injEq] at hs
      exact Or.inl ⟨hb.symm, hs.2⟩
    | cons c x =>
      rw [List.cons_append, List.cons.injEq] at hs
      exact Or.inr (Or.inl ⟨x, by rw [hb, hs.1], hs.2⟩)
  · cases x with
    | nil =>
      rw [List.append_nil] at ha
      rw [List.nil_append, List.cons.injEq] at ht
      exact Or.inl ⟨ha, ht.2.symm⟩
    | cons c x =>
      rw [List.cons_append, List.cons.injEq] at ht
      exact Or.inr (Or.inr ⟨x, by rw [ha, ht.1], ht.2⟩)

theorem of_isSegment_separated {x t : GoString} (h : IsSegment (x ++ byte ':' :: t)) :
    byte '/' ∉ x ∨ x.head? = some (byte '/') := by
  rcases h.2 with hmem | hhead
  · exact Or.inl fun hx => hmem (List.mem_append_left _ hx)
  · cases x with
    | nil => exact Or.inl List.not_mem_nil
    | cons c x => exact Or.inr hhead

theorem isSegment_separated {x : GoString} (hx : byte '/' ∉ x ∨ x.head? = some (byte '/')) :
    IsSegment (x ++ str ":a") := by
  refine ⟨List.append_ne_nil_of_right_ne_nil _ (by decide), ?_⟩
  rcases hx with hmem | hhead
  · exact Or.inl fun h => (List.mem_append.mp h).elim hmem (by decide)
  · obtain ⟨y, rfl⟩ := List.head?_eq_some_iff.mp hhead
    exact Or.inr rfl

theorem extract_continued (name : GoString) {h x : GoString} (hne : h ≠ [])
    (hx : byte '/' ∉ x ∨ x.head? = some (byte '/')) :
    (KeyStrategy.composite name true).extract (tenantRequest name h (byte '/' :: (x ++ str ":a"))) =
      (KeyStrategy.composite name true).extract (tenantRequest name (h ++ str ":" ++ x) (str "/a")) := by
  have hne' : h ++ str ":" ++ x ≠ [] := by
    rw [List.append_assoc]
    exact List.append_ne_nil_of_left_ne_nil hne _
  have ha : firstPathSegment (str "/a") = str "a" := by decide
  rw [extract_tenantRequest name _ hne, extract_tenantRequest name _ hne', firstPathSegment_slash,
    segmentOf_of_isSegment (isSegment_separated hx), ha, List.append_assoc, List.append_assoc]
  rfl

/-- **Composite keys.** Among requests whose header values are of a set, equal keys mean equal values and equal segments
exactly if no value of the set continues another with a colon and a text that can stand in a segment. -/
theorem composite_key_injective_iff (name : GoString) (S : GoString → Prop) :
    (∀ (r r' : Request) (key : GoString), S (r.header.get name) → S (r'.header.get name) →
        (KeyStrategy.composite name true).extract r = .ok key →
        (KeyStrategy.composite name true).extract r' = .ok key →
        r.header.get name = r'.header.get name ∧ firstPathSegment r.url.path = firstPathSegment r'.url.path) ↔
      ∀ h x : GoString, h ≠ [] → S h → S (h ++ str ":" ++ x) →
        ¬(byte '/' ∉ x ∨ x.head? = some (byte '/')) := by
  constructor
  · intro hinj h x hne hS hS' hx
    have hkey := extract_tenantRequest name (byte '/' :: (x ++ str ":a")) hne
    have heq := hinj _ _ _ (by rwa [get_tenantRequest]) (by rwa [get_tenantRequest]) hkey
      ((extract_continued name hne hx).symm.trans hkey)
    rw [get_tenantRequest, get_tenantRequest, List.append_assoc, List.self_eq_append_right] at heq
    exact List.append_ne_nil_of_left_ne_nil (by decide) x heq.1
  · intro hS r r' key hr hr' hkey hkey'
    have hne : r.header.get name ≠ [] := by
      intro hnil
      rw [extract_composite_empty hnil] at hkey
      cases hkey
    have hne' : r'.header.get name ≠ [] := by
      intro hnil
      rw [extract_composite_empty hnil] at hkey'
      cases hkey'
    have hnot : ∀ a b x t : GoString, a ≠ [] → S a → S b → b = a ++ byte ':' :: x →
        ¬IsSegment (x ++ byte ':' :: t) := by
      intro a b x t ha hSa hSb hb hsegment
      have hb' : b = a ++ str ":" ++ x := by rw [hb, List.append_assoc]; rfl
      exact hS a x ha hSa (hb' ▸ hSb) (of_isSegment_separated hsegment)
    have hsegment := segmentOf_isSegment (unslashed r.url.path)
    have hsegment' := segmentOf_isSegment (unslashed r'.url.path)
    rw [← firstPathSegment_eq] at hsegment hsegment'
    rw [extract_composite hne] at hkey
    rw [extract_composite hne', ← hkey, Except.ok.injEq] at hkey'
    rcases separated_eq hkey' with ⟨hvalue, hseg⟩ | ⟨x, hvalue, hseg⟩ | ⟨x, hvalue, hseg⟩
    · exact ⟨hvalue.symm, hseg.symm⟩
    · rw [hseg] at hsegment'
      exact absurd hsegment' (hnot _ _ x _ hne' hr' hr hvalue)
    · rw [hseg] at hsegment
      exact absurd hsegment (hnot _ _ x _ hne hr hr' hvalue)

theorem composite_key_shared :
    let ks := KeyStrategy.composite (str "X-Tenant-Id") true
    let r := tenantRequest (str "X-Tenant-Id") (str "a:b") (str "/c")
    let r' := tenantRequest (str "X-Tenant-Id") (str "a") (str "/b:c")
    ks.extract r = .ok (str "a:b:c") ∧ ks.extract r' = .ok (str "a:b:c") ∧
      r.header.get (str "X-Tenant-Id") ≠ r'.header.get (str "X-Tenant-Id") ∧
      firstPathSegment r.url.path ≠ firstPathSegment r'.url.path := by
  decide +kernel

/-- Under one header value and one first segment the keys are equal exactly if the paths are, or neither path starts with
two slashes: such a path is its own segment. -/
theorem composite_key_eq_iff (name : GoString) {r r' : Request}
    (hheader : r'.header.get name = r.header.get name)
    (hsegment : firstSegment r'.url.path = firstSegment r.url.path) :
    (KeyStrategy.composite name true).extract r' = (KeyStrategy.composite name true).extract r ↔
      r.header.get name = [] ∨ r'.url.path = r.url.path ∨
        ¬str "//" <+: r'.url.path ∧ ¬str "//" <+: r.url.path := by
  by_cases hnil : r.header.get name = []
  · rw [extract_composite_empty hnil, extract_composite_empty (hheader.trans hnil)]
    exact iff_of_true rfl (Or.inl hnil)
  · have hnil' : r'.header.get name ≠ [] := by
      rw [hheader]
      exact hnil
    rw [extract_composite hnil, extract_composite hnil', hheader, Except.ok.injEq, List.append_right_inj,
      List.cons.injEq, or_iff_right hnil, firstPathSegment_eq_iff hsegment]
    exact and_iff_right rfl

theorem composite_key_eq_iff_api :
    let r := tenantRequest (str "X-Tenant-Id") (str "acme") (str "/api/1")
    let r' := tenantRequest (str "X-Tenant-Id") (str "acme") (str "api/2")
    (KeyStrategy.composite (str "X-Tenant-Id") true).extract r' =
      (KeyStrategy.composite (str "X-Tenant-Id") true).extract r := by
  intro r r'
  exact (composite_key_eq_iff (str "X-Tenant-Id") (by decide +kernel) (by decide +kernel)).mpr
    (Or.inr (Or.inr (by decide +kernel)))

theorem composite_key_per_path :
    let ks := KeyStrategy.composite (str "X-Tenant-Id") true
    let key (path : GoString) := ks.extract (tenantRequest (str "X-Tenant-Id") (str "acme") path)
    firstSegment (str "/api/1") = some (str "api") ∧ key (str "/api/1") = .ok (str "acme:api") ∧
      firstSegment (str "//api/1") = some (str "api") ∧ key (str "//api/1") = .ok (str "acme:/api/1") ∧
      firstSegment (str "//api/2") = some (str "api") ∧ key (str "//api/2") = .ok (str "acme:/api/2") := by
  decide +kernel

end EdgeQuota.RateLimit
