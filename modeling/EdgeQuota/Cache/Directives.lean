import EdgeQuota.Cache.Control

/-! A response may spread Cache-Control over several field lines. They are joined by commas
before the quotes are read, so a quote that one line leaves open reaches into the next one. -/

namespace EdgeQuota.Cache
open Go

def quoteStep (q : Bool × Bool) (r : GoString) : Bool × Bool :=
  if q.2 then (q.1, false)
  else if r = str "\\" ∧ q.1 then (q.1, true)
  else if r = str "\"" then (!q.1, false)
  else (q.1, false)

def quoting (cc : GoString) : Bool × Bool := (runes cc).foldl quoteStep (false, false)

def openQuote (cc : GoString) : Bool := (quoting cc).1

-- Only a rune between quotes is ever escaped.
theorem not_escaped {rs : List GoString} {q : Bool × Bool} (hq : q.1 = false → q.2 = false)
    (hopen : (rs.foldl quoteStep q).1 = false) : (rs.foldl quoteStep q).2 = false := by
  induction rs generalizing q with
  | nil => exact hq hopen
  | cons r rs ih =>
    apply ih _ hopen
    intro h
    unfold quoteStep at h ⊢
    split_ifs at h ⊢ with _ hslash
    · rfl
    · exact absurd hslash.2 (by simp [show q.1 = false from h])
    · rfl
    · rfl

theorem splitFrom_cons {q : Bool × Bool} {r : GoString} (hcomma : ¬(q.2 = false ∧ r = str "," ∧ q.1 = false))
    (b : GoString) (rs : List GoString) :
    splitFrom q.1 q.2 b (r :: rs) = splitFrom (quoteStep q r).1 (quoteStep q r).2 (b ++ r) rs := by
  rw [splitFrom]
  unfold quoteStep
  split_ifs with hescaped _ _ hseparates
  · rfl
  · rfl
  · rfl
  · have hunescaped : q.2 = false := Bool.eq_false_of_not_eq_true hescaped
    have houtside : q.1 = false := by
      rw [← Bool.not_eq_true']
      exact hseparates.2
    exact absurd ⟨hunescaped, hseparates.1, houtside⟩ hcomma
  · rfl

theorem splitFrom_append {q : Bool × Bool} {b : GoString} (hb : q.1 = true → byte '"' ∈ b) (rs : List GoString) :
    ∃ ds last, ((rs.foldl quoteStep q).1 = true → byte '"' ∈ last) ∧
      ∀ ts, splitFrom q.1 q.2 b (rs ++ ts) =
        ds ++ splitFrom (rs.foldl quoteStep q).1 (rs.foldl quoteStep q).2 last ts := by
  induction rs generalizing q b with
  | nil => exact ⟨[], b, hb, fun ts => rfl⟩
  | cons r rs ih =>
    have hquote : byte '"' ∈ str "\"" := by decide
    by_cases hcomma : q.2 = false ∧ r = str "," ∧ q.1 = false
    · obtain ⟨hesc, rfl, hin⟩ := hcomma
      have hstep : quoteStep q (str ",") = (false, false) := by
        simp [quoteStep, hesc, hin, show str "," ≠ str "\"" by decide]
      obtain ⟨ds, last, hlast, hsplit⟩ := ih (q := (false, false)) (b := []) (by simp)
      refine ⟨b :: ds, last, ?_, fun ts => ?_⟩
      · rw [List.foldl_cons, hstep]
        exact hlast
      · rw [List.foldl_cons, hstep, List.cons_append, List.cons_append, ← hsplit]
        simp [splitFrom, hesc, hin, show str "," ≠ str "\"" by decide]
    · have hgrow : (quoteStep q r).1 = true → byte '"' ∈ b ++ r := by
        intro h
        unfold quoteStep at h
        split_ifs at h with _ hslash hr
        · exact List.mem_append_left _ (hb h)
        · exact List.mem_append_left _ (hb h)
        · exact List.mem_append_right _ (hr ▸ hquote)
        · exact List.mem_append_left _ (hb h)
      obtain ⟨ds, last, hlast, hsplit⟩ := ih hgrow
      refine ⟨ds, last, hlast, fun ts => ?_⟩
      rw [List.foldl_cons, ← hsplit, List.cons_append]
      exact splitFrom_cons hcomma b (rs ++ ts)

theorem splitFrom_eq (inQuotes escaped : Bool) (b : GoString) (rs : List GoString) :
    splitFrom inQuotes escaped b rs = (splitFrom inQuotes escaped [] rs).modifyHead (b ++ ·) := by
  induction rs generalizing inQuotes escaped b with
  | nil => simp [splitFrom]
  | cons r rs ih =>
    have hgrow (q e : Bool) : splitFrom q e (b ++ r) rs = (splitFrom q e r rs).modifyHead (b ++ ·) := by
      rw [ih q e (b ++ r), ih q e r, List.modifyHead_modifyHead]
      congr 1
      funext x
      exact List.append_assoc b r x
    simp only [splitFrom, List.nil_append]
    split_ifs
    · exact hgrow _ _
    · exact hgrow _ _
    · exact hgrow _ _
    · rw [List.modifyHead_cons, List.append_nil]
    · exact hgrow _ _

theorem splitFrom_ne_nil (inQuotes escaped : Bool) (b : GoString) (rs : List GoString) :
    splitFrom inQuotes escaped b rs ≠ [] := by
  induction rs generalizing inQuotes escaped b with
  | nil => exact List.cons_ne_nil _ _
  | cons r rs ih =>
    unfold splitFrom
    split_ifs
    · exact ih _ _ _
    · exact ih _ _ _
    · exact ih _ _ _
    · exact List.cons_ne_nil _ _
    · exact ih _ _ _

theorem splitDirectives_closed {cc : GoString} (h : openQuote cc = false) (t : GoString) :
    splitDirectives (cc ++ byte ',' :: t) = splitDirectives cc ++ splitDirectives t := by
  obtain ⟨ds, last, -, hsplit⟩ := splitFrom_append (q := (false, false)) (b := []) (by simp) (runes cc)
  have hesc : (quoting cc).2 = false := not_escaped (by simp) h
  have hstate : (runes cc).foldl quoteStep (false, false) = (false, false) := Prod.ext h hesc
  rw [hstate] at hsplit
  have hcc := hsplit []
  rw [List.append_nil] at hcc
  have hcomma : splitFrom false false last ([byte ','] :: runes t) = last :: splitFrom false false [] (runes t) := by
    have hquote : str "," ≠ str "\"" := by decide
    rw [show [byte ','] = str "," by decide, splitFrom]
    simp only [Bool.false_eq_true, and_false, if_false, hquote, Bool.not_false, and_self, if_true]
  rw [splitDirectives, splitDirectives, splitDirectives, runes_append (by decide), hsplit, hcc, hcomma]
  simp [splitFrom]

theorem splitDirectives_open {cc : GoString} (h : openQuote cc = true) (t : GoString) :
    ∃ ds last, byte '"' ∈ last ∧ splitDirectives cc = ds ++ [last] ∧
      splitDirectives (cc ++ byte ',' :: t) = ds ++ splitFrom true false (last ++ [byte ',']) (runes t) := by
  obtain ⟨ds, last, hlast, hsplit⟩ := splitFrom_append (q := (false, false)) (b := []) (by simp) (runes cc)
  have hopen : ((runes cc).foldl quoteStep (false, false)).1 = true := h
  have hcc := hsplit []
  rw [List.append_nil] at hcc
  refine ⟨ds, last, hlast hopen, hcc, ?_⟩
  rw [splitDirectives, runes_append (by decide), hsplit, hopen]
  simp only [splitFrom, show [byte ','] ≠ str "\"" by decide, show [byte ','] ≠ str "\\" by decide,
    false_and, if_false, Bool.not_true, Bool.false_eq_true, and_false, ite_self]

theorem splitDirectives_of_notMem {s : GoString} (hascii : ∀ c ∈ s, c < 0x80) (hcomma : byte ',' ∉ s)
    (hquote : byte '"' ∉ s) : splitDirectives s = [s] := by
  have hplain : ∀ (t b : GoString), byte ',' ∉ t → byte '"' ∉ t →
      splitFrom false false b (t.map fun c => [c]) = [b ++ t] := by
    intro t
    induction t with
    | nil => exact fun b _ _ => by rw [List.append_nil]; rfl
    | cons c t ih =>
      intro b hcomma hquote
      have hc : [c] ≠ str "," := by
        rintro h
        exact hcomma (List.mem_cons.mpr (Or.inl (List.cons.inj h).1.symm))
      have hq : [c] ≠ str "\"" := by
        rintro h
        exact hquote (List.mem_cons.mpr (Or.inl (List.cons.inj h).1.symm))
      rw [List.map_cons, splitFrom, if_neg Bool.false_ne_true, if_neg (by simp), if_neg hq, if_neg (by simp [hc]),
        ih _ (fun h => hcomma (List.mem_cons_of_mem _ h)) fun h => hquote (List.mem_cons_of_mem _ h), List.append_assoc]
      rfl
  rw [splitDirectives, runes_ascii hascii, hplain s [] hcomma hquote, List.nil_append]

def Forbids (directive : GoString) : Prop :=
  directiveName directive ∈ [str "no-store", str "no-cache", str "private"]

instance : DecidablePred Forbids := fun directive =>
  inferInstanceAs (Decidable (directiveName directive ∈ [str "no-store", str "no-cache", str "private"]))

def CacheControl.restrictive (c : CacheControl) : Bool := c.noStore || c.noCache || c.isPrivate

theorem applyDirective_restrictive (c : CacheControl) (directive : GoString) :
    (applyDirective c directive).restrictive = true ↔ c.restrictive = true ∨ Forbids directive := by
  unfold applyDirective Forbids directiveName
  generalize toLower (trimSpace (cut (byte '=') directive).1) = name
  generalize trim [str "\""] (trimSpace ((cut (byte '=') directive).2.getD [])) = value
  dsimp only
  have hkeep {n : GoString} (hname : name = n) (hn : n ∉ [str "no-store", str "no-cache", str "private"])
      {c' : CacheControl} (hc : c'.restrictive = c.restrictive) :
      c'.restrictive = true ↔ c.restrictive = true ∨ name ∈ [str "no-store", str "no-cache", str "private"] := by
    rw [hc, hname, or_iff_left hn]
  split_ifs with hmax hsmax hstore hcache hprivate hpublic hmust
  · apply hkeep hmax (by decide)
    cases atoi value with
    | none => rfl
    | some n => dsimp only; split_ifs <;> rfl
  · apply hkeep hsmax (by decide)
    cases atoi value with
    | none => rfl
    | some n => dsimp only; split_ifs <;> rfl
  · simp [hstore, CacheControl.restrictive]
  · simp [hcache, CacheControl.restrictive]
  · simp [hprivate, CacheControl.restrictive]
  · exact hkeep hpublic (by decide) rfl
  · exact hkeep hmust (by decide) rfl
  · simp [hstore, hcache, hprivate]

theorem foldl_restrictive (ds : List GoString) (c : CacheControl) :
    (ds.foldl applyDirective c).restrictive = true ↔ c.restrictive = true ∨ ∃ d ∈ ds, Forbids d := by
  induction ds generalizing c with
  | nil => simp
  | cons d ds ih =>
    rw [List.foldl_cons, ih, applyDirective_restrictive, or_assoc, List.exists_mem_cons_iff]

theorem parse_restrictive {cc : GoString} :
    (parseCacheControl cc).restrictive = true ↔ ∃ d ∈ splitDirectives cc, Forbids d := by
  rw [parseCacheControl, foldl_restrictive]
  exact or_iff_right (by decide)

theorem not_forbids_quoted {d : GoString} (h : byte '"' ∈ (cut (byte '=') d).1) : ¬Forbids d := by
  intro hd
  have hspaces : ∀ r ∈ spaces, byte '"' ∉ r := by decide
  have hname : byte '"' ∈ directiveName d := mem_toLower (by decide) (by decide) (mem_trim hspaces h)
  have hno : ∀ n ∈ [str "no-store", str "no-cache", str "private"], byte '"' ∉ n := by decide
  exact hno _ hd hname

theorem forbids_append {d : GoString} (h : byte '"' ∈ d) (x : GoString) : Forbids (d ++ x) ↔ Forbids d := by
  have hcut := cut_fst_append (byte '=') d x
  by_cases heq : byte '=' ∈ d
  · rw [if_pos heq] at hcut
    rw [Forbids, Forbids, directiveName, directiveName, hcut]
  · rw [if_neg heq] at hcut
    have hlong : ¬Forbids (d ++ x) := not_forbids_quoted (hcut ▸ List.mem_append_left _ h)
    have hshort : ¬Forbids d := not_forbids_quoted (by rw [cut_of_notMem heq]; exact h)
    exact iff_of_false hlong hshort

theorem restrictive_append {cc : GoString} (h : (parseCacheControl cc).restrictive = true) (t : GoString) :
    (parseCacheControl (cc ++ byte ',' :: t)).restrictive = true := by
  obtain ⟨d, hd, hforbids⟩ := parse_restrictive.mp h
  apply parse_restrictive.mpr
  cases hopen : openQuote cc with
  | false =>
    rw [splitDirectives_closed hopen]
    exact ⟨d, List.mem_append_left _ hd, hforbids⟩
  | true =>
    obtain ⟨ds, last, hquote, hcc, hlong⟩ := splitDirectives_open hopen t
    obtain ⟨x, ds', hhead⟩ := List.exists_cons_of_ne_nil (splitFrom_ne_nil true false [] (runes t))
    rw [hlong, splitFrom_eq, hhead, List.modifyHead_cons]
    rw [hcc, List.mem_append, List.mem_singleton] at hd
    rcases hd with hd | rfl
    · exact ⟨d, List.mem_append_left _ hd, hforbids⟩
    · refine ⟨d ++ [byte ','] ++ x, by simp, ?_⟩
      rw [List.append_assoc]
      exact (forbids_append hquote _).mpr hforbids

theorem isCacheable_none {r : Request} {statusCode : ℤ} {header : Header}
    (h : (parseCacheControl (join (byte ',') (header.values (str "Cache-Control")))).restrictive = true) :
    isCacheable r statusCode header = none := by
  unfold isCacheable
  dsimp only
  unfold CacheControl.restrictive at h
  rw [if_pos h]
  split_ifs <;> rfl

def hidden : List GoString := [str "no-store", str "\", s-maxage=60"]

theorem splitDirectives_hidden {cc : GoString} (h : openQuote cc = true) :
    ∃ ds last, byte '"' ∈ last ∧ splitDirectives cc = ds ++ [last] ∧
      splitDirectives (cc ++ byte ',' :: join (byte ',') hidden) =
        ds ++ [last ++ str ",no-store,\""] ++ [str " s-maxage=60"] := by
  obtain ⟨ds, last, hquote, hcc, hlong⟩ := splitDirectives_open h (join (byte ',') hidden)
  refine ⟨ds, last, hquote, hcc, ?_⟩
  have hrest : splitFrom true false [] (runes (join (byte ',') hidden)) =
      [str "no-store,\"", str " s-maxage=60"] := by decide +kernel
  rw [hlong, splitFrom_eq, hrest, List.modifyHead_cons, List.append_assoc, List.append_assoc]
  rfl

theorem applyDirective_sMaxAge (c : CacheControl) :
    applyDirective c (str " s-maxage=60") = { c with sMaxAge := 60000000000, hasSMaxAge := true } := by
  have hname : toLower (trimSpace (cut (byte '=') (str " s-maxage=60")).1) = str "s-maxage" := by
    decide +kernel
  have hvalue : atoi (trim [str "\""] (trimSpace ((cut (byte '=') (str " s-maxage=60")).2.getD []))) = some 60 := by
    decide +kernel
  have hne : str "s-maxage" ≠ str "max-age" := by decide
  simp only [applyDirective, hname, hvalue, hne, if_false, if_true]
  rfl

theorem parse_hidden {cc : GoString} (hopen : openQuote cc = true)
    (hcc : (parseCacheControl cc).restrictive = false) :
    ∃ c : CacheControl, c.restrictive = false ∧ parseCacheControl (cc ++ byte ',' :: join (byte ',') hidden) =
      { c with sMaxAge := 60000000000, hasSMaxAge := true } := by
  obtain ⟨ds, last, hquote, hshort, hlong⟩ := splitDirectives_hidden hopen
  have hfree : ¬∃ d ∈ ds ++ [last], Forbids d := by
    rw [← hshort, ← parse_restrictive, hcc]
    exact Bool.false_ne_true
  refine ⟨(ds ++ [last ++ str ",no-store,\""]).foldl applyDirective {}, ?_, ?_⟩
  · rw [← Bool.not_eq_true, foldl_restrictive]
    rintro (h | ⟨d, hd, hforbids⟩)
    · exact absurd h (by decide)
    · apply hfree
      rcases List.mem_append.mp hd with hd | hd
      · exact ⟨d, List.mem_append_left _ hd, hforbids⟩
      · rw [List.mem_singleton.mp hd, forbids_append hquote] at hforbids
        exact ⟨last, by simp, hforbids⟩
  · rw [parseCacheControl, hlong, List.foldl_append, List.foldl_cons, List.foldl_nil, applyDirective_sMaxAge]

def cacheControlLines (lines : List GoString) : Header := lines.map fun line => (str "Cache-Control", line)

theorem values_cacheControlLines (lines : List GoString) :
    (cacheControlLines lines).values (str "Cache-Control") = lines := by
  have hname : canonicalHeaderKey (str "Cache-Control") = str "Cache-Control" := by decide +kernel
  simp [cacheControlLines, Header.values, hname, List.filter_map, Function.comp_def]

theorem cacheControlLines_hasSetCookie (lines : List GoString) :
    responseHasSetCookie (cacheControlLines lines) = false := by
  have hname : canonicalHeaderKey (cutTrailer (str "Cache-Control")) ≠ str "Set-Cookie" := by decide +kernel
  simp [responseHasSetCookie, cacheControlLines, hname]

theorem isCacheable_hidden {pre : List GoString} (hopen : openQuote (join (byte ',') pre) = true)
    (hpre : (parseCacheControl (join (byte ',') pre)).restrictive = false) (r : Request) :
    isCacheable r 200 (cacheControlLines (pre ++ hidden)) = some 60000000000 := by
  have hne : pre ≠ [] := by
    rintro rfl
    exact absurd hopen (by decide)
  obtain ⟨c, hc, hparse⟩ := parse_hidden hopen hpre
  have hhidden : hidden ≠ [] := List.cons_ne_nil _ _
  rw [← join_append _ hne hhidden] at hparse
  unfold CacheControl.restrictive at hc
  simp [isCacheable, values_cacheControlLines, cacheControlLines_hasSetCookie, hparse, hc, hne]

/-- A restrictive directive is obeyed wherever its line stands, unless the lines before it
leave a quote open. -/
theorem restrictive_line_obeyed_iff (pre : List GoString) :
    (∀ (line : GoString) (post : List GoString) (r : Request) (statusCode : ℤ) (header : Header),
      header.values (str "Cache-Control") = pre ++ line :: post →
      (parseCacheControl line).restrictive = true → isCacheable r statusCode header = none) ↔
    openQuote (join (byte ',') pre) = false ∨ (parseCacheControl (join (byte ',') pre)).restrictive = true := by
  constructor
  · intro h
    by_contra hcon
    obtain ⟨hopen, hpre⟩ := not_or.mp hcon
    let r : Request := { method := str "GET", url := ⟨str "/", [], []⟩, header := [] }
    have hstored := isCacheable_hidden (Bool.eq_true_of_not_eq_false hopen) (Bool.eq_false_of_not_eq_true hpre) r
    have hnone := h (str "no-store") _ r 200 _ (values_cacheControlLines (pre ++ hidden)) (by decide +kernel)
    rw [hnone] at hstored
    cases hstored
  · intro h line post r statusCode header hlines hline
    apply isCacheable_none
    have hrest : (parseCacheControl (join (byte ',') (line :: post))).restrictive = true := by
      cases post with
      | nil => simpa [join] using hline
      | cons p post =>
        rw [← List.singleton_append, join_append _ (List.cons_ne_nil _ _) (List.cons_ne_nil _ _)]
        exact restrictive_append (by simpa [join] using hline) _
    rw [hlines]
    cases pre with
    | nil => exact hrest
    | cons p pre =>
      rw [join_append _ (List.cons_ne_nil _ _) (List.cons_ne_nil _ _)]
      rcases h with hclosed | hpre
      · obtain ⟨d, hd, hforbids⟩ := parse_restrictive.mp hrest
        rw [parse_restrictive, splitDirectives_closed hclosed]
        exact ⟨d, List.mem_append_right _ hd, hforbids⟩
      · exact restrictive_append hpre _

/-- An extension directive with an unbalanced quote makes the cache keep for a minute what the
next line says is not to be stored. -/
theorem noStore_line_hidden :
    (parseCacheControl (str "no-store")).noStore = true ∧
      isCacheable { method := str "GET", url := ⟨str "/", [], []⟩, header := [] } 200
        [(str "Cache-Control", str "max-age=60, ext=\"a"), (str "Cache-Control", str "no-store")] =
      some 60000000000 := by
  decide +kernel

inductive QuotedText : GoString → Prop where
  | nil : QuotedText []
  | plain {c : UInt8} {s : GoString} (hquote : c ≠ byte '"') (hslash : c ≠ byte '\\') (h : QuotedText s) :
    QuotedText (c :: s)
  | pair (c : UInt8) {s : GoString} (h : QuotedText s) : QuotedText (byte '\\' :: c :: s)

inductive WellQuoted : GoString → Prop where
  | nil : WellQuoted []
  | plain {c : UInt8} {s : GoString} (hquote : c ≠ byte '"') (hcomma : c ≠ byte ',') (h : WellQuoted s) :
    WellQuoted (c :: s)
  | quoted {q s : GoString} (hq : QuotedText q) (h : WellQuoted s) : WellQuoted (byte '"' :: (q ++ byte '"' :: s))

def splitBytes (inQuotes escaped : Bool) (b : GoString) : GoString → List GoString
  | [] => [b]
  | c :: s =>
    if escaped then splitBytes inQuotes false (b ++ [c]) s
    else if c = byte '\\' ∧ inQuotes then splitBytes inQuotes true (b ++ [c]) s
    else if c = byte '"' then splitBytes (!inQuotes) false (b ++ [c]) s
    else if c = byte ',' ∧ !inQuotes then b :: splitBytes inQuotes false [] s
    else splitBytes inQuotes false (b ++ [c]) s

theorem splitBytes_high {r : GoString} (hr : ∀ c ∈ r, 0x80 ≤ c) (inQuotes : Bool) (b s : GoString) :
    splitBytes inQuotes false b (r ++ s) = splitBytes inQuotes false (b ++ r) s := by
  induction r generalizing b with
  | nil => rw [List.nil_append, List.append_nil]
  | cons c r ih =>
    obtain ⟨hc, hr⟩ := List.forall_mem_cons.mp hr
    have hne : ∀ d : UInt8, d < 0x80 → c ≠ d := by
      rintro d hd rfl
      exact UInt8.not_lt.mpr hc hd
    rw [List.cons_append, splitBytes]
    simp only [hne (byte '\\') (by decide), hne (byte '"') (by decide), hne (byte ',') (by decide),
      Bool.false_eq_true, false_and, if_false, ih hr, List.append_assoc, List.singleton_append]

theorem splitBytes_rune {r : GoString} (hne : r ≠ []) (hr : ∀ c ∈ r, 0x80 ≤ c) (inQuotes escaped : Bool)
    (b s : GoString) : splitBytes inQuotes escaped b (r ++ s) = splitBytes inQuotes false (b ++ r) s := by
  cases escaped with
  | false => exact splitBytes_high hr inQuotes b s
  | true =>
    obtain ⟨c, r, rfl⟩ := List.exists_cons_of_ne_nil hne
    have hrest := splitBytes_high (List.forall_mem_cons.mp hr).2 inQuotes (b ++ [c]) s
    rw [List.cons_append, splitBytes, if_pos rfl, hrest, List.append_assoc, List.singleton_append]

theorem splitFrom_eq_splitBytes {rs : List GoString}
    (h : ∀ r ∈ rs, r ≠ [] ∧ ((∃ c, r = [c] ∧ c < 0x80) ∨ ∀ c ∈ r, 0x80 ≤ c)) (inQuotes escaped : Bool) (b : GoString) :
    splitFrom inQuotes escaped b rs = splitBytes inQuotes escaped b rs.flatten := by
  induction rs generalizing inQuotes escaped b with
  | nil => rfl
  | cons r rs ih =>
    obtain ⟨⟨hne, hr⟩, hrs⟩ := List.forall_mem_cons.mp h
    rw [List.flatten_cons]
    rcases hr with ⟨c, rfl, -⟩ | hr
    · have hbyte : ∀ d : UInt8, [c] = [d] ↔ c = d := fun d => ⟨fun h => (List.cons.inj h).1, congrArg (fun x => [x])⟩
      have hslash : [c] = str "\\" ↔ c = byte '\\' := hbyte _
      have hquote : [c] = str "\"" ↔ c = byte '"' := hbyte _
      have hcomma : [c] = str "," ↔ c = byte ',' := hbyte _
      simp only [splitFrom, List.singleton_append, splitBytes, hslash, hquote, hcomma, ih hrs]
    · rw [splitBytes_rune hne hr, ← ih hrs, splitFrom]
      have hother : ∀ d : UInt8, d < 0x80 → r ≠ [d] := by
        rintro d hd rfl
        exact UInt8.not_lt.mpr (hr d (List.mem_singleton_self d)) hd
      have hslash : r ≠ str "\\" := hother (byte '\\') (by decide)
      have hquote : r ≠ str "\"" := hother (byte '"') (by decide)
      have hcomma : r ≠ str "," := hother (byte ',') (by decide)
      simp only [hslash, hquote, hcomma, false_and, if_false, ite_self]

theorem splitDirectives_valid {cc : GoString} (h : ValidUTF8 cc) :
    splitDirectives cc = splitBytes false false [] cc := by
  have hrunes : ∀ r ∈ runes cc, r ≠ [] ∧ ((∃ c, r = [c] ∧ c < 0x80) ∨ ∀ c ∈ r, 0x80 ≤ c) :=
    fun r hr => ⟨(runeSize_of_mem_runes hr).1, bytes_of_mem_runes hr⟩
  have hcc : (runes cc).flatten = cc := h
  rw [splitDirectives, splitFrom_eq_splitBytes hrunes, hcc]

theorem splitBytes_quoted {q : GoString} (hq : QuotedText q) (b s : GoString) :
    splitBytes true false b (q ++ byte '"' :: s) = splitBytes false false (b ++ q ++ [byte '"']) s := by
  induction hq generalizing b with
  | nil => rw [List.nil_append, List.append_nil]; rfl
  | @plain c q hquote hslash _ ih =>
    rw [List.cons_append, splitBytes]
    simp only [hquote, hslash, Bool.not_true, Bool.false_eq_true, and_false, false_and, if_false]
    rw [ih, List.append_cons b c q]
  | @pair c q _ ih =>
    rw [List.cons_append, List.cons_append, splitBytes, if_neg Bool.false_ne_true, if_pos ⟨rfl, rfl⟩, splitBytes,
      if_pos rfl, ih]
    simp only [List.append_assoc, List.cons_append, List.nil_append]

theorem splitBytes_wellQuoted {d : GoString} (hd : WellQuoted d) (b s : GoString) :
    splitBytes false false b (d ++ s) = splitBytes false false (b ++ d) s := by
  induction hd generalizing b with
  | nil => rw [List.nil_append, List.append_nil]
  | @plain c d hquote hcomma _ ih =>
    rw [List.cons_append, splitBytes]
    simp only [hquote, hcomma, Bool.false_eq_true, and_false, false_and, if_false]
    rw [ih, List.append_cons b c d]
  | @quoted q d hq _ ih =>
    rw [List.cons_append, splitBytes]
    simp only [Bool.false_eq_true, and_false, if_false, if_true, Bool.not_false, List.append_assoc, List.cons_append]
    rw [splitBytes_quoted hq, ih]
    simp only [List.append_assoc, List.cons_append, List.nil_append]

theorem validUTF8_join {ds : List GoString} (h : ∀ d ∈ ds, ValidUTF8 d) : ValidUTF8 (join (byte ',') ds) := by
  induction ds with
  | nil => exact validUTF8_nil
  | cons d ds ih =>
    obtain ⟨hd, hds⟩ := List.forall_mem_cons.mp h
    cases ds with
    | nil => simpa [join] using hd
    | cons d' ds =>
      rw [← List.singleton_append, join_append _ (List.cons_ne_nil _ _) (List.cons_ne_nil _ _), ValidUTF8,
        toValidUTF8_append (by decide), ih hds]
      have hone : join (byte ',') [d] = d := by simp [join]
      rw [hone, hd]

theorem splitBytes_join {ds : List GoString} (hne : ds ≠ []) (h : ∀ d ∈ ds, WellQuoted d) :
    splitBytes false false [] (join (byte ',') ds) = ds := by
  induction ds with
  | nil => exact absurd rfl hne
  | cons d ds ih =>
    obtain ⟨hd, hds⟩ := List.forall_mem_cons.mp h
    have hone : join (byte ',') [d] = d := by simp [join]
    cases ds with
    | nil =>
      have hend := splitBytes_wellQuoted hd [] []
      rw [List.append_nil] at hend
      rw [hone, hend]
      rfl
    | cons d' ds =>
      have hcomma : splitBytes false false d (byte ',' :: join (byte ',') (d' :: ds)) =
          d :: splitBytes false false [] (join (byte ',') (d' :: ds)) := rfl
      rw [← List.singleton_append, join_append _ (List.cons_ne_nil _ _) (List.cons_ne_nil _ _), hone,
        splitBytes_wellQuoted hd, List.nil_append, hcomma, ih (List.cons_ne_nil _ _) hds]
      rfl

/-- **Directives are kept apart.** Splitting a list that was joined by commas gives back the list, as long as the
quotes of each directive are balanced; so each of them is read, and nothing that is quoted is read for one. -/
theorem splitDirectives_join {ds : List GoString} (hne : ds ≠ []) (hvalid : ∀ d ∈ ds, ValidUTF8 d)
    (hquoted : ∀ d ∈ ds, WellQuoted d) :
    splitDirectives (join (byte ',') ds) = ds ∧
      parseCacheControl (join (byte ',') ds) = ds.foldl applyDirective {} := by
  have hsplit : splitDirectives (join (byte ',') ds) = ds := by
    rw [splitDirectives_valid (validUTF8_join hvalid)]
    exact splitBytes_join hne hquoted
  refine ⟨hsplit, ?_⟩
  rw [parseCacheControl, hsplit]

theorem splitDirectives_join_quoted :
    splitDirectives (str "public,ext=\"a,\\\"no-store\"") = [str "public", str "ext=\"a,\\\"no-store\""] := by
  have hpublic : WellQuoted (str "public") := by
    repeat' apply WellQuoted.plain (by decide) (by decide)
    exact .nil
  have hquoted : QuotedText (str "a,\\\"no-store") := by
    apply QuotedText.plain (by decide) (by decide)
    apply QuotedText.plain (by decide) (by decide)
    apply QuotedText.pair
    repeat' apply QuotedText.plain (by decide) (by decide)
    exact .nil
  have hext : WellQuoted (str "ext=\"a,\\\"no-store\"") := by
    apply WellQuoted.plain (by decide) (by decide)
    apply WellQuoted.plain (by decide) (by decide)
    apply WellQuoted.plain (by decide) (by decide)
    apply WellQuoted.plain (by decide) (by decide)
    exact .quoted hquoted .nil
  refine (splitDirectives_join (List.cons_ne_nil (str "public") [str "ext=\"a,\\\"no-store\""]) ?_ ?_).1
  · decide +kernel
  · simp [hpublic, hext]

end EdgeQuota.Cache
