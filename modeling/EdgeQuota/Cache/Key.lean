import EdgeQuota.Go.Http

/-! Cache keys: one flat string out of the method, the request target and the values of the
headers that the response varies on. -/

namespace EdgeQuota.Cache
open Go

def baseKey (method : GoString) (u : URL) : GoString :=
  method ++ byte '|' :: u.escapedPath ++ (if u.rawQuery ≠ [] then byte '?' :: u.rawQuery else [])

def keyFromRequest (r : Request) (varyHeaders : List GoString) : GoString :=
  let key := baseKey r.method r.url
  if varyHeaders = [] then key
  else
    key ++ (sortStrings varyHeaders).flatMap fun h => byte '|' :: h ++ byte '=' :: r.header.get h

def target (u : URL) : GoString := u.escapedPath ++ (if u.rawQuery ≠ [] then byte '?' :: u.rawQuery else [])

def variant (r : Request) (h : GoString) : GoString := h ++ byte '=' :: r.header.get h

def keyFields (r : Request) (vary : List GoString) : List GoString :=
  r.method :: target r.url :: (sortStrings vary).map (variant r)

theorem join_cons (sep : UInt8) (a : GoString) (bs : List GoString) :
    join sep (a :: bs) = a ++ bs.flatMap (sep :: ·) := by
  induction bs generalizing a with
  | nil => simp [join, List.intercalate]
  | cons b bs ih =>
    rw [join, List.intercalate_cons_cons, ← join, ih]
    simp

theorem keyFromRequest_eq_join (r : Request) (vary : List GoString) :
    keyFromRequest r vary = join (byte '|') (keyFields r vary) := by
  have hbase : keyFromRequest r vary = baseKey r.method r.url ++
      ((sortStrings vary).map (variant r)).flatMap (byte '|' :: ·) := by
    by_cases hv : vary = []
    · subst hv
      simp [keyFromRequest, sortStrings]
    · simp only [keyFromRequest, if_neg hv, List.flatMap_map]
      rfl
  rw [hbase, keyFields, join_cons, List.flatMap_cons, baseKey, target]
  simp

theorem target_inj {u v : URL} (h : target u = target v) :
    u.escapedPath = v.escapedPath ∧ u.rawQuery = v.rawQuery := by
  -- the first question mark ends the path, which holds none
  have hcut : ∀ w : URL, cut (byte '?') (target w) =
      (w.escapedPath, if w.rawQuery ≠ [] then some w.rawQuery else none) := by
    intro w
    have hpath := notMem_escapedPath w (c := byte '?') (Or.inr rfl)
    unfold target
    split_ifs
    · exact cut_append hpath _
    · rw [List.append_nil, cut_of_notMem hpath]
  have := congrArg (cut (byte '?')) h
  rw [hcut, hcut, Prod.mk.injEq] at this
  refine ⟨this.1, ?_⟩
  have hq := this.2
  split_ifs at hq with hu hv hv
  · exact Option.some.inj hq
  · rw [not_not.mp hu, not_not.mp hv]

theorem variant_inj {r r' : Request} {h h' : GoString} (hh : byte '=' ∉ h) (hh' : byte '=' ∉ h')
    (heq : variant r h = variant r' h') : h = h' ∧ r.header.get h = r'.header.get h' := by
  have := congrArg (cut (byte '=')) heq
  rw [variant, variant, cut_append hh, cut_append hh', Prod.mk.injEq, Option.some.injEq] at this
  exact this

theorem map_variant_inj {r r' : Request} {hs hs' : List GoString} (h : ∀ a ∈ hs, byte '=' ∉ a)
    (h' : ∀ a ∈ hs', byte '=' ∉ a) (heq : hs.map (variant r) = hs'.map (variant r')) :
    hs = hs' ∧ ∀ a ∈ hs, r.header.get a = r'.header.get a := by
  induction hs generalizing hs' with
  | nil => exact ⟨(List.map_eq_nil_iff.mp heq.symm).symm, nofun⟩
  | cons a hs ih =>
    cases hs' with
    | nil => cases heq
    | cons b hs' =>
      obtain ⟨ha, hhs⟩ := List.forall_mem_cons.mp h
      obtain ⟨hb, hhs'⟩ := List.forall_mem_cons.mp h'
      rw [List.map_cons, List.map_cons, List.cons.injEq] at heq
      obtain ⟨rfl, hget⟩ := variant_inj ha hb heq.1
      obtain ⟨rfl, hrest⟩ := ih hhs hhs' heq.2
      exact ⟨rfl, List.forall_mem_cons.mpr ⟨hget, hrest⟩⟩

structure Legible (r : Request) (vary : List GoString) : Prop where
  method : byte '|' ∉ r.method
  query : byte '|' ∉ r.url.rawQuery
  names : ∀ h ∈ vary, byte '|' ∉ h ∧ byte '=' ∉ h
  values : ∀ h ∈ vary, byte '|' ∉ r.header.get h

theorem Legible.fields {r : Request} {vary : List GoString} (h : Legible r vary) :
    ∀ f ∈ keyFields r vary, byte '|' ∉ f := by
  refine List.forall_mem_cons.mpr ⟨h.method, List.forall_mem_cons.mpr ⟨?_, ?_⟩⟩
  · have hpath := notMem_escapedPath r.url (c := byte '|') (Or.inl rfl)
    have hmark : byte '|' ≠ byte '?' := by decide
    unfold target
    split_ifs <;> simp [hpath, hmark, h.query]
  · intro f hf
    obtain ⟨a, ha, rfl⟩ := List.mem_map.mp hf
    have ha : a ∈ vary := mem_sortStrings.mp ha
    have hmark : byte '|' ≠ byte '=' := by decide
    simp [variant, (h.names a ha).1, hmark, h.values a ha]

theorem keyFromRequest_inj {r r' : Request} {vary vary' : List GoString} (h : Legible r vary)
    (h' : Legible r' vary') (heq : keyFromRequest r vary = keyFromRequest r' vary') :
    r.method = r'.method ∧ r.url.escapedPath = r'.url.escapedPath ∧ r.url.rawQuery = r'.url.rawQuery ∧
      vary.Perm vary' ∧ ∀ a ∈ vary', r.header.get a = r'.header.get a := by
  -- splitting at the separator recovers the fields
  have hfields : keyFields r vary = keyFields r' vary' := by
    have := congrArg (List.splitOn (byte '|')) heq
    rwa [keyFromRequest_eq_join, keyFromRequest_eq_join, join, join,
      List.splitOn_intercalate _ h.fields (List.cons_ne_nil _ _),
      List.splitOn_intercalate _ h'.fields (List.cons_ne_nil _ _)] at this
  rw [keyFields, keyFields, List.cons.injEq, List.cons.injEq] at hfields
  obtain ⟨hmethod, htarget, hvariants⟩ := hfields
  obtain ⟨hpath, hquery⟩ := target_inj htarget
  have hnames : ∀ a ∈ sortStrings vary, byte '=' ∉ a := fun a ha =>
    (h.names a (mem_sortStrings.mp ha)).2
  have hnames' : ∀ a ∈ sortStrings vary', byte '=' ∉ a := fun a ha =>
    (h'.names a (mem_sortStrings.mp ha)).2
  obtain ⟨hsorted, hget⟩ := map_variant_inj hnames hnames' hvariants
  refine ⟨hmethod, hpath, hquery, ?_, fun a ha => hget a ?_⟩
  · exact (perm_sortStrings vary).symm.trans (hsorted ▸ perm_sortStrings vary')
  · rw [hsorted]
    exact mem_sortStrings.mpr ha

end EdgeQuota.Cache
