import EdgeQuota.Go.Strings

/-! The parts of `net/http` and `net/url` that the program uses: header maps, the escaped path of
a URL, requests, and the response writer of the server. -/

namespace EdgeQuota.Go

def validHeaderFieldByte (c : UInt8) : Bool :=
  isDigit c || isUpper c || isLower c || (str "!#$%&'*+-.^_`|~").contains c

def canonicalFrom : Bool → GoString → GoString
  | _, [] => []
  | upper, c :: s =>
    let c := if upper && isLower c then c - 32 else if !upper && isUpper c then c + 32 else c
    c :: canonicalFrom (c == byte '-') s

def canonicalHeaderKey (s : GoString) : GoString :=
  if s.all validHeaderFieldByte then canonicalFrom true s else s

theorem validHeaderFieldByte_ascii {c : UInt8} (h : validHeaderFieldByte c = true) : c < 0x80 := by
  have hall : ∀ c, validHeaderFieldByte c = true → c < 0x80 := forall_byte (by decide +kernel)
  exact hall c h

theorem canonicalFrom_canonicalFrom (upper : Bool) (s : GoString) :
    canonicalFrom upper (canonicalFrom upper s) = canonicalFrom upper s := by
  have hbyte : ∀ (upper : Bool) (c : UInt8),
      let canon c : UInt8 := if upper && isLower c then c - 32 else if !upper && isUpper c then c + 32 else c
      canon (canon c) = canon c := by
    intro upper
    apply forall_byte
    revert upper
    decide +kernel
  induction s generalizing upper with
  | nil => rfl
  | cons c s ih =>
    have hc := hbyte upper c
    simp only at hc
    simp only [canonicalFrom, hc, ih]

theorem all_canonicalFrom (upper : Bool) {s : GoString} (h : s.all validHeaderFieldByte = true) :
    (canonicalFrom upper s).all validHeaderFieldByte = true := by
  have hbyte : ∀ (upper : Bool) (c : UInt8), validHeaderFieldByte c = true →
      validHeaderFieldByte (if upper && isLower c then c - 32 else if !upper && isUpper c then c + 32 else c) = true := by
    intro upper
    apply forall_byte
    revert upper
    decide +kernel
  induction s generalizing upper with
  | nil => rfl
  | cons c s ih =>
    rw [List.all_cons, Bool.and_eq_true] at h
    rw [canonicalFrom, List.all_cons, Bool.and_eq_true]
    exact ⟨hbyte upper c h.1, ih _ h.2⟩

theorem all_canonicalHeaderKey {s : GoString} (h : s.all validHeaderFieldByte = true) :
    (canonicalHeaderKey s).all validHeaderFieldByte = true := by
  rw [canonicalHeaderKey, if_pos h]
  exact all_canonicalFrom true h

theorem canonicalHeaderKey_canonicalHeaderKey (s : GoString) :
    canonicalHeaderKey (canonicalHeaderKey s) = canonicalHeaderKey s := by
  by_cases h : s.all validHeaderFieldByte = true
  · have hs : canonicalHeaderKey s = canonicalFrom true s := if_pos h
    rw [hs, canonicalHeaderKey, if_pos (all_canonicalFrom true h), canonicalFrom_canonicalFrom]
  · have hs : canonicalHeaderKey s = s := if_neg h
    rw [hs, hs]

theorem canonicalHeaderKey_toValidUTF8 {key name : GoString} (hname : name.all validHeaderFieldByte = true)
    (h : canonicalHeaderKey (toValidUTF8 key) = canonicalHeaderKey name) :
    canonicalHeaderKey key = canonicalHeaderKey name := by
  have hvalid : (toValidUTF8 key).all validHeaderFieldByte = true := by
    by_contra hnot
    rw [canonicalHeaderKey, if_neg hnot] at h
    exact hnot (h ▸ all_canonicalHeaderKey hname)
  have hascii : ∀ c ∈ key, c < 0x80 :=
    ascii_of_toValidUTF8 fun c hc => validHeaderFieldByte_ascii (List.all_eq_true.mp hvalid c hc)
  rwa [toValidUTF8_ascii hascii] at h

abbrev Header := List (GoString × GoString)

namespace Header

def values (h : Header) (key : GoString) : List GoString :=
  (h.filter fun l => l.1 = canonicalHeaderKey key).map Prod.snd

def get (h : Header) (key : GoString) : GoString := (h.values key).headD []

def add (h : Header) (key value : GoString) : Header := h ++ [(canonicalHeaderKey key, value)]

def del (h : Header) (key : GoString) : Header := h.filter fun l => l.1 ≠ canonicalHeaderKey key

def set (h : Header) (key value : GoString) : Header := (h.del key).add key value

def Single (h : Header) (key : GoString) : Prop := (h.values key).length ≤ 1 ∧ [] ∉ h.values key

instance (h : Header) (key : GoString) : Decidable (h.Single key) := inferInstanceAs (Decidable (_ ∧ _))

theorem values_eq_of_single {h : Header} {key : GoString} (hs : h.Single key) :
    h.values key = if h.get key = [] then [] else [h.get key] := by
  obtain ⟨hlen, hempty⟩ := hs
  unfold get
  rcases hv : h.values key with _ | ⟨v, _ | ⟨_, _⟩⟩
  · rfl
  · have hne : v ≠ [] := by
      rintro rfl
      exact hempty (hv ▸ List.mem_singleton_self _)
    rw [List.headD_cons, if_neg hne]
  · rw [hv] at hlen
    simp at hlen

theorem values_del (h : Header) (key key' : GoString) :
    (h.del key).values key' = if canonicalHeaderKey key = canonicalHeaderKey key' then [] else h.values key' := by
  unfold del values
  rw [List.filter_filter]
  split_ifs with hk
  · simp [hk]
  · congr 1
    refine List.filter_congr fun l _ => ?_
    by_cases hl : l.1 = canonicalHeaderKey key'
    · simp [hl, Ne.symm hk]
    · simp [hl]

theorem values_add (h : Header) (key value key' : GoString) :
    (h.add key value).values key' =
      h.values key' ++ if canonicalHeaderKey key = canonicalHeaderKey key' then [value] else [] := by
  unfold add values
  rw [List.filter_append, List.map_append]
  split_ifs with hk <;> simp [hk]

theorem values_set (h : Header) (key value key' : GoString) :
    (h.set key value).values key' =
      if canonicalHeaderKey key = canonicalHeaderKey key' then [value] else h.values key' := by
  rw [set, values_add, values_del]
  split_ifs
  · rfl
  · exact List.append_nil _

theorem values_foldl_del (h : Header) (keys : List GoString) (key : GoString) :
    (keys.foldl del h).values key =
      if canonicalHeaderKey key ∈ keys.map canonicalHeaderKey then [] else h.values key := by
  induction keys generalizing h with
  | nil => rfl
  | cons k keys ih =>
    rw [List.foldl_cons, ih, values_del, List.map_cons]
    by_cases hk : canonicalHeaderKey k = canonicalHeaderKey key
    · simp [hk]
    · simp [hk, Ne.symm hk]

def lastValue (lines : List (GoString × GoString)) (key : GoString) : Option GoString :=
  (lines.reverse.find? fun l => canonicalHeaderKey l.1 = canonicalHeaderKey key).map Prod.snd

theorem values_foldl_set (h : Header) (lines : List (GoString × GoString)) (key : GoString) :
    (lines.foldl (fun h l => h.set l.1 l.2) h).values key = (lastValue lines key).elim (h.values key) fun v => [v] := by
  induction lines generalizing h with
  | nil => rfl
  | cons l lines ih =>
    rw [List.foldl_cons, ih, values_set]
    unfold lastValue
    rw [List.reverse_cons, List.find?_append]
    cases lines.reverse.find? fun l => canonicalHeaderKey l.1 = canonicalHeaderKey key with
    | some l' => rfl
    | none =>
      by_cases hl : canonicalHeaderKey l.1 = canonicalHeaderKey key
      · simp [hl]
      · simp [hl]

theorem del_del (h : Header) (key key' : GoString) : (h.del key).del key' = (h.del key').del key := by
  unfold del
  rw [List.filter_filter, List.filter_filter]
  congr 1
  funext l
  exact Bool.and_comm _ _

theorem del_add (h : Header) (key value key' : GoString) :
    (h.add key value).del key' =
      if canonicalHeaderKey key = canonicalHeaderKey key' then h.del key' else (h.del key').add key value := by
  unfold add del
  rw [List.filter_append]
  split_ifs with hk <;> simp [hk]

theorem del_set (h : Header) (key value key' : GoString) :
    (h.set key value).del key' =
      if canonicalHeaderKey key = canonicalHeaderKey key' then h.del key' else (h.del key').set key value := by
  unfold set
  rw [del_add, del_del]
  split_ifs with hk
  · unfold del
    rw [hk, List.filter_filter]
    simp
  · rfl

end Header

structure StringMap where
  entries : List (GoString × GoString)
  nodup : (entries.map Prod.fst).Nodup
  deriving DecidableEq

namespace StringMap

def empty : StringMap := ⟨[], List.nodup_nil⟩

def names (m : StringMap) : List GoString := m.entries.map Prod.fst

def find (m : StringMap) (key : GoString) : Option GoString := m.entries.lookup key

def get (m : StringMap) (key : GoString) : GoString := (m.find key).getD []

theorem nodup_filter_append {entries : List (GoString × GoString)} (h : (entries.map Prod.fst).Nodup)
    (key value : GoString) : ((entries.filter (·.1 ≠ key) ++ [(key, value)]).map Prod.fst).Nodup := by
  rw [List.map_append, List.nodup_append]
  refine ⟨h.sublist ((List.filter_sublist).map _), List.nodup_singleton _, ?_⟩
  intro k hk k' hk'
  obtain ⟨l, hl, rfl⟩ := List.mem_map.mp hk
  obtain rfl := List.mem_singleton.mp hk'
  simpa using (List.mem_filter.mp hl).2

def insert (m : StringMap) (key value : GoString) : StringMap :=
  ⟨m.entries.filter (·.1 ≠ key) ++ [(key, value)], nodup_filter_append m.nodup key value⟩

theorem mem_entries_iff (m : StringMap) {key value : GoString} :
    (key, value) ∈ m.entries ↔ m.find key = some value := by
  obtain ⟨entries, nodup⟩ := m
  show (key, value) ∈ entries ↔ entries.lookup key = some value
  induction entries with
  | nil => exact ⟨nofun, nofun⟩
  | cons l entries ih =>
    rw [List.map_cons, List.nodup_cons] at nodup
    obtain ⟨k, v⟩ := l
    rw [List.lookup_cons, List.mem_cons, ih nodup.2]
    by_cases hk : key = k
    · subst hk
      have habsent : entries.lookup key ≠ some value := fun h =>
        nodup.1 (List.mem_map.mpr ⟨(key, value), (ih nodup.2).mpr h, rfl⟩)
      simp [habsent, eq_comm]
    · have hbeq : (key == k) = false := beq_eq_false_iff_ne.mpr hk
      simp [hk, hbeq]

theorem get_of_mem (m : StringMap) {l : GoString × GoString} (h : l ∈ m.entries) : m.get l.1 = l.2 := by
  rw [get, m.mem_entries_iff.mp h]
  rfl

end StringMap

structure URL where
  path : GoString
  rawPath : GoString
  rawQuery : GoString
  deriving DecidableEq

def shouldEscape (c : UInt8) : Bool :=
  !(isDigit c || isUpper c || isLower c || (str "-_.~$&+,/:;=@").contains c)

def validEncoded (s : GoString) : Bool :=
  s.all fun c => (str "!$&'()*+,;=:@[]%").contains c || !shouldEscape c

def unhex (c : UInt8) : Option UInt8 :=
  if isDigit c then some (c - byte '0')
  else if byte 'a' ≤ c ∧ c ≤ byte 'f' then some (c - byte 'a' + 10)
  else if byte 'A' ≤ c ∧ c ≤ byte 'F' then some (c - byte 'A' + 10)
  else none

theorem unhex_hexDigit (c : UInt8) :
    unhex (hexDigit (c / 16)) = some (c / 16) ∧ unhex (hexDigit (c % 16)) = some (c % 16) := by
  revert c
  exact forall_byte (by decide +kernel)

def unescape : GoString → Option GoString
  | [] => some []
  | c :: a :: b :: s =>
    if c = byte '%' then
      match unhex a, unhex b with
      | some x, some y => (unescape s).map ((x * 16 + y) :: ·)
      | _, _ => none
    else (unescape (a :: b :: s)).map (c :: ·)
  | c :: s => if c = byte '%' then none else (unescape s).map (c :: ·)

def upperHex (n : UInt8) : UInt8 := if n < 10 then byte '0' + n else byte 'A' + (n - 10)

def escapeByte (c : UInt8) : GoString :=
  if shouldEscape c then [byte '%', upperHex (c / 16), upperHex (c % 16)] else [c]

def escape (s : GoString) : GoString := s.flatMap escapeByte

def URL.escapedPath (u : URL) : GoString :=
  if u.rawPath ≠ [] ∧ validEncoded u.rawPath ∧ unescape u.rawPath = some u.path then u.rawPath
  else if u.path = str "*" then str "*"
  else escape u.path

theorem shouldEscape_upperHex (c : UInt8) :
    shouldEscape (upperHex (c / 16)) = false ∧ shouldEscape (upperHex (c % 16)) = false := by
  revert c
  exact forall_byte (by decide +kernel)

theorem shouldEscape_of_mem_escape {s : GoString} {c : UInt8} (h : c ∈ escape s) :
    c = byte '%' ∨ shouldEscape c = false := by
  obtain ⟨b, -, hmem⟩ := List.mem_flatMap.mp h
  unfold escapeByte at hmem
  split_ifs at hmem with hb
  · obtain ⟨hhi, hlo⟩ := shouldEscape_upperHex b
    simp only [List.mem_cons, List.not_mem_nil, or_false] at hmem
    rcases hmem with rfl | rfl | rfl
    · exact Or.inl rfl
    · exact Or.inr hhi
    · exact Or.inr hlo
  · obtain rfl := List.mem_singleton.mp hmem
    exact Or.inr (Bool.not_eq_true _ ▸ hb)

theorem shouldEscape_of_mem_validEncoded {s : GoString} {c : UInt8} (hs : validEncoded s = true) (h : c ∈ s) :
    (str "!$&'()*+,;=:@[]%").contains c = true ∨ shouldEscape c = false := by
  have := List.all_eq_true.mp hs c h
  simpa only [Bool.or_eq_true, Bool.not_eq_true'] using this

theorem notMem_escapedPath (u : URL) {c : UInt8} (hc : c = byte '|' ∨ c = byte '?') : c ∉ u.escapedPath := by
  have hescaped : shouldEscape c = true := by rcases hc with rfl | rfl <;> decide +kernel
  have hstar : c ∉ str "*" := by rcases hc with rfl | rfl <;> decide +kernel
  have hsub : (str "!$&'()*+,;=:@[]%").contains c = false := by rcases hc with rfl | rfl <;> decide +kernel
  have hpercent : c ≠ byte '%' := by rcases hc with rfl | rfl <;> decide +kernel
  intro h
  unfold URL.escapedPath at h
  split_ifs at h with hraw hpath
  · rcases shouldEscape_of_mem_validEncoded hraw.2.1 h with h | h
    · rw [hsub] at h
      cases h
    · rw [hescaped] at h
      cases h
  · exact hstar h
  · rcases shouldEscape_of_mem_escape h with h | h
    · exact hpercent h
    · rw [hescaped] at h
      cases h

section Unescape
variable {c : UInt8} {s a : GoString}

theorem unescape_cons (hc : c ≠ byte '%') (s : GoString) : unescape (c :: s) = (unescape s).map (c :: ·) := by
  match s with
  | [] => exact if_neg hc
  | [_] => exact if_neg hc
  | _ :: _ :: _ => rw [unescape, if_neg hc]

theorem unescape_percent {x y hi lo : UInt8} (hx : unhex x = some hi) (hy : unhex y = some lo) (s : GoString) :
    unescape (byte '%' :: x :: y :: s) = (unescape s).map ((hi * 16 + lo) :: ·) := by
  rw [unescape, if_pos rfl, hx, hy]

theorem unescape_cons_eq_some (h : unescape (c :: s) = some a) :
    (c ≠ byte '%' ∧ ∃ rest, unescape s = some rest ∧ a = c :: rest) ∨
      c = byte '%' ∧ ∃ x y s' hi lo rest, s = x :: y :: s' ∧ unhex x = some hi ∧ unhex y = some lo ∧
        unescape s' = some rest ∧ a = (hi * 16 + lo) :: rest := by
  by_cases hc : c = byte '%'
  · right
    subst hc
    match s with
    | [] => cases h
    | [_] => cases h
    | x :: y :: s' =>
      cases hx : unhex x with
      | none => simp [unescape, hx] at h
      | some hi =>
        cases hy : unhex y with
        | none => simp [unescape, hx, hy] at h
        | some lo =>
          rw [unescape_percent hx hy] at h
          obtain ⟨rest, hrest, rfl⟩ := Option.map_eq_some_iff.mp h
          exact ⟨rfl, x, y, s', hi, lo, rest, rfl, hx, hy, hrest, rfl⟩
  · rw [unescape_cons hc] at h
    obtain ⟨rest, hrest, rfl⟩ := Option.map_eq_some_iff.mp h
    exact .inl ⟨hc, rest, hrest, rfl⟩

theorem unescape_append (h : unescape s = some a) (t : GoString) :
    unescape (s ++ t) = (unescape t).map (a ++ ·) := by
  induction hn : s.length using Nat.strong_induction_on generalizing s a with
  | _ n ih =>
    cases s with
    | nil =>
      obtain rfl := Option.some.inj h
      simp
    | cons c s =>
      rcases unescape_cons_eq_some h with ⟨hc, rest, hrest, rfl⟩ | ⟨rfl, x, y, s', hi, lo, rest, rfl, hx, hy, hrest, rfl⟩
      · have htail := ih s.length (by simp at hn; omega) hrest rfl
        rw [List.cons_append, unescape_cons hc, htail, Option.map_map]
        rfl
      · have htail := ih s'.length (by simp at hn; omega) hrest rfl
        rw [List.cons_append, List.cons_append, List.cons_append, unescape_percent hx hy, htail, Option.map_map]
        rfl

theorem unescape_concat (hc : c ≠ byte '%') (hhex : unhex c = none) (h : unescape (s ++ [c]) = some a) :
    ∃ rest, unescape s = some rest ∧ a = rest ++ [c] := by
  induction hn : s.length using Nat.strong_induction_on generalizing s a with
  | _ n ih =>
    cases s with
    | nil =>
      rw [List.nil_append, unescape_cons hc] at h
      exact ⟨[], rfl, (Option.some.inj h).symm⟩
    | cons d s =>
      rw [List.cons_append] at h
      rcases unescape_cons_eq_some h with ⟨hd, a', ha', rfl⟩ | ⟨rfl, x, y, s', hi, lo, a', hs, hx, hy, ha', rfl⟩
      · obtain ⟨rest, hrest, rfl⟩ := ih s.length (by simp at hn; omega) ha' rfl
        exact ⟨d :: rest, by rw [unescape_cons hd, hrest]; rfl, rfl⟩
      · rcases List.eq_nil_or_concat s' with rfl | ⟨s'', last, rfl⟩
        · -- the byte would be the second digit
          have hlast : y = c := by
            have hends := congrArg List.getLast? hs
            simpa using hends.symm
          rw [hlast, hhex] at hy
          cases hy
        · have hsplit : s = x :: y :: s'' ∧ [c] = [last] := by
            refine List.append_inj' (?_ : s ++ [c] = (x :: y :: s'') ++ [last]) rfl
            simpa using hs
          obtain ⟨rfl, hlast⟩ := hsplit
          obtain rfl := List.head_eq_of_cons_eq hlast
          obtain ⟨rest, hrest, rfl⟩ := ih s''.length (by simp at hn; omega) (by simpa using ha') rfl
          exact ⟨(hi * 16 + lo) :: rest, by rw [unescape_percent hx hy, hrest]; rfl, rfl⟩

theorem append_inj_of_unescape {s' t t' : GoString} (h : s ++ t = s' ++ t') (hs : unescape s = some a)
    (hs' : unescape s' = some a) : s = s' ∧ t = t' := by
  have hone : ∀ {u v w : GoString}, v = u ++ w → unescape u = some a → unescape v = some a → w = [] := by
    intro u v w hv hu hv'
    rw [hv, unescape_append hu] at hv'
    obtain ⟨b, hb, hab⟩ := Option.map_eq_some_iff.mp hv'
    obtain rfl := List.append_right_eq_self.mp hab
    cases w with
    | nil => rfl
    | cons c w =>
      rcases unescape_cons_eq_some hb with ⟨-, rest, -, ⟨⟩⟩ | ⟨-, x, y, s', hi, lo, rest, -, -, -, -, ⟨⟩⟩
  rcases List.append_eq_append_iff.mp h with ⟨w, hw, hrest⟩ | ⟨w, hw, hrest⟩
  · obtain rfl := hone hw hs hs'
    exact ⟨by simpa using hw.symm, by simpa using hrest⟩
  · obtain rfl := hone hw hs' hs
    exact ⟨by simpa using hw, by simpa using hrest.symm⟩

theorem unhex_upperHex (c : UInt8) :
    unhex (upperHex (c / 16)) = some (c / 16) ∧ unhex (upperHex (c % 16)) = some (c % 16) ∧ c / 16 * 16 + c % 16 = c := by
  revert c
  exact forall_byte (by decide +kernel)

theorem unescape_escapeByte (c : UInt8) : unescape (escapeByte c) = some [c] := by
  unfold escapeByte
  split_ifs with hc
  · obtain ⟨hhi, hlo, hsum⟩ := unhex_upperHex c
    rw [unescape_percent hhi hlo, hsum]
    rfl
  · refine unescape_cons ?_ []
    rintro rfl
    exact hc (by decide)

theorem unescape_escape (s : GoString) : unescape (escape s) = some s := by
  induction s with
  | nil => rfl
  | cons c s ih =>
    change unescape (escapeByte c ++ escape s) = some (c :: s)
    rw [unescape_append (unescape_escapeByte c), ih]
    rfl

theorem escape_append (s t : GoString) : escape (s ++ t) = escape s ++ escape t := List.flatMap_append

theorem unescape_escapedPath (u : URL) : unescape u.escapedPath = some u.path := by
  unfold URL.escapedPath
  split_ifs with hraw hstar
  · exact hraw.2.2
  · rw [hstar]
    decide
  · exact unescape_escape u.path

end Unescape

structure BackendURL where
  scheme : GoString
  host : GoString
  path : GoString
  deriving DecidableEq

/-- The values that the chain hands on in the context of a request: its rate-limit key, the backend
and the protocol that the external service chose, and the time it may take. -/
structure Context where
  key : GoString := []
  backendURL : Option BackendURL := none
  backendProtocol : GoString := []
  timeout : Option ℤ := none
  deriving DecidableEq

structure BodyReader where
  pieces : List GoString := []
  fails : Bool := false
  deriving DecidableEq

namespace BodyReader

def bytes (b : BodyReader) : GoString := b.pieces.flatten

def readPieces : ℕ → List GoString → GoString × List GoString
  | 0, ps => ([], ps)
  | _, [] => ([], [])
  | n + 1, p :: ps =>
    if p.length ≤ n + 1 then
      let (b, rest) := readPieces (n + 1 - p.length) ps
      (p ++ b, rest)
    else (p.take (n + 1), p.drop (n + 1) :: ps)

def readAll (b : BodyReader) (limit : ℕ) : GoString × BodyReader :=
  ((readPieces limit b.pieces).1, { b with pieces := (readPieces limit b.pieces).2 })

theorem readPieces_spec (n : ℕ) (ps : List GoString) :
    (readPieces n ps).1 = ps.flatten.take n ∧ (readPieces n ps).2.flatten = ps.flatten.drop n := by
  induction ps generalizing n with
  | nil => cases n <;> exact ⟨rfl, rfl⟩
  | cons p ps ih =>
    cases n with
    | zero => exact ⟨rfl, rfl⟩
    | succ n =>
      obtain ⟨htake, hdrop⟩ := ih (n + 1 - p.length)
      rw [readPieces, List.flatten_cons]
      split_ifs with hle
      · rw [List.take_append, List.drop_append, List.take_of_length_le hle, List.drop_of_length_le hle]
        exact ⟨congrArg (p ++ ·) htake, hdrop⟩
      · have hlt : n + 1 ≤ p.length := (not_le.mp hle).le
        rw [List.take_append_of_le_length hlt, List.drop_append_of_le_length hlt]
        exact ⟨rfl, List.flatten_cons⟩

theorem readAll_bytes (b : BodyReader) (limit : ℕ) :
    (b.readAll limit).1 = b.bytes.take limit ∧ (b.readAll limit).2.bytes = b.bytes.drop limit :=
  readPieces_spec limit b.pieces

end BodyReader

/-- What the body field of a request refers to. Requests that are copies of one another share the
reader of the connection. -/
inductive BodyRef where
  | noBody
  | connection
  | buffer (bytes : GoString)
  deriving DecidableEq

def BodyRef.bytes (conn : BodyReader) : BodyRef → GoString
  | .noBody => []
  | .connection => conn.bytes
  | .buffer b => b

structure Request where
  method : GoString
  url : URL
  header : Header
  host : GoString := []
  remoteAddr : GoString := []
  body : BodyRef := .noBody
  context : Context := {}
  deriving DecidableEq

def Request.Arrived (r : Request) : Prop := ∀ b, r.body ≠ .buffer b

/-- Writing any other status panics. -/
def validStatus (code : ℤ) : Bool := 100 ≤ code && code ≤ 999

/-- The writer a server hands to a handler: the header map, the status lines written so far with
the headers each carried, and the body bytes taken. -/
structure ResponseWriter where
  header : Header := []
  sent : List (ℤ × Header) := []
  wroteHeader : Bool := false
  body : GoString := []
  deriving DecidableEq

def bodyAllowed (code : ℤ) : Bool := !(code = 101 || code = 204 || code = 304)

def statusTexts : List (ℤ × String) :=
  [(100, "Continue"), (101, "Switching Protocols"), (102, "Processing"), (103, "Early Hints"),
   (200, "OK"), (201, "Created"), (202, "Accepted"), (203, "Non-Authoritative Information"),
   (204, "No Content"), (205, "Reset Content"), (206, "Partial Content"), (207, "Multi-Status"),
   (208, "Already Reported"), (226, "IM Used"),
   (300, "Multiple Choices"), (301, "Moved Permanently"), (302, "Found"), (303, "See Other"),
   (304, "Not Modified"), (305, "Use Proxy"), (307, "Temporary Redirect"), (308, "Permanent Redirect"),
   (400, "Bad Request"), (401, "Unauthorized"), (402, "Payment Required"), (403, "Forbidden"),
   (404, "Not Found"), (405, "Method Not Allowed"), (406, "Not Acceptable"),
   (407, "Proxy Authentication Required"), (408, "Request Timeout"), (409, "Conflict"), (410, "Gone"),
   (411, "Length Required"), (412, "Precondition Failed"), (413, "Request Entity Too Large"),
   (414, "Request URI Too Long"), (415, "Unsupported Media Type"), (416, "Requested Range Not Satisfiable"),
   (417, "Expectation Failed"), (418, "I'm a teapot"), (421, "Misdirected Request"),
   (422, "Unprocessable Entity"), (423, "Locked"), (424, "Failed Dependency"), (425, "Too Early"),
   (426, "Upgrade Required"), (428, "Precondition Required"), (429, "Too Many Requests"),
   (431, "Request Header Fields Too Large"), (451, "Unavailable For Legal Reasons"),
   (500, "Internal Server Error"), (501, "Not Implemented"), (502, "Bad Gateway"),
   (503, "Service Unavailable"), (504, "Gateway Timeout"), (505, "HTTP Version Not Supported"),
   (506, "Variant Also Negotiates"), (507, "Insufficient Storage"), (508, "Loop Detected"),
   (510, "Not Extended"), (511, "Network Authentication Required")]

def statusText (code : ℤ) : GoString := str ((statusTexts.lookup code).getD "")

namespace ResponseWriter

/-- An informational status is sent at once and leaves the response open. Codes that are not a `validStatus`, at which
`net/http` panics, are left to the statements. -/
def writeHeader (w : ResponseWriter) (code : ℤ) : ResponseWriter :=
  if w.wroteHeader then w
  else
    { w with
      sent := w.sent ++ [(code, w.header)]
      wroteHeader := !decide (100 ≤ code ∧ code ≤ 199 ∧ code ≠ 101) }

def write (w : ResponseWriter) (b : GoString) (n : ℕ) : ResponseWriter :=
  let w := if w.wroteHeader then w else w.writeHeader 200
  { w with body := w.body ++ b.take n }

def error (w : ResponseWriter) (message : GoString) (code : ℤ) : ResponseWriter :=
  let header := ((w.header.del (str "Content-Length")).set (str "Content-Type") (str "text/plain; charset=utf-8")).set
    (str "X-Content-Type-Options") (str "nosniff")
  let body := message ++ [0x0A]
  ({ w with header := header }.writeHeader code).write body body.length

end ResponseWriter

inductive HandlerOp where
  | setHeader (key value : GoString)
  | addHeader (key value : GoString)
  | delHeader (key : GoString)
  | clearHeader
  | writeHeader (code : ℤ)
  | write (b : GoString) (n : ℕ)
  deriving DecidableEq

def ResponseWriter.handle (w : ResponseWriter) : HandlerOp → ResponseWriter
  | .setHeader key value => { w with header := w.header.set key value }
  | .addHeader key value => { w with header := w.header.add key value }
  | .delHeader key => { w with header := w.header.del key }
  | .clearHeader => { w with header := [] }
  | .writeHeader code => w.writeHeader code
  | .write b n => w.write b n

structure Handling where
  ops : List HandlerOp := []
  returned : Bool := true
  deriving DecidableEq

end EdgeQuota.Go
