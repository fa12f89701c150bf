import EdgeQuota.Go.Json
import Mathlib.Data.List.TakeWhile

/-! What `encoding/json` writes, read back by its own lexer and parser. Strings come back as valid UTF-8; everything
else comes back as it was. -/

namespace EdgeQuota.Go.Json

def jsonArray (items : List GoString) : GoString := byte '[' :: join (byte ',') items ++ [byte ']']

def jsonObject (members : List (GoString × GoString)) : GoString :=
  byte '\x7b' :: join (byte ',') (members.map fun m => jsonString m.1 ++ byte ':' :: m.2) ++ [byte '\x7d']

def Whole (ps : List Piece) : Prop := ∀ n, .unit n ∈ ps → isHighSurrogate n = false

section Pieces
variable {ps qs : List Piece} {ts : List Token}

theorem encodePieces_unit {n : ℕ} (hn : isHighSurrogate n = false) (ps : List Piece) :
    encodePieces (.unit n :: ps) = encodeUnit n ++ encodePieces ps := by
  cases ps with
  | nil => simp [encodePieces]
  | cons p ps =>
    cases p with
    | byte c => simp [encodePieces]
    | unit m => simp [encodePieces, hn]

theorem encodePieces_append (h : Whole ps) (qs : List Piece) :
    encodePieces (ps ++ qs) = encodePieces ps ++ encodePieces qs := by
  induction ps with
  | nil => rfl
  | cons p ps ih =>
    have hrest := ih fun n hn => h n (List.mem_cons_of_mem _ hn)
    cases p with
    | byte c =>
      change c :: encodePieces (ps ++ qs) = _
      rw [hrest]
      rfl
    | unit n =>
      have hn := h n (List.mem_cons_self ..)
      rw [List.cons_append, encodePieces_unit hn, encodePieces_unit hn, hrest, List.append_assoc]

theorem Whole.append (hps : Whole ps) (hqs : Whole qs) : Whole (ps ++ qs) :=
  fun n hn => (List.mem_append.mp hn).elim (hps n) (hqs n)

def Spells (text bytes : GoString) : Prop :=
  ∃ qs, Whole qs ∧ encodePieces qs = bytes ∧
    ∀ ts ps, text.foldlM Lexer.step ⟨ts, .string ps⟩ = some ⟨ts, .string (ps ++ qs)⟩

theorem Spells.nil : Spells [] [] := ⟨[], by rintro n ⟨⟩, rfl, fun ts ps => by rw [List.append_nil]; rfl⟩

theorem Spells.append {a b x y : GoString} (ha : Spells a x) (hb : Spells b y) : Spells (a ++ b) (x ++ y) := by
  obtain ⟨qs, hqs, hx, hread⟩ := ha
  obtain ⟨rs, hrs, hy, hread'⟩ := hb
  refine ⟨qs ++ rs, hqs.append hrs, ?_, fun ts ps => ?_⟩
  · rw [encodePieces_append hqs, hx, hy]
  · rw [List.foldlM_append, hread ts ps]
    change b.foldlM Lexer.step ⟨ts, .string (ps ++ qs)⟩ = _
    rw [hread' ts (ps ++ qs), List.append_assoc]

theorem whole_byte (c : UInt8) : Whole [.byte c] := by
  intro n hn
  cases List.mem_singleton.mp hn

theorem whole_unit {n : ℕ} (hn : isHighSurrogate n = false) : Whole [.unit n] := by
  intro m hm
  cases List.mem_singleton.mp hm
  exact hn

theorem spells_byte {c : UInt8} (hquote : c ≠ byte '"') (hslash : c ≠ byte '\\') (hlow : ¬c < 0x20) : Spells [c] [c] := by
  refine ⟨[.byte c], whole_byte c, rfl, fun ts ps => ?_⟩
  simp [Lexer.step, hquote, hslash, hlow, Lexer.enter]

theorem spells_escape {c : UInt8} {n : ℕ} (hc : c ≠ byte 'u') (hunit : escapedUnit c = some n)
    (hn : isHighSurrogate n = false) : Spells [byte '\\', c] (encodeUnit n) := by
  have hslash : byte '\\' ≠ byte '"' := by decide
  refine ⟨[.unit n], whole_unit hn, by simp [encodePieces], fun ts ps => ?_⟩
  simp [Lexer.step, hc, hunit, Lexer.enter, hslash]

theorem spells_hex {a b c d w x y z : UInt8} (ha : unhex a = some w) (hb : unhex b = some x) (hc : unhex c = some y)
    (hd : unhex d = some z)
    (hn : isHighSurrogate (((w.toNat * 16 + x.toNat) * 16 + y.toNat) * 16 + z.toNat) = false) :
    Spells [byte '\\', byte 'u', a, b, c, d] (encodeUnit (((w.toNat * 16 + x.toNat) * 16 + y.toNat) * 16 + z.toNat)) := by
  have hslash : byte '\\' ≠ byte '"' := by decide
  refine ⟨[.unit (((w.toNat * 16 + x.toNat) * 16 + y.toNat) * 16 + z.toNat)], whole_unit hn, by simp [encodePieces],
    fun ts ps => ?_⟩
  simp [Lexer.step, ha, hb, hc, hd, Lexer.enter, hslash]

theorem spells_bytes {r : GoString} (h : ∀ c ∈ r, 0x80 ≤ c) : Spells r r := by
  have hplain : ∀ c : UInt8, 0x80 ≤ c → c ≠ byte '"' ∧ c ≠ byte '\\' ∧ ¬c < 0x20 := forall_byte (by decide +kernel)
  induction r with
  | nil => exact Spells.nil
  | cons c r ih =>
    obtain ⟨hc, hr⟩ := List.forall_mem_cons.mp h
    obtain ⟨hquote, hslash, hlow⟩ := hplain c hc
    exact (spells_byte hquote hslash hlow).append (ih hr)

theorem encodeUnit_ascii {c : UInt8} (hc : c < 0x80) : encodeUnit c.toNat = [c] ∧ isHighSurrogate c.toNat = false := by
  have hall : ∀ c : UInt8, c < 0x80 → encodeUnit c.toNat = [c] ∧ isHighSurrogate c.toNat = false :=
    forall_byte (by decide +kernel)
  exact hall c hc

theorem spells_ascii {c : UInt8} (hc : c < 0x80) : Spells (jsonRune [c]) [c] := by
  obtain ⟨hunit, hwhole⟩ := encodeUnit_ascii hc
  have hescape : ∀ d : UInt8, d ≠ byte 'u' → escapedUnit d = some c.toNat → Spells [byte '\\', d] [c] := by
    intro d hd hunits
    have hspells := spells_escape hd hunits hwhole
    rw [hunit] at hspells
    exact hspells
  change Spells (if c = byte '"' ∨ c = byte '\\' then [byte '\\', c] else _) [c]
  split_ifs with hquoted hb ht hn hf hr hother
  · rcases hquoted with rfl | rfl
    · exact hescape _ (by decide) (by decide)
    · exact hescape _ (by decide) (by decide)
  · subst hb
    exact hescape _ (by decide) (by decide)
  · subst ht
    exact hescape _ (by decide) (by decide)
  · subst hn
    exact hescape _ (by decide) (by decide)
  · subst hf
    exact hescape _ (by decide) (by decide)
  · subst hr
    exact hescape _ (by decide) (by decide)
  · obtain ⟨hhigh, hlow⟩ := unhex_hexDigit c
    have hsum : (c / 16).toNat * 16 + (c % 16).toNat = c.toNat := by
      rw [UInt8.toNat_div, UInt8.toNat_mod]
      exact Nat.div_add_mod' ..
    have hzero : unhex (byte '0') = some 0 := by decide
    have hvalue : (((0 : UInt8).toNat * 16 + (0 : UInt8).toNat) * 16 + (c / 16).toNat) * 16 + (c % 16).toNat = c.toNat := by
      rw [← hsum]
      simp
    have hspells := spells_hex hzero hzero hhigh hlow (by rw [hvalue]; exact hwhole)
    rw [hvalue, hunit] at hspells
    exact hspells
  · obtain ⟨hquote, hslash⟩ := not_or.mp hquoted
    exact spells_byte hquote hslash (not_or.mp hother).1

theorem jsonRune_of_ne {r : GoString} (hsingle : ∀ c, r ≠ [c]) (hline : r ≠ [0xE2, 0x80, 0xA8])
    (hparagraph : r ≠ [0xE2, 0x80, 0xA9]) : jsonRune r = r := by
  unfold jsonRune
  split
  · exact absurd rfl (hsingle _)
  · rw [if_neg hline, if_neg hparagraph]

theorem spells_jsonRune {r : GoString} (h : (∃ c, r = [c] ∧ c < 0x80) ∨ ∀ c ∈ r, 0x80 ≤ c) : Spells (jsonRune r) r := by
  have hsingle : ∀ c : UInt8, 0x80 ≤ c → jsonRune [c] = [c] := forall_byte (by decide +kernel)
  have hlines : ∀ d w : UInt8, unhex d = some w → w = 8 ∨ w = 9 →
      Spells [byte '\\', byte 'u', byte '2', byte '0', byte '2', d] (encodeUnit (0x2020 + w.toNat)) := by
    intro d w hd hw
    refine spells_hex (by decide : unhex (byte '2') = some 2) (by decide : unhex (byte '0') = some 0)
      (by decide : unhex (byte '2') = some 2) hd ?_
    rcases hw with rfl | rfl <;> decide
  rcases h with ⟨c, rfl, hc⟩ | h
  · exact spells_ascii hc
  · by_cases hline : r = [0xE2, 0x80, 0xA8]
    · subst hline
      exact hlines (byte '8') 8 (by decide) (.inl rfl)
    · by_cases hparagraph : r = [0xE2, 0x80, 0xA9]
      · subst hparagraph
        exact hlines (byte '9') 9 (by decide) (.inr rfl)
      · have hsame : jsonRune r = r := by
          by_cases hone : ∃ c, r = [c]
          · obtain ⟨c, rfl⟩ := hone
            exact hsingle c (h c (List.mem_singleton_self c))
          · exact jsonRune_of_ne (fun c hc => hone ⟨c, hc⟩) hline hparagraph
        rw [hsame]
        exact spells_bytes h

theorem spells_runeError : Spells (str "\\ufffd") runeError :=
  spells_hex (by decide : unhex (byte 'f') = some 15) (by decide : unhex (byte 'f') = some 15)
    (by decide : unhex (byte 'f') = some 15) (by decide : unhex (byte 'd') = some 13) (by decide)

theorem spells_jsonFrom (skip : ℕ) (s : GoString) : Spells (jsonFrom skip s) (runesFrom skip s).flatten := by
  induction s generalizing skip with
  | nil =>
    rw [jsonFrom, runesFrom]
    exact Spells.nil
  | cons c s ih =>
    cases skip with
    | succ skip =>
      rw [jsonFrom, runesFrom]
      exact ih skip
    | zero =>
      rw [jsonFrom, runesFrom]
      cases hsize : runeSize (c :: s) with
      | none => exact spells_runeError.append (ih 0)
      | some n =>
        have hmem : (c :: s).take n ∈ runes (c :: s) := by
          rw [runes, runesFrom, hsize]
          exact List.mem_cons_self ..
        exact (spells_jsonRune (bytes_of_mem_runes hmem)).append (ih (n - 1))

end Pieces

def Reads (text : GoString) (ts : List Token) : Prop :=
  ∀ before, ∃ l, text.foldlM Lexer.step ⟨before, .between⟩ = some l ∧ l.finish = some ⟨before ++ ts, .between⟩

def Closes (text : GoString) (ts : List Token) : Prop :=
  ∀ before, text.foldlM Lexer.step ⟨before, .between⟩ = some ⟨before ++ ts, .between⟩

section Tokens
variable {a b : GoString} {ts us : List Token}

theorem Closes.reads (h : Closes a ts) : Reads a ts := fun before => ⟨_, h before, rfl⟩

theorem Closes.nil : Closes [] [] := by
  intro before
  rw [List.append_nil]
  rfl

theorem Closes.append (ha : Closes a ts) (hb : Closes b us) : Closes (a ++ b) (ts ++ us) := by
  intro before
  rw [List.foldlM_append, ha before, ← List.append_assoc]
  exact hb (before ++ ts)

theorem Closes.append_reads (ha : Closes a ts) (hb : Reads b us) : Reads (a ++ b) (ts ++ us) := by
  intro before
  rw [List.foldlM_append, ha before, ← List.append_assoc]
  exact hb (before ++ ts)

theorem start_punctuation {c : UInt8} {t : Token} (hc : punctuation c = some t) (l : Lexer) :
    l.start c = some (l.emit t) ∧ isNumberByte c = false ∧ isLower c = false := by
  have hall : ∀ c, (punctuation c).isSome = true → isSpace c = false ∧ c ≠ byte '"' ∧
      (c = byte '-' || isDigit c) = false ∧ isNumberByte c = false ∧ isLower c = false :=
    forall_byte (by decide +kernel)
  obtain ⟨hspace, hquote, hnumber, hbyte, hlower⟩ := hall c (Option.isSome_iff_exists.mpr ⟨t, hc⟩)
  refine ⟨?_, hbyte, hlower⟩
  unfold Lexer.start
  rw [hspace, if_neg Bool.false_ne_true, if_neg hquote, hnumber, if_neg Bool.false_ne_true, hlower,
    if_neg Bool.false_ne_true, hc]
  rfl

theorem closes_punctuation {c : UInt8} {t : Token} (hc : punctuation c = some t) : Closes [c] [t] := by
  intro before
  rw [List.foldlM_cons, Lexer.step, (start_punctuation hc _).1]
  rfl

theorem Reads.punctuation {c : UInt8} {t : Token} (h : Reads a ts) (hc : punctuation c = some t) :
    Closes (a ++ [c]) (ts ++ [t]) := by
  intro before
  obtain ⟨l, hread, hfinish⟩ := h before
  obtain ⟨hstart, hnumber, hlower⟩ := start_punctuation hc ⟨before ++ ts, .between⟩
  have hstep : l.step c = some ⟨before ++ ts ++ [t], .between⟩ := by
    obtain ⟨tokens, mode⟩ := l
    unfold Lexer.step
    cases mode with
    | between =>
      have hsame : (⟨tokens, .between⟩ : Lexer) = ⟨before ++ ts, .between⟩ := Option.some.inj hfinish
      rw [hsame]
      exact hstart
    | number text =>
      simp only [hnumber, Bool.false_eq_true, if_false]
      rw [hfinish]
      exact hstart
    | word text =>
      simp only [hlower, Bool.false_eq_true, if_false]
      rw [hfinish]
      exact hstart
    | string ps => cases hfinish
    | escape ps => cases hfinish
    | hex ps left n => cases hfinish
  rw [List.foldlM_append, hread, ← List.append_assoc]
  change [c].foldlM Lexer.step l = _
  rw [List.foldlM_cons, hstep]
  rfl

theorem closes_jsonString (s : GoString) : Closes (jsonString s) [.string (toValidUTF8 s)] := by
  intro before
  obtain ⟨qs, -, hbytes, hread⟩ := spells_jsonFrom 0 s
  have hunquote : unquote qs = toValidUTF8 s := by
    rw [unquote, hbytes]
    exact validUTF8_toValidUTF8 s
  have hopen : Lexer.step ⟨before, .between⟩ (byte '"') = some ⟨before, .string []⟩ := by
    simp [Lexer.step, Lexer.start, Lexer.enter, show isSpace (byte '"') = false by decide]
  have hclose : Lexer.step ⟨before, .string ([] ++ qs)⟩ (byte '"') = some ⟨before ++ [.string (toValidUTF8 s)], .between⟩ := by
    simp [Lexer.step, Lexer.emit, hunquote]
  rw [jsonString, List.cons_append, List.foldlM_cons, hopen]
  change ((jsonFrom 0 s) ++ [byte '"']).foldlM Lexer.step ⟨before, .string []⟩ = _
  rw [List.foldlM_append, hread before []]
  change [byte '"'].foldlM Lexer.step ⟨before, .string ([] ++ qs)⟩ = _
  rw [List.foldlM_cons, hclose]
  rfl

theorem reads_number {text : GoString} (h : validNumber text = true) (hbytes : ∀ c ∈ text, isNumberByte c = true)
    (hfirst : ∀ c ∈ text.head?, (c = byte '-' || isDigit c) = true) : Reads text [.number text] := by
  have hplain : ∀ c, (c = byte '-' || isDigit c) = true → isSpace c = false ∧ c ≠ byte '"' :=
    forall_byte (by decide +kernel)
  intro before
  refine ⟨⟨before, .number text⟩, ?_, by simp [Lexer.finish, h, Lexer.emit]⟩
  cases text with
  | nil => cases h
  | cons c rest =>
    obtain ⟨-, hrest⟩ := List.forall_mem_cons.mp hbytes
    have hc := hfirst c rfl
    obtain ⟨hspace, hquote⟩ := hplain c hc
    have hstart : Lexer.step ⟨before, .between⟩ c = some ⟨before, .number [c]⟩ := by
      simp only [Lexer.step, Lexer.start, hspace, Bool.false_eq_true, if_false, if_neg hquote, hc, if_true, Lexer.enter]
    have hmore : ∀ (rest : GoString) (read : GoString), (∀ c ∈ rest, isNumberByte c = true) →
        rest.foldlM Lexer.step ⟨before, .number read⟩ = some ⟨before, .number (read ++ rest)⟩ := by
      intro rest
      induction rest with
      | nil =>
        intro read _
        rw [List.append_nil]
        rfl
      | cons d rest ih =>
        intro read hall
        obtain ⟨hd, hall⟩ := List.forall_mem_cons.mp hall
        have hstep : Lexer.step ⟨before, .number read⟩ d = some ⟨before, .number (read ++ [d])⟩ := by
          simp only [Lexer.step, hd, if_true, Lexer.enter]
        rw [List.foldlM_cons, hstep]
        exact (ih (read ++ [d]) hall).trans (by rw [List.append_assoc]; rfl)
    rw [List.foldlM_cons, hstart]
    exact hmore rest [c] hrest

theorem reads_null : Reads (str "null") [.null] := by
  intro before
  exact ⟨⟨before, .word (str "null")⟩, rfl, rfl⟩

theorem validNumber_formatInt (n : ℤ) : validNumber (formatInt n) = true := by
  have htake : (itoa n.natAbs).takeWhile isDigit = itoa n.natAbs :=
    List.takeWhile_eq_self_iff.mpr fun c hc => isDigit_of_mem_itoa hc
  have hdrop : (itoa n.natAbs).dropWhile isDigit = [] :=
    List.dropWhile_eq_nil_iff.mpr fun c hc => isDigit_of_mem_itoa hc
  have hsign : (if (formatInt n).head? = some (byte '-') then (formatInt n).tail else formatInt n) = itoa n.natAbs := by
    unfold formatInt
    by_cases hneg : n < 0
    · rw [if_pos hneg]
      rfl
    · rw [if_neg hneg]
      refine if_neg fun hhead => ?_
      have hdigit := isDigit_of_mem_itoa (List.mem_of_head? hhead)
      revert hdigit
      decide
  have hlead : ((itoa n.natAbs).length = 1 || (itoa n.natAbs).head? ≠ some (byte '0')) = true := by
    by_cases hhead : (itoa n.natAbs).head? = some (byte '0')
    · rw [head_itoa hhead]
      decide
    · simp [hhead]
  unfold validNumber
  simp only [hsign, htake, hdrop]
  rw [hlead]
  simp [itoa_ne_nil, validFraction, validExponent]

end Tokens

def Begins (ts : List Token) : Prop := ∃ t rest, ts = t :: rest ∧ t ≠ .closeArray ∧ t ≠ .closeObject

def Parses (depth : ℕ) (ts : List Token) (v : Value) : Prop :=
  Begins ts ∧
    ∀ stack : List Frame, stack.length + depth ≤ maxNestingDepth →
      ts.foldlM Parser.step ⟨stack, .value⟩ = some (Parser.plug v stack)

def Writes (depth : ℕ) (text : GoString) (v : Value) : Prop := ∃ ts, Reads text ts ∧ Parses depth ts v

theorem Writes.parse {depth : ℕ} {text : GoString} {v : Value} (h : Writes depth text v) (hdepth : depth ≤ maxNestingDepth) :
    parse text = some v := by
  obtain ⟨ts, hreads, -, hparses⟩ := h
  obtain ⟨l, hread, hfinish⟩ := hreads []
  have htokens : tokens text = some ts := by
    unfold tokens
    rw [show ({} : Lexer) = ⟨[], .between⟩ from rfl, hread, Option.bind_some, hfinish]
    rfl
  unfold Json.parse
  rw [htokens, Option.bind_some, show ({} : Parser) = ⟨[], .value⟩ from rfl,
    hparses [] (by simpa using hdepth)]
  rfl

section Values
variable {depth : ℕ} {ts us : List Token}

theorem Begins.append (h : Begins ts) (us : List Token) : Begins (ts ++ us) := by
  obtain ⟨t, rest, rfl, ht⟩ := h
  exact ⟨t, rest ++ us, rfl, ht⟩

theorem parses_scalar {t : Token} {v : Value} (ht : t ≠ .closeArray ∧ t ≠ .closeObject)
    (h : ∀ stack, Parser.step ⟨stack, .value⟩ t = some (Parser.plug v stack)) : Parses depth [t] v := by
  refine ⟨⟨t, [], rfl, ht⟩, fun stack _ => ?_⟩
  rw [List.foldlM_cons, h stack]
  rfl

theorem join_cons (sep : UInt8) (item : GoString) {items : List GoString} (h : items ≠ []) :
    join sep (item :: items) = (item ++ [sep]) ++ join sep items := by
  have happend := join_append sep (List.cons_ne_nil item []) h
  rw [List.singleton_append] at happend
  simpa [join] using happend

theorem writes_null : Writes depth (str "null") .null :=
  ⟨_, reads_null, parses_scalar ⟨by rintro ⟨⟩, by rintro ⟨⟩⟩ fun _ => rfl⟩

theorem writes_string (s : GoString) : Writes depth (jsonString s) (.string (toValidUTF8 s)) :=
  ⟨_, (closes_jsonString s).reads, parses_scalar ⟨by rintro ⟨⟩, by rintro ⟨⟩⟩ fun _ => rfl⟩

theorem writes_formatInt (n : ℤ) : Writes depth (formatInt n) (.number (formatInt n)) := by
  have hnumber : ∀ c, (c = byte '-' || isDigit c) = true → isNumberByte c = true := forall_byte (by decide +kernel)
  have hreads := reads_number (validNumber_formatInt n) (fun c hc => hnumber c (mem_formatInt hc))
    fun c hc => mem_formatInt (List.mem_of_head? hc)
  exact ⟨_, hreads, parses_scalar ⟨by rintro ⟨⟩, by rintro ⟨⟩⟩ fun _ => rfl⟩

end Values

structure Brackets (α : Type) where
  opening : UInt8
  closing : UInt8
  opened : Token
  closed : Token
  frame : List α → Frame
  value : List α → Value
  /-- What is expected after the opening bracket, and after a comma. -/
  first : Expect
  next : Expect
  opening_punctuation : punctuation opening = some opened
  closing_punctuation : punctuation closing = some closed
  begins : opened ≠ .closeArray ∧ opened ≠ .closeObject
  step_opened : ∀ stack, Parser.step ⟨stack, .value⟩ opened = Parser.push (frame []) first stack
  step_first : ∀ stack t, t ≠ .closeArray ∧ t ≠ .closeObject → Parser.step ⟨stack, first⟩ t = Parser.step ⟨stack, next⟩ t
  step_comma : ∀ as stack, Parser.step ⟨frame as :: stack, .separator⟩ .comma = some ⟨frame as :: stack, next⟩
  step_empty : ∀ stack, Parser.step ⟨frame [] :: stack, first⟩ closed = some (Parser.plug (value []) stack)
  step_closed : ∀ as stack, Parser.step ⟨frame as :: stack, .separator⟩ closed = some (Parser.plug (value as) stack)

namespace Brackets
variable {α : Type} {depth : ℕ} (b : Brackets α)

def Adds (depth : ℕ) (text : GoString) (as : List α) : Prop :=
  ∃ ts, Reads text ts ∧ Begins ts ∧
    ∀ (stack : List Frame) (before : List α), stack.length + (depth + 1) ≤ maxNestingDepth →
      ts.foldlM Parser.step ⟨b.frame before :: stack, b.next⟩ = some ⟨b.frame (before ++ as) :: stack, .separator⟩

variable {b} {items : List GoString} {as : List α}

theorem adds_join (h : List.Forall₂ (fun item a => b.Adds depth item [a]) items as) (hne : items ≠ []) :
    b.Adds depth (join (byte ',') items) as := by
  induction h with
  | nil => exact absurd rfl hne
  | @cons item a items as hitem hitems ih =>
    cases hitems with
    | nil =>
      have hjoin : join (byte ',') [item] = item := by simp [join]
      rw [hjoin]
      exact hitem
    | cons hitem' hitems =>
      obtain ⟨ts, hreads, hbegins, hparses⟩ := hitem
      obtain ⟨us, hreads', -, hparses'⟩ := ih (List.cons_ne_nil _ _)
      refine ⟨(ts ++ [.comma]) ++ us, ?_, (hbegins.append _).append _, fun stack before hdepth => ?_⟩
      · rw [join_cons _ _ (List.cons_ne_nil _ _)]
        exact (hreads.punctuation rfl).append_reads hreads'
      · have hcomma : [Token.comma].foldlM Parser.step ⟨b.frame (before ++ [a]) :: stack, .separator⟩ =
            some ⟨b.frame (before ++ [a]) :: stack, b.next⟩ := by
          rw [List.foldlM_cons, b.step_comma]
          rfl
        rw [List.foldlM_append, List.foldlM_append, hparses stack before hdepth]
        change ([Token.comma].foldlM Parser.step _).bind _ = _
        rw [hcomma]
        exact (hparses' stack (before ++ [a]) hdepth).trans (by rw [List.append_assoc]; rfl)

theorem writes (h : List.Forall₂ (fun item a => b.Adds depth item [a]) items as) :
    Writes (depth + 1) (b.opening :: join (byte ',') items ++ [b.closing]) (b.value as) := by
  have hopen : Closes [b.opening] [b.opened] := closes_punctuation b.opening_punctuation
  have hpush : ∀ stack : List Frame, stack.length + (depth + 1) ≤ maxNestingDepth →
      Parser.step ⟨stack, .value⟩ b.opened = some ⟨b.frame [] :: stack, b.first⟩ := by
    intro stack hdepth
    have hroom : stack.length < maxNestingDepth := by omega
    rw [b.step_opened, Parser.push, if_pos hroom]
  by_cases hne : items = []
  · subst hne
    cases h
    refine ⟨[b.opened, b.closed], ?_, ⟨_, _, rfl, b.begins⟩, fun stack hdepth => ?_⟩
    · exact (hopen.append (closes_punctuation b.closing_punctuation)).reads
    · rw [List.foldlM_cons, hpush stack hdepth]
      change [b.closed].foldlM Parser.step _ = _
      rw [List.foldlM_cons, b.step_empty]
      rfl
  · obtain ⟨ts, hreads, ⟨t, rest, rfl, ht⟩, hparses⟩ := adds_join h hne
    refine ⟨[b.opened] ++ (t :: rest ++ [b.closed]), ?_, ⟨_, _, rfl, b.begins⟩, fun stack hdepth => ?_⟩
    · exact (hopen.append (hreads.punctuation b.closing_punctuation)).reads
    · have hitems : (t :: rest).foldlM Parser.step ⟨b.frame [] :: stack, b.first⟩ =
          some ⟨b.frame as :: stack, .separator⟩ := by
        rw [List.foldlM_cons, b.step_first _ _ ht, ← List.foldlM_cons]
        exact hparses stack [] hdepth
      rw [List.singleton_append, List.foldlM_cons, hpush stack hdepth]
      change (t :: rest ++ [b.closed]).foldlM Parser.step _ = _
      rw [List.foldlM_append, hitems]
      change [b.closed].foldlM Parser.step _ = _
      rw [List.foldlM_cons, b.step_closed]
      rfl

theorem step_valueOrClose (stack : List Frame) {t : Token} (ht : t ≠ .closeArray) :
    Parser.step ⟨stack, .valueOrClose⟩ t = Parser.step ⟨stack, .value⟩ t := by
  rcases stack with _ | ⟨_ | _, stack⟩
  case cons.array => cases t <;> first | exact absurd rfl ht | rfl
  all_goals rfl

theorem step_nameOrClose (stack : List Frame) {t : Token} (ht : t ≠ .closeObject) :
    Parser.step ⟨stack, .nameOrClose⟩ t = Parser.step ⟨stack, .name⟩ t := by
  rcases stack with _ | ⟨_ | _, stack⟩
  case cons.object => cases t <;> first | exact absurd rfl ht | rfl
  all_goals rfl

def array : Brackets Value where
  opening := byte '['
  closing := byte ']'
  opened := .openArray
  closed := .closeArray
  frame := .array
  value := .array
  first := .valueOrClose
  next := .value
  opening_punctuation := rfl
  closing_punctuation := rfl
  begins := ⟨by rintro ⟨⟩, by rintro ⟨⟩⟩
  step_opened _ := rfl
  step_first stack _ ht := step_valueOrClose stack ht.1
  step_comma _ _ := rfl
  step_empty _ := rfl
  step_closed _ _ := rfl

def object : Brackets (GoString × Value) where
  opening := byte '\x7b'
  closing := byte '\x7d'
  opened := .openObject
  closed := .closeObject
  frame fs := .object fs []
  value := .object
  first := .nameOrClose
  next := .name
  opening_punctuation := rfl
  closing_punctuation := rfl
  begins := ⟨by rintro ⟨⟩, by rintro ⟨⟩⟩
  step_opened _ := rfl
  step_first stack _ ht := step_nameOrClose stack ht.2
  step_comma _ _ := rfl
  step_empty _ := rfl
  step_closed _ _ := rfl

end Brackets

theorem writes_array {depth : ℕ} {items : List GoString} {vs : List Value} (h : List.Forall₂ (Writes depth) items vs) :
    Writes (depth + 1) (jsonArray items) (.array vs) := by
  refine Brackets.writes (b := .array) (h.imp ?_)
  rintro item v ⟨ts, hreads, hbegins, hparses⟩
  refine ⟨ts, hreads, hbegins, fun stack before hdepth => ?_⟩
  exact hparses (.array before :: stack) (by simp only [List.length_cons]; omega)

theorem writes_object {depth : ℕ} {members : List (GoString × GoString)} {fs : List (GoString × Value)}
    (h : List.Forall₂ (fun m f => f.1 = toValidUTF8 m.1 ∧ Writes depth m.2 f.2) members fs) :
    Writes (depth + 1) (jsonObject members) (.object fs) := by
  refine Brackets.writes (b := .object) (List.forall₂_map_left_iff.mpr (h.imp ?_))
  rintro ⟨name, text⟩ ⟨_, v⟩ ⟨rfl, ts, hreads, -, hparses⟩
  have hname := (closes_jsonString name).append (closes_punctuation (c := byte ':') rfl)
  refine ⟨[.string (toValidUTF8 name), .colon] ++ ts, ?_, ⟨_, _, rfl, by rintro ⟨⟩, by rintro ⟨⟩⟩,
    fun stack before hdepth => ?_⟩
  · have hread := hname.append_reads hreads
    rw [List.append_assoc] at hread
    exact hread
  · rw [List.foldlM_append]
    exact hparses (.object before (toValidUTF8 name) :: stack) (by simp only [List.length_cons]; omega)

def Sets {σ : Type} (fields : List (StructField σ)) (depth : ℕ) (m : GoString × GoString) (f : σ → σ) : Prop :=
  ∃ v, Writes depth m.2 v ∧ ∀ s, decodeMember fields s (toValidUTF8 m.1, v) = some (f s)

theorem sets_field {σ α : Type} {fields : List (StructField σ)} {depth : ℕ} {name : String} {get : σ → α} {set : α → σ → σ}
    {d : Decoder α} (hname : ValidUTF8 (str name)) (hfield : fieldFor fields (str name) = some (field name get set d))
    {text : GoString} {v : Value} (hwrites : Writes depth text v) {g : α → α} (hdecode : ∀ a, d v a = some (g a)) :
    Sets fields depth (str name, text) fun s => set (g (get s)) s := by
  refine ⟨v, hwrites, fun s => ?_⟩
  rw [hname, decodeMember, hfield]
  exact congrArg (Option.map (set · s)) (hdecode (get s))

theorem unmarshal_jsonObject {σ : Type} {fields : List (StructField σ)} {depth : ℕ} {members : List (GoString × GoString)}
    {fs : List (σ → σ)} (h : List.Forall₂ (Sets fields depth) members fs) (hdepth : depth < maxNestingDepth) (zero : σ) :
    unmarshal fields zero (jsonObject members) = some (fs.foldl (fun s f => f s) zero) := by
  obtain ⟨vs, hwrites, hdecode⟩ : ∃ vs : List (GoString × Value),
      List.Forall₂ (fun m f => f.1 = toValidUTF8 m.1 ∧ Writes depth m.2 f.2) members vs ∧
        ∀ s, vs.foldlM (decodeMember fields) s = some (fs.foldl (fun s f => f s) s) := by
    clear hdepth
    induction h with
    | nil => exact ⟨[], .nil, fun s => rfl⟩
    | @cons m f members fs hm hrest ih =>
      obtain ⟨v, hv, hset⟩ := hm
      obtain ⟨vs, hvs, hdecode⟩ := ih
      refine ⟨(toValidUTF8 m.1, v) :: vs, .cons ⟨rfl, hv⟩ hvs, fun s => ?_⟩
      rw [List.foldlM_cons, hset s]
      exact hdecode (f s)
  rw [unmarshal, (writes_object hwrites).parse hdepth, Option.bind_some, decodeStruct_object]
  exact hdecode zero

theorem decodeElements_strings (ss old : List GoString) : decodeElements (ss.map .string) old = some ss := by
  induction ss generalizing old with
  | nil => rfl
  | cons s ss ih =>
    rw [List.map_cons, decodeElements, ih]
    rfl

theorem writes_strings {depth : ℕ} (ss : List GoString) :
    Writes (depth + 1) (jsonArray (ss.map jsonString)) (.array ((ss.map toValidUTF8).map .string)) := by
  refine writes_array ?_
  rw [List.map_map, List.forall₂_map_left_iff, List.forall₂_map_right_iff]
  exact List.forall₂_same.mpr fun s _ => writes_string s

end EdgeQuota.Go.Json
