import EdgeQuota.Go.Http

/-! `encoding/json`: the documents that `Unmarshal` accepts, and what it makes of them in a struct. A lexer
reads the bytes from left to right and keeps the token in progress; a parser reads the tokens and keeps
the values in progress on a stack. -/

namespace EdgeQuota.Go.Json

inductive Token where
  | openObject
  | closeObject
  | openArray
  | closeArray
  | colon
  | comma
  | string (s : GoString)
  | number (text : GoString)
  | bool (b : Bool)
  | null

inductive Piece where
  | byte (c : UInt8)
  | unit (n : ℕ)

inductive Mode where
  | between
  | string (ps : List Piece)
  | escape (ps : List Piece)
  /-- The number of digits still to come, and what those before them amount to. -/
  | hex (ps : List Piece) (left n : ℕ)
  | number (text : GoString)
  | word (text : GoString)

structure Lexer where
  tokens : List Token := []
  mode : Mode := .between

def isSpace (c : UInt8) : Bool := c = 0x20 || c = 0x09 || c = 0x0D || c = 0x0A

def punctuation (c : UInt8) : Option Token :=
  if c = byte '\x7b' then some .openObject
  else if c = byte '\x7d' then some .closeObject
  else if c = byte '[' then some .openArray
  else if c = byte ']' then some .closeArray
  else if c = byte ':' then some .colon
  else if c = byte ',' then some .comma
  else none

def word (text : GoString) : Option Token :=
  if text = str "true" then some (.bool true)
  else if text = str "false" then some (.bool false)
  else if text = str "null" then some .null
  else none

def isNumberByte (c : UInt8) : Bool := isDigit c || (str "+-.eE").contains c

def validExponent : GoString → Bool
  | [] => true
  | e :: s =>
    let s := if s.head? = some (byte '+') ∨ s.head? = some (byte '-') then s.tail else s
    (e = byte 'e' || e = byte 'E') && s ≠ [] && s.all isDigit

def validFraction (s : GoString) : Bool :=
  if s.head? = some (byte '.') then
    s.tail.takeWhile isDigit ≠ [] && validExponent (s.tail.dropWhile isDigit)
  else validExponent s

/-- A sign, an integer without a leading zero, a fraction and an exponent; all but the integer may be missing. -/
def validNumber (text : GoString) : Bool :=
  let s := if text.head? = some (byte '-') then text.tail else text
  let digits := s.takeWhile isDigit
  digits ≠ [] && (digits.length = 1 || digits.head? ≠ some (byte '0')) && validFraction (s.dropWhile isDigit)

def escapedUnit (c : UInt8) : Option ℕ :=
  if c = byte 'b' then some 8
  else if c = byte 't' then some 9
  else if c = byte 'n' then some 10
  else if c = byte 'f' then some 12
  else if c = byte 'r' then some 13
  else if c = byte '"' ∨ c = byte '\\' ∨ c = byte '/' then some c.toNat
  else none

def encodeRune (n : ℕ) : GoString :=
  (if n < 0x80 then [n]
   else if n < 0x800 then [0xC0 + n / 0x40, 0x80 + n % 0x40]
   else if n < 0x10000 then [0xE0 + n / 0x1000, 0x80 + n / 0x40 % 0x40, 0x80 + n % 0x40]
   else [0xF0 + n / 0x40000, 0x80 + n / 0x1000 % 0x40, 0x80 + n / 0x40 % 0x40, 0x80 + n % 0x40]).map UInt8.ofNat

def isHighSurrogate (n : ℕ) : Bool := 0xD800 ≤ n && n < 0xDC00

def isLowSurrogate (n : ℕ) : Bool := 0xDC00 ≤ n && n < 0xE000

def encodeUnit (n : ℕ) : GoString := if isHighSurrogate n || isLowSurrogate n then runeError else encodeRune n

def encodePieces : List Piece → GoString
  | [] => []
  | .byte c :: ps => c :: encodePieces ps
  | [.unit n] => encodeUnit n
  | .unit n :: .byte c :: ps => encodeUnit n ++ c :: encodePieces ps
  | .unit n :: .unit m :: ps =>
    if isHighSurrogate n ∧ isLowSurrogate m then
      encodeRune (0x10000 + (n - 0xD800) * 0x400 + (m - 0xDC00)) ++ encodePieces ps
    else encodeUnit n ++ encodePieces (.unit m :: ps)

def unquote (ps : List Piece) : GoString := toValidUTF8 (encodePieces ps)

namespace Lexer

def emit (l : Lexer) (t : Token) : Lexer := ⟨l.tokens ++ [t], .between⟩

def enter (l : Lexer) (mode : Mode) : Lexer := { l with mode := mode }

def start (l : Lexer) (c : UInt8) : Option Lexer :=
  if isSpace c then some (l.enter .between)
  else if c = byte '"' then some (l.enter (.string []))
  else if c = byte '-' || isDigit c then some (l.enter (.number [c]))
  else if isLower c then some (l.enter (.word [c]))
  else (punctuation c).map l.emit

def finish (l : Lexer) : Option Lexer :=
  match l.mode with
  | .between => some l
  | .number text => if validNumber text then some (l.emit (.number text)) else none
  | .word text => (word text).map l.emit
  | .string _ | .escape _ | .hex _ _ _ => none

def step (l : Lexer) (c : UInt8) : Option Lexer :=
  match l.mode with
  | .between => l.start c
  | .number text => if isNumberByte c then some (l.enter (.number (text ++ [c]))) else l.finish.bind (start · c)
  | .word text => if isLower c then some (l.enter (.word (text ++ [c]))) else l.finish.bind (start · c)
  | .string ps =>
    if c = byte '"' then some (l.emit (.string (unquote ps)))
    else if c = byte '\\' then some (l.enter (.escape ps))
    else if c < 0x20 then none
    else some (l.enter (.string (ps ++ [.byte c])))
  | .escape ps =>
    if c = byte 'u' then some (l.enter (.hex ps 4 0))
    else (escapedUnit c).map fun n => l.enter (.string (ps ++ [.unit n]))
  | .hex ps left n =>
    (unhex c).map fun d =>
      let n := n * 16 + d.toNat
      if left ≤ 1 then l.enter (.string (ps ++ [.unit n])) else l.enter (.hex ps (left - 1) n)

end Lexer

def tokens (data : GoString) : Option (List Token) :=
  ((data.foldlM Lexer.step {}).bind Lexer.finish).map Lexer.tokens

inductive Value where
  | null
  | bool (b : Bool)
  | number (text : GoString)
  | string (s : GoString)
  | array (vs : List Value)
  | object (fs : List (GoString × Value))

inductive Frame where
  | array (vs : List Value)
  | object (fs : List (GoString × Value)) (name : GoString)

inductive Expect where
  | value
  | valueOrClose
  | name
  | nameOrClose
  | colon
  | separator
  | done (v : Value)

structure Parser where
  stack : List Frame := []
  expect : Expect := .value

def maxNestingDepth : ℕ := 10000

namespace Parser

def plug (v : Value) : List Frame → Parser
  | [] => ⟨[], .done v⟩
  | .array vs :: stack => ⟨.array (vs ++ [v]) :: stack, .separator⟩
  | .object fs name :: stack => ⟨.object (fs ++ [(name, v)]) [] :: stack, .separator⟩

def push (f : Frame) (e : Expect) (stack : List Frame) : Option Parser :=
  if stack.length < maxNestingDepth then some ⟨f :: stack, e⟩ else none

def beginValue (stack : List Frame) : Token → Option Parser
  | .null => some (plug .null stack)
  | .bool b => some (plug (.bool b) stack)
  | .number text => some (plug (.number text) stack)
  | .string s => some (plug (.string s) stack)
  | .openArray => push (.array []) .valueOrClose stack
  | .openObject => push (.object [] []) .nameOrClose stack
  | .closeObject | .closeArray | .colon | .comma => none

def step (p : Parser) (t : Token) : Option Parser :=
  match p.expect, p.stack, t with
  | .value, stack, t => beginValue stack t
  | .valueOrClose, .array vs :: stack, .closeArray => some (plug (.array vs) stack)
  | .valueOrClose, stack, t => beginValue stack t
  | .nameOrClose, .object fs _ :: stack, .closeObject => some (plug (.object fs) stack)
  | .nameOrClose, .object fs _ :: stack, .string name => some ⟨.object fs name :: stack, .colon⟩
  | .name, .object fs _ :: stack, .string name => some ⟨.object fs name :: stack, .colon⟩
  | .colon, stack, .colon => some ⟨stack, .value⟩
  | .separator, .array vs :: stack, .comma => some ⟨.array vs :: stack, .value⟩
  | .separator, .array vs :: stack, .closeArray => some (plug (.array vs) stack)
  | .separator, .object fs name :: stack, .comma => some ⟨.object fs name :: stack, .name⟩
  | .separator, .object fs _ :: stack, .closeObject => some (plug (.object fs) stack)
  | _, _, _ => none

def result (p : Parser) : Option Value :=
  match p.expect with
  | .done v => some v
  | _ => none

end Parser

def parse (data : GoString) : Option Value :=
  (tokens data).bind fun ts => (ts.foldlM Parser.step {}).bind Parser.result

theorem foldlM_induction {σ α : Type} {f : σ → α → Option σ} {I : σ → Prop} {P : α → Prop}
    (hstep : ∀ s a s', I s → P a → f s a = some s' → I s') {as : List α} (has : ∀ a ∈ as, P a) {s s' : σ}
    (hs : I s) (h : as.foldlM f s = some s') : I s' := by
  induction as generalizing s with
  | nil => exact Option.some.inj h ▸ hs
  | cons a as ih =>
    obtain ⟨ha, has⟩ := List.forall_mem_cons.mp has
    rw [List.foldlM_cons] at h
    obtain ⟨s₁, hone, hrest⟩ := Option.bind_eq_some_iff.mp h
    exact ih has (hstep s a s₁ hs ha hone) hrest

def Token.Valid : Token → Prop
  | .string s => ValidUTF8 s
  | _ => True

namespace Lexer

def Valid (l : Lexer) : Prop := ∀ t ∈ l.tokens, t.Valid

variable {l l' : Lexer} {c : UInt8}

theorem Valid.emit (h : l.Valid) {t : Token} (ht : t.Valid) : (l.emit t).Valid := by
  intro t' hmem
  rcases List.mem_append.mp hmem with hmem | hmem
  · exact h t' hmem
  · exact List.mem_singleton.mp hmem ▸ ht

theorem valid_punctuation {t : Token} (h : punctuation c = some t) : t.Valid := by
  unfold punctuation at h
  split_ifs at h <;> cases h <;> trivial

theorem valid_word {text : GoString} {t : Token} (h : word text = some t) : t.Valid := by
  unfold word at h
  split_ifs at h <;> cases h <;> trivial

theorem Valid.start (h : l.Valid) (hl : l.start c = some l') : l'.Valid := by
  unfold Lexer.start at hl
  split_ifs at hl
  any_goals
    cases hl
    exact h
  obtain ⟨t, ht, rfl⟩ := Option.map_eq_some_iff.mp hl
  exact h.emit (valid_punctuation ht)

theorem Valid.finish (h : l.Valid) (hl : l.finish = some l') : l'.Valid := by
  unfold Lexer.finish at hl
  split at hl
  · cases hl
    exact h
  · split_ifs at hl
    cases hl
    exact h.emit trivial
  · obtain ⟨t, ht, rfl⟩ := Option.map_eq_some_iff.mp hl
    exact h.emit (valid_word ht)
  all_goals cases hl

theorem Valid.step (h : l.Valid) (hl : l.step c = some l') : l'.Valid := by
  have hrestart : l.finish.bind (Lexer.start · c) = some l' → l'.Valid := by
    intro hl
    obtain ⟨l₁, hfinish, hstart⟩ := Option.bind_eq_some_iff.mp hl
    exact (h.finish hfinish).start hstart
  unfold Lexer.step at hl
  split at hl
  · exact h.start hl
  · split_ifs at hl
    · cases hl
      exact h
    · exact hrestart hl
  · split_ifs at hl
    · cases hl
      exact h
    · exact hrestart hl
  · split_ifs at hl
    · cases hl
      exact h.emit (validUTF8_toValidUTF8 _)
    all_goals
      cases hl
      exact h
  · split_ifs at hl
    · cases hl
      exact h
    · obtain ⟨n, -, rfl⟩ := Option.map_eq_some_iff.mp hl
      exact h
  · obtain ⟨d, -, rfl⟩ := Option.map_eq_some_iff.mp hl
    split_ifs <;> exact h

end Lexer

theorem valid_tokens {data : GoString} {ts : List Token} (h : tokens data = some ts) : ∀ t ∈ ts, t.Valid := by
  obtain ⟨l, hl, rfl⟩ := Option.map_eq_some_iff.mp h
  obtain ⟨l₁, hrun, hfinish⟩ := Option.bind_eq_some_iff.mp hl
  have hempty : Lexer.Valid {} := by rintro t ⟨⟩
  refine Lexer.Valid.finish (foldlM_induction (P := fun _ => True) ?_ (fun _ _ => trivial) hempty hrun) hfinish
  exact fun _ _ _ hs _ hstep => hs.step hstep

inductive Value.Valid : Value → Prop where
  | null : Valid .null
  | bool (b : Bool) : Valid (.bool b)
  | number (text : GoString) : Valid (.number text)
  | string {s : GoString} (h : ValidUTF8 s) : Valid (.string s)
  | array {vs : List Value} (h : ∀ v ∈ vs, v.Valid) : Valid (.array vs)
  | object {fs : List (GoString × Value)} (hname : ∀ f ∈ fs, ValidUTF8 f.1) (h : ∀ f ∈ fs, f.2.Valid) :
    Valid (.object fs)

def Frame.Valid : Frame → Prop
  | .array vs => ∀ v ∈ vs, v.Valid
  | .object fs name => ValidUTF8 name ∧ (∀ f ∈ fs, ValidUTF8 f.1) ∧ ∀ f ∈ fs, f.2.Valid

namespace Parser

structure Valid (p : Parser) : Prop where
  stack : ∀ f ∈ p.stack, f.Valid
  done : ∀ v, p.expect = .done v → v.Valid

variable {p p' : Parser} {stack : List Frame} {t : Token}

theorem valid_plug {v : Value} (hv : v.Valid) (h : ∀ f ∈ stack, f.Valid) : (plug v stack).Valid := by
  cases stack with
  | nil =>
    refine ⟨nofun, ?_⟩
    rintro _ ⟨⟩
    exact hv
  | cons f stack =>
    obtain ⟨hf, hstack⟩ := List.forall_mem_cons.mp h
    cases f with
    | array vs =>
      refine ⟨List.forall_mem_cons.mpr ⟨?_, hstack⟩, nofun⟩
      exact List.forall_mem_append.mpr ⟨hf, List.forall_mem_singleton.mpr hv⟩
    | object fs name =>
      obtain ⟨hname, hnames, hvalues⟩ := hf
      refine ⟨List.forall_mem_cons.mpr ⟨⟨rfl, ?_, ?_⟩, hstack⟩, nofun⟩
      · exact List.forall_mem_append.mpr ⟨hnames, List.forall_mem_singleton.mpr hname⟩
      · exact List.forall_mem_append.mpr ⟨hvalues, List.forall_mem_singleton.mpr hv⟩

theorem valid_push {f : Frame} {e : Expect} (hf : f.Valid) (he : ∀ v, e ≠ .done v) (h : ∀ f ∈ stack, f.Valid)
    (hp : push f e stack = some p) : p.Valid := by
  unfold push at hp
  split_ifs at hp
  cases hp
  exact ⟨List.forall_mem_cons.mpr ⟨hf, h⟩, fun v hv => absurd hv (he v)⟩

theorem valid_beginValue (ht : t.Valid) (h : ∀ f ∈ stack, f.Valid) (hp : beginValue stack t = some p) : p.Valid := by
  cases t <;> try cases hp
  case openObject => exact valid_push (f := .object [] []) ⟨rfl, nofun, nofun⟩ (by rintro v ⟨⟩) h hp
  case openArray => exact valid_push (f := .array []) nofun (by rintro v ⟨⟩) h hp
  case string s => exact valid_plug (.string ht) h
  case number text => exact valid_plug (.number text) h
  case bool b => exact valid_plug (.bool b) h
  case null => exact valid_plug .null h

theorem Valid.closeArray (h : p.Valid) {vs : List Value} (hp : p.stack = .array vs :: stack) :
    (plug (.array vs) stack).Valid := by
  obtain ⟨hf, hstack⟩ := List.forall_mem_cons.mp (hp ▸ h.stack)
  exact valid_plug (.array hf) hstack

theorem Valid.closeObject (h : p.Valid) {fs : List (GoString × Value)} {name : GoString}
    (hp : p.stack = .object fs name :: stack) : (plug (.object fs) stack).Valid := by
  obtain ⟨hf, hstack⟩ := List.forall_mem_cons.mp (hp ▸ h.stack)
  exact valid_plug (.object hf.2.1 hf.2.2) hstack

theorem Valid.name (h : p.Valid) {fs : List (GoString × Value)} {name name' : GoString}
    (hp : p.stack = .object fs name :: stack) (hname : ValidUTF8 name') :
    Valid ⟨.object fs name' :: stack, .colon⟩ := by
  obtain ⟨hf, hstack⟩ := List.forall_mem_cons.mp (hp ▸ h.stack)
  exact ⟨List.forall_mem_cons.mpr ⟨⟨hname, hf.2⟩, hstack⟩, nofun⟩

theorem Valid.expect (h : p.Valid) {e : Expect} (he : ∀ v, e ≠ .done v) : Valid { p with expect := e } :=
  ⟨h.stack, fun v hv => absurd hv (he v)⟩

theorem Valid.step (h : p.Valid) (ht : t.Valid) (hp : p.step t = some p') : p'.Valid := by
  unfold Parser.step at hp
  split at hp
  case h_1 => exact valid_beginValue ht h.stack hp
  case h_3 => exact valid_beginValue ht h.stack hp
  case h_12 => cases hp
  all_goals obtain rfl := Option.some.inj hp
  case h_2 heq => exact h.closeArray heq
  case h_4 heq => exact h.closeObject heq
  case h_5 heq => exact h.name heq ht
  case h_6 heq => exact h.name heq ht
  case h_7 => exact h.expect (e := .value) nofun
  case h_8 heq => exact heq ▸ h.expect (e := .value) nofun
  case h_9 heq => exact h.closeArray heq
  case h_10 heq => exact heq ▸ h.expect (e := .name) nofun
  case h_11 heq => exact h.closeObject heq

end Parser

theorem valid_parse {data : GoString} {v : Value} (h : parse data = some v) : v.Valid := by
  obtain ⟨ts, hts, h⟩ := Option.bind_eq_some_iff.mp h
  obtain ⟨p, hp, hresult⟩ := Option.bind_eq_some_iff.mp h
  have hempty : Parser.Valid {} := ⟨by rintro f ⟨⟩, nofun⟩
  have hvalid : p.Valid := foldlM_induction (fun _ _ _ hs ha hstep => hs.step ha hstep) (valid_tokens hts) hempty hp
  unfold Parser.result at hresult
  split at hresult
  · rename_i v' hdone
    exact Option.some.inj hresult ▸ hvalid.done v' hdone
  · cases hresult

abbrev Decoder (α : Type) := Value → α → Option α

def decodeBool : Decoder Bool
  | .null, b => some b
  | .bool b, _ => some b
  | _, _ => none

def decodeString : Decoder GoString
  | .null, s => some s
  | .string s, _ => some s
  | _, _ => none

def decodeInt (bits : ℕ) : Decoder ℤ
  | .null, n => some n
  | .number text, _ => (atoi text).filter fun n => decide (-2 ^ (bits - 1) ≤ n ∧ n < 2 ^ (bits - 1))
  | _, _ => none

def decodeElements : List Value → List GoString → Option (List GoString)
  | [], _ => some []
  | v :: vs, ss => do
    let s ← decodeString v (ss.headD [])
    let ss ← decodeElements vs ss.tail
    some (s :: ss)

def decodeStrings : Decoder (List GoString)
  | .null, _ => some []
  | .array vs, ss => decodeElements vs ss
  | _, _ => none

def decodeStringMap : Decoder StringMap
  | .null, _ => some .empty
  | .object fs, m => fs.foldlM (fun m f => (decodeString f.2 []).map (m.insert f.1)) m
  | _, _ => none

def decodePointer {α : Type} (zero : α) (d : Decoder α) : Decoder (Option α)
  | .null, _ => some none
  | v, p => (d v (p.getD zero)).map some

structure StructField (σ : Type) where
  name : GoString
  decode : Decoder σ

def field {σ α : Type} (name : String) (get : σ → α) (set : α → σ → σ) (d : Decoder α) : StructField σ :=
  ⟨str name, fun v s => (d v (get s)).map (set · s)⟩

def fieldFor {σ : Type} (fields : List (StructField σ)) (name : GoString) : Option (StructField σ) :=
  (fields.find? fun f => f.name = name).or (fields.find? fun f => equalFold f.name name)

def decodeStruct {σ : Type} (fields : List (StructField σ)) : Decoder σ
  | .null, s => some s
  | .object fs, s =>
    fs.foldlM (fun s f => match fieldFor fields f.1 with
      | some fd => fd.decode f.2 s
      | none => some s) s
  | _, _ => none

def decodeMember {σ : Type} (fields : List (StructField σ)) (s : σ) (member : GoString × Value) : Option σ :=
  match fieldFor fields member.1 with
  | some fd => fd.decode member.2 s
  | none => some s

theorem decodeStruct_object {σ : Type} (fields : List (StructField σ)) (members : List (GoString × Value)) (s : σ) :
    decodeStruct fields (.object members) s = members.foldlM (decodeMember fields) s := rfl

def unmarshal {σ : Type} (fields : List (StructField σ)) (zero : σ) (data : GoString) : Option σ :=
  (parse data).bind fun v => decodeStruct fields v zero

section Keeps
variable {v : Value}

theorem decodeString_valid (hv : v.Valid) {s s' : GoString} (hs : ValidUTF8 s) (h : decodeString v s = some s') :
    ValidUTF8 s' := by
  cases hv <;> cases h <;> assumption

theorem decodeElements_valid {vs : List Value} (hvs : ∀ v ∈ vs, v.Valid) {ss ss' : List GoString}
    (hss : ∀ s ∈ ss, ValidUTF8 s) (h : decodeElements vs ss = some ss') : ∀ s ∈ ss', ValidUTF8 s := by
  induction vs generalizing ss ss' with
  | nil =>
    cases h
    nofun
  | cons v vs ih =>
    obtain ⟨hv, hvs⟩ := List.forall_mem_cons.mp hvs
    obtain ⟨s, hs, h⟩ := Option.bind_eq_some_iff.mp h
    obtain ⟨rest, hrest, h⟩ := Option.bind_eq_some_iff.mp h
    cases h
    have hhead : ValidUTF8 (ss.headD []) := by
      cases ss with
      | nil => exact validUTF8_nil
      | cons a ss => exact hss a (List.mem_cons_self ..)
    exact List.forall_mem_cons.mpr
      ⟨decodeString_valid hv hhead hs, ih hvs (fun s hs => hss s (List.mem_of_mem_tail hs)) hrest⟩

theorem decodeStrings_valid (hv : v.Valid) {ss ss' : List GoString} (hss : ∀ s ∈ ss, ValidUTF8 s)
    (h : decodeStrings v ss = some ss') : ∀ s ∈ ss', ValidUTF8 s := by
  cases hv with
  | null =>
    cases h
    nofun
  | array hvs => exact decodeElements_valid hvs hss h
  | _ => cases h

theorem decodeStringMap_valid (hv : v.Valid) {m m' : StringMap}
    (hm : ∀ l ∈ m.entries, ValidUTF8 l.1 ∧ ValidUTF8 l.2) (h : decodeStringMap v m = some m') :
    ∀ l ∈ m'.entries, ValidUTF8 l.1 ∧ ValidUTF8 l.2 := by
  cases hv with
  | null =>
    cases h
    nofun
  | object hnames hvalues =>
    refine foldlM_induction (I := fun m => ∀ l ∈ m.entries, ValidUTF8 l.1 ∧ ValidUTF8 l.2)
      (P := fun f => ValidUTF8 f.1 ∧ f.2.Valid) ?_ (fun f hf => ⟨hnames f hf, hvalues f hf⟩) hm h
    rintro m f m' hm ⟨hname, hvalue⟩ hstep
    obtain ⟨s, hs, rfl⟩ := Option.map_eq_some_iff.mp hstep
    intro l hl
    rcases List.mem_append.mp hl with hl | hl
    · exact hm l (List.mem_of_mem_filter hl)
    · rw [List.mem_singleton.mp hl]
      exact ⟨hname, decodeString_valid hvalue validUTF8_nil hs⟩
  | _ => cases h

theorem decodePointer_induction {α : Type} {zero : α} {d : Decoder α} {I : α → Prop} (hzero : I zero)
    (hd : ∀ a a', I a → d v a = some a' → I a') {p p' : Option α} (hp : ∀ a ∈ p, I a)
    (h : decodePointer zero d v p = some p') : ∀ a ∈ p', I a := by
  have hheld : I (p.getD zero) := by
    cases p with
    | none => exact hzero
    | some a => exact hp a rfl
  unfold decodePointer at h
  split at h
  · cases h
    nofun
  · obtain ⟨a, ha, rfl⟩ := Option.map_eq_some_iff.mp h
    rintro _ ⟨⟩
    exact hd _ _ hheld ha

theorem decodeStruct_induction (hv : v.Valid) {σ : Type} {fields : List (StructField σ)} {I : σ → Prop}
    (hfields : ∀ f ∈ fields, ∀ v s s', v.Valid → I s → f.decode v s = some s' → I s') {s s' : σ} (hs : I s)
    (h : decodeStruct fields v s = some s') : I s' := by
  cases hv with
  | null => exact Option.some.inj h ▸ hs
  | object hnames hvalues =>
    refine foldlM_induction (P := fun f => f.2.Valid) ?_ hvalues hs h
    intro s f s' hs hf hstep
    cases hfield : fieldFor fields f.1 with
    | none =>
      rw [hfield] at hstep
      exact Option.some.inj hstep ▸ hs
    | some fd =>
      rw [hfield] at hstep
      have hmem : fd ∈ fields := by
        rcases Option.or_eq_some_iff.mp hfield with hfind | ⟨-, hfind⟩
        · exact List.mem_of_find?_eq_some hfind
        · exact List.mem_of_find?_eq_some hfind
      exact hfields fd hmem f.2 s s' hf hs hstep
  | _ => cases h

end Keeps

theorem unmarshal_induction {σ : Type} {fields : List (StructField σ)} {I : σ → Prop}
    (hfields : ∀ f ∈ fields, ∀ v s s', v.Valid → I s → f.decode v s = some s' → I s') {zero s : σ} (hzero : I zero)
    {data : GoString} (h : unmarshal fields zero data = some s) : I s := by
  obtain ⟨v, hparse, hdecode⟩ := Option.bind_eq_some_iff.mp h
  exact decodeStruct_induction (valid_parse hparse) hfields hzero hdecode

end EdgeQuota.Go.Json
