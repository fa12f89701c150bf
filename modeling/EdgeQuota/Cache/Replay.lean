import EdgeQuota.Cache.Capture
import EdgeQuota.Go.Base64
import EdgeQuota.Go.JsonEncode
import Mathlib.Data.List.Dedup

/-! The document that the store keeps for an entry, and what reading it back makes of the response. -/

namespace EdgeQuota.Cache
open Go Go.Json Lib

structure TimeText where
  format : ℤ → GoString
  parse : GoString → Option ℤ

structure TimeText.Keeps (time : TimeText) (t : ℤ) : Prop where
  ascii : ∀ c ∈ time.format t, c < 0x80
  parse_format : time.parse (time.format t) = some t

def headerNames (h : Header) : List GoString := sortStrings (h.map Prod.fst).dedup

def linesOf (h : Header) (name : GoString) : List GoString := (h.filter fun l => l.1 = name).map Prod.snd

def jsonHeader (isNil : Bool) (h : Header) : GoString :=
  if isNil ∧ h = [] then str "null"
  else jsonObject ((headerNames h).map fun name => (name, jsonArray ((linesOf h name).map jsonString)))

def jsonBytes (isNil : Bool) (b : GoString) : GoString :=
  if isNil ∧ b = [] then str "null" else jsonString (Base64.encode b)

def omitEmpty (name : String) (ss : List GoString) : List (GoString × GoString) :=
  if ss = [] then [] else [(str name, jsonArray (ss.map jsonString))]

def Entry.json (time : TimeText) (nilHeaders nilBody : Bool) (e : Entry) : GoString :=
  jsonObject
    ([(str "status_code", formatInt e.statusCode), (str "headers", jsonHeader nilHeaders e.headers),
      (str "body", jsonBytes nilBody e.body)] ++
      (omitEmpty "vary" e.vary ++
        (omitEmpty "tags" e.tags ++ [(str "created_at", jsonString (time.format e.createdAt))])))

def decodeHeader : Decoder Header
  | .null, _ => some []
  | .object fs, h =>
    fs.foldlM (fun h f => (decodeStrings f.2 []).map fun ss => h.filter (fun l => l.1 ≠ f.1) ++ ss.map fun s => (f.1, s)) h
  | _, _ => none

def decodeBytes : Decoder GoString
  | .null, _ => some []
  | .string s, _ => Base64.decode s
  | _, _ => none

def decodeTime (time : TimeText) : Decoder ℤ
  | .null, t => some t
  | .string s, _ => time.parse s
  | _, _ => none

def Entry.fields (time : TimeText) : List (StructField Entry) :=
  [field "status_code" Entry.statusCode (fun n e => { e with statusCode := n }) (decodeInt 64),
    field "headers" Entry.headers (fun h e => { e with headers := h }) decodeHeader,
    field "body" Entry.body (fun b e => { e with body := b }) decodeBytes,
    field "vary" Entry.vary (fun ss e => { e with vary := ss }) decodeStrings,
    field "tags" Entry.tags (fun ss e => { e with tags := ss }) decodeStrings,
    field "created_at" Entry.createdAt (fun t e => { e with createdAt := t }) (decodeTime time)]

def Entry.zero : Entry where
  statusCode := 0
  createdAt := -62135596800000000000

def Entry.reread (time : TimeText) (data : GoString) : Option Entry := unmarshal (Entry.fields time) Entry.zero data

def rereadLines (h : Header) : Header :=
  (headerNames h).flatMap fun name => (linesOf h name).map fun v => (name, toValidUTF8 v)

section Headers
variable {h : Header}

theorem decodeHeader_object {names : List GoString} (hnames : names.Nodup) (lines : GoString → List GoString) (old : Header) :
    decodeHeader (.object (names.map fun name => (name, .array ((lines name).map .string)))) old =
      some (old.filter (fun l => l.1 ∉ names) ++ names.flatMap fun name => (lines name).map fun v => (name, v)) := by
  unfold decodeHeader
  simp only [List.foldlM_map]
  induction names generalizing old with
  | nil => simp
  | cons name names ih =>
    obtain ⟨hname, hnames⟩ := List.nodup_cons.mp hnames
    have hstrings : decodeStrings (.array ((lines name).map .string)) [] = some (lines name) :=
      decodeElements_strings (lines name) []
    have hkept : ((lines name).map fun v => (name, v)).filter (fun l => l.1 ∉ names) = (lines name).map fun v => (name, v) := by
      refine List.filter_eq_self.mpr fun l hl => ?_
      obtain ⟨v, -, rfl⟩ := List.mem_map.mp hl
      exact decide_eq_true hname
    have hfilter : (old.filter fun l => l.1 ≠ name).filter (fun l => l.1 ∉ names) = old.filter fun l => l.1 ∉ name :: names := by
      rw [List.filter_filter]
      refine List.filter_congr fun l _ => ?_
      simp [Bool.and_comm]
    rw [List.foldlM_cons, hstrings]
    refine (ih hnames _).trans ?_
    rw [List.filter_append, hkept, hfilter, List.flatMap_cons, List.append_assoc]

theorem nodup_headerNames (h : Header) : (headerNames h).Nodup :=
  (perm_sortStrings _).nodup_iff.mpr (List.nodup_dedup _)

theorem mem_headerNames {name : GoString} : name ∈ headerNames h ↔ ∃ l ∈ h, l.1 = name := by
  rw [headerNames, mem_sortStrings, List.mem_dedup, List.mem_map]

theorem flatMap_ite {names : List GoString} (hnames : names.Nodup) (name : GoString) (ls : Header) :
    (names.flatMap fun n => if n = name then ls else []) = if name ∈ names then ls else [] := by
  induction names with
  | nil => rfl
  | cons n names ih =>
    obtain ⟨hn, hnames⟩ := List.nodup_cons.mp hnames
    rw [List.flatMap_cons, ih hnames]
    by_cases hname : n = name
    · subst hname
      simp [hn]
    · simp [hname, Ne.symm hname]

theorem linesOf_rereadLines (h : Header) (name : GoString) : linesOf (rereadLines h) name = (linesOf h name).map toValidUTF8 := by
  have hpart : ∀ n, ((linesOf h n).map fun v => (n, toValidUTF8 v)).filter (fun l => l.1 = name) =
      if n = name then (linesOf h name).map fun v => (name, toValidUTF8 v) else [] := by
    intro n
    by_cases hn : n = name
    · subst hn
      rw [if_pos rfl, List.filter_eq_self.mpr]
      intro l hl
      obtain ⟨v, -, rfl⟩ := List.mem_map.mp hl
      exact decide_eq_true rfl
    · rw [if_neg hn, List.filter_eq_nil_iff.mpr]
      intro l hl
      obtain ⟨v, -, rfl⟩ := List.mem_map.mp hl
      simp [hn]
  have hfilter : (rereadLines h).filter (fun l => l.1 = name) =
      if name ∈ headerNames h then (linesOf h name).map fun v => (name, toValidUTF8 v) else [] := by
    rw [rereadLines, List.filter_flatMap]
    simp only [hpart]
    exact flatMap_ite (nodup_headerNames h) name _
  rw [linesOf, hfilter]
  split_ifs with hname
  · rw [List.map_map]
    rfl
  · have hnone : linesOf h name = [] := by
      refine List.map_eq_nil_iff.mpr (List.filter_eq_nil_iff.mpr fun l hl => ?_)
      exact fun heq => hname (mem_headerNames.mpr ⟨l, hl, of_decide_eq_true heq⟩)
    rw [hnone]
    rfl

end Headers

def rereadHeader (isNil : Bool) (h old : Header) : Header :=
  if isNil ∧ h = [] then [] else old.filter (fun l => l.1 ∉ headerNames h) ++ rereadLines h

theorem rereadHeader_nil (isNil : Bool) (h : Header) : rereadHeader isNil h [] = rereadLines h := by
  unfold rereadHeader
  split_ifs with hnil
  · rw [hnil.2]
    rfl
  · rfl

theorem writes_jsonHeader (isNil : Bool) {h : Header} (hnames : ∀ l ∈ h, ValidUTF8 l.1) :
    ∃ v, Writes 2 (jsonHeader isNil h) v ∧ ∀ old, decodeHeader v old = some (rereadHeader isNil h old) := by
  unfold jsonHeader rereadHeader
  by_cases hnil : isNil = true ∧ h = []
  · simp only [if_pos hnil]
    exact ⟨_, writes_null, fun old => rfl⟩
  · simp only [if_neg hnil]
    refine ⟨.object ((headerNames h).map fun name => (name, .array (((linesOf h name).map toValidUTF8).map .string))),
      ?_, fun old => ?_⟩
    · apply writes_object
      rw [List.forall₂_map_left_iff, List.forall₂_map_right_iff]
      refine List.forall₂_same.mpr fun name hname => ⟨?_, writes_strings _⟩
      obtain ⟨l, hl, rfl⟩ := mem_headerNames.mp hname
      exact (hnames l hl).symm
    · rw [decodeHeader_object (nodup_headerNames _) (fun name => (linesOf h name).map toValidUTF8) old]
      simp only [rereadLines, List.map_map, Function.comp_def]

section Members
variable (time : TimeText) {e : Entry}

theorem sets_statusCode (hlow : -2 ^ 63 ≤ e.statusCode) (hhigh : e.statusCode < 2 ^ 63) :
    Sets (Entry.fields time) 2 (str "status_code", formatInt e.statusCode) fun s => { s with statusCode := e.statusCode } := by
  have hfield : fieldFor (Entry.fields time) (str "status_code") =
      some (field "status_code" Entry.statusCode (fun n e => { e with statusCode := n }) (decodeInt 64)) := rfl
  have hdecode : ∀ n, decodeInt 64 (.number (formatInt e.statusCode)) n = some e.statusCode := by
    intro n
    rw [decodeInt, atoi_formatInt hlow hhigh]
    exact Option.filter_some_pos (decide_eq_true ⟨hlow, hhigh⟩)
  exact sets_field (by decide +kernel) hfield (writes_formatInt e.statusCode) hdecode

theorem sets_headers (isNil : Bool) (hnames : ∀ l ∈ e.headers, ValidUTF8 l.1) :
    Sets (Entry.fields time) 2 (str "headers", jsonHeader isNil e.headers) fun s =>
      { s with headers := rereadHeader isNil e.headers s.headers } := by
  have hfield : fieldFor (Entry.fields time) (str "headers") =
      some (field "headers" Entry.headers (fun h e => { e with headers := h }) decodeHeader) := rfl
  obtain ⟨v, hwrites, hdecode⟩ := writes_jsonHeader isNil hnames
  exact sets_field (by decide +kernel) hfield hwrites hdecode

theorem sets_body (isNil : Bool) :
    Sets (Entry.fields time) 2 (str "body", jsonBytes isNil e.body) fun s => { s with body := e.body } := by
  have hfield : fieldFor (Entry.fields time) (str "body") =
      some (field "body" Entry.body (fun b e => { e with body := b }) decodeBytes) := rfl
  have hname : ValidUTF8 (str "body") := by decide +kernel
  unfold jsonBytes
  split_ifs with hnil
  · rw [hnil.2]
    exact sets_field hname hfield writes_null (g := fun _ => []) fun b => rfl
  · apply sets_field hname hfield (writes_string _) (g := fun _ => e.body)
    intro b
    rw [decodeBytes, toValidUTF8_ascii fun c hc => (Base64.plain_of_mem_encode hc).1]
    exact Base64.decode_encode e.body

theorem sets_omitEmpty {name : String} {get : Entry → List GoString} {set : List GoString → Entry → Entry}
    (hname : ValidUTF8 (str name))
    (hfield : fieldFor (Entry.fields time) (str name) = some (field name get set decodeStrings)) (ss : List GoString) :
    List.Forall₂ (Sets (Entry.fields time) 2) (omitEmpty name ss)
      (if ss = [] then [] else [set (ss.map toValidUTF8)]) := by
  unfold omitEmpty
  split_ifs
  · exact .nil
  · refine .cons ?_ .nil
    exact sets_field hname hfield (writes_strings ss) fun old => decodeElements_strings _ old

theorem sets_createdAt {time : TimeText} (htime : time.Keeps e.createdAt) :
    Sets (Entry.fields time) 2 (str "created_at", jsonString (time.format e.createdAt)) fun s =>
      { s with createdAt := e.createdAt } := by
  have hfield : fieldFor (Entry.fields time) (str "created_at") =
      some (field "created_at" Entry.createdAt (fun t e => { e with createdAt := t }) (decodeTime time)) := rfl
  have hdecode : ∀ t, decodeTime time (.string (toValidUTF8 (time.format e.createdAt))) t = some e.createdAt := by
    intro t
    rw [decodeTime, toValidUTF8_ascii htime.ascii]
    exact htime.parse_format
  exact sets_field (by decide +kernel) hfield (writes_string _) hdecode

end Members

/-- An entry for a response as `net/http` reads it: the names of its header are spelled in one way, with the bytes a
name may have. -/
structure FromBackend (e : Entry) : Prop where
  names : ∀ l ∈ e.headers, l.1.all validHeaderFieldByte = true ∧ canonicalHeaderKey l.1 = l.1
  statusCode : -2 ^ 63 ≤ e.statusCode ∧ e.statusCode < 2 ^ 63

theorem FromBackend.validNames {e : Entry} (h : FromBackend e) : ∀ l ∈ e.headers, ValidUTF8 l.1 := by
  intro l hl
  obtain ⟨hbytes, -⟩ := h.names l hl
  exact toValidUTF8_ascii fun c hc => validHeaderFieldByte_ascii (List.all_eq_true.mp hbytes c hc)

theorem reread_json {time : TimeText} (nilHeaders nilBody : Bool) {e : Entry} (h : FromBackend e)
    (htime : time.Keeps e.createdAt) :
    Entry.reread time (e.json time nilHeaders nilBody) = some { e.marshal with headers := rereadLines e.headers } := by
  have hfirst := List.Forall₂.cons (sets_statusCode time h.statusCode.1 h.statusCode.2)
    (.cons (sets_headers time nilHeaders h.validNames) (.cons (sets_body time (e := e) nilBody) .nil))
  have hvary : fieldFor (Entry.fields time) (str "vary") =
      some (field "vary" Entry.vary (fun ss e => { e with vary := ss }) decodeStrings) := rfl
  have htags : fieldFor (Entry.fields time) (str "tags") =
      some (field "tags" Entry.tags (fun ss e => { e with tags := ss }) decodeStrings) := rfl
  have hlists := List.rel_append (sets_omitEmpty time (by decide +kernel) hvary e.vary)
    (List.rel_append (sets_omitEmpty time (by decide +kernel) htags e.tags)
      (.cons (sets_createdAt htime) .nil))
  refine (unmarshal_jsonObject (List.rel_append hfirst hlists) (by decide) Entry.zero).trans ?_
  -- a list that is left out is read as the empty one, which the variable holds already
  by_cases hvarying : e.vary = [] <;> by_cases htagged : e.tags = [] <;>
    simp [hvarying, htagged, Entry.zero, rereadHeader_nil, Entry.marshal]

def SameResponse (e e' : Entry) : Prop :=
  e.statusCode = e'.statusCode ∧ e.body = e'.body ∧ ∀ name, e.headers.values name = e'.headers.values name

section Responses
variable {e : Entry}

theorem values_marshal (h : FromBackend e) (name : GoString) :
    e.marshal.headers.values name = (e.headers.values name).map toValidUTF8 := by
  unfold Header.values Entry.marshal
  rw [List.filter_map, List.map_map, List.map_map]
  have hsame : e.headers.filter ((fun l => decide (l.1 = canonicalHeaderKey name)) ∘ fun l => (toValidUTF8 l.1, toValidUTF8 l.2)) =
      e.headers.filter fun l => l.1 = canonicalHeaderKey name := by
    refine List.filter_congr fun l hl => ?_
    exact congrArg (fun n => decide (n = canonicalHeaderKey name)) (h.validNames l hl)
  rw [hsame]
  rfl

theorem sameResponse_reread (h : FromBackend e) : SameResponse { e.marshal with headers := rereadLines e.headers } e.marshal :=
  ⟨rfl, rfl, fun name => (linesOf_rereadLines e.headers _).trans (values_marshal h name).symm⟩

theorem sameResponse_marshal_iff (h : FromBackend e) : SameResponse e.marshal e ↔ ∀ l ∈ e.headers, ValidUTF8 l.2 := by
  constructor
  · rintro ⟨-, -, hvalues⟩ l hl
    have hmem : l.2 ∈ e.headers.values l.1 := by
      apply List.mem_map_of_mem (f := Prod.snd)
      exact List.mem_filter.mpr ⟨hl, decide_eq_true (h.names l hl).2.symm⟩
    have hsame : (e.headers.values l.1).map toValidUTF8 = (e.headers.values l.1).map id := by
      rw [← values_marshal h, hvalues, List.map_id]
    exact List.map_inj_left.mp hsame l.2 hmem
  · refine fun hvalid => ⟨rfl, rfl, fun name => ?_⟩
    rw [values_marshal h]
    refine (List.map_congr_left fun v hv => ?_).trans (List.map_id _)
    obtain ⟨l, hl, rfl⟩ := List.mem_map.mp hv
    exact hvalid l (List.mem_of_mem_filter hl)

end Responses

theorem get_set {key : GoString} {s : Stored} {ttl : ℤ} (world : World) {env env' : ℕ → Surroundings} (httl : 0 < ttl)
    (hset : (env 0).fault = .ok) (hget : (env' 0).fault = .ok) (hlive : (env' 0).clock < (env 0).clock + expiryMs ttl) :
    (Prog.run exec (Store.get key) (Prog.run exec (Store.set key s ttl) world env).2.1 env').1 =
      some { s with entry := s.entry.marshal } := by
  obtain ⟨hentries, -⟩ := run_set key s world httl env hset
  have hslot := congrFun hentries key
  rw [Function.update_self] at hslot
  have hfind : Keyspace.find (Prog.run exec (Store.set key s ttl) world env).2.1.redis (env' 0).clock (keyPrefix ++ key) =
      some (slotOf s (env 0).clock ttl) := Keyspace.find_eq_some.mpr ⟨hslot, decide_eq_true hlive⟩
  rw [Store.get, run_send]
  simp only [exec, hget, if_true, lookup, Keyspace.get, hfind]
  rfl

/-- **Hits.** An entry that is set can be read while it lives, and what is read is what the document of the entry is
read as. It is the response that was stored exactly if every value of its header is valid UTF-8. -/
theorem replayed_exactly_iff {time : TimeText} (nilHeaders nilBody : Bool) (key : GoString) {s : Stored}
    (hs : FromBackend s.entry) (htime : time.Keeps s.entry.createdAt) {ttl : ℤ} (httl : 0 < ttl) (world : World)
    (env env' : ℕ → Surroundings)
    (hset : (env 0).fault = .ok) (hget : (env' 0).fault = .ok) (hlive : (env' 0).clock < (env 0).clock + expiryMs ttl) :
    ∃ hit e, (Prog.run exec (Store.get key) (Prog.run exec (Store.set key s ttl) world env).2.1 env').1 = some hit ∧
      Entry.reread time (s.entry.json time nilHeaders nilBody) = some e ∧ SameResponse e hit.entry ∧
      (SameResponse hit.entry s.entry ↔ ∀ l ∈ s.entry.headers, ValidUTF8 l.2) :=
  ⟨_, _, get_set world httl hset hget hlive, reread_json nilHeaders nilBody hs htime, sameResponse_reread hs,
    sameResponse_marshal_iff hs⟩

/-- RFC 3339, at one instant. -/
def TimeText.leapDay : TimeText where
  format _ := str "2024-02-29T13:54:56.789Z"
  parse s := if s = str "2024-02-29T13:54:56.789Z" then some 1709214896789000000 else none

def titledResponse (value : GoString) : Stored where
  entry := { statusCode := 200, headers := [(str "X-Title", value)], body := [0xff, 0x00],
             createdAt := 1709214896789000000 }
  storedFor := hintedRequest
  pointer := false

theorem replayed_exactly_titled :
    FromBackend (titledResponse (str "tea")).entry ∧
      (∀ l ∈ (titledResponse (str "tea")).entry.headers, ValidUTF8 l.2) ∧
      ∃ hit, (Prog.run exec (Store.get (str "a"))
          (Prog.run exec (Store.set (str "a") (titledResponse (str "tea")) 1000000000) World.empty fun _ => {}).2.1
          fun _ => {}).1 = some hit ∧ SameResponse hit.entry (titledResponse (str "tea")).entry := by
  have hs : FromBackend (titledResponse (str "tea")).entry := ⟨by decide +kernel, by decide⟩
  have htime : TimeText.leapDay.Keeps (titledResponse (str "tea")).entry.createdAt :=
    ⟨by decide +kernel, by decide +kernel⟩
  have hvalid : ∀ l ∈ (titledResponse (str "tea")).entry.headers, ValidUTF8 l.2 := by decide +kernel
  have httl : (0 : ℤ) < 1000000000 := by decide
  obtain ⟨hit, e, hget, -, -, hexact⟩ := replayed_exactly_iff false false (str "a") hs htime httl
    World.empty (fun _ => {}) (fun _ => {}) rfl rfl (by decide)
  exact ⟨hs, hvalid, hit, hget, hexact.mpr hvalid⟩

theorem replayed_latin1 :
    FromBackend (titledResponse (str "caf" ++ [0xe9])).entry ∧
      ((Prog.run exec (Store.get (str "a"))
          (Prog.run exec (Store.set (str "a") (titledResponse (str "caf" ++ [0xe9])) 1000000000) World.empty fun _ => {}).2.1
          fun _ => {}).1.map fun hit => hit.entry.headers.values (str "X-Title")) = some [str "caf" ++ runeError] ∧
      ((Entry.reread .leapDay ((titledResponse (str "caf" ++ [0xe9])).entry.json .leapDay false false)).map fun e =>
          e.headers.values (str "X-Title")) = some [str "caf" ++ runeError] ∧
      (titledResponse (str "caf" ++ [0xe9])).entry.headers.values (str "X-Title") = [str "caf" ++ [0xe9]] := by
  refine ⟨⟨by decide +kernel, by decide⟩, ?_, ?_, ?_⟩
  · decide +kernel
  · decide +kernel
  · decide +kernel

end EdgeQuota.Cache
