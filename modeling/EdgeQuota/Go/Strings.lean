import Mathlib.Algebra.Group.Int.Defs
import Mathlib.Data.List.Sort

/-! Go strings are byte sequences; literals are written in UTF-8. The parts of `strings`,
`strconv`, `sort`, `unicode/utf8` and `encoding/json` that the program uses. -/

namespace EdgeQuota.Go

abbrev GoString := List UInt8

instance : LawfulBEq GoString := inferInstance

def str (s : String) : GoString := s.toUTF8.data.toList

def byte (c : Char) : UInt8 := c.toUInt8

def isDigit (c : UInt8) : Bool := '0'.toUInt8 ≤ c && c ≤ '9'.toUInt8

def isUpper (c : UInt8) : Bool := byte 'A' ≤ c && c ≤ byte 'Z'

def isLower (c : UInt8) : Bool := byte 'a' ≤ c && c ≤ byte 'z'

def digit (c : UInt8) : ℕ := (c - '0'.toUInt8).toNat

theorem forall_byte {P : UInt8 → Prop} (h : ∀ n : Fin 256, P (UInt8.ofFin n)) (c : UInt8) : P c := h c.toFin

def isContinuation (c : UInt8) : Bool := 0x80 ≤ c && c ≤ 0xBF

def runeSize : GoString → Option ℕ
  | [] => none
  | a :: s =>
    if a < 0x80 then some 1
    else if 0xC2 ≤ a ∧ a ≤ 0xDF then
      match s with
      | b :: _ => if isContinuation b then some 2 else none
      | _ => none
    else if 0xE0 ≤ a ∧ a ≤ 0xEF then
      match s with
      | b :: c :: _ =>
        if (if a = 0xE0 then 0xA0 else 0x80) ≤ b ∧ b ≤ (if a = 0xED then 0x9F else 0xBF) ∧ isContinuation c then
          some 3
        else none
      | _ => none
    else if 0xF0 ≤ a ∧ a ≤ 0xF4 then
      match s with
      | b :: c :: d :: _ =>
        if (if a = 0xF0 then 0x90 else 0x80) ≤ b ∧ b ≤ (if a = 0xF4 then 0x8F else 0xBF) ∧
            isContinuation c ∧ isContinuation d then
          some 4
        else none
      | _ => none
    else none

def runeError : GoString := [0xEF, 0xBF, 0xBD]

def runesFrom : ℕ → GoString → List GoString
  | _, [] => []
  | skip + 1, _ :: s => runesFrom skip s
  | 0, c :: s =>
    match runeSize (c :: s) with
    | some n => (c :: s).take n :: runesFrom (n - 1) s
    | none => runeError :: runesFrom 0 s

def runes (s : GoString) : List GoString := runesFrom 0 s

def toValidUTF8 (s : GoString) : GoString := (runes s).flatten

theorem runes_ascii {s : GoString} (h : ∀ c ∈ s, c < 0x80) : runes s = s.map fun c => [c] := by
  unfold runes
  induction s with
  | nil => rfl
  | cons c s ih =>
    obtain ⟨hc, hs⟩ := List.forall_mem_cons.mp h
    have hsize : runeSize (c :: s) = some 1 := if_pos hc
    simp only [runesFrom, hsize, List.map_cons, ih hs, List.take_succ_cons, List.take_zero, Nat.sub_self]

theorem toValidUTF8_ascii {s : GoString} (h : ∀ c ∈ s, c < 0x80) : toValidUTF8 s = s := by
  rw [toValidUTF8, runes_ascii h, ← List.flatMap_def, List.flatMap_singleton']

theorem runeSize_bounds {a : UInt8} {s : GoString} {n : ℕ} (h : runeSize (a :: s) = some n) :
    0 < n ∧ n - 1 ≤ s.length := by
  rcases s with _ | ⟨x, _ | ⟨y, _ | ⟨z, s⟩⟩⟩ <;> simp only [runeSize] at h <;>
    split_ifs at h <;> cases h <;> simp

theorem ascii_of_toValidUTF8 {s : GoString} (h : ∀ c ∈ toValidUTF8 s, c < 0x80) : ∀ c ∈ s, c < 0x80 := by
  unfold toValidUTF8 runes at h
  induction s with
  | nil => exact nofun
  | cons c s ih =>
    rw [runesFrom] at h
    by_cases hc : c < 0x80
    · have hsize : runeSize (c :: s) = some 1 := if_pos hc
      simp only [hsize, Nat.sub_self, List.flatten_cons, List.forall_mem_append] at h
      exact List.forall_mem_cons.mpr ⟨hc, ih h.2⟩
    · cases hn : runeSize (c :: s) with
      | none =>
        rw [hn] at h
        exact absurd (h 0xEF (List.mem_append_left _ (by decide))) (by decide)
      | some n =>
        obtain ⟨n, rfl⟩ := Nat.exists_eq_succ_of_ne_zero (runeSize_bounds hn).1.ne'
        rw [hn] at h
        exact absurd (h c (List.mem_append_left _ (List.mem_cons_self ..))) hc

theorem isContinuation_ascii {c : UInt8} (hc : c < 0x80) : isContinuation c = false := by
  have : ¬(0x80 : UInt8) ≤ c := UInt8.not_le.mpr hc
  simp [isContinuation, this]

theorem runeSize_append {c : UInt8} (hc : c < 0x80) (a : UInt8) (s t : GoString) :
    runeSize (a :: (s ++ c :: t)) = runeSize (a :: s) := by
  have hcont := isContinuation_ascii hc
  have hlow (p : Prop) [Decidable p] (m : UInt8) (hm : 0x80 ≤ m) : ¬(if p then m else 0x80) ≤ c := by
    have hle : ∀ n : UInt8, 0x80 ≤ n → ¬n ≤ c :=
      fun n hn => UInt8.not_le.mpr (UInt8.lt_of_lt_of_le hc hn)
    split_ifs
    · exact hle m hm
    · exact hle _ (UInt8.le_refl _)
  have h1 : ¬(if a = 0xE0 then 0xA0 else 0x80) ≤ c := hlow _ _ (by decide)
  have h2 : ¬(if a = 0xF0 then 0x90 else 0x80) ≤ c := hlow _ _ (by decide)
  rcases s with _ | ⟨x, _ | ⟨y, _ | ⟨z, s⟩⟩⟩
  · rcases t with _ | ⟨t1, _ | ⟨t2, t⟩⟩ <;> simp [runeSize, hcont, h1, h2]
  · rcases t with _ | ⟨t1, t⟩ <;> simp [runeSize, hcont]
  · simp [runeSize, hcont]
  · simp [runeSize]

theorem runesFrom_append {c : UInt8} (hc : c < 0x80) (t : GoString) {s : GoString} {skip : ℕ}
    (hskip : skip ≤ s.length) : runesFrom skip (s ++ c :: t) = runesFrom skip s ++ [c] :: runes t := by
  induction s generalizing skip with
  | nil =>
    obtain rfl : skip = 0 := by simpa using hskip
    have hsize : runeSize (c :: t) = some 1 := if_pos hc
    simp [runesFrom, hsize, runes]
  | cons a s ih =>
    cases skip with
    | succ skip => exact ih (by simpa using hskip)
    | zero =>
      have hsize := runeSize_append hc a s t
      rw [List.cons_append, runesFrom, runesFrom, hsize]
      cases hn : runeSize (a :: s) with
      | none => simp only [ih (Nat.zero_le _), List.cons_append]
      | some n =>
        have hle := (runeSize_bounds hn).2
        have htake : (a :: (s ++ c :: t)).take n = (a :: s).take n := by
          rw [← List.cons_append, List.take_append_of_le_length]
          rw [List.length_cons]; omega
        simp only [ih hle, htake, List.cons_append]

theorem runes_append {c : UInt8} (hc : c < 0x80) (s t : GoString) :
    runes (s ++ c :: t) = runes s ++ [c] :: runes t := runesFrom_append hc t (Nat.zero_le _)

inductive Encoded : GoString → ℕ → Prop
  | one {a : UInt8} {s : GoString} (ha : a < 0x80) : Encoded (a :: s) 1
  | two {a b : UInt8} {s : GoString} (h1 : ¬a < 0x80) (ha : 0xC2 ≤ a ∧ a ≤ 0xDF) (hb : isContinuation b = true) :
      Encoded (a :: b :: s) 2
  | three {a b c : UInt8} {s : GoString} (h1 : ¬a < 0x80) (h2 : ¬(0xC2 ≤ a ∧ a ≤ 0xDF)) (ha : 0xE0 ≤ a ∧ a ≤ 0xEF)
      (hb : (if a = 0xE0 then 0xA0 else 0x80) ≤ b ∧ b ≤ (if a = 0xED then 0x9F else 0xBF) ∧ isContinuation c) :
      Encoded (a :: b :: c :: s) 3
  | four {a b c d : UInt8} {s : GoString} (h1 : ¬a < 0x80) (h2 : ¬(0xC2 ≤ a ∧ a ≤ 0xDF)) (h3 : ¬(0xE0 ≤ a ∧ a ≤ 0xEF))
      (ha : 0xF0 ≤ a ∧ a ≤ 0xF4)
      (hb : (if a = 0xF0 then 0x90 else 0x80) ≤ b ∧ b ≤ (if a = 0xF4 then 0x8F else 0xBF) ∧
        isContinuation c ∧ isContinuation d) : Encoded (a :: b :: c :: d :: s) 4

theorem encoded_of_runeSize {s : GoString} {n : ℕ} (h : runeSize s = some n) : Encoded s n := by
  rcases s with _ | ⟨a, s⟩
  · cases h
  unfold runeSize at h
  dsimp only at h
  by_cases h1 : a < 0x80
  · rw [if_pos h1] at h
    exact Option.some.inj h ▸ .one h1
  rw [if_neg h1] at h
  by_cases h2 : 0xC2 ≤ a ∧ a ≤ 0xDF
  · rw [if_pos h2] at h
    rcases s with _ | ⟨b, s⟩
    · cases h
    · obtain ⟨hb, ⟨⟩⟩ := Option.ite_none_right_eq_some.mp h
      exact .two h1 h2 hb
  rw [if_neg h2] at h
  by_cases h3 : 0xE0 ≤ a ∧ a ≤ 0xEF
  · rw [if_pos h3] at h
    rcases s with _ | ⟨b, _ | ⟨c, s⟩⟩
    · cases h
    · cases h
    · obtain ⟨hb, ⟨⟩⟩ := Option.ite_none_right_eq_some.mp h
      exact .three h1 h2 h3 hb
  rw [if_neg h3] at h
  by_cases h4 : 0xF0 ≤ a ∧ a ≤ 0xF4
  · rw [if_pos h4] at h
    rcases s with _ | ⟨b, _ | ⟨c, _ | ⟨d, s⟩⟩⟩
    · cases h
    · cases h
    · cases h
    · obtain ⟨hb, ⟨⟩⟩ := Option.ite_none_right_eq_some.mp h
      exact .four h1 h2 h3 h4 hb
  · rw [if_neg h4] at h
    cases h

theorem Encoded.runeSize {s : GoString} {n : ℕ} (h : Encoded s n) : runeSize s = some n := by
  cases h with
  | one ha => exact if_pos ha
  | two h1 ha hb => simp only [Go.runeSize, if_neg h1, if_pos ha, if_pos hb]
  | three h1 h2 ha hb => simp only [Go.runeSize, if_neg h1, if_neg h2, if_pos ha, if_pos hb]
  | four h1 h2 h3 ha hb => simp only [Go.runeSize, if_neg h1, if_neg h2, if_neg h3, if_pos ha, if_pos hb]

theorem runeSize_take {s : GoString} {n : ℕ} (h : runeSize s = some n) (t : GoString) :
    (s.take n).length = n ∧ runeSize (s.take n ++ t) = some n := by
  cases encoded_of_runeSize h with
  | one ha => exact ⟨rfl, (Encoded.one ha).runeSize⟩
  | two h1 ha hb => exact ⟨rfl, (Encoded.two h1 ha hb).runeSize⟩
  | three h1 h2 ha hb => exact ⟨rfl, (Encoded.three h1 h2 ha hb).runeSize⟩
  | four h1 h2 h3 ha hb => exact ⟨rfl, (Encoded.four h1 h2 h3 ha hb).runeSize⟩

theorem runesFrom_length (r t : GoString) : runesFrom r.length (r ++ t) = runes t := by
  induction r with
  | nil => rfl
  | cons c r ih => exact ih

theorem runes_rune_append {r : GoString} (hne : r ≠ []) (h : ∀ t, runeSize (r ++ t) = some r.length) (t : GoString) :
    runes (r ++ t) = r :: runes t := by
  obtain ⟨c, r, rfl⟩ := List.exists_cons_of_ne_nil hne
  have hsize : runeSize (c :: (r ++ t)) = some (r.length + 1) := h t
  rw [runes, List.cons_append, runesFrom]
  simp only [hsize, Nat.add_sub_cancel, runesFrom_length]
  rw [← List.cons_append, ← List.length_cons (a := c), List.take_left]

theorem runeSize_of_mem_runes {s r : GoString} (h : r ∈ runes s) : r ≠ [] ∧ ∀ t, runeSize (r ++ t) = some r.length := by
  unfold runes at h
  generalize 0 = skip at h
  induction s generalizing skip with
  | nil => cases skip <;> cases h
  | cons c s ih =>
    cases skip with
    | succ skip => exact ih skip h
    | zero =>
      rw [runesFrom] at h
      cases hn : runeSize (c :: s) with
      | none =>
        rw [hn] at h
        rcases List.mem_cons.mp h with rfl | h
        · exact ⟨List.cons_ne_nil _ _, fun t => rfl⟩
        · exact ih 0 h
      | some n =>
        rw [hn] at h
        rcases List.mem_cons.mp h with rfl | h
        · obtain ⟨hlen, -⟩ := runeSize_take hn []
          refine ⟨fun hnil => ?_, fun t => ?_⟩
          · rw [hnil] at hlen
            exact (runeSize_bounds hn).1.ne hlen
          · rw [hlen]
            exact (runeSize_take hn t).2
        · exact ih (n - 1) h

theorem bytes_of_mem_runes {s r : GoString} (h : r ∈ runes s) : (∃ c, r = [c] ∧ c < 0x80) ∨ ∀ c ∈ r, 0x80 ≤ c := by
  obtain ⟨hne, hsize⟩ := runeSize_of_mem_runes h
  have hsize := hsize []
  rw [List.append_nil] at hsize
  have hcont : ∀ {c : UInt8}, isContinuation c = true → 0x80 ≤ c := by
    intro c hc
    rw [isContinuation, Bool.and_eq_true, decide_eq_true_iff] at hc
    exact hc.1
  have hsecond : ∀ (p : Prop) [Decidable p] {m c : UInt8}, 0x80 ≤ m → (if p then m else 0x80) ≤ c → 0x80 ≤ c := by
    intro p _ m c hm hc
    split_ifs at hc
    · exact UInt8.le_trans hm hc
    · exact hc
  have henc := encoded_of_runeSize hsize
  generalize hlength : r.length = n at henc
  cases henc with
  | @one a s ha =>
    obtain rfl : s = [] := List.eq_nil_of_length_eq_zero (by simpa using hlength)
    exact .inl ⟨_, rfl, ha⟩
  | @two a b s h1 _ hb =>
    obtain rfl : s = [] := List.eq_nil_of_length_eq_zero (by simpa using hlength)
    simp [UInt8.not_lt.mp h1, hcont hb]
  | @three a b c s h1 _ _ hb =>
    obtain rfl : s = [] := List.eq_nil_of_length_eq_zero (by simpa using hlength)
    simp [UInt8.not_lt.mp h1, hsecond _ (by decide) hb.1, hcont hb.2.2]
  | @four a b c d s h1 _ _ _ hb =>
    obtain rfl : s = [] := List.eq_nil_of_length_eq_zero (by simpa using hlength)
    simp [UInt8.not_lt.mp h1, hsecond _ (by decide) hb.1, hcont hb.2.2.1, hcont hb.2.2.2]

theorem runes_flatten {rs : List GoString} (h : ∀ r ∈ rs, r ≠ [] ∧ ∀ t, runeSize (r ++ t) = some r.length) :
    runes rs.flatten = rs := by
  induction rs with
  | nil => rfl
  | cons r rs ih =>
    obtain ⟨⟨hne, hsize⟩, hrs⟩ := List.forall_mem_cons.mp h
    rw [List.flatten_cons, runes_rune_append hne hsize, ih hrs]

def ValidUTF8 (s : GoString) : Prop := toValidUTF8 s = s

instance : DecidablePred ValidUTF8 := fun s => inferInstanceAs (Decidable (toValidUTF8 s = s))

theorem validUTF8_nil : ValidUTF8 [] := rfl

theorem validUTF8_toValidUTF8 (s : GoString) : ValidUTF8 (toValidUTF8 s) :=
  congrArg List.flatten (runes_flatten fun _ => runeSize_of_mem_runes)

theorem toValidUTF8_append {c : UInt8} (hc : c < 0x80) (s t : GoString) :
    toValidUTF8 (s ++ c :: t) = toValidUTF8 s ++ c :: toValidUTF8 t := by
  rw [toValidUTF8, runes_append hc, List.flatten_append, List.flatten_cons]
  rfl

def lowerRune (r : GoString) : GoString :=
  if r = [0xC4, 0xB0] then str "i"
  else if r = [0xE2, 0x84, 0xAA] then str "k"
  else r.map fun c => if isUpper c then c + 32 else c

def toLower (s : GoString) : GoString := (runes s).flatMap lowerRune

theorem mem_toLower {c : UInt8} (hascii : c < 0x80) (hlow : isUpper c = false) {s : GoString} (hc : c ∈ s) :
    c ∈ toLower s := by
  obtain ⟨a, b, rfl⟩ := List.append_of_mem hc
  rw [toLower, runes_append hascii, List.mem_flatMap]
  exact ⟨[c], by simp, by simp [lowerRune, hlow]⟩

def foldRune (r : GoString) : GoString :=
  if r = [0xC5, 0xBF] then str "s"
  else if r = [0xE2, 0x84, 0xAA] then str "k"
  else r.map fun c => if isUpper c then c + 32 else c

def equalFold (s t : GoString) : Bool := (runes s).map foldRune == (runes t).map foldRune

def contains (s sub : GoString) : Bool := s.tails.any fun t => sub.isPrefixOf t

def cut (sep : UInt8) : GoString → GoString × Option GoString
  | [] => ([], none)
  | c :: s => if c = sep then ([], some s) else (c :: (cut sep s).1, (cut sep s).2)

theorem cut_append {sep : UInt8} {a : GoString} (h : sep ∉ a) (x : GoString) :
    cut sep (a ++ sep :: x) = (a, some x) := by
  induction a with
  | nil => exact if_pos rfl
  | cons c a ih =>
    obtain ⟨hc, ha⟩ := List.ne_and_not_mem_of_not_mem_cons h
    rw [List.cons_append, cut, if_neg (Ne.symm hc), ih ha]

theorem cut_of_notMem {sep : UInt8} {a : GoString} (h : sep ∉ a) : cut sep a = (a, none) := by
  induction a with
  | nil => rfl
  | cons c a ih =>
    obtain ⟨hc, ha⟩ := List.ne_and_not_mem_of_not_mem_cons h
    rw [cut, if_neg (Ne.symm hc), ih ha]

theorem cut_fst_append (sep : UInt8) (a x : GoString) :
    (cut sep (a ++ x)).1 = if sep ∈ a then (cut sep a).1 else a ++ (cut sep x).1 := by
  induction a with
  | nil => rfl
  | cons c a ih =>
    by_cases hc : c = sep
    · simp [cut, hc]
    · simp only [List.cons_append, cut, hc, if_false, ih, List.mem_cons, Ne.symm hc, false_or]
      split_ifs <;> rfl

def join (sep : UInt8) (ss : List GoString) : GoString := [sep].intercalate ss

theorem join_append (sep : UInt8) {ss ts : List GoString} (hs : ss ≠ []) (ht : ts ≠ []) :
    join sep (ss ++ ts) = join sep ss ++ sep :: join sep ts := by
  induction ss with
  | nil => exact absurd rfl hs
  | cons s ss ih =>
    cases ss with
    | nil => simp [join, List.intercalate_cons_of_ne_nil ht]
    | cons u ss =>
      have h := ih (List.cons_ne_nil u ss)
      unfold join at h ⊢
      rw [List.cons_append, List.intercalate_cons_of_ne_nil (by simp), h,
        List.intercalate_cons_of_ne_nil (List.cons_ne_nil u ss)]
      simp

def spaces : List GoString :=
  [[0x09], [0x0A], [0x0B], [0x0C], [0x0D], [0x20], [0xC2, 0x85], [0xC2, 0xA0], [0xE1, 0x9A, 0x80],
    [0xE2, 0x80, 0x80], [0xE2, 0x80, 0x81], [0xE2, 0x80, 0x82], [0xE2, 0x80, 0x83], [0xE2, 0x80, 0x84],
    [0xE2, 0x80, 0x85], [0xE2, 0x80, 0x86], [0xE2, 0x80, 0x87], [0xE2, 0x80, 0x88], [0xE2, 0x80, 0x89],
    [0xE2, 0x80, 0x8A], [0xE2, 0x80, 0xA8], [0xE2, 0x80, 0xA9], [0xE2, 0x80, 0xAF], [0xE2, 0x81, 0x9F],
    [0xE3, 0x80, 0x80]]

def trimLeft (cutset : List GoString) : ℕ → GoString → GoString
  | 0, s => s
  | n + 1, s =>
    match cutset.find? fun r => r.isPrefixOf s with
    | some r => trimLeft cutset n (s.drop r.length)
    | none => s

def trim (cutset : List GoString) (s : GoString) : GoString :=
  let s := trimLeft cutset s.length s
  (trimLeft (cutset.map List.reverse) s.length s.reverse).reverse

def trimRight (cutset : List GoString) (s : GoString) : GoString :=
  (trimLeft (cutset.map List.reverse) s.length s.reverse).reverse

def trimSpace (s : GoString) : GoString := trim spaces s

theorem mem_trimLeft {cutset : List GoString} {c : UInt8} (hcut : ∀ r ∈ cutset, c ∉ r) {n : ℕ} {s : GoString}
    (hc : c ∈ s) : c ∈ trimLeft cutset n s := by
  induction n generalizing s with
  | zero => exact hc
  | succ n ih =>
    rw [trimLeft]
    cases hfind : cutset.find? fun r => r.isPrefixOf s with
    | none => exact hc
    | some r =>
      have hr : c ∉ r := hcut r (List.mem_of_find?_eq_some hfind)
      obtain ⟨t, rfl⟩ : r <+: s := by simpa using List.find?_some hfind
      apply ih
      rw [List.drop_left]
      exact (List.mem_append.mp hc).resolve_left hr

theorem mem_trim {cutset : List GoString} {c : UInt8} (hcut : ∀ r ∈ cutset, c ∉ r) {s : GoString} (hc : c ∈ s) :
    c ∈ trim cutset s := by
  have hback : ∀ r ∈ cutset.map List.reverse, c ∉ r := by
    intro r hr
    obtain ⟨q, hq, rfl⟩ := List.mem_map.mp hr
    rw [List.mem_reverse]
    exact hcut q hq
  apply List.mem_reverse.mpr
  exact mem_trimLeft hback (List.mem_reverse.mpr (mem_trimLeft hcut hc))

theorem trimLeft_eq_self {cutset : List GoString} {s : GoString} (hne : [] ∉ cutset)
    (hcut : ∀ r ∈ cutset, ∀ c ∈ r, c ∉ s) (n : ℕ) : trimLeft cutset n s = s := by
  cases n with
  | zero => rfl
  | succ n =>
    have hnone : cutset.find? (fun r => r.isPrefixOf s) = none := by
      rw [List.find?_eq_none]
      intro r hr hprefix
      obtain ⟨t, rfl⟩ : r <+: s := by simpa using hprefix
      obtain ⟨c, r', rfl⟩ := List.exists_cons_of_ne_nil fun hnil : r = [] => hne (hnil ▸ hr)
      exact hcut _ hr c (List.mem_cons_self ..) (List.mem_append_left _ (List.mem_cons_self ..))
    rw [trimLeft, hnone]

theorem trim_eq_self {cutset : List GoString} {s : GoString} (hne : [] ∉ cutset)
    (hcut : ∀ r ∈ cutset, ∀ c ∈ r, c ∉ s) : trim cutset s = s := by
  have hback : ∀ r ∈ cutset.map List.reverse, ∀ c ∈ r, c ∉ s.reverse := by
    intro r hr c hc
    obtain ⟨q, hq, rfl⟩ := List.mem_map.mp hr
    rw [List.mem_reverse] at hc ⊢
    exact hcut q hq c hc
  have hne' : [] ∉ cutset.map List.reverse := by
    intro hnil
    obtain ⟨q, hq, hrev⟩ := List.mem_map.mp hnil
    exact hne (List.reverse_eq_nil_iff.mp hrev ▸ hq)
  unfold trim
  simp only [trimLeft_eq_self hne hcut, trimLeft_eq_self hne' hback, List.reverse_reverse]

def bytesLE : GoString → GoString → Bool
  | [], _ => true
  | _ :: _, [] => false
  | a :: s, b :: t => a < b || (a == b && bytesLE s t)

def sortStrings (ss : List GoString) : List GoString := ss.insertionSort fun s t => bytesLE s t = true

theorem perm_sortStrings (ss : List GoString) : (sortStrings ss).Perm ss := List.perm_insertionSort _ ss

theorem bytesLE_total (s t : GoString) : bytesLE s t = true ∨ bytesLE t s = true := by
  induction s generalizing t with
  | nil => exact Or.inl rfl
  | cons a s ih =>
    cases t with
    | nil => exact Or.inr rfl
    | cons b t =>
      simp only [bytesLE, Bool.or_eq_true, Bool.and_eq_true, decide_eq_true_eq, beq_iff_eq]
      by_cases hab : a < b
      · exact Or.inl (Or.inl hab)
      by_cases hba : b < a
      · exact Or.inr (Or.inl hba)
      obtain rfl : a = b := UInt8.le_antisymm (UInt8.not_lt.mp hba) (UInt8.not_lt.mp hab)
      exact (ih t).imp (fun h => Or.inr ⟨rfl, h⟩) fun h => Or.inr ⟨rfl, h⟩

theorem bytesLE_trans {s t u : GoString} (hst : bytesLE s t = true) (htu : bytesLE t u = true) :
    bytesLE s u = true := by
  induction s generalizing t u with
  | nil => rfl
  | cons a s ih =>
    cases t with
    | nil => cases hst
    | cons b t =>
      cases u with
      | nil => cases htu
      | cons c u =>
        simp only [bytesLE, Bool.or_eq_true, Bool.and_eq_true, decide_eq_true_eq, beq_iff_eq] at hst htu ⊢
        rcases hst with hab | ⟨rfl, hst⟩
        · rcases htu with hbc | ⟨rfl, -⟩
          · exact Or.inl (UInt8.lt_trans hab hbc)
          · exact Or.inl hab
        · exact htu.imp id fun h => ⟨h.1, ih hst h.2⟩

theorem pairwise_sortStrings (ss : List GoString) : (sortStrings ss).Pairwise fun s t => bytesLE s t = true :=
  haveI : Std.Total fun s t : GoString => bytesLE s t = true := ⟨bytesLE_total⟩
  haveI : IsTrans GoString fun s t => bytesLE s t = true := ⟨fun _ _ _ => bytesLE_trans⟩
  List.pairwise_insertionSort _ ss

theorem sortStrings_of_pairwise {ss : List GoString} (h : ss.Pairwise fun s t => bytesLE s t = true) :
    sortStrings ss = ss := List.Pairwise.insertionSort_eq h

@[simp] theorem mem_sortStrings {s : GoString} {ss : List GoString} : s ∈ sortStrings ss ↔ s ∈ ss :=
  (perm_sortStrings ss).mem_iff

def int64 (n : ℤ) : ℤ := (n + 2 ^ 63) % 2 ^ 64 - 2 ^ 63

theorem int64_lt (n : ℤ) : int64 n < 2 ^ 63 := by
  unfold int64
  omega

theorem int64_eq_self_iff {n : ℤ} : int64 n = n ↔ -2 ^ 63 ≤ n ∧ n < 2 ^ 63 := by
  unfold int64
  omega

def atoi (s : GoString) : Option ℤ :=
  let (neg, ds) :=
    match s with
    | c :: t => if c = byte '-' then (true, t) else if c = byte '+' then (false, t) else (false, s)
    | [] => (false, [])
  if ds = [] ∨ ¬ds.all isDigit then none
  else
    let n : ℕ := ds.foldl (fun n c => n * 10 + digit c) 0
    let v : ℤ := if neg then -n else n
    if -2 ^ 63 ≤ v ∧ v < 2 ^ 63 then some v else none

theorem mem_of_atoi {s : GoString} {n : ℤ} (h : atoi s = some n) {c : UInt8} (hc : c ∈ s) :
    isDigit c = true ∨ c = byte '-' ∨ c = byte '+' := by
  have hdigits : ∀ (ds : GoString) (v : Option ℤ), (if ds = [] ∨ ¬ds.all isDigit then none else v) = some n →
      ∀ c ∈ ds, isDigit c = true := by
    intro ds v hsome
    split_ifs at hsome with hno
    rw [not_or, not_not] at hno
    exact List.all_eq_true.mp hno.2
  cases s with
  | nil => exact absurd hc List.not_mem_nil
  | cons d t =>
    unfold atoi at h
    by_cases hminus : d = byte '-'
    · simp only [if_pos hminus] at h
      rcases List.mem_cons.mp hc with rfl | hmem
      · exact Or.inr (Or.inl hminus)
      · exact Or.inl (hdigits t _ h c hmem)
    by_cases hplus : d = byte '+'
    · simp only [if_neg hminus, if_pos hplus] at h
      rcases List.mem_cons.mp hc with rfl | hmem
      · exact Or.inr (Or.inr hplus)
      · exact Or.inl (hdigits t _ h c hmem)
    · simp only [if_neg hminus, if_neg hplus] at h
      exact Or.inl (hdigits (d :: t) _ h c hc)

theorem trimSpace_of_atoi {s : GoString} {n : ℤ} (h : atoi s = some n) : trimSpace s = s := by
  have hspaces : ∀ r ∈ spaces, ∀ c ∈ r, ¬(isDigit c = true ∨ c = byte '-' ∨ c = byte '+') := by
    decide +kernel
  exact trim_eq_self (by decide) fun r hr c hc hmem => hspaces r hr c hc (mem_of_atoi h hmem)

def itoa (n : ℕ) : GoString := (Nat.toDigits 10 n).map byte

def formatInt (n : ℤ) : GoString := if n < 0 then byte '-' :: itoa n.natAbs else itoa n.natAbs

theorem itoa_eq (n : ℕ) : itoa n = (if n < 10 then [] else itoa (n / 10)) ++ [byte (n % 10).digitChar] := by
  unfold itoa
  rw [Nat.toDigits_eq_if (by decide)]
  split_ifs with hn
  · rw [Nat.mod_eq_of_lt hn]
    rfl
  · rw [List.map_append]
    rfl

theorem digitChar_mod (n : ℕ) :
    isDigit (byte (n % 10).digitChar) = true ∧ digit (byte (n % 10).digitChar) = n % 10 ∧
      (byte (n % 10).digitChar = byte '0' → n % 10 = 0) := by
  have hall : ∀ d : Fin 10, isDigit (byte d.val.digitChar) = true ∧ digit (byte d.val.digitChar) = d.val ∧
      (byte d.val.digitChar = byte '0' → d.val = 0) := by decide +kernel
  exact hall ⟨n % 10, Nat.mod_lt n (by decide)⟩

theorem itoa_ne_nil (n : ℕ) : itoa n ≠ [] := by
  rw [itoa_eq]
  exact List.append_ne_nil_of_right_ne_nil _ (List.cons_ne_nil _ _)

theorem isDigit_of_mem_itoa {n : ℕ} {c : UInt8} (hc : c ∈ itoa n) : isDigit c = true := by
  induction n using Nat.strongRecOn with
  | ind n ih =>
    rw [itoa_eq] at hc
    rcases List.mem_append.mp hc with hfirst | hlast
    · by_cases hn : n < 10
      · rw [if_pos hn] at hfirst
        cases hfirst
      · rw [if_neg hn] at hfirst
        exact ih (n / 10) (by omega) hfirst
    · rw [List.mem_singleton.mp hlast]
      exact (digitChar_mod n).1

theorem value_itoa (n : ℕ) : (itoa n).foldl (fun n c => n * 10 + digit c) 0 = n := by
  induction n using Nat.strongRecOn with
  | ind n ih =>
    obtain ⟨-, hdigit, -⟩ := digitChar_mod n
    rw [itoa_eq, List.foldl_append, List.foldl_cons, List.foldl_nil, hdigit]
    by_cases hn : n < 10
    · rw [if_pos hn, List.foldl_nil]
      omega
    · rw [if_neg hn, ih (n / 10) (by omega)]
      omega

theorem head_itoa {n : ℕ} (h : (itoa n).head? = some (byte '0')) : n = 0 := by
  induction n using Nat.strongRecOn with
  | ind n ih =>
    rw [itoa_eq] at h
    by_cases hn : n < 10
    · rw [if_pos hn] at h
      have hzero := (digitChar_mod n).2.2 (Option.some.inj h)
      omega
    · rw [if_neg hn, List.head?_append_of_ne_nil _ (itoa_ne_nil _)] at h
      have hzero := ih (n / 10) (by omega) h
      omega

theorem mem_formatInt {n : ℤ} {c : UInt8} (hc : c ∈ formatInt n) : (c = byte '-' || isDigit c) = true := by
  unfold formatInt at hc
  split_ifs at hc
  · rcases List.mem_cons.mp hc with rfl | hc
    · rfl
    · rw [isDigit_of_mem_itoa hc, Bool.or_true]
  · rw [isDigit_of_mem_itoa hc, Bool.or_true]

theorem atoi_formatInt {n : ℤ} (hlow : -2 ^ 63 ≤ n) (hhigh : n < 2 ^ 63) : atoi (formatInt n) = some n := by
  have hdigits : (itoa n.natAbs).all isDigit = true := List.all_eq_true.mpr fun c hc => isDigit_of_mem_itoa hc
  have hread : ¬(itoa n.natAbs = [] ∨ ¬(itoa n.natAbs).all isDigit) := by
    rintro (hnil | hnot)
    · exact itoa_ne_nil _ hnil
    · exact hnot hdigits
  unfold atoi formatInt
  by_cases hneg : n < 0
  · have hvalue : -(n.natAbs : ℤ) = n := by omega
    simp only [if_pos hneg, if_true, if_neg hread, value_itoa, hvalue, hlow, hhigh, and_self]
  · have hvalue : (n.natAbs : ℤ) = n := by omega
    rw [if_neg hneg]
    cases hitoa : itoa n.natAbs with
    | nil => exact absurd hitoa (itoa_ne_nil _)
    | cons c rest =>
      have hsign : ∀ c, isDigit c = true → c ≠ byte '-' ∧ c ≠ byte '+' := forall_byte (by decide +kernel)
      have hc : isDigit c = true := isDigit_of_mem_itoa (n := n.natAbs) (hitoa ▸ List.mem_cons_self ..)
      obtain ⟨hminus, hplus⟩ := hsign c hc
      simp only [if_neg hminus, if_neg hplus]
      rw [← hitoa, if_neg hread, value_itoa]
      simp only [Bool.false_eq_true, if_false, hvalue, hlow, hhigh, and_self, if_true]

def hexDigit (n : UInt8) : UInt8 := if n < 10 then byte '0' + n else byte 'a' + (n - 10)

def hexEncode (s : GoString) : GoString := s.flatMap fun c => [hexDigit (c / 16), hexDigit (c % 16)]

theorem hexEncode_injective : Function.Injective hexEncode := by
  let value (d : UInt8) : UInt8 := if d < byte 'a' then d - byte '0' else d - byte 'a' + 10
  have hbyte : ∀ c, value (hexDigit (c / 16)) * 16 + value (hexDigit (c % 16)) = c := forall_byte (by decide +kernel)
  intro s t h
  induction s generalizing t with
  | nil =>
    cases t with
    | nil => rfl
    | cons b t => cases h
  | cons a s ih =>
    cases t with
    | nil => cases h
    | cons b t =>
      obtain ⟨hhigh, h⟩ := List.cons.inj h
      obtain ⟨hlow, h⟩ := List.cons.inj h
      have hab : a = b := by
        calc a = value (hexDigit (a / 16)) * 16 + value (hexDigit (a % 16)) := (hbyte a).symm
          _ = value (hexDigit (b / 16)) * 16 + value (hexDigit (b % 16)) := by rw [hhigh, hlow]
          _ = b := hbyte b
      rw [hab, ih h]

def jsonRune : GoString → GoString
  | [c] =>
    if c = byte '"' ∨ c = byte '\\' then [byte '\\', c]
    else if c = 8 then str "\\b"
    else if c = 9 then str "\\t"
    else if c = 10 then str "\\n"
    else if c = 12 then str "\\f"
    else if c = 13 then str "\\r"
    else if c < 0x20 ∨ c = byte '<' ∨ c = byte '>' ∨ c = byte '&' then
      str "\\u00" ++ [hexDigit (c / 16), hexDigit (c % 16)]
    else [c]
  | r =>
    if r = [0xE2, 0x80, 0xA8] then str "\\u2028"
    else if r = [0xE2, 0x80, 0xA9] then str "\\u2029"
    else r

def jsonFrom : ℕ → GoString → GoString
  | _, [] => []
  | skip + 1, _ :: s => jsonFrom skip s
  | 0, c :: s =>
    match runeSize (c :: s) with
    | some n => jsonRune ((c :: s).take n) ++ jsonFrom (n - 1) s
    | none => str "\\ufffd" ++ jsonFrom 0 s

def jsonString (s : GoString) : GoString := byte '"' :: jsonFrom 0 s ++ [byte '"']

end EdgeQuota.Go
