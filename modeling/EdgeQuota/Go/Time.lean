import EdgeQuota.Go.Strings
import Mathlib.Tactic.Linarith

/-! `time.ParseDuration`, in nanoseconds. Fractions are computed exactly; the accumulated
magnitude is an unsigned 64-bit number. And `Duration.String`, which writes a duration. -/

namespace EdgeQuota.Go.Time

inductive DurationError where
  | invalid
  | missingUnit
  | unknownUnit (unit : GoString)
  deriving DecidableEq

def leadingInt : ℕ → GoString → Option (ℕ × GoString)
  | x, [] => some (x, [])
  | x, c :: s =>
    if isDigit c then
      if 2 ^ 63 / 10 < x then none
      else if 2 ^ 63 < x * 10 + digit c then none
      else leadingInt (x * 10 + digit c) s
    else some (x, c :: s)

def leadingFraction : ℕ → ℕ → Bool → GoString → ℕ × ℕ × GoString
  | x, scale, _, [] => (x, scale, [])
  | x, scale, overflow, c :: s =>
    if isDigit c then
      if overflow then leadingFraction x scale true s
      else if (2 ^ 63 - 1) / 10 < x then leadingFraction x scale true s
      else if 2 ^ 63 < x * 10 + digit c then leadingFraction x scale true s
      else leadingFraction (x * 10 + digit c) (scale * 10) false s
    else (x, scale, c :: s)

def isUnitByte (c : UInt8) : Bool := !(c == '.'.toUInt8 || isDigit c)

def unitMap (u : GoString) : Option ℕ :=
  if u = str "ns" then some 1
  else if u = str "us" then some 1000
  else if u = str "µs" then some 1000
  else if u = str "μs" then some 1000
  else if u = str "ms" then some 1000000
  else if u = str "s" then some 1000000000
  else if u = str "m" then some 60000000000
  else if u = str "h" then some 3600000000000
  else none

def fraction : GoString → ℕ × ℕ × GoString × Bool
  | [] => (0, 1, [], false)
  | c :: s =>
    if c = '.'.toUInt8 then
      let (f, scale, rest) := leadingFraction 0 1 false s
      (f, scale, rest, rest.length != s.length)
    else (0, 1, c :: s, false)

def parseTerm (s : GoString) : Except DurationError (ℕ × GoString) :=
  if s.head?.any isUnitByte then .error .invalid
  else
    match leadingInt 0 s with
    | none => .error .invalid
    | some (v, s₁) =>
      let pre := s₁.length != s.length
      let (f, scale, s₂, post) := fraction s₁
      if !pre && !post then .error .invalid
      else
        let u := s₂.takeWhile isUnitByte
        if u = [] then .error .missingUnit
        else
          match unitMap u with
          | none => .error (.unknownUnit u)
          | some unit =>
            if 2 ^ 63 / unit < v then .error .invalid
            else
              let v := v * unit
              if 0 < f then
                let v := v + f * unit / scale
                if 2 ^ 63 < v then .error .invalid else .ok (v, s₂.dropWhile isUnitByte)
              else .ok (v, s₂.dropWhile isUnitByte)

/-- The loop over the terms. Every term consumes its unit, so the length of the string is
fuel enough. -/
def parseTerms : ℕ → ℕ → GoString → Except DurationError ℕ
  | _, d, [] => .ok d
  | 0, _, _ :: _ => .error .invalid
  | fuel + 1, d, c :: s =>
    match parseTerm (c :: s) with
    | .error e => .error e
    | .ok (v, rest) =>
      if 2 ^ 63 < (d + v) % 2 ^ 64 then .error .invalid
      else parseTerms fuel ((d + v) % 2 ^ 64) rest

def sign : GoString → Bool × GoString
  | [] => (false, [])
  | c :: s =>
    if c = '-'.toUInt8 then (true, s) else if c = '+'.toUInt8 then (false, s) else (false, c :: s)

def parseDuration (orig : GoString) : Except DurationError ℤ :=
  let (neg, s) := sign orig
  if s = str "0" then .ok 0
  else if s = [] then .error .invalid
  else
    match parseTerms s.length 0 s with
    | .error e => .error e
    | .ok d =>
      if neg then .ok (-d) else if 2 ^ 63 - 1 < d then .error .invalid else .ok d

def fracDigits (v prec : ℕ) : GoString :=
  let digits := (itoa (10 ^ prec + v % 10 ^ prec)).drop 1
  let digits := (digits.reverse.dropWhile (· == byte '0')).reverse
  if digits = [] then [] else byte '.' :: digits

def durationString (d : ℤ) : GoString :=
  let u := d.natAbs
  let text :=
    if u = 0 then str "0s"
    else if u < 1000 then itoa u ++ str "ns"
    else if u < 1000000 then itoa (u / 1000) ++ fracDigits u 3 ++ str "µs"
    else if u < 1000000000 then itoa (u / 1000000) ++ fracDigits u 6 ++ str "ms"
    else
      let s := u / 1000000000
      let seconds := itoa (s % 60) ++ fracDigits u 9 ++ str "s"
      if s < 60 then seconds
      else
        let minutes := itoa (s / 60 % 60) ++ str "m" ++ seconds
        if s < 3600 then minutes else itoa (s / 3600) ++ str "h" ++ minutes
  if d < 0 then byte '-' :: text else text

theorem leadingInt_length {x v : ℕ} {s rest : GoString} (h : leadingInt x s = some (v, rest)) :
    rest.length ≤ s.length := by
  induction s generalizing x with
  | nil =>
    rw [leadingInt, Option.some.injEq, Prod.mk.injEq] at h
    rw [← h.2]
  | cons c s ih =>
    rw [leadingInt] at h
    split_ifs at h with hd
    · exact (ih h).trans (Nat.le_succ _)
    · rw [Option.some.injEq, Prod.mk.injEq] at h
      rw [← h.2]

theorem leadingFraction_length (x scale : ℕ) (overflow : Bool) (s : GoString) :
    (leadingFraction x scale overflow s).2.2.length ≤ s.length := by
  induction s generalizing x scale overflow with
  | nil => rfl
  | cons c s ih =>
    rw [leadingFraction]
    split_ifs
    · exact (ih ..).trans (Nat.le_succ _)
    · exact (ih ..).trans (Nat.le_succ _)
    · exact (ih ..).trans (Nat.le_succ _)
    · exact (ih ..).trans (Nat.le_succ _)
    · exact le_rfl

theorem fraction_length (s : GoString) : (fraction s).2.2.1.length ≤ s.length := by
  cases s with
  | nil => rfl
  | cons c s =>
    rw [fraction]
    split_ifs
    · exact (leadingFraction_length 0 1 false s).trans (Nat.le_succ _)
    · exact le_rfl

theorem dropWhile_length_lt {s : GoString} (h : s.takeWhile isUnitByte ≠ []) :
    (s.dropWhile isUnitByte).length < s.length := by
  have hsplit := congrArg List.length (List.takeWhile_append_dropWhile (p := isUnitByte) (l := s))
  have hpos := List.length_pos_of_ne_nil h
  rw [List.length_append] at hsplit
  omega

theorem parseTerm_length {s rest : GoString} {v : ℕ} (h : parseTerm s = .ok (v, rest)) :
    rest.length < s.length := by
  unfold parseTerm at h
  split at h
  · cases h
  split at h
  · cases h
  · rename_i v₁ s₁ hint
    have h₁ := leadingInt_length hint
    have h₂ := fraction_length s₁
    simp only at h
    split at h
    · cases h
    split at h
    · cases h
    · rename_i hu
      have h₃ := dropWhile_length_lt hu
      have hrest : rest = (fraction s₁).2.2.1.dropWhile isUnitByte := by
        split at h
        · cases h
        split at h
        · cases h
        split at h
        · split at h
          · cases h
          · exact ((Prod.mk.inj (Except.ok.inj h)).2).symm
        · exact ((Prod.mk.inj (Except.ok.inj h)).2).symm
      rw [hrest]
      exact h₃.trans_le (h₂.trans h₁)

theorem parseTerms_fuel {fuel : ℕ} {s : GoString} (h : s.length ≤ fuel) (d k : ℕ) :
    parseTerms (fuel + k) d s = parseTerms fuel d s := by
  induction fuel generalizing s d with
  | zero =>
    rw [List.eq_nil_of_length_eq_zero (Nat.le_zero.mp h)]
    cases k <;> rfl
  | succ fuel ih =>
    cases s with
    | nil => rw [Nat.succ_add]; rfl
    | cons c s =>
      rw [Nat.succ_add, parseTerms, parseTerms]
      cases ht : parseTerm (c :: s) with
      | error e => rfl
      | ok p =>
        have hlt : p.2.length < (c :: s).length := parseTerm_length ht
        simp only [ih (show p.2.length ≤ fuel by omega)]

theorem parseTerms_le {fuel d v : ℕ} {s : GoString} (hd : d ≤ 2 ^ 63) (h : parseTerms fuel d s = .ok v) :
    v ≤ 2 ^ 63 := by
  induction fuel generalizing d s with
  | zero =>
    cases s with
    | nil => exact Except.ok.inj h ▸ hd
    | cons c s => cases h
  | succ fuel ih =>
    cases s with
    | nil => exact Except.ok.inj h ▸ hd
    | cons c s =>
      rw [parseTerms] at h
      split at h
      · cases h
      · split_ifs at h with hover
        exact ih (not_lt.mp hover) h

theorem parseDuration_range {s : GoString} {d : ℤ} (h : parseDuration s = .ok d) :
    -2 ^ 63 ≤ d ∧ d < 2 ^ 63 := by
  unfold parseDuration at h
  simp only at h
  split at h
  · obtain rfl := Except.ok.inj h
    norm_num
  split at h
  · cases h
  split at h
  · cases h
  · rename_i v hv
    have hle := parseTerms_le (Nat.zero_le _) hv
    split at h
    · obtain rfl := Except.ok.inj h
      omega
    split at h
    · cases h
    · obtain rfl := Except.ok.inj h
      omega

example : parseDuration (str "1m30s") = .ok 90000000000 := by decide +kernel
example : parseDuration (str "-1.5h") = .ok (-5400000000000) := by decide +kernel
example : parseDuration (str "10") = .error .missingUnit := by decide +kernel

end EdgeQuota.Go.Time
