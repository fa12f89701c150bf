import EdgeQuota.Go.Strings
import Mathlib.Data.List.GetD

/-! `base64.StdEncoding`, in which `encoding/json` writes the bytes of a slice. -/

namespace EdgeQuota.Go.Base64

def alphabet : GoString := str "ABCDEFGHIJKLMNOPQRSTUVWXYZabcdefghijklmnopqrstuvwxyz0123456789+/"

def letter (n : ℕ) : UInt8 := alphabet.getD n 0

def value (c : UInt8) : Option ℕ := alphabet.idxOf? c

def pad : UInt8 := byte '='

def encode : GoString → GoString
  | [] => []
  | [a] => [letter (a.toNat / 4), letter (a.toNat % 4 * 16), pad, pad]
  | [a, b] => [letter (a.toNat / 4), letter (a.toNat % 4 * 16 + b.toNat / 16), letter (b.toNat % 16 * 4), pad]
  | a :: b :: c :: s =>
    letter (a.toNat / 4) :: letter (a.toNat % 4 * 16 + b.toNat / 16) :: letter (b.toNat % 16 * 4 + c.toNat / 64) ::
      letter (c.toNat % 64) :: encode s

def first (a b : ℕ) : UInt8 := UInt8.ofNat (a * 4 + b / 16)

def second (b c : ℕ) : UInt8 := UInt8.ofNat (b % 16 * 16 + c / 4)

def third (c d : ℕ) : UInt8 := UInt8.ofNat (c % 4 * 64 + d)

def decodeQuanta : GoString → Option GoString
  | [] => some []
  | a :: b :: c :: d :: s => do
    let a ← value a
    let b ← value b
    if c = pad then
      if d = pad ∧ s = [] then some [first a b] else none
    else
      let c ← value c
      if d = pad then
        if s = [] then some [first a b, second b c] else none
      else
        let d ← value d
        let rest ← decodeQuanta s
        some (first a b :: second b c :: third c d :: rest)
  | _ => none

def decode (s : GoString) : Option GoString := decodeQuanta (s.filter fun c => c ≠ byte '\r' ∧ c ≠ byte '\n')

theorem letter_spec {n : ℕ} (hn : n < 64) : value (letter n) = some n ∧ letter n ≠ pad := by
  have hall : ∀ n : Fin 64, value (letter n) = some n.val ∧ letter n ≠ pad := by decide +kernel
  exact hall ⟨n, hn⟩

section Bytes
variable (a b c : UInt8)

theorem first_spec (n : ℕ) (hn : n < 16) : first (a.toNat / 4) (a.toNat % 4 * 16 + n) = a := by
  have hbits : a.toNat / 4 * 4 + (a.toNat % 4 * 16 + n) / 16 = a.toNat := by omega
  rw [first, hbits, UInt8.ofNat_toNat]

theorem second_spec (m n : ℕ) (hn : n < 4) : second (m * 16 + b.toNat / 16) (b.toNat % 16 * 4 + n) = b := by
  have hb := b.toNat_lt
  have hbits : (m * 16 + b.toNat / 16) % 16 * 16 + (b.toNat % 16 * 4 + n) / 4 = b.toNat := by omega
  rw [second, hbits, UInt8.ofNat_toNat]

theorem third_spec (m : ℕ) : third (m * 4 + c.toNat / 64) (c.toNat % 64) = c := by
  have hc := c.toNat_lt
  have hbits : (m * 4 + c.toNat / 64) % 4 * 64 + c.toNat % 64 = c.toNat := by omega
  rw [third, hbits, UInt8.ofNat_toNat]

end Bytes

theorem decodeQuanta_encode (s : GoString) : decodeQuanta (encode s) = some s := by
  fun_induction encode s with
  | case1 => rfl
  | case2 a =>
    have ha := a.toNat_lt
    obtain ⟨hone, -⟩ := letter_spec (n := a.toNat / 4) (by omega)
    obtain ⟨htwo, -⟩ := letter_spec (n := a.toNat % 4 * 16) (by omega)
    have hfirst := first_spec a 0 (by decide)
    rw [Nat.add_zero] at hfirst
    simp only [decodeQuanta, hone, htwo, Option.bind_eq_bind, Option.bind_some, if_true, and_self, hfirst]
  | case3 a b =>
    have ha := a.toNat_lt
    have hb := b.toNat_lt
    obtain ⟨hone, -⟩ := letter_spec (n := a.toNat / 4) (by omega)
    obtain ⟨htwo, -⟩ := letter_spec (n := a.toNat % 4 * 16 + b.toNat / 16) (by omega)
    obtain ⟨hthree, hpad⟩ := letter_spec (n := b.toNat % 16 * 4) (by omega)
    have hsecond := second_spec b (a.toNat % 4) 0 (by decide)
    rw [Nat.add_zero] at hsecond
    simp only [decodeQuanta, hone, htwo, hthree, hpad, Option.bind_eq_bind, Option.bind_some, if_true, if_false,
      first_spec a (b.toNat / 16) (by omega), hsecond]
  | case4 a b c s ih =>
    have ha := a.toNat_lt
    have hb := b.toNat_lt
    have hc := c.toNat_lt
    obtain ⟨hone, -⟩ := letter_spec (n := a.toNat / 4) (by omega)
    obtain ⟨htwo, -⟩ := letter_spec (n := a.toNat % 4 * 16 + b.toNat / 16) (by omega)
    obtain ⟨hthree, hpad⟩ := letter_spec (n := b.toNat % 16 * 4 + c.toNat / 64) (by omega)
    obtain ⟨hfour, hpad'⟩ := letter_spec (n := c.toNat % 64) (by omega)
    simp only [decodeQuanta, hone, htwo, hthree, hfour, hpad, hpad', Option.bind_eq_bind, Option.bind_some, if_false, ih,
      first_spec a (b.toNat / 16) (by omega), second_spec b (a.toNat % 4) (c.toNat / 64) (by omega), third_spec]

theorem mem_encode {s : GoString} {c : UInt8} (hc : c ∈ encode s) : c = pad ∨ ∃ n, letter n = c := by
  fun_induction encode s with
  | case1 => cases hc
  | case2 a =>
    simp only [List.mem_cons, List.not_mem_nil, or_false] at hc
    rcases hc with rfl | rfl | rfl | rfl <;> simp
  | case3 a b =>
    simp only [List.mem_cons, List.not_mem_nil, or_false] at hc
    rcases hc with rfl | rfl | rfl | rfl <;> simp
  | case4 a b d s ih =>
    simp only [List.mem_cons] at hc
    rcases hc with rfl | rfl | rfl | rfl | hc
    case inr.inr.inr.inr => exact ih hc
    all_goals simp

theorem plain_of_mem_encode {s : GoString} {c : UInt8} (hc : c ∈ encode s) :
    c < 0x80 ∧ c ≠ byte '\r' ∧ c ≠ byte '\n' := by
  have hplain : ∀ c ∈ alphabet, c < 0x80 ∧ c ≠ byte '\r' ∧ c ≠ byte '\n' := by decide +kernel
  rcases mem_encode hc with rfl | ⟨n, rfl⟩
  · decide
  · by_cases hn : n < alphabet.length
    · rw [letter, List.getD_eq_getElem _ _ hn]
      exact hplain _ (List.getElem_mem hn)
    · rw [letter, List.getD_eq_default _ _ (not_lt.mp hn)]
      decide

theorem decode_encode (s : GoString) : decode (encode s) = some s := by
  have hlines : (encode s).filter (fun c => c ≠ byte '\r' ∧ c ≠ byte '\n') = encode s :=
    List.filter_eq_self.mpr fun c hc => decide_eq_true (plain_of_mem_encode hc).2
  rw [decode, hlines]
  exact decodeQuanta_encode s

end EdgeQuota.Go.Base64
