import Mathlib.Data.List.Range
import Mathlib.Data.Nat.ModEq
import Mathlib.Logic.Function.Basic

/-! A ring of `n` slots that holds a queue: elements are written at the tail and taken at the head, and a full ring
gives up its oldest element for a new one. -/

namespace EdgeQuota.Lib

inductive Parts {α : Type*} : List α → List α → List α → Prop
  | nil : Parts [] [] []
  | keep {xs kept dropped : List α} (x : α) (h : Parts xs kept dropped) : Parts (x :: xs) (x :: kept) dropped
  | drop {xs kept dropped : List α} (x : α) (h : Parts xs kept dropped) : Parts (x :: xs) kept (x :: dropped)

theorem Parts.append_left {α : Type*} {xs kept dropped : List α} (h : Parts xs kept dropped) (ys : List α) :
    Parts (ys ++ xs) (ys ++ kept) dropped := by
  induction ys with
  | nil => exact h
  | cons y ys ih => exact ih.keep y

theorem Parts.refl {α : Type*} (xs : List α) : Parts xs xs [] := by
  have h := Parts.nil.append_left xs
  rwa [List.append_nil] at h

def advance {n : ℕ} (i : Fin n) (k : ℕ) : Fin n := ⟨(i + k) % n, Nat.mod_lt _ i.pos⟩

section Advance
variable {n : ℕ} (i : Fin n)

theorem advance_zero : advance i 0 = i := Fin.ext (Nat.mod_eq_of_lt i.isLt)

theorem advance_size : advance i n = i := by
  apply Fin.ext
  change (i + n) % n = i
  rw [Nat.add_mod_right, Nat.mod_eq_of_lt i.isLt]

theorem advance_advance (j k : ℕ) : advance (advance i j) k = advance i (j + k) := by
  apply Fin.ext
  change ((i + j) % n + k) % n = (i + (j + k)) % n
  rw [Nat.mod_add_mod, Nat.add_assoc]

theorem advance_inj {j k : ℕ} (hj : j < n) (hk : k < n) (h : advance i j = advance i k) : j = k := by
  have hmod : i + j ≡ i + k [MOD n] := congrArg Fin.val h
  exact (Nat.ModEq.add_left_cancel' _ hmod).eq_of_lt_of_lt hj hk

end Advance

structure RingBuffer (α : Type*) (n : ℕ) where
  slots : Fin n → α
  head : Fin n
  tail : Fin n
  len : ℕ
  len_le : len ≤ n
  tail_eq : tail = advance head len

namespace RingBuffer
variable {α : Type*} {n : ℕ}

def content (r : RingBuffer α n) : List α := (List.range r.len).map fun i => r.slots (advance r.head i)

def new (x : α) (h : 0 < n) : RingBuffer α n where
  slots _ := x
  head := ⟨0, h⟩
  tail := ⟨0, h⟩
  len := 0
  len_le := Nat.zero_le n
  tail_eq := (advance_zero _).symm

def push (r : RingBuffer α n) (x : α) : RingBuffer α n where
  slots := Function.update r.slots r.tail x
  head := if r.len = n then advance r.head 1 else r.head
  tail := advance r.tail 1
  len := if r.len = n then r.len else r.len + 1
  len_le := by
    have := r.len_le
    split_ifs
    · exact r.len_le
    · omega
  tail_eq := by
    split_ifs
    · rw [r.tail_eq, advance_advance, advance_advance, Nat.add_comm]
    · rw [r.tail_eq, advance_advance]

def pop (r : RingBuffer α n) (k : ℕ) : List α × RingBuffer α n :=
  let m := min r.len k
  ((List.range m).map fun i => r.slots (advance r.head i),
    { r with
      head := advance r.head m
      len := r.len - m
      len_le := (Nat.sub_le ..).trans r.len_le
      tail_eq := by rw [advance_advance, Nat.add_sub_cancel' (min_le_left ..), r.tail_eq] })

variable (r : RingBuffer α n)

@[simp] theorem length_content : r.content.length = r.len := by simp [content]

theorem head?_content (h : 0 < r.len) : r.content.head? = some (r.slots r.head) := by
  obtain ⟨m, hm⟩ : ∃ m, r.len = m + 1 := ⟨r.len - 1, by omega⟩
  rw [content, hm, List.range_succ_eq_map, List.map_cons, List.head?_cons, advance_zero]

theorem slots_push_of_lt (x : α) {i : ℕ} (hi : i < r.len) (h : r.len < n) :
    (r.push x).slots (advance r.head i) = r.slots (advance r.head i) := by
  apply Function.update_of_ne
  intro heq
  rw [r.tail_eq] at heq
  exact hi.ne (advance_inj r.head (hi.trans h) h heq)

theorem content_push_of_lt (x : α) (h : r.len < n) : (r.push x).content = r.content ++ [x] := by
  have hhead : (r.push x).head = r.head := if_neg h.ne
  have hlen : (r.push x).len = r.len + 1 := if_neg h.ne
  have hold : ∀ i ∈ List.range r.len,
      (r.push x).slots (advance r.head i) = r.slots (advance r.head i) := by
    intro i hi
    apply r.slots_push_of_lt x (List.mem_range.mp hi) h
  have hnew : (r.push x).slots (advance r.head r.len) = x := by
    rw [← r.tail_eq]
    apply Function.update_self
  rw [content, hhead, hlen, List.range_succ, List.map_append, List.map_congr_left hold, List.map_singleton, hnew]
  rfl

theorem content_push_full (x : α) (h : r.len = n) : (r.push x).content = r.content.tail ++ [x] := by
  obtain ⟨m, rfl⟩ : ∃ m, n = m + 1 := ⟨n - 1, by have := r.head.pos; omega⟩
  have htail : r.tail = r.head := by rw [r.tail_eq, h, advance_size]
  have hhead : (r.push x).head = advance r.head 1 := if_pos h
  have hlen : (r.push x).len = m + 1 := (if_pos h).trans h
  have hold : ∀ i ∈ List.range m,
      (r.push x).slots (advance (advance r.head 1) i) = r.slots (advance r.head (i + 1)) := by
    intro i hi
    rw [advance_advance, Nat.add_comm 1 i]
    apply Function.update_of_ne
    intro heq
    rw [htail, ← advance_zero r.head, advance_advance, Nat.zero_add] at heq
    have hlt : i + 1 < m + 1 := Nat.succ_lt_succ (List.mem_range.mp hi)
    exact absurd (advance_inj r.head hlt m.succ_pos heq) i.succ_ne_zero
  have hnew : (r.push x).slots (advance (advance r.head 1) m) = x := by
    rw [advance_advance, Nat.add_comm 1 m, advance_size, ← htail]
    apply Function.update_self
  have hrest : r.content.tail = (List.range m).map fun i => r.slots (advance r.head (i + 1)) := by
    rw [content, h, List.range_succ_eq_map, List.map_cons, List.tail_cons, List.map_map]
    rfl
  rw [content, hhead, hlen, List.range_succ, List.map_append, List.map_congr_left hold, List.map_singleton, hnew,
    hrest]

theorem pop_fst (k : ℕ) : (r.pop k).1 = r.content.take k := by
  rw [content, ← List.map_take, List.take_range, min_comm]
  rfl

theorem content_pop (k : ℕ) : (r.pop k).2.content = r.content.drop k := by
  apply List.ext_getElem
  · rw [length_content, List.length_drop, length_content]
    change r.len - min r.len k = r.len - k
    omega
  · intro i hi _
    have htaken : min r.len k = k := by
      rw [length_content] at hi
      change i < r.len - min r.len k at hi
      omega
    rw [List.getElem_drop]
    simp only [content, pop, List.getElem_map, List.getElem_range, advance_advance, htaken]

end RingBuffer
end EdgeQuota.Lib
