import Mathlib.Data.Option.Basic
import Mathlib.Logic.Function.Basic
import Mathlib.Order.Lattice

/-! A key-value store in which a key may carry a deadline. A key whose deadline has been
reached reads as absent, whether or not it has been reclaimed. -/

namespace EdgeQuota.Lib

structure Slot (ν T : Type*) where
  value : ν
  deadline : Option T

def Slot.live {ν T : Type*} [LinearOrder T] (s : Slot ν T) (now : T) : Bool :=
  match s.deadline with
  | none => true
  | some d => decide (now < d)

abbrev Keyspace (κ ν T : Type*) := κ → Option (Slot ν T)

namespace Keyspace
variable {κ ν T : Type*}

def empty : Keyspace κ ν T := fun _ => none

section Reading
variable [LinearOrder T]

def find (db : Keyspace κ ν T) (now : T) (k : κ) : Option (Slot ν T) :=
  (db k).filter (·.live now)

def get (db : Keyspace κ ν T) (now : T) (k : κ) : Option ν := (db.find now k).map Slot.value

theorem find_of_none {db : Keyspace κ ν T} {k : κ} (h : db k = none) (now : T) : db.find now k = none := by
  rw [find, h, Option.filter_none]

theorem find_eq_some {db : Keyspace κ ν T} {now : T} {k : κ} {s : Slot ν T} :
    db.find now k = some s ↔ db k = some s ∧ s.live now = true := by
  simp only [find, Option.filter_eq_some_iff]

theorem live_of_find {db : Keyspace κ ν T} {now : T} {k : κ} {v : ν} :
    (Slot.mk v ((db.find now k).bind Slot.deadline)).live now = true := by
  cases h : db.find now k with
  | none => rfl
  | some s => exact (find_eq_some.mp h).2

end Reading

variable [DecidableEq κ]

def write (db : Keyspace κ ν T) (k : κ) (s : Option (Slot ν T)) : Keyspace κ ν T :=
  Function.update db k s

@[simp] theorem write_self (db : Keyspace κ ν T) (k : κ) (s : Option (Slot ν T)) :
    db.write k s k = s := Function.update_self ..

@[simp] theorem write_of_ne {k k' : κ} (h : k' ≠ k) (db : Keyspace κ ν T) (s : Option (Slot ν T)) :
    db.write k s k' = db k' := Function.update_of_ne h ..

@[simp] theorem write_write (db : Keyspace κ ν T) (k : κ) (s s' : Option (Slot ν T)) :
    (db.write k s).write k s' = db.write k s' := Function.update_idem ..

variable [LinearOrder T]

def modify (db : Keyspace κ ν T) (now : T) (k : κ) (f : Option ν → ν) : Keyspace κ ν T :=
  db.write k (some ⟨f (db.get now k), (db.find now k).bind Slot.deadline⟩)

def expireAt (db : Keyspace κ ν T) (now : T) (k : κ) (d : T) : Keyspace κ ν T :=
  match db.find now k with
  | none => db
  | some s => db.write k (if d ≤ now then none else some ⟨s.value, some d⟩)

theorem modify_of_ne {k k' : κ} (h : k' ≠ k) (db : Keyspace κ ν T) (now : T) (f : Option ν → ν) :
    db.modify now k f k' = db k' := write_of_ne h ..

theorem expireAt_of_ne {k k' : κ} (h : k' ≠ k) (db : Keyspace κ ν T) (now d : T) :
    db.expireAt now k d k' = db k' := by
  cases hf : db.find now k with
  | none => simp only [expireAt, hf]
  | some s =>
    simp only [expireAt, hf]
    exact write_of_ne h ..

theorem expireAt_modify (db : Keyspace κ ν T) (now : T) (k : κ) (f : Option ν → ν) (d : T) :
    (db.modify now k f).expireAt now k d =
      db.write k (if d ≤ now then none else some ⟨f (db.get now k), some d⟩) := by
  have hfind : (db.modify now k f).find now k =
      some ⟨f (db.get now k), (db.find now k).bind Slot.deadline⟩ :=
    find_eq_some.mpr ⟨write_self .., live_of_find⟩
  rw [expireAt, hfind, modify]
  exact write_write ..

end Keyspace
end EdgeQuota.Lib
