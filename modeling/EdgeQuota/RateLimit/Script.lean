import EdgeQuota.Go.Float
import EdgeQuota.Lib.Keyspace
import EdgeQuota.Lib.RoundedBucket
import Mathlib.Algebra.Order.Floor.Ring
import Mathlib.Data.Rat.Floor

/-! The Lua script `rateLimitLua` over the Redis keyspace, written once for every arithmetic: `binary64` is that of
Lua, `exact` that of the rationals. The caller's timestamps and Redis's own clock are integers in microseconds. -/

namespace EdgeQuota.RateLimit
open Lib

inductive Field where
  | last
  | tokens
  | lastExpire
  deriving DecidableEq

abbrev Hash := Field → Option ℚ

abbrev Redis (κ : Type*) := Keyspace κ Hash ℤ

variable {κ : Type*} [DecidableEq κ]

def hmget (db : Redis κ) (clock : ℤ) (key : κ) : Hash := (db.get clock key).getD fun _ => none

def setFields (h : Hash) (kvs : List (Field × ℚ)) : Hash :=
  kvs.foldl (fun h kv => Function.update h kv.1 (some kv.2)) h

def hset (db : Redis κ) (clock : ℤ) (key : κ) (kvs : List (Field × ℚ)) : Redis κ :=
  db.modify clock key fun h => setFields (h.getD fun _ => none) kvs

/-- EXPIREAT takes whole seconds. -/
def expireat (db : Redis κ) (clock : ℤ) (key : κ) (at_ : ℤ) : Redis κ :=
  db.expireAt clock key (at_ * 1000000)

structure Args where
  rate : ℚ
  burst : ℤ
  ttl : ℤ
  now : ℤ

structure Reply where
  allowed : ℤ
  retryAfter : ℤ
  remaining : ℤ
  limit : ℤ
  resetAfter : ℤ
  deriving DecidableEq

/-- What a number keeps of a rational, and the integer that Redis makes of a whole number in a reply. -/
structure Arithmetic extends Rounding where
  toInteger : ℤ → ℤ

namespace Arithmetic

def exact : Arithmetic := { Rounding.exact with toInteger := id }

/-- Lua's doubles. Their exponents have room for every value here: all sums and products are multiples of the least
double, and what the script divides is never small. A reply that does not fit into 64 bits is what amd64 makes of it. -/
def binary64 : Arithmetic :=
  { Go.float64 with
    toInteger := fun n => if -2 ^ 63 ≤ n ∧ n < 2 ^ 63 then n else -2 ^ 63 }

/-- `tonumber` and every operation round. -/
def rateLimitLua (N : Arithmetic) (key : κ) (a : Args) (clock : ℤ) (db : Redis κ) : Reply × Redis κ :=
  let rate := N.fl a.rate
  let burst := N.fl a.burst
  let ttl := N.fl a.ttl
  let now := N.fl a.now
  if rate ≤ 0 then (⟨1, 0, N.toInteger ⌊burst⌋, N.toInteger ⌊burst⌋, 0⟩, db)
  else
    let vals := hmget db clock key
    let last := N.fl ((vals .last).getD 0)
    let tokens := N.fl ((vals .tokens).getD burst)
    let lastExpire := N.fl ((vals .lastExpire).getD 0)
    let last := if now < last then now else last
    let elapsed := N.fl (now - last)
    let tokens := min burst (N.fl (tokens + N.fl (rate * elapsed)))
    let resetAfter := if tokens < burst then ⌈N.fl (N.fl (burst - tokens) / rate)⌉ else 0
    let ttlHalfUs := N.fl (ttl * 500000)
    let needsExpire := decide (N.fl (now - lastExpire) > ttlHalfUs)
    let expireAt := ⌊N.fl (⌊N.fl (now / 1000000)⌋ + ttl)⌋
    if 1 ≤ tokens then
      let tokens := N.fl (tokens - 1)
      let db :=
        if needsExpire then
          expireat (hset db clock key [(.last, now), (.tokens, tokens), (.lastExpire, now)]) clock key expireAt
        else hset db clock key [(.last, now), (.tokens, tokens)]
      (⟨1, 0, N.toInteger ⌊tokens⌋, N.toInteger ⌊burst⌋, N.toInteger resetAfter⟩, db)
    else
      let db :=
        if needsExpire then
          expireat (hset db clock key [(.last, now), (.tokens, tokens), (.lastExpire, now)]) clock key expireAt
        else hset db clock key [(.last, now), (.tokens, tokens)]
      (⟨0, N.toInteger ⌈N.fl (N.fl (1 - tokens) / rate)⌉, 0, N.toInteger ⌊burst⌋, N.toInteger resetAfter⟩, db)

def available (N : Arithmetic) (a : Args) (h : Hash) : ℚ :=
  min (N.fl a.burst) (N.fl (N.fl ((h .tokens).getD (N.fl a.burst)) +
    N.fl (N.fl a.rate * N.fl (N.fl a.now - min (N.fl a.now) (N.fl ((h .last).getD 0))))))

def needsExpire (N : Arithmetic) (a : Args) (h : Hash) : Prop :=
  N.fl (N.fl a.ttl * 500000) < N.fl (N.fl a.now - N.fl ((h .lastExpire).getD 0))

instance (N : Arithmetic) (a : Args) (h : Hash) : Decidable (N.needsExpire a h) := inferInstanceAs (Decidable (_ < _))

def expireInstant (N : Arithmetic) (a : Args) : ℤ :=
  ⌊N.fl (⌊N.fl (N.fl a.now / 1000000)⌋ + N.fl a.ttl)⌋ * 1000000

def written (N : Arithmetic) (a : Args) (h : Hash) : Hash
  | .last => some (N.fl a.now)
  | .tokens => some (N.take (N.available a h))
  | .lastExpire => if N.needsExpire a h then some (N.fl a.now) else h .lastExpire

def slotAfter (N : Arithmetic) (a : Args) (clock : ℤ) (db : Redis κ) (key : κ) : Option (Slot Hash ℤ) :=
  if N.needsExpire a (hmget db clock key) then
    if N.expireInstant a ≤ clock then none
    else some ⟨N.written a (hmget db clock key), some (N.expireInstant a)⟩
  else some ⟨N.written a (hmget db clock key), (db.find clock key).bind Slot.deadline⟩

def replyOf (N : Arithmetic) (a : Args) (h : Hash) : Reply :=
  let x := N.available a h
  let resetAfter := if x < N.fl a.burst then ⌈N.fl (N.fl (N.fl a.burst - x) / N.fl a.rate)⌉ else 0
  if 1 ≤ x then ⟨1, 0, N.toInteger ⌊N.fl (x - 1)⌋, N.toInteger ⌊N.fl a.burst⌋, N.toInteger resetAfter⟩
  else ⟨0, N.toInteger ⌈N.fl (N.fl (1 - x) / N.fl a.rate)⌉, 0, N.toInteger ⌊N.fl a.burst⌋, N.toInteger resetAfter⟩

variable {N : Arithmetic}

theorem rateLimitLua_disabled (key : κ) {a : Args} (ha : N.fl a.rate ≤ 0) (clock : ℤ) (db : Redis κ) :
    N.rateLimitLua key a clock db = (⟨1, 0, N.toInteger ⌊N.fl a.burst⌋, N.toInteger ⌊N.fl a.burst⌋, 0⟩, db) :=
  if_pos ha

theorem refill_eq (N : Arithmetic) (a : Args) (h : Hash) :
    min (N.fl a.burst) (N.fl (N.fl ((h .tokens).getD (N.fl a.burst)) + N.fl (N.fl a.rate * N.fl (N.fl a.now -
      (if N.fl a.now < N.fl ((h .last).getD 0) then N.fl a.now else N.fl ((h .last).getD 0)))))) =
      N.available a h := by
  unfold available
  by_cases hlt : N.fl a.now < N.fl ((h .last).getD 0)
  · rw [if_pos hlt, min_eq_left hlt.le]
  · rw [if_neg hlt, min_eq_right (not_lt.mp hlt)]

theorem setFields_refresh (a : Args) (h : Hash) (hn : N.needsExpire a h) :
    setFields h [(.last, N.fl a.now), (.tokens, N.take (N.available a h)), (.lastExpire, N.fl a.now)] =
      N.written a h := by
  funext f
  cases f <;> simp [setFields, written, hn]

theorem setFields_keep (a : Args) (h : Hash) (hn : ¬N.needsExpire a h) :
    setFields h [(.last, N.fl a.now), (.tokens, N.take (N.available a h))] = N.written a h := by
  funext f
  cases f <;> simp [setFields, written, hn]

theorem hset_expireat_eq (a : Args) (clock : ℤ) (db : Redis κ) (key : κ) {x : ℚ}
    (hx : x = N.take (N.available a (hmget db clock key))) :
    (if decide (N.fl (N.fl a.now - N.fl (((hmget db clock key) .lastExpire).getD 0)) >
        N.fl (N.fl a.ttl * 500000)) = true then
      expireat (hset db clock key [(.last, N.fl a.now), (.tokens, x), (.lastExpire, N.fl a.now)])
        clock key ⌊N.fl (⌊N.fl (N.fl a.now / 1000000)⌋ + N.fl a.ttl)⌋
    else hset db clock key [(.last, N.fl a.now), (.tokens, x)]) =
      db.write key (N.slotAfter a clock db key) := by
  subst hx
  have hiff : decide (N.fl (N.fl a.now - N.fl (((hmget db clock key) .lastExpire).getD 0)) >
      N.fl (N.fl a.ttl * 500000)) = true ↔ N.needsExpire a (hmget db clock key) := decide_eq_true_iff
  by_cases hn : N.needsExpire a (hmget db clock key)
  · rw [if_pos (hiff.mpr hn), expireat, hset, Keyspace.expireAt_modify, slotAfter, if_pos hn]
    have hset := setFields_refresh a _ hn
    unfold hmget at hset ⊢
    rw [hset]
    rfl
  · rw [if_neg (hiff.not.mpr hn), hset, Keyspace.modify, slotAfter, if_neg hn]
    have hset := setFields_keep a _ hn
    unfold hmget at hset ⊢
    rw [hset]

theorem rateLimitLua_eq (key : κ) {a : Args} (ha : 0 < N.fl a.rate) (clock : ℤ) (db : Redis κ) :
    N.rateLimitLua key a clock db =
      (N.replyOf a (hmget db clock key), db.write key (N.slotAfter a clock db key)) := by
  unfold rateLimitLua
  simp only [if_neg (not_le.mpr ha), refill_eq]
  by_cases hone : 1 ≤ N.available a (hmget db clock key)
  · have htake : N.fl (N.available a (hmget db clock key) - 1) = N.take (N.available a (hmget db clock key)) :=
      (if_pos hone).symm
    rw [if_pos hone, hset_expireat_eq a clock db key htake, replyOf, if_pos hone]
  · have htake : N.available a (hmget db clock key) = N.take (N.available a (hmget db clock key)) :=
      (if_neg hone).symm
    rw [if_neg hone, hset_expireat_eq a clock db key htake, replyOf, if_neg hone]

theorem replyOf_allowed (a : Args) (h : Hash) : (N.replyOf a h).allowed = 1 ↔ 1 ≤ N.available a h := by
  unfold replyOf
  by_cases hone : 1 ≤ N.available a h
  · simp only [hone, if_true]
  · simp only [hone, if_false, zero_ne_one]

end Arithmetic

abbrev rateLimitLua (key : κ) (a : Args) (clock : ℤ) (db : Redis κ) : Reply × Redis κ :=
  Arithmetic.exact.rateLimitLua key a clock db

abbrev available (a : Args) (h : Hash) : ℚ := Arithmetic.exact.available a h

abbrev needsExpire (a : Args) (h : Hash) : Prop := Arithmetic.exact.needsExpire a h

abbrev expireInstant (a : Args) : ℤ := Arithmetic.exact.expireInstant a

abbrev written (a : Args) (h : Hash) : Hash := Arithmetic.exact.written a h

abbrev slotAfter (a : Args) (clock : ℤ) (db : Redis κ) (key : κ) : Option (Slot Hash ℤ) :=
  Arithmetic.exact.slotAfter a clock db key

abbrev replyOf (a : Args) (h : Hash) : Reply := Arithmetic.exact.replyOf a h

theorem available_eq (a : Args) (h : Hash) :
    available a h = min (a.burst : ℚ) ((h .tokens).getD (a.burst : ℚ) +
      a.rate * (a.now - min (a.now : ℚ) ((h .last).getD 0))) := rfl

theorem needsExpire_iff (a : Args) (h : Hash) :
    needsExpire a h ↔ (a.ttl : ℚ) * 500000 < a.now - (h .lastExpire).getD 0 := Iff.rfl

theorem expireInstant_eq (a : Args) : expireInstant a = (a.now / 1000000 + a.ttl) * 1000000 := by
  have hfloor : ⌊(a.now : ℚ) / 1000000⌋ = a.now / 1000000 := by
    exact_mod_cast Rat.floor_intCast_div_natCast a.now 1000000
  have hsum : expireInstant a = ⌊((⌊(a.now : ℚ) / 1000000⌋ : ℤ) : ℚ) + (a.ttl : ℚ)⌋ * 1000000 := rfl
  rw [hsum, hfloor, ← Int.cast_add, Int.floor_intCast]

theorem slotAfter_eq {ι : Type*} (a : Args) (clock : ℤ) (db : Redis ι) (key : ι) :
    slotAfter a clock db key =
      if needsExpire a (hmget db clock key) then
        if expireInstant a ≤ clock then none
        else some ⟨written a (hmget db clock key), some (expireInstant a)⟩
      else some ⟨written a (hmget db clock key), (db.find clock key).bind Slot.deadline⟩ := rfl

theorem replyOf_eq (a : Args) (h : Hash) :
    replyOf a h =
      let x := available a h
      let resetAfter := if x < a.burst then ⌈((a.burst : ℚ) - x) / a.rate⌉ else 0
      if 1 ≤ x then ⟨1, 0, ⌊x - 1⌋, a.burst, resetAfter⟩
      else ⟨0, ⌈(1 - x) / a.rate⌉, 0, a.burst, resetAfter⟩ := by
  have hburst : Arithmetic.exact.toInteger ⌊Arithmetic.exact.fl a.burst⌋ = a.burst := Int.floor_intCast a.burst
  unfold replyOf Arithmetic.replyOf
  rw [hburst]
  rfl

theorem replyOf_allowed (a : Args) (h : Hash) : (replyOf a h).allowed = 1 ↔ 1 ≤ available a h :=
  Arithmetic.replyOf_allowed a h

theorem rateLimitLua_disabled (key : κ) {a : Args} (ha : a.rate ≤ 0) (clock : ℤ) (db : Redis κ) :
    rateLimitLua key a clock db = (⟨1, 0, a.burst, a.burst, 0⟩, db) := by
  have hburst : Arithmetic.exact.toInteger ⌊Arithmetic.exact.fl a.burst⌋ = a.burst := Int.floor_intCast a.burst
  have h := Arithmetic.rateLimitLua_disabled (N := Arithmetic.exact) key ha clock db
  rwa [hburst] at h

end EdgeQuota.RateLimit
