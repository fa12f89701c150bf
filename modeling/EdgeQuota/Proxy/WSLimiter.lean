import EdgeQuota.Go.Http
import Mathlib.Logic.Function.Basic

/-! The limiter for the WebSocket connections of one key: counts in 64 shards, which behave as one table. -/

namespace EdgeQuota.Proxy
open Go

def wsShardCount : ℕ := 64

def fnv32a (s : GoString) : UInt32 := s.foldl (fun h c => (h ^^^ c.toUInt32) * 16777619) 2166136261

example : fnv32a (str "") = 0x811C9DC5 ∧ fnv32a (str "foobar") = 0xBF9CF968 := by decide +kernel

structure WSLimiter where
  maxPerKey : ℤ
  shards : Fin wsShardCount → GoString → ℤ

namespace WSLimiter

def new (maxPerKey : ℤ) : WSLimiter := ⟨maxPerKey, fun _ _ => 0⟩

def shard (key : GoString) : Fin wsShardCount := ⟨(fnv32a key).toNat % wsShardCount, Nat.mod_lt _ (by decide)⟩

def count (l : WSLimiter) (key : GoString) : ℤ := l.shards (shard key) key

def setCount (l : WSLimiter) (key : GoString) (n : ℤ) : WSLimiter :=
  { l with shards := Function.update l.shards (shard key) (Function.update (l.shards (shard key)) key n) }

def acquire (l : WSLimiter) (key : GoString) : Bool × WSLimiter :=
  if l.maxPerKey ≤ 0 then (true, l)
  else if l.maxPerKey ≤ l.count key then (false, l)
  else (true, l.setCount key (l.count key + 1))

def release (l : WSLimiter) (key : GoString) : WSLimiter :=
  if l.maxPerKey ≤ 0 then l else l.setCount key (if l.count key ≤ 1 then 0 else l.count key - 1)

theorem count_setCount (l : WSLimiter) (key key' : GoString) (n : ℤ) :
    (l.setCount key n).count key' = if key' = key then n else l.count key' := by
  show Function.update l.shards (shard key) (Function.update (l.shards (shard key)) key n) (shard key') key' = _
  by_cases hkey : key' = key
  · rw [hkey, if_pos rfl, Function.update_self, Function.update_self]
  · rw [if_neg hkey, count]
    by_cases hshard : shard key' = shard key
    · rw [hshard, Function.update_self, Function.update_of_ne hkey]
    · rw [Function.update_of_ne hshard]

structure Balanced (l : WSLimiter) (keys : List GoString) : Prop where
  positive : 0 < l.maxPerKey
  count_eq : ∀ key, l.count key = keys.count key
  bound : ∀ key, (keys.count key : ℤ) ≤ l.maxPerKey

variable {l : WSLimiter} {key : GoString} {keys : List GoString}

theorem balanced_new {maxPerKey : ℤ} (h : 0 < maxPerKey) : (new maxPerKey).Balanced [] :=
  ⟨h, fun _ => rfl, fun _ => h.le⟩

theorem count_insert (before after : List GoString) (key key' : GoString) :
    (before ++ key :: after).count key' = (before ++ after).count key' + if key' = key then 1 else 0 := by
  rw [List.count_append, List.count_append, List.count_cons]
  simp only [beq_iff_eq, eq_comm (a := key)]
  omega

theorem Balanced.acquire (h : l.Balanced keys) (hok : (l.acquire key).1 = true) :
    (l.acquire key).2.Balanced (keys ++ [key]) := by
  have hopen : ¬l.maxPerKey ≤ l.count key := by
    intro hfull
    rw [WSLimiter.acquire, if_neg h.positive.not_ge, if_pos hfull] at hok
    cases hok
  have hcount : ∀ key', (keys ++ [key]).count key' = keys.count key' + if key' = key then 1 else 0 := by
    intro key'
    rw [count_insert, List.append_nil]
  rw [WSLimiter.acquire, if_neg h.positive.not_ge, if_neg hopen]
  refine ⟨h.positive, fun key' => ?_, fun key' => ?_⟩
  · have heq := h.count_eq key'
    rw [count_setCount, hcount]
    split_ifs with hkey
    · rw [hkey] at heq
      rw [heq, hkey]
      rfl
    · exact heq
  · have hbound := h.bound key'
    have heq := h.count_eq key
    show ((keys ++ [key]).count key' : ℤ) ≤ l.maxPerKey
    rw [hcount]
    split_ifs with hkey
    · rw [hkey]
      omega
    · exact hbound

theorem Balanced.release {before after : List GoString} (h : l.Balanced (before ++ key :: after)) :
    (l.release key).Balanced (before ++ after) := by
  rw [WSLimiter.release, if_neg h.positive.not_ge]
  refine ⟨h.positive, fun key' => ?_, fun key' => ?_⟩
  · have heq := h.count_eq key'
    rw [count_insert] at heq
    rw [count_setCount]
    split_ifs at heq ⊢ with hkey hlast
    · rw [hkey] at heq ⊢
      omega
    · rw [hkey] at heq ⊢
      omega
    · exact heq
  · have hbound := h.bound key'
    rw [count_insert] at hbound
    show ((before ++ after).count key' : ℤ) ≤ l.maxPerKey
    omega

end WSLimiter
end EdgeQuota.Proxy
