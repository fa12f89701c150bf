import EdgeQuota.Lib.Machine
import EdgeQuota.Proxy.WSLimiter
import Mathlib.Data.List.AList
import Mathlib.Data.List.FinRange

/-! The maps behind the limiter of the WebSocket connections. A call holds the lock of the one shard it works on, and the
last connection of a key takes its entry with it; so there are never more entries than connections. -/

namespace EdgeQuota.Proxy
open Go Lib

structure WSShards where
  maxPerKey : ℤ
  counts : Fin wsShardCount → AList fun _ : GoString => ℤ

namespace WSShards
open WSLimiter (shard)

def new (maxPerKey : ℤ) : WSShards := ⟨maxPerKey, fun _ => ∅⟩

def count (l : WSShards) (key : GoString) : ℤ := ((l.counts (shard key)).lookup key).getD 0

def setShard (l : WSShards) (i : Fin wsShardCount) (m : AList fun _ : GoString => ℤ) : WSShards :=
  { l with counts := Function.update l.counts i m }

def acquire (l : WSShards) (key : GoString) : Bool × WSShards :=
  if l.maxPerKey ≤ 0 then (true, l)
  else if l.maxPerKey ≤ l.count key then (false, l)
  else (true, l.setShard (shard key) ((l.counts (shard key)).insert key (int64 (l.count key + 1))))

def release (l : WSShards) (key : GoString) : WSShards :=
  if l.maxPerKey ≤ 0 then l
  else if l.count key ≤ 1 then l.setShard (shard key) ((l.counts (shard key)).erase key)
  else l.setShard (shard key) ((l.counts (shard key)).insert key (int64 (l.count key - 1)))

def entries (l : WSShards) : List GoString := (List.finRange wsShardCount).flatMap fun i => (l.counts i).keys

def limiter (l : WSShards) : WSLimiter := ⟨l.maxPerKey, fun i key => ((l.counts i).lookup key).getD 0⟩

variable {l : WSShards} {i : Fin wsShardCount} {m : AList fun _ : GoString => ℤ} {key : GoString} {n : ℤ}
  {sessions : List GoString}

theorem count_limiter (l : WSShards) (key : GoString) : l.limiter.count key = l.count key := rfl

theorem counts_setShard (l : WSShards) (i j : Fin wsShardCount) (m : AList fun _ : GoString => ℤ) :
    (l.setShard i m).counts j = if j = i then m else l.counts j := by
  unfold setShard
  split_ifs with hij
  · rw [hij]
    exact Function.update_self ..
  · exact Function.update_of_ne hij ..

theorem limiter_setShard (hself : (m.lookup key).getD 0 = n)
    (hothers : ∀ key', key' ≠ key → m.lookup key' = (l.counts (shard key)).lookup key') :
    (l.setShard (shard key) m).limiter = l.limiter.setCount key n := by
  refine congrArg (WSLimiter.mk l.maxPerKey) (funext fun j => funext fun key' => ?_)
  rw [counts_setShard]
  by_cases hshard : j = shard key
  · rw [if_pos hshard, hshard, Function.update_self]
    by_cases hkey : key' = key
    · rw [hkey, Function.update_self, hself]
    · rw [hothers key' hkey, Function.update_of_ne hkey]
      rfl
  · rw [if_neg hshard, Function.update_of_ne hshard]
    rfl

theorem limiter_insert (l : WSShards) (key : GoString) (n : ℤ) :
    (l.setShard (shard key) ((l.counts (shard key)).insert key n)).limiter = l.limiter.setCount key n := by
  apply limiter_setShard
  · rw [AList.lookup_insert, Option.getD_some]
  · intro key' hkey
    exact AList.lookup_insert_ne hkey

theorem limiter_erase (l : WSShards) (key : GoString) :
    (l.setShard (shard key) ((l.counts (shard key)).erase key)).limiter = l.limiter.setCount key 0 := by
  apply limiter_setShard
  · rw [AList.lookup_erase, Option.getD_none]
  · intro key' hkey
    exact AList.lookup_erase_ne hkey

structure Counts (l : WSShards) (sessions : List GoString) : Prop where
  balanced : l.limiter.Balanced sessions
  fits : l.maxPerKey < 2 ^ 63
  filled : ∀ i key n, (l.counts i).lookup key = some n → i = shard key ∧ 0 < n

theorem counts_new {maxPerKey : ℤ} (hmin : 1 ≤ maxPerKey) (hfits : maxPerKey < 2 ^ 63) :
    (new maxPerKey).Counts [] := by
  refine ⟨WSLimiter.balanced_new hmin, hfits, ?_⟩
  intro i key n hlookup
  cases hlookup

theorem Counts.limited (h : l.Counts sessions) : ¬l.maxPerKey ≤ 0 := h.balanced.positive.not_ge

theorem Counts.count_eq (h : l.Counts sessions) (key : GoString) : l.count key = sessions.count key :=
  h.balanced.count_eq key

theorem Counts.count_le (h : l.Counts sessions) (key : GoString) : l.count key ≤ l.maxPerKey :=
  (h.count_eq key).trans_le (h.balanced.bound key)

theorem Counts.filled_setShard (h : l.Counts sessions)
    (hm : ∀ key' n, m.lookup key' = some n → (l.counts i).lookup key' = some n ∨ (i = shard key' ∧ 0 < n)) :
    ∀ j key' n, ((l.setShard i m).counts j).lookup key' = some n → j = shard key' ∧ 0 < n := by
  intro j key' n hlookup
  rw [counts_setShard] at hlookup
  split_ifs at hlookup with hij
  · rw [hij]
    rcases hm key' n hlookup with hold | hnew
    · exact h.filled i key' n hold
    · exact hnew
  · exact h.filled j key' n hlookup

theorem lookup_insert_cases {key' : GoString} {n' : ℤ} (h : (m.insert key n).lookup key' = some n') :
    m.lookup key' = some n' ∨ (key' = key ∧ n' = n) := by
  by_cases hkey : key' = key
  · rw [hkey, AList.lookup_insert, Option.some.injEq] at h
    exact Or.inr ⟨hkey, h.symm⟩
  · rw [AList.lookup_insert_ne hkey] at h
    exact Or.inl h

theorem lookup_erase_cases {key' : GoString} {n' : ℤ} (h : (m.erase key).lookup key' = some n') :
    m.lookup key' = some n' := by
  by_cases hkey : key' = key
  · rw [hkey, AList.lookup_erase] at h
    cases h
  · rwa [AList.lookup_erase_ne hkey] at h

theorem Counts.filled_insert (h : l.Counts sessions) (hpos : 0 < n) :
    ∀ j key' n', ((l.setShard (shard key) ((l.counts (shard key)).insert key n)).counts j).lookup key' = some n' →
      j = shard key' ∧ 0 < n' := by
  apply h.filled_setShard
  intro key' n' hlookup
  rcases lookup_insert_cases hlookup with hold | ⟨rfl, rfl⟩
  · exact Or.inl hold
  · exact Or.inr ⟨rfl, hpos⟩

theorem Counts.acquire_full (h : l.Counts sessions) (hfull : l.maxPerKey ≤ l.count key) :
    l.acquire key = (false, l) := by
  unfold WSShards.acquire
  rw [if_neg h.limited, if_pos hfull]

theorem Counts.acquire_below (h : l.Counts sessions) (hbelow : l.count key < l.maxPerKey) :
    l.acquire key = (true, l.setShard (shard key) ((l.counts (shard key)).insert key (l.count key + 1))) := by
  have hcount := h.count_eq key
  have hfits := h.fits
  have hself : int64 (l.count key + 1) = l.count key + 1 := int64_eq_self_iff.mpr (by omega)
  unfold WSShards.acquire
  rw [if_neg h.limited, if_neg hbelow.not_ge, hself]

theorem Counts.acquire_fails_iff (h : l.Counts sessions) (key : GoString) :
    (l.acquire key).1 = false ↔ l.count key = l.maxPerKey := by
  have hle := h.count_le key
  rcases hle.lt_or_eq with hbelow | hfull
  · rw [h.acquire_below hbelow]
    exact iff_of_false Bool.true_eq_false.mp hbelow.ne
  · rw [h.acquire_full hfull.ge]
    exact iff_of_true rfl hfull

theorem Counts.limiter_acquire (h : l.Counts sessions) (key : GoString) :
    ((l.acquire key).1, (l.acquire key).2.limiter) = l.limiter.acquire key := by
  have hlimited : ¬l.limiter.maxPerKey ≤ 0 := h.limited
  unfold WSLimiter.acquire
  rcases (h.count_le key).lt_or_eq with hbelow | hfull
  · have hopen : ¬l.limiter.maxPerKey ≤ l.limiter.count key := hbelow.not_ge
    rw [h.acquire_below hbelow, limiter_insert, if_neg hlimited, if_neg hopen]
    rfl
  · have hclosed : l.limiter.maxPerKey ≤ l.limiter.count key := hfull.ge
    rw [h.acquire_full hfull.ge, if_neg hlimited, if_pos hclosed]

theorem Counts.acquire (h : l.Counts sessions) (hok : (l.acquire key).1 = true) :
    (l.acquire key).2.Counts (sessions ++ [key]) := by
  have hsame := h.limiter_acquire key
  have hbalanced : (l.acquire key).2.limiter.Balanced (sessions ++ [key]) := by
    have hacquired : (l.limiter.acquire key).1 = true := by
      rw [← hsame]
      exact hok
    have hnext := h.balanced.acquire hacquired
    rw [← hsame] at hnext
    exact hnext
  have hbelow : l.count key < l.maxPerKey := by
    refine (h.count_le key).lt_of_ne ?_
    intro hfull
    rw [(h.acquire_fails_iff key).mpr hfull] at hok
    cases hok
  have hcount := h.count_eq key
  have hstep := congrArg Prod.snd (h.acquire_below hbelow)
  refine ⟨hbalanced, ?_, ?_⟩
  · rw [hstep]
    exact h.fits
  · rw [hstep]
    apply h.filled_insert
    omega

theorem Counts.release_last (h : l.Counts sessions) (hlast : l.count key ≤ 1) :
    l.release key = l.setShard (shard key) ((l.counts (shard key)).erase key) := by
  unfold WSShards.release
  rw [if_neg h.limited, if_pos hlast]

theorem Counts.release_more (h : l.Counts sessions) (hmore : 1 < l.count key) :
    l.release key = l.setShard (shard key) ((l.counts (shard key)).insert key (l.count key - 1)) := by
  have hle := h.count_le key
  have hfits := h.fits
  have hself : int64 (l.count key - 1) = l.count key - 1 := int64_eq_self_iff.mpr (by omega)
  unfold WSShards.release
  rw [if_neg h.limited, if_neg hmore.not_ge, hself]

theorem Counts.limiter_release (h : l.Counts sessions) (key : GoString) :
    (l.release key).limiter = l.limiter.release key := by
  have hlimited : ¬l.limiter.maxPerKey ≤ 0 := h.limited
  unfold WSLimiter.release
  rw [if_neg hlimited, count_limiter]
  rcases le_or_gt (l.count key) 1 with hlast | hmore
  · rw [h.release_last hlast, limiter_erase, if_pos hlast]
  · rw [h.release_more hmore, limiter_insert, if_neg hmore.not_ge]

theorem Counts.release {before after : List GoString} (h : l.Counts (before ++ key :: after)) :
    (l.release key).Counts (before ++ after) := by
  have hbalanced : (l.release key).limiter.Balanced (before ++ after) := by
    rw [h.limiter_release]
    exact h.balanced.release
  rcases le_or_gt (l.count key) 1 with hlast | hmore
  · have hstep := h.release_last hlast
    refine ⟨hbalanced, ?_, ?_⟩
    · rw [hstep]
      exact h.fits
    · rw [hstep]
      apply h.filled_setShard
      intro key' n hlookup
      exact Or.inl (lookup_erase_cases hlookup)
  · have hstep := h.release_more hmore
    refine ⟨hbalanced, ?_, ?_⟩
    · rw [hstep]
      exact h.fits
    · rw [hstep]
      apply h.filled_insert
      omega

theorem Counts.mem_of_mem (h : l.Counts sessions) (hmem : key ∈ l.counts i) : i = shard key ∧ key ∈ sessions := by
  obtain ⟨n, hn⟩ := Option.isSome_iff_exists.mp (AList.lookup_isSome.mpr hmem)
  obtain ⟨rfl, hpos⟩ := h.filled i key n hn
  have hcount : l.count key = n := by
    unfold count
    rw [hn, Option.getD_some]
  have heq := h.count_eq key
  refine ⟨rfl, List.count_pos_iff.mp ?_⟩
  omega

theorem Counts.length_entries_le (h : l.Counts sessions) : l.entries.length ≤ sessions.length := by
  have hnodup : l.entries.Nodup := by
    refine List.nodup_flatMap.mpr ⟨fun i _ => (l.counts i).keys_nodup, ?_⟩
    refine (List.nodup_finRange wsShardCount).imp ?_
    intro i j hij key hi hj
    exact hij ((h.mem_of_mem hi).1.trans (h.mem_of_mem hj).1.symm)
  have hsubset : l.entries ⊆ sessions := by
    intro key hkey
    obtain ⟨i, -, hi⟩ := List.mem_flatMap.mp hkey
    exact (h.mem_of_mem hi).2
  exact (List.subperm_of_subset hnodup hsubset).length_le

inductive Call where
  | acquire (key : GoString)
  | release (key : GoString)
  deriving DecidableEq

def calls : Machine WSShards Call (Option Bool) where
  step
    | l, .acquire key => (some (l.acquire key).1, (l.acquire key).2)
    | l, .release key => (none, l.release key)

def Call.acquires (p : GoString → Bool) (answer : Option Bool) : Call → Bool
  | .acquire key => p key && answer == some true
  | .release _ => false

def Call.releases (p : GoString → Bool) : Call → Bool
  | .acquire _ => false
  | .release key => p key

def acquired (l : WSShards) (cs : List Call) (p : GoString → Bool) : ℕ :=
  calls.tally (fun c answer => c.acquires p answer) l cs

def released (cs : List Call) (p : GoString → Bool) : ℕ := cs.countP fun c => c.releases p

def outstanding (l : WSShards) (cs : List Call) (p : GoString → Bool) : ℤ := acquired l cs p - released cs p

def Matched (l : WSShards) (cs : List Call) : Prop :=
  ∀ i key, cs[i]? = some (.release key) → released (cs.take i) (· == key) < acquired l (cs.take i) (· == key)

section Runs
variable {c : Call} {cs : List Call}

theorem released_cons (c : Call) (cs : List Call) (p : GoString → Bool) :
    released (c :: cs) p = released cs p + if c.releases p then 1 else 0 := List.countP_cons

theorem acquired_cons (l : WSShards) (c : Call) (cs : List Call) (p : GoString → Bool) :
    acquired l (c :: cs) p =
      (if c.acquires p (calls.step l c).1 then 1 else 0) + acquired (calls.step l c).2 cs p := rfl

theorem Counts.step (h : l.Counts sessions) (hc : ∀ key, c = .release key → key ∈ sessions) :
    ∃ next, (calls.step l c).2.Counts next ∧ ∀ p : GoString → Bool,
      next.countP p + (if c.releases p then 1 else 0) =
        sessions.countP p + if c.acquires p (calls.step l c).1 then 1 else 0 := by
  cases c with
  | acquire key =>
    cases hok : (l.acquire key).1 with
    | false =>
      have hfull := (h.acquire_fails_iff key).mp hok
      have hstep : (calls.step l (.acquire key)).2 = l := congrArg Prod.snd (h.acquire_full hfull.ge)
      refine ⟨sessions, hstep.symm ▸ h, ?_⟩
      intro p
      simp [calls, Call.acquires, Call.releases, hok]
    | true =>
      refine ⟨sessions ++ [key], h.acquire hok, ?_⟩
      intro p
      simp [calls, Call.acquires, Call.releases, hok]
  | release key =>
    obtain ⟨before, after, rfl⟩ := List.append_of_mem (hc key rfl)
    refine ⟨before ++ after, h.release, ?_⟩
    intro p
    rw [List.countP_append, List.countP_append, List.countP_cons]
    cases hp : p key <;> simp [Call.acquires, Call.releases, hp, Nat.add_assoc]

theorem maxPerKey_step (l : WSShards) (c : Call) : (calls.step l c).2.maxPerKey = l.maxPerKey := by
  cases c with
  | acquire key =>
    change (l.acquire key).2.maxPerKey = _
    unfold WSShards.acquire
    split_ifs <;> rfl
  | release key =>
    change (l.release key).maxPerKey = _
    unfold WSShards.release
    split_ifs <;> rfl

theorem maxPerKey_run (l : WSShards) (cs : List Call) : (calls.run l cs).maxPerKey = l.maxPerKey := by
  induction cs generalizing l with
  | nil => rfl
  | cons c cs ih => exact (ih _).trans (maxPerKey_step l c)

theorem Counts.run (h : l.Counts sessions)
    (hmatched : ∀ i key, cs[i]? = some (.release key) →
      released (cs.take i) (· == key) < sessions.countP (· == key) + acquired l (cs.take i) (· == key)) :
    ∃ left, (calls.run l cs).Counts left ∧
      ∀ p, left.countP p + released cs p = sessions.countP p + acquired l cs p := by
  induction cs generalizing l sessions with
  | nil => exact ⟨sessions, h, fun p => rfl⟩
  | cons c cs ih =>
    have hc : ∀ key, c = .release key → key ∈ sessions := by
      intro key hkey
      have hfirst := hmatched 0 key (congrArg some hkey)
      exact List.count_pos_iff.mp hfirst
    obtain ⟨next, hnext, hbalance⟩ := h.step hc
    have hrest : ∀ i key, cs[i]? = some (.release key) →
        released (cs.take i) (· == key) <
          next.countP (· == key) + acquired (calls.step l c).2 (cs.take i) (· == key) := by
      intro i key hi
      have hlater := hmatched (i + 1) key hi
      have hkey := hbalance (· == key)
      rw [List.take_succ_cons, released_cons, acquired_cons] at hlater
      omega
    obtain ⟨left, hleft, htotal⟩ := ih hnext hrest
    refine ⟨left, hleft, ?_⟩
    intro p
    have hfirst := hbalance p
    have hothers := htotal p
    rw [released_cons, acquired_cons]
    omega

end Runs

/-- **Exact counts.** Where every release has its acquisition, the limiter stores for each key the number of its
outstanding acquisitions; it refuses exactly the keys that are at the limit, and a key without outstanding acquisitions
is in none of the maps, so that they hold no more entries than there are open sessions. -/
theorem counts_outstanding_exactly {maxPerKey : ℤ} (hmin : 1 ≤ maxPerKey) (hfits : maxPerKey < 2 ^ 63) {cs : List Call}
    (hmatched : Matched (new maxPerKey) cs) :
    let l := calls.run (new maxPerKey) cs
    (∀ key, l.count key = outstanding (new maxPerKey) cs (· == key) ∧ l.count key ≤ maxPerKey ∧
      ((l.acquire key).1 = false ↔ l.count key = maxPerKey)) ∧
    (∀ key, outstanding (new maxPerKey) cs (· == key) = 0 → ∀ i, key ∉ l.counts i) ∧
    (l.entries.length : ℤ) ≤ outstanding (new maxPerKey) cs fun _ => true := by
  intro l
  have hfirst : ∀ i key, cs[i]? = some (.release key) → released (cs.take i) (· == key) <
      ([] : List GoString).countP (· == key) + acquired (new maxPerKey) (cs.take i) (· == key) := by
    intro i key hi
    rw [List.countP_nil, Nat.zero_add]
    exact hmatched i key hi
  obtain ⟨sessions, hcounts, htotal⟩ := (counts_new hmin hfits).run hfirst
  have hlimit : l.maxPerKey = maxPerKey := maxPerKey_run _ cs
  have hopen : ∀ key, (sessions.count key : ℤ) = outstanding (new maxPerKey) cs (· == key) := by
    intro key
    have hkey := htotal (· == key)
    rw [List.countP_nil] at hkey
    unfold outstanding List.count
    omega
  refine ⟨?_, ?_, ?_⟩
  · intro key
    refine ⟨(hcounts.count_eq key).trans (hopen key), hlimit ▸ hcounts.count_le key, ?_⟩
    rw [← hlimit]
    exact hcounts.acquire_fails_iff key
  · intro key hnone i hmem
    have hsession := List.count_pos_iff.mpr (hcounts.mem_of_mem hmem).2
    have hzero := (hopen key).trans hnone
    omega
  · have hall := htotal fun _ => true
    have hle : l.entries.length ≤ sessions.length := hcounts.length_entries_le
    rw [List.countP_nil, List.countP_true] at hall
    unfold outstanding
    omega

theorem counts_outstanding_exactly_two :
    let cs := [.acquire (str "a"), .acquire (str "b"), .acquire (str "a"), .release (str "a")]
    let l := calls.run (new 1) cs
    calls.outputs (new 1) cs = [some true, some true, some false, none] ∧
      (l.count (str "b") = 1 ∧ outstanding (new 1) cs (· == str "b") = 1) ∧
      (∀ i, str "a" ∉ l.counts i) ∧ (l.entries.length : ℤ) ≤ 1 := by
  intro cs l
  have hmatched : Matched (new 1) cs := by
    intro i key hi
    rcases i with _ | _ | _ | _ | i <;> cases hi
    decide +kernel
  have hall := counts_outstanding_exactly (by decide) (by decide) hmatched
  have hb : outstanding (new 1) cs (· == str "b") = 1 := by decide +kernel
  have htotal : (outstanding (new 1) cs fun _ => true) = 1 := by decide +kernel
  refine ⟨by decide +kernel, ⟨((hall.1 (str "b")).1).trans hb, hb⟩, ?_, hall.2.2.trans_eq htotal⟩
  exact hall.2.1 (str "a") (by decide +kernel)

end WSShards
end EdgeQuota.Proxy
