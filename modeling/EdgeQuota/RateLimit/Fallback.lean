import EdgeQuota.Go.Float
import EdgeQuota.Lib.RoundedBucket

/-! The in-memory limiter. Calls of `Allow` interleave at the cache lookup, the LoadOrStore on
`pending`, the cache set, the delete from `pending` and the locked section; the cache admits a
buffered set later, or never. Time is in seconds; tokens are rounded as `R` rounds, `float64` in the code. -/

namespace EdgeQuota.RateLimit
open Lib Go TokenBucket

/-- Tokens per second and burst; the limiter is disabled when the rate is not positive. -/
structure InMemoryLimiter where
  rate : ℚ
  burst : ℤ

namespace InMemoryLimiter

def disabled (l : InMemoryLimiter) : Bool := l.rate ≤ 0

def newBucket (R : Rounding) (l : InMemoryLimiter) (now : ℚ) : Bucket ℚ := ⟨R.fl (R.fl l.burst - 1), now⟩

def refill (R : Rounding) (l : InMemoryLimiter) (now : ℚ) (b : Bucket ℚ) : Bool × Bucket ℚ :=
  let elapsed := asSeconds R (now - b.last)
  let tokens := R.fl (b.tokens + R.fl (l.rate * elapsed))
  let tokens := if tokens > R.fl l.burst then R.fl l.burst else tokens
  if 1 ≤ tokens then (true, ⟨R.fl (tokens - 1), now⟩) else (false, ⟨tokens, now⟩)

def demand (R : Rounding) (l : InMemoryLimiter) (now : ℚ) : Demand ℚ := ⟨R.fl l.burst, l.rate, now⟩

variable {R : Rounding}

theorem refill_eq (l : InMemoryLimiter) (now : ℚ) (b : Bucket ℚ) :
    ((l.refill R now b).1, some (l.refill R now b).2) = (R.bucket (asSeconds R)).step (some b) (l.demand R now) := by
  have hcap : (if R.fl (b.tokens + R.fl (l.rate * asSeconds R (now - b.last))) > R.fl l.burst then R.fl l.burst
      else R.fl (b.tokens + R.fl (l.rate * asSeconds R (now - b.last)))) =
        R.level (asSeconds R) (l.demand R now) (some b) := by
    simp only [Rounding.level, demand]
    split_ifs with h
    · exact (min_eq_left h.le).symm
    · exact (min_eq_right (not_lt.mp h)).symm
  simp only [refill, hcap, Rounding.bucket, Rounding.take]
  by_cases h : 1 ≤ R.level (asSeconds R) (l.demand R now) (some b)
  · rw [if_pos h, if_pos h, decide_eq_true h]
    rfl
  · rw [if_neg h, if_neg h, decide_eq_false h]
    rfl

theorem newBucket_eq {l : InMemoryLimiter} (hb : 1 ≤ l.burst) (now : ℚ) :
    (R.bucket (asSeconds R)).step none (l.demand R now) = (true, some (l.newBucket R now)) := by
  have hone : 1 ≤ R.fl l.burst := R.le_fl R.fl_one (by exact_mod_cast hb)
  change (decide (1 ≤ R.fl l.burst), some (⟨R.take (R.fl l.burst), now⟩ : Bucket ℚ)) = _
  rw [decide_eq_true hone, Rounding.take, if_pos hone]
  rfl

end InMemoryLimiter

/-- Where a call stands: its lookup missed, it has stored its own bucket in `pending`, it has
also set the cache, or it is about to lock a bucket. -/
inductive Pc (κ : Type*) where
  | missed (key : κ) (now : ℚ)
  | won (key : κ) (id : ℕ)
  | inserted (key : κ) (id : ℕ)
  | found (key : κ) (id : ℕ) (now : ℚ)

def Pc.holds {κ : Type*} (key : κ) (id : ℕ) : Pc κ → Prop
  | .missed _ _ => False
  | .won k i | .inserted k i | .found k i _ => k = key ∧ i = id

/-- The shared state. Buckets are heap cells; the cache, its set buffer, `pending` and the
calls in flight hold pointers to them. -/
structure Shared (κ : Type*) where
  cache : κ → Option ℕ
  buffer : List (κ × ℕ)
  pending : κ → Option ℕ
  heap : ℕ → Bucket ℚ
  next : ℕ
  calls : ℕ → Option (Pc κ)

inductive Event (κ : Type*) where
  | lookup (g : ℕ) (key : κ) (now : ℚ)
  | loadOrStore (g : ℕ)
  | cacheSet (g : ℕ) (dropped : Bool)
  | pendingDelete (g : ℕ)
  | refill (g : ℕ)
  | processItem (accepted : Bool)
  | evict (key : κ)

/-- The answer of a call, given at the step that fixes it, and the bucket it was charged to. -/
structure Decision (κ : Type*) where
  key : κ
  bucket : Option ℕ
  time : ℚ
  allowed : Bool

variable {κ : Type*}

def chargedTo (id : ℕ) (os : List (Option (Decision κ))) : List (Decision κ) :=
  (os.filterMap fun o => o).filter fun d => d.bucket = some id

theorem chargedTo_cons (id : ℕ) (o : Option (Decision κ)) (os : List (Option (Decision κ))) :
    chargedTo id (o :: os) = chargedTo id [o] ++ chargedTo id os := by
  unfold chargedTo
  rw [← List.filter_append, ← List.filterMap_append, List.singleton_append]

theorem chargedTo_other {id : ℕ} {d : Decision κ} (h : d.bucket ≠ some id) : chargedTo id [some d] = [] := by
  simp [chargedTo, h]

theorem chargedTo_own {id : ℕ} {d : Decision κ} (h : d.bucket = some id) : chargedTo id [some d] = [d] := by
  simp [chargedTo, h]

namespace Shared
variable {R : Rounding} {l : InMemoryLimiter} {s : Shared κ} {key : κ} {id : ℕ}

def init : Shared κ := ⟨fun _ => none, [], fun _ => none, fun _ => ⟨0, 0⟩, 0, fun _ => none⟩

def Refers (s : Shared κ) (key : κ) (id : ℕ) : Prop :=
  s.cache key = some id ∨ s.pending key = some id ∨ (key, id) ∈ s.buffer ∨
    ∃ g pc, s.calls g = some pc ∧ pc.holds key id

theorem refers_of_call {g : ℕ} {pc : Pc κ} (h : s.calls g = some pc) (hp : pc.holds key id) :
    s.Refers key id := Or.inr (Or.inr (Or.inr ⟨g, pc, h, hp⟩))

def goto (s : Shared κ) (g : ℕ) (pc : Option (Pc κ)) : Shared κ :=
  { s with calls := Function.update s.calls g pc }

theorem refers_goto {g : ℕ} {pc : Option (Pc κ)} (h : (s.goto g pc).Refers key id) :
    s.Refers key id ∨ ∃ p, pc = some p ∧ p.holds key id := by
  rcases h with h | h | h | ⟨g', p, hg, hp⟩
  · exact Or.inl (Or.inl h)
  · exact Or.inl (Or.inr (Or.inl h))
  · exact Or.inl (Or.inr (Or.inr (Or.inl h)))
  · simp only [goto, Function.update_apply] at hg
    split_ifs at hg with hgg
    · exact Or.inr ⟨p, hg, hp⟩
    · exact Or.inl (refers_of_call hg hp)

theorem refers_goto_some {g : ℕ} {pc : Pc κ} (h : (s.goto g (some pc)).Refers key id) :
    s.Refers key id ∨ pc.holds key id := by
  rcases refers_goto h with h | ⟨p, hp, hh⟩
  · exact Or.inl h
  · cases hp
    exact Or.inr hh

theorem refers_goto_none {g : ℕ} (h : (s.goto g none).Refers key id) : s.Refers key id := by
  rcases refers_goto h with h | ⟨p, hp, -⟩
  · exact h
  · cases hp

theorem refers_shorter {x : κ × ℕ} {rest : List (κ × ℕ)} (hbuffer : s.buffer = x :: rest)
    (h : Refers { s with buffer := rest } key id) : s.Refers key id := by
  rcases h with h | h | h | h
  · exact Or.inl h
  · exact Or.inr (Or.inl h)
  · exact Or.inr (Or.inr (Or.inl (hbuffer ▸ List.mem_cons_of_mem _ h)))
  · exact Or.inr (Or.inr (Or.inr h))

def lookup (l : InMemoryLimiter) (s : Shared κ) (g : ℕ) (key : κ) (now : ℚ) : Option (Decision κ) × Shared κ :=
  match s.calls g with
  | some _ => (none, s)
  | none =>
    if l.disabled then (some ⟨key, none, now, true⟩, s)
    else
      match s.cache key with
      | some id => (none, s.goto g (some (.found key id now)))
      | none => (none, s.goto g (some (.missed key now)))

def refill (R : Rounding) (l : InMemoryLimiter) (s : Shared κ) (g : ℕ) : Option (Decision κ) × Shared κ :=
  match s.calls g with
  | some (.found key id now) =>
    (some ⟨key, some id, now, (l.refill R now (s.heap id)).1⟩,
      { s with heap := Function.update s.heap id (l.refill R now (s.heap id)).2 }.goto g none)
  | _ => (none, s)

def WellFormed (s : Shared κ) : Prop := ∀ key id, s.Refers key id → id < s.next

theorem wellFormed_init : (init : Shared κ).WellFormed := by
  rintro key id (h | h | h | ⟨g, pc, h, -⟩)
  · cases h
  · cases h
  · cases h
  · cases h

def Keeps (s : Shared κ) (key : κ) (id : ℕ) : Prop :=
  s.pending key = some id ∨ s.cache key = some id ∨ (key, id) ∈ s.buffer

theorem keeps_shorter {k : κ} {i : ℕ} {rest : List (κ × ℕ)} (hbuffer : s.buffer = (k, i) :: rest) (hk : key ≠ k)
    (h : s.Keeps key id) : Keeps { s with buffer := rest } key id := by
  refine h.imp_right (Or.imp_right fun hmem => ?_)
  rw [hbuffer, List.mem_cons, Prod.mk.injEq] at hmem
  exact hmem.resolve_left fun heq => hk heq.1

def Single (key : κ) (o : Option ℕ) (s : Shared κ) : Prop :=
  (∀ id, s.Refers key id → o = some id) ∧ ∀ id, o = some id → s.Keeps key id

theorem single_init : (init : Shared κ).Single key none := by
  refine ⟨fun id h => ?_, nofun⟩
  have := wellFormed_init key id h
  exact absurd this (Nat.not_lt_zero _)

def cell (s : Shared κ) (id : ℕ) : Option (Bucket ℚ) := if id < s.next then some (s.heap id) else none

theorem cell_of_lt (h : id < s.next) : s.cell id = some (s.heap id) := if_pos h

theorem cell_of_not_lt (h : ¬id < s.next) : s.cell id = none := if_neg h

end Shared

variable [DecidableEq κ]

namespace Shared

def loadOrStore (R : Rounding) (l : InMemoryLimiter) (s : Shared κ) (g : ℕ) : Option (Decision κ) × Shared κ :=
  match s.calls g with
  | some (.missed key now) =>
    match s.pending key with
    | some id => (none, s.goto g (some (.found key id now)))
    | none =>
      (some ⟨key, some s.next, now, true⟩,
        { s with
          pending := Function.update s.pending key (some s.next)
          heap := Function.update s.heap s.next (l.newBucket R now)
          next := s.next + 1
          calls := Function.update s.calls g (some (.won key s.next)) })
  | _ => (none, s)

/-- `SetWithTTL`: a present key is replaced at once, a new one goes through the buffer and may
be dropped there. -/
def cacheSet (s : Shared κ) (g : ℕ) (dropped : Bool) : Shared κ :=
  match s.calls g with
  | some (.won key id) =>
    match s.cache key with
    | some _ => { s with cache := Function.update s.cache key (some id) }.goto g (some (.inserted key id))
    | none =>
      if dropped then s.goto g (some (.inserted key id))
      else { s with buffer := s.buffer ++ [(key, id)] }.goto g (some (.inserted key id))
  | _ => s

def pendingDelete (s : Shared κ) (g : ℕ) : Shared κ :=
  match s.calls g with
  | some (.inserted key _) => { s with pending := Function.update s.pending key none }.goto g none
  | _ => s

/-- The cache takes the oldest buffered set. A key that has been admitted meanwhile keeps the
value it has. -/
def processItem (s : Shared κ) (accepted : Bool) : Shared κ :=
  match s.buffer with
  | [] => s
  | (key, id) :: rest =>
    if accepted ∧ s.cache key = none then
      { s with buffer := rest, cache := Function.update s.cache key (some id) }
    else { s with buffer := rest }

def evict (s : Shared κ) (key : κ) : Shared κ := { s with cache := Function.update s.cache key none }

end Shared

def fallbackIn (R : Rounding) (l : InMemoryLimiter) : Machine (Shared κ) (Event κ) (Option (Decision κ)) where
  step s
    | .lookup g key now => s.lookup l g key now
    | .loadOrStore g => s.loadOrStore R l g
    | .cacheSet g dropped => (none, s.cacheSet g dropped)
    | .pendingDelete g => (none, s.pendingDelete g)
    | .refill g => s.refill R l g
    | .processItem accepted => (none, s.processItem accepted)
    | .evict key => (none, s.evict key)

abbrev fallback (l : InMemoryLimiter) : Machine (Shared κ) (Event κ) (Option (Decision κ)) := fallbackIn .exact l

namespace Shared
variable {R : Rounding} {l : InMemoryLimiter} {s : Shared κ} {key : κ} {id : ℕ}

def Creates (s : Shared κ) (key : κ) (g : ℕ) (now : ℚ) : Prop :=
  s.calls g = some (.missed key now) ∧ s.pending key = none

theorem refers_setCache {k : κ} {o : Option ℕ} (h : Refers { s with cache := Function.update s.cache k o } key id) :
    s.Refers key id ∨ k = key ∧ o = some id := by
  rcases h with h | h
  · simp only [Function.update_apply] at h
    split_ifs at h with hk
    · exact Or.inr ⟨hk.symm, h⟩
    · exact Or.inl (Or.inl h)
  · exact Or.inl (Or.inr h)

/-- What a step may do, with the answer it gives. -/
inductive Turn (R : Rounding) (l : InMemoryLimiter) (s : Shared κ) :
    Event κ → Option (Decision κ) → Shared κ → Prop
  | idle (e : Event κ) : Turn R l s e none s
  | pass {g key now} (h : l.disabled = true) : Turn R l s (.lookup g key now) (some ⟨key, none, now, true⟩) s
  | hit {g key now id} (h : s.cache key = some id) :
    Turn R l s (.lookup g key now) none (s.goto g (some (.found key id now)))
  | miss {g key now} : Turn R l s (.lookup g key now) none (s.goto g (some (.missed key now)))
  | share {g key now id} (h : s.pending key = some id) :
    Turn R l s (.loadOrStore g) none (s.goto g (some (.found key id now)))
  | create {g key now} (h : s.Creates key g now) :
    Turn R l s (.loadOrStore g) (some ⟨key, some s.next, now, true⟩)
      ({ s with
        pending := Function.update s.pending key (some s.next)
        heap := Function.update s.heap s.next (l.newBucket R now)
        next := s.next + 1 }.goto g (some (.won key s.next)))
  | replace {g key id dropped} (h : s.calls g = some (.won key id)) :
    Turn R l s (.cacheSet g dropped) none
      ({ s with cache := Function.update s.cache key (some id) }.goto g (some (.inserted key id)))
  | drop {g key id dropped} (h : s.calls g = some (.won key id)) :
    Turn R l s (.cacheSet g dropped) none (s.goto g (some (.inserted key id)))
  | enqueue {g key id dropped} (h : s.calls g = some (.won key id)) :
    Turn R l s (.cacheSet g dropped) none
      ({ s with buffer := s.buffer ++ [(key, id)] }.goto g (some (.inserted key id)))
  | delete {g key id} (h : s.calls g = some (.inserted key id)) :
    Turn R l s (.pendingDelete g) none ({ s with pending := Function.update s.pending key none }.goto g none)
  | lock {g key id now} (h : s.calls g = some (.found key id now)) :
    Turn R l s (.refill g) (some ⟨key, some id, now, (l.refill R now (s.heap id)).1⟩)
      ({ s with heap := Function.update s.heap id (l.refill R now (s.heap id)).2 }.goto g none)
  | accept {accepted key id rest} (h : s.buffer = (key, id) :: rest) :
    Turn R l s (.processItem accepted) none
      { s with buffer := rest, cache := Function.update s.cache key (some id) }
  | giveUp {accepted key id rest} (h : s.buffer = (key, id) :: rest) (hkept : accepted = true → s.cache key ≠ none) :
    Turn R l s (.processItem accepted) none { s with buffer := rest }
  | evict {key : κ} : Turn R l s (.evict key) none (s.evict key)

theorem turn_step (R : Rounding) (l : InMemoryLimiter) (s : Shared κ) (e : Event κ) :
    Turn R l s e ((fallbackIn R l).step s e).1 ((fallbackIn R l).step s e).2 := by
  cases e with
  | lookup g key now =>
    simp only [fallbackIn, lookup]
    split
    · exact .idle _
    split
    · rename_i hdisabled
      exact .pass hdisabled
    split
    · rename_i id hcache
      exact .hit hcache
    · exact .miss
  | loadOrStore g =>
    simp only [fallbackIn, loadOrStore]
    split
    · rename_i key now hcall
      split
      · rename_i id hpending
        exact .share hpending
      · rename_i hpending
        exact .create ⟨hcall, hpending⟩
    · exact .idle _
  | cacheSet g dropped =>
    simp only [fallbackIn, cacheSet]
    split
    · rename_i key id hcall
      split
      · exact .replace hcall
      split
      · exact .drop hcall
      · exact .enqueue hcall
    · exact .idle _
  | pendingDelete g =>
    simp only [fallbackIn, pendingDelete]
    split
    · rename_i key id hcall
      exact .delete hcall
    · exact .idle _
  | refill g =>
    simp only [fallbackIn, refill]
    split
    · rename_i key id now hcall
      exact .lock hcall
    · exact .idle _
  | processItem accepted =>
    simp only [fallbackIn, processItem]
    split
    · exact .idle _
    · rename_i key id rest hbuffer
      split
      · exact .accept hbuffer
      · rename_i hnot
        exact .giveUp hbuffer fun haccepted hnone => hnot ⟨haccepted, hnone⟩
  | evict key => exact .evict

theorem refers_turn {e : Event κ} {o : Option (Decision κ)} {s' : Shared κ} (h : Turn R l s e o s')
    (href : s'.Refers key id) :
    s.Refers key id ∨ id = s.next ∧ (∃ g now, e = .loadOrStore g ∧ s.Creates key g now) ∧ s'.next = s.next + 1 := by
  cases h with
  | idle e => exact Or.inl href
  | pass h => exact Or.inl href
  | hit h =>
    rcases refers_goto_some href with href | ⟨rfl, rfl⟩
    · exact Or.inl href
    · exact Or.inl (Or.inl h)
  | miss => exact Or.inl ((refers_goto_some href).resolve_right not_false)
  | share h =>
    rcases refers_goto_some href with href | ⟨rfl, rfl⟩
    · exact Or.inl href
    · exact Or.inl (Or.inr (Or.inl h))
  | create h =>
    rcases refers_goto_some href with (href | href | href) | ⟨rfl, rfl⟩
    · exact Or.inl (Or.inl href)
    · simp only [Function.update_apply] at href
      split_ifs at href with hk
      · exact Or.inr ⟨(Option.some.inj href).symm, ⟨_, _, rfl, hk ▸ h⟩, rfl⟩
      · exact Or.inl (Or.inr (Or.inl href))
    · exact Or.inl (Or.inr (Or.inr href))
    · exact Or.inr ⟨rfl, ⟨_, _, rfl, h⟩, rfl⟩
  | replace h =>
    rcases refers_goto_some href with href | hheld
    · rcases refers_setCache href with href | ⟨rfl, hid⟩
      · exact Or.inl href
      · exact Or.inl (refers_of_call h ⟨rfl, Option.some.inj hid⟩)
    · exact Or.inl (refers_of_call h hheld)
  | drop h =>
    rcases refers_goto_some href with href | hheld
    · exact Or.inl href
    · exact Or.inl (refers_of_call h hheld)
  | enqueue h =>
    rcases refers_goto_some href with (href | href | href | href) | hheld
    · exact Or.inl (Or.inl href)
    · exact Or.inl (Or.inr (Or.inl href))
    · rcases List.mem_append.mp href with href | href
      · exact Or.inl (Or.inr (Or.inr (Or.inl href)))
      · cases List.mem_singleton.mp href
        exact Or.inl (refers_of_call h ⟨rfl, rfl⟩)
    · exact Or.inl (Or.inr (Or.inr (Or.inr href)))
    · exact Or.inl (refers_of_call h hheld)
  | delete h =>
    rcases refers_goto_none href with href | href | href
    · exact Or.inl (Or.inl href)
    · simp only [Function.update_apply] at href
      split_ifs at href
      exact Or.inl (Or.inr (Or.inl href))
    · exact Or.inl (Or.inr (Or.inr href))
  | lock h => exact Or.inl (refers_goto_none href)
  | @accept accepted k i rest h =>
    rcases refers_setCache (s := { s with buffer := rest }) href with href | ⟨rfl, hid⟩
    · exact Or.inl (refers_shorter h href)
    · cases hid
      exact Or.inl (Or.inr (Or.inr (Or.inl (h ▸ List.mem_cons_self ..))))
  | giveUp h hkept => exact Or.inl (refers_shorter h href)
  | evict =>
    rcases refers_setCache href with href | ⟨-, hid⟩
    · exact Or.inl href
    · cases hid

theorem next_le_turn {e : Event κ} {o : Option (Decision κ)} {s' : Shared κ} (h : Turn R l s e o s') :
    s.next ≤ s'.next := by
  cases h with
  | create h => exact Nat.le_succ _
  | _ => exact le_rfl

theorem wellFormed_step (h : s.WellFormed) (e : Event κ) : ((fallbackIn R l).step s e).2.WellFormed := by
  have hturn := turn_step R l s e
  intro key id href
  rcases refers_turn hturn href with href | ⟨rfl, -, hnext⟩
  · exact (h key id href).trans_le (next_le_turn hturn)
  · omega

end Shared

namespace Shared
variable {R : Rounding} {l : InMemoryLimiter} {s : Shared κ} {id : ℕ}

theorem cell_turn (hb : 1 ≤ l.burst) (hs : s.WellFormed) (id : ℕ) {e : Event κ} {o : Option (Decision κ)}
    {s' : Shared κ} (h : Turn R l s e o s') :
    (chargedTo id [o] = [] ∧ s'.cell id = s.cell id) ∨
      ∃ d : Decision κ, chargedTo id [o] = [d] ∧
        (d.allowed, s'.cell id) = (R.bucket (asSeconds R)).step (s.cell id) (l.demand R d.time) := by
  cases h with
  | pass h => exact Or.inl ⟨chargedTo_other (Option.some_ne_none id).symm, rfl⟩
  | @create g key now h =>
    by_cases hid : id = s.next
    · -- the bucket is created, full but for the token of this call
      subst hid
      refine Or.inr ⟨_, chargedTo_own rfl, ?_⟩
      rw [cell_of_not_lt (lt_irrefl _), InMemoryLimiter.newBucket_eq hb now, cell_of_lt (Nat.lt_succ_self _)]
      simp only [goto, Function.update_self]
    · refine Or.inl ⟨chargedTo_other fun h => hid (Option.some.inj h).symm, ?_⟩
      have hiff : id < s.next + 1 ↔ id < s.next := by omega
      simp only [cell, goto, Function.update_of_ne hid, hiff]
  | @lock g key i now hcall =>
    by_cases hid : id = i
    · subst hid
      have hlt : id < s.next := hs key id (refers_of_call hcall ⟨rfl, rfl⟩)
      refine Or.inr ⟨_, chargedTo_own rfl, ?_⟩
      rw [cell_of_lt hlt, ← l.refill_eq now (s.heap id)]
      simp only [cell, goto, if_pos hlt, Function.update_self]
    · refine Or.inl ⟨chargedTo_other fun h => hid (Option.some.inj h).symm, ?_⟩
      simp only [cell, goto, Function.update_of_ne hid]
  | _ => exact Or.inl ⟨rfl, rfl⟩

end Shared

section Charged
variable {R : Rounding} {l : InMemoryLimiter} (hb : 1 ≤ l.burst) (id : ℕ)
include hb

theorem chargedTo_eq {s : Shared κ} (hs : s.WellFormed) (es : List (Event κ)) :
    (chargedTo id ((fallbackIn R l).outputs s es)).map Decision.allowed =
      (R.bucket (asSeconds R)).outputs (s.cell id)
        ((chargedTo id ((fallbackIn R l).outputs s es)).map fun d => l.demand R d.time) := by
  induction es generalizing s with
  | nil => rfl
  | cons e es ih =>
    have hrest := ih (Shared.wellFormed_step (R := R) (l := l) hs e)
    rw [Machine.outputs, chargedTo_cons, List.map_append, List.map_append]
    rcases Shared.cell_turn hb hs id (Shared.turn_step R l s e) with ⟨hnone, hcell⟩ | ⟨d, hone, hstep⟩
    · rw [hcell] at hrest
      rw [hnone]
      exact hrest
    · rw [hone, List.map_singleton, List.map_singleton, List.singleton_append, List.singleton_append, hrest,
        Machine.outputs, ← hstep]

def InMemoryLimiter.after (R : Rounding) (l : InMemoryLimiter) (before : List (Decision κ)) : Option (Bucket ℚ) :=
  (R.bucket (asSeconds R)).run none (before.map fun d => l.demand R d.time)

theorem countP_segment {es : List (Event κ)} {before during after : List (Decision κ)}
    (hsplit : chargedTo id ((fallbackIn R l).outputs Shared.init es) = before ++ during ++ after)
    (p : Demand ℚ → Bool → Bool) :
    during.countP (fun d => p (l.demand R d.time) d.allowed) =
      (R.bucket (asSeconds R)).tally p (l.after R before) (during.map fun d => l.demand R d.time) := by
  have hanswers := chargedTo_eq (R := R) hb id Shared.wellFormed_init es
  have hfresh : (Shared.init : Shared κ).cell id = none := Shared.cell_of_not_lt (Nat.not_lt_zero id)
  rw [hsplit, hfresh] at hanswers
  simp only [List.map_append, Machine.outputs_append] at hanswers
  have hfront := (List.append_inj hanswers (by simp only [List.length_append, List.length_map,
    Machine.length_outputs])).1
  have hsegment : during.map Decision.allowed =
      (R.bucket (asSeconds R)).outputs (l.after R before) (during.map fun d => l.demand R d.time) :=
    (List.append_inj' hfront (by simp only [List.length_map, Machine.length_outputs])).2
  rw [Machine.tally_eq_countP, ← hsegment, List.zip_map', List.countP_map]
  rfl

end Charged

/-- What rounding can add to the answers of the calls `during` after the calls `before`: eight units of the tokens that
each call but the first finds and of what it refills, and a unit of the burst for each call. -/
def InMemoryLimiter.allowance (R : Rounding) (l : InMemoryLimiter) (before during : List (Decision κ)) : ℚ :=
  R.allowance (asSeconds R) (R.fl l.burst) (l.after R before) (during.map fun d => l.demand R d.time)

/-- The schedules in which the serialisation works for a key. No call that has missed the cache comes to LoadOrStore in
the window between the delete from `pending` and the admission, or with a look-up from before the admission; no bucket is
lost, neither a set dropped before it leaves `pending` nor a buffered one refused after; the cache never gives it up. -/
def Orderly (key : κ) (s : Shared κ) : Event κ → Prop
  | .loadOrStore g => ∀ now, s.Creates key g now → s.cache key = none ∧ ∀ id, (key, id) ∉ s.buffer
  | .pendingDelete g => ∀ id, s.calls g = some (.inserted key id) → s.cache key ≠ none ∨ ∃ i, (key, i) ∈ s.buffer
  | .processItem accepted =>
    accepted = false → ∀ id, s.buffer.head? = some (key, id) → s.cache key ≠ none ∨ s.pending key ≠ none
  | .evict k => k ≠ key
  | .lookup _ _ _ | .cacheSet _ _ | .refill _ => True

namespace Shared
variable {R : Rounding} {l : InMemoryLimiter} {s : Shared κ} {key : κ} {id : ℕ} {e : Event κ}

theorem keeps_turn {o : Option (Decision κ)} {s' : Shared κ} (hturn : Turn R l s e o s') (ho : Orderly key s e)
    (honly : ∀ i, s.Refers key i → i = id) (h : s.Keeps key id) : s'.Keeps key id := by
  have hcached : s.cache key ≠ none → s.cache key = some id := by
    intro hne
    obtain ⟨j, hj⟩ := Option.ne_none_iff_exists'.mp hne
    rw [hj, honly j (Or.inl hj)]
  cases hturn with
  | @create g k now hcreates =>
    by_cases hk : key = k
    · subst hk
      obtain ⟨hcache, hbuffer⟩ := ho now hcreates
      rw [Keeps, hcreates.2, hcache] at h
      rcases h with h | h | h
      · cases h
      · cases h
      · exact absurd h (hbuffer id)
    · simpa only [Keeps, goto, Function.update_of_ne hk] using h
  | @replace g k i dropped hcall =>
    by_cases hk : key = k
    · subst hk
      refine Or.inr (Or.inl ?_)
      simp only [goto, Function.update_self]
      rw [honly i (refers_of_call hcall ⟨rfl, rfl⟩)]
    · simpa only [Keeps, goto, Function.update_of_ne hk] using h
  | enqueue hcall => exact h.imp_right (Or.imp_right fun hmem => List.mem_append_left _ hmem)
  | @delete g k i hcall =>
    by_cases hk : key = k
    · subst hk
      rcases ho i hcall with hcache | ⟨j, hj⟩
      · exact Or.inr (Or.inl (hcached hcache))
      · have hid := honly j (Or.inr (Or.inr (Or.inl hj)))
        exact Or.inr (Or.inr (hid ▸ hj))
    · simpa only [Keeps, goto, Function.update_of_ne hk] using h
  | @accept accepted k i rest hbuffer =>
    by_cases hk : key = k
    · subst hk
      have hid : i = id := honly i (Or.inr (Or.inr (Or.inl (hbuffer ▸ List.mem_cons_self ..))))
      refine Or.inr (Or.inl ?_)
      simp only [Function.update_self, hid]
    · simpa only [Keeps, Function.update_of_ne hk] using keeps_shorter hbuffer hk h
  | @giveUp accepted k i rest hbuffer hkept =>
    by_cases hk : key = k
    · -- the set of the key is given up, so the cache has the bucket already or it is still pending
      subst hk
      have heither : s.cache key ≠ none ∨ s.pending key ≠ none := by
        cases accepted with
        | true => exact Or.inl (hkept rfl)
        | false => exact ho rfl i (by rw [hbuffer]; rfl)
      rcases heither with hcache | hpending
      · exact Or.inr (Or.inl (hcached hcache))
      · obtain ⟨j, hj⟩ := Option.ne_none_iff_exists'.mp hpending
        have hid := honly j (Or.inr (Or.inl hj))
        exact Or.inl (hid ▸ hj)
    · exact keeps_shorter hbuffer hk h
  | @evict k =>
    have hk : key ≠ k := Ne.symm ho
    simpa only [evict, Keeps, Function.update_of_ne hk] using h
  | _ => exact h

theorem loadOrStore_of_creates {g : ℕ} {now : ℚ} (h : s.Creates key g now) :
    s.loadOrStore R l g = (some ⟨key, some s.next, now, true⟩,
      { s with
        pending := Function.update s.pending key (some s.next)
        heap := Function.update s.heap s.next (l.newBucket R now)
        next := s.next + 1
        calls := Function.update s.calls g (some (.won key s.next)) }) := by
  simp only [loadOrStore, h.1, h.2]

theorem single_step {o : Option ℕ} (hr : 0 < l.rate) (ho : Orderly key s e) (h : s.Single key o) :
    ∃ o', ((fallbackIn R l).step s e).2.Single key o' ∧ (∀ id, o = some id → o' = some id) ∧
      ∀ d, ((fallbackIn R l).step s e).1 = some d → d.key = key → d.bucket.isSome = true ∧ d.bucket = o' := by
  by_cases hcreate : ∃ g now, e = .loadOrStore g ∧ s.Creates key g now
  · obtain ⟨g, now, rfl, hc⟩ := hcreate
    -- the key has no bucket: none is pending and, the step being orderly, none is cached or about to be
    have hnone : o = none := by
      cases o with
      | none => rfl
      | some i =>
        obtain ⟨hcache, hbuffer⟩ := ho now hc
        rcases h.2 i rfl with hp | hp | hp
        · rw [hc.2] at hp
          cases hp
        · rw [hcache] at hp
          cases hp
        · exact absurd hp (hbuffer i)
    subst hnone
    have hstep : (fallbackIn R l).step s (.loadOrStore g) = _ := loadOrStore_of_creates hc
    refine ⟨some s.next, ⟨fun i hi => ?_, ?_⟩, nofun, ?_⟩
    · rcases refers_turn (turn_step R l s _) hi with hi | ⟨rfl, -⟩
      · cases h.1 i hi
      · rfl
    · rintro i ⟨⟩
      rw [hstep]
      exact Or.inl (Function.update_self ..)
    · intro d hd hk
      rw [hstep] at hd
      cases hd
      exact ⟨rfl, rfl⟩
  · have hturn := turn_step R l s e
    refine ⟨o, ⟨fun i hi => ?_, fun i hi => ?_⟩, fun _ => id, fun d hd hk => ?_⟩
    · rcases refers_turn hturn hi with hi | ⟨-, hc, -⟩
      · exact h.1 i hi
      · exact absurd hc hcreate
    · refine keeps_turn hturn ho (fun j hj => ?_) (h.2 i hi)
      rw [h.1 j hj] at hi
      exact Option.some.inj hi
    -- an enabled limiter answers from the bucket the call has found
    · generalize ((fallbackIn R l).step s e).2 = s' at hturn
      rw [hd] at hturn
      cases hturn with
      | pass hdisabled => exact absurd hr (not_lt.mpr (of_decide_eq_true hdisabled))
      | create hc =>
        obtain rfl : _ = key := hk
        exact absurd ⟨_, _, rfl, hc⟩ hcreate
      | lock hcall => exact ⟨rfl, (h.1 _ (refers_of_call hcall ⟨hk, rfl⟩)).symm⟩

theorem single_run {o : Option ℕ} (hr : 0 < l.rate) {es : List (Event κ)}
    (ho : (fallbackIn R l).Along (Orderly key) s es) (h : s.Single key o) :
    ∃ id, (∀ i, o = some i → i = id) ∧
      (fallbackIn R l).Along (fun σ e => (∀ i, σ.Refers key i → i = id) ∧
        ∀ d, ((fallbackIn R l).step σ e).1 = some d → d.key = key → d.bucket = some id) s es ∧
      ∀ i, ((fallbackIn R l).run s es).Refers key i → i = id := by
  induction es generalizing s o with
  | nil =>
    refine ⟨o.getD 0, ?_, trivial, fun i hi => ?_⟩
    · rintro i rfl
      rfl
    · rw [h.1 i hi]
      rfl
  | cons e es ih =>
    obtain ⟨o', hsingle, hkeep, hans⟩ := single_step hr ho.1 h
    obtain ⟨id, hid, halong, hrefs⟩ := ih ho.2 hsingle
    refine ⟨id, fun i hi => hid i (hkeep i hi), ⟨⟨fun i hi => hid i (hkeep i (h.1 i hi)), ?_⟩, halong⟩, hrefs⟩
    intro d hd hk
    obtain ⟨hsome, hbucket⟩ := hans d hd hk
    obtain ⟨i, hi⟩ := Option.isSome_iff_exists.mp hsome
    rw [hi, ← hid i (hbucket ▸ hi)]

end Shared

def grantedTo (key : κ) (s t : ℚ) : Option (Decision κ) → Bool
  | some d => d.allowed && decide (d.key = key) && decide (s ≤ d.time) && decide (d.time ≤ t)
  | none => false

def grantedIn (key : κ) (s t : ℚ) (_ : Event κ) (o : Option (Decision κ)) : Bool := grantedTo key s t o

theorem tally_grantedIn (M : Machine (Shared κ) (Event κ) (Option (Decision κ))) (key : κ) (s t : ℚ) (σ : Shared κ)
    (es : List (Event κ)) : M.tally (grantedIn key s t) σ es = (M.outputs σ es).countP (grantedTo key s t) := by
  have hlen : (M.outputs σ es).length ≤ es.length := (Machine.length_outputs M σ es).le
  rw [Machine.tally_eq_countP]
  nth_rewrite 2 [← List.map_snd_zip hlen]
  rw [List.countP_map]
  rfl

end EdgeQuota.RateLimit
