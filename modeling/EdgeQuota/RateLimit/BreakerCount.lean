import EdgeQuota.Lib.Threads
import EdgeQuota.RateLimit.Eviction
import Mathlib.Data.List.Infix

/-! The map of breakers is shared by all requests, and beside it stands a counter: whoever creates a breaker looks
at the counter first and adds to it afterwards, and the goroutine that evicts takes from it what it has removed. None of
this is one step. -/

namespace EdgeQuota.RateLimit.BreakerCount
open Go Lib

inductive Stage where
  | load (key : GoString)
  | check (key : GoString)
  | create (key : GoString)
  | loadOrStore (key : GoString) (cb : TenantCircuitBreaker)
  | add

inductive Access where
  | isOpen
  | recordFailure
  | recordSuccess

def Access.apply (now : ℤ) (cb : TenantCircuitBreaker) : Access → TenantCircuitBreaker
  | .isOpen => (cb.isOpen now).2
  | .recordFailure => cb.recordFailure now
  | .recordSuccess => cb.recordSuccess now

inductive Thread where
  | call (stage : Stage)
  | access (key : GoString) (a : Access)
  | evictor

/-- A pass: when it began, the keys that were there by then and have not been visited, and those that have. -/
structure Pass where
  now : ℤ
  due : List GoString
  visited : List GoString

inductive Evictor where
  | waiting
  | range (p : Pass)
  | delete (p : Pass) (key : GoString)
  | load (p : Pass)
  | compareAndSwap (p : Pass) (old : ℕ) (pos : 0 < old)

structure Shared where
  client : TenantBreakers
  evictor : Evictor := .waiting

structure Turn where
  now : ℤ := 0
  visit : Option GoString := none

inductive Event where
  | skipped
  deriving DecidableEq

def Stage.step (s : Shared) (f : Turn) : Stage → Shared × List Thread
  | .load key =>
    match s.client.breakers.lookup key with
    | some _ => (s, [])
    | none => (s, [.call (.check key)])
  | .check key => if s.client.maxBreakers ≤ s.client.breakerCount then (s, []) else (s, [.call (.create key)])
  | .create key => (s, [.call (.loadOrStore key (newTenantCB s.client.cbThreshold s.client.cbResetTimeout f.now))])
  | .loadOrStore key cb =>
    match s.client.breakers.lookup key with
    | some _ => (s, [])
    | none => ({ s with client := { s.client with breakers := s.client.breakers.insert key cb } }, [.call .add])
  | .add => ({ s with client := { s.client with breakerCount := s.client.breakerCount + 1 } }, [])

/-- A pass visits every key once that is there from its beginning, and perhaps keys that come later. -/
def Evictor.step (s : Shared) (f : Turn) : Evictor → List Event × Shared
  | .waiting => ([], { s with evictor := .range ⟨f.now, s.client.breakers.keys, []⟩ })
  | .range p =>
    match f.visit with
    | none => if p.due = [] then ([], { s with evictor := .waiting }) else ([], s)
    | some key =>
      if key ∈ p.visited then ([], s)
      else
        match s.client.breakers.lookup key with
        | none => ([], s)
        | some cb =>
          let p := { p with due := p.due.erase key, visited := key :: p.visited }
          if cb.isStale p.now s.client.maxIdle then ([], { s with evictor := .delete p key })
          else ([], { s with evictor := .range p })
  | .delete p key =>
    ([], ⟨{ s.client with breakers := s.client.breakers.erase key }, .load p⟩)
  | .load p =>
    if h : s.client.breakerCount ≤ 0 then ([.skipped], { s with evictor := .range p })
    else ([], { s with evictor := .compareAndSwap p s.client.breakerCount (Nat.pos_of_ne_zero fun h0 => h h0.le) })
  | .compareAndSwap p old _ =>
    if s.client.breakerCount = old then ([], ⟨{ s.client with breakerCount := old - 1 }, .range p⟩)
    else ([], { s with evictor := .load p })

def step (s : Shared) : Thread → Turn → List Event × Shared × List Thread
  | .call stage, f => ([], stage.step s f)
  | .access key a, f =>
    match s.client.breakers.lookup key with
    | none => ([], s, [])
    | some cb =>
      ([], { s with client := { s.client with breakers := s.client.breakers.insert key (a.apply f.now cb) } }, [])
  | .evictor, f => let (out, s) := s.evictor.step s f; (out, s, [.evictor])

inductive Arrival where
  | getOrCreateCB (key : GoString)
  | access (key : GoString) (a : Access)

def system : System Shared Thread Arrival Turn Event where
  arrive
    | .getOrCreateCB key => .call (.load key)
    | .access key a => .access key a
  step := step

def start (cfg : CircuitBreakerConfig) : System.Conf Shared Thread := ⟨{ client := newTenantBreakers cfg }, [.evictor]⟩

def Shared.size (s : Shared) : ℕ := s.client.breakers.keys.length

def Evictor.owes : Evictor → ℕ
  | .load _ | .compareAndSwap _ _ _ => 1
  | .waiting | .range _ | .delete _ _ => 0

def Thread.calls : Thread → Bool
  | .call _ => true
  | _ => false

def Thread.creates : Thread → Bool
  | .call (.create _) | .call (.loadOrStore _ _) => true
  | _ => false

def Thread.adds : Thread → Bool
  | .call .add => true
  | _ => false

def Shared.Present (s : Shared) : Prop :=
  match s.evictor with
  | .delete _ key => key ∈ s.client.breakers
  | .waiting | .range _ | .load _ | .compareAndSwap _ _ _ => True

section Keys
variable {α : Type} [DecidableEq α] {β : α → Type} {m : AList β} {key : α}

theorem length_keys_insert (h : m.lookup key = none) (b : β key) : (m.insert key b).keys.length = m.keys.length + 1 := by
  have hkey : key ∉ m.keys := AList.lookup_eq_none.mp h
  rw [AList.keys_insert, List.erase_of_not_mem hkey, List.length_cons]

theorem length_keys_modify {b : β key} (h : m.lookup key = some b) (b' : β key) :
    (m.insert key b').keys.length = m.keys.length := by
  have hkey : key ∈ m.keys := AList.lookup_isSome.mp (Option.isSome_of_eq_some h)
  have hpos := List.length_pos_of_mem hkey
  rw [AList.keys_insert, List.length_cons, List.length_erase_of_mem hkey]
  omega

theorem length_keys_erase (h : key ∈ m) : (m.erase key).keys.length + 1 = m.keys.length := by
  have hkey : key ∈ m.keys := h
  have hpos := List.length_pos_of_mem hkey
  rw [AList.keys_erase, List.length_erase_of_mem hkey]
  omega

end Keys

inductive Effect (s : Shared) : Thread → List Event → Shared → List Thread → Prop where
  | ends {t : Thread} (h : t.adds = false) : Effect s t [] s []
  | moves {t u : Thread} (hadds : u.adds = t.adds) (hcreates : u.creates = t.creates) : Effect s t [] s [u]
  | admitted (key : GoString) (h : s.client.breakerCount < s.client.maxBreakers) :
    Effect s (.call (.check key)) [] s [.call (.create key)]
  | stored {key : GoString} (h : s.client.breakers.lookup key = none) (cb : TenantCircuitBreaker) :
    Effect s (.call (.loadOrStore key cb)) []
      { s with client := { s.client with breakers := s.client.breakers.insert key cb } } [.call .add]
  | added : Effect s (.call .add) [] { s with client := { s.client with breakerCount := s.client.breakerCount + 1 } } []
  | accessed {key : GoString} {cb : TenantCircuitBreaker} (h : s.client.breakers.lookup key = some cb) (a : Access)
      (cb' : TenantCircuitBreaker) :
    Effect s (.access key a) [] { s with client := { s.client with breakers := s.client.breakers.insert key cb' } } []
  | scanned {e : Evictor} (howes : e.owes = s.evictor.owes) (h : ({ s with evictor := e } : Shared).Present) :
    Effect s .evictor [] { s with evictor := e } [.evictor]
  | deleted {p : Pass} {key : GoString} (h : s.evictor = .delete p key) :
    Effect s .evictor [] ⟨{ s.client with breakers := s.client.breakers.erase key }, .load p⟩ [.evictor]
  | skipped {p : Pass} (h : s.evictor = .load p) (hzero : s.client.breakerCount = 0) :
    Effect s .evictor [.skipped] { s with evictor := .range p } [.evictor]
  | taken {p : Pass} {old : ℕ} {pos : 0 < old} (h : s.evictor = .compareAndSwap p old pos)
      (hold : s.client.breakerCount = old) :
    Effect s .evictor [] ⟨{ s.client with breakerCount := old - 1 }, .range p⟩ [.evictor]

section Turn
variable {s s' : Shared} {t : Thread} {f : Turn} {out : List Event} {ts : List Thread}

theorem effect_call (s : Shared) (stage : Stage) (f : Turn) :
    Effect s (.call stage) [] (stage.step s f).1 (stage.step s f).2 := by
  cases stage with
  | load key =>
    simp only [Stage.step]
    split
    · exact .ends rfl
    · exact .moves rfl rfl
  | check key =>
    simp only [Stage.step]
    split_ifs with hfull
    · exact .ends rfl
    · exact .admitted key (Nat.lt_of_not_le hfull)
  | create key => exact .moves rfl rfl
  | loadOrStore key cb =>
    simp only [Stage.step]
    split
    · exact .ends rfl
    · rename_i hkey
      exact .stored hkey cb
  | add => exact .added

theorem effect_evictor (s : Shared) (f : Turn) :
    Effect s .evictor (s.evictor.step s f).1 (s.evictor.step s f).2 [.evictor] := by
  have hstays : Effect s .evictor [] s [.evictor] := .moves rfl rfl
  cases hevictor : s.evictor with
  | waiting =>
    have howes : s.evictor.owes = 0 := by rw [hevictor]; rfl
    exact .scanned howes.symm trivial
  | range p =>
    have howes : s.evictor.owes = 0 := by rw [hevictor]; rfl
    simp only [Evictor.step]
    split
    · split_ifs
      · exact .scanned howes.symm trivial
      · exact hstays
    · split_ifs
      · exact hstays
      · split
        · exact hstays
        · rename_i cb hlookup
          split_ifs
          · exact .scanned howes.symm (AList.lookup_isSome.mp (Option.isSome_of_eq_some hlookup))
          · exact .scanned howes.symm trivial
  | delete p key => exact .deleted hevictor
  | load p =>
    have howes : s.evictor.owes = 1 := by rw [hevictor]; rfl
    simp only [Evictor.step]
    split_ifs with hzero
    · exact .skipped hevictor (Nat.le_zero.mp hzero)
    · exact .scanned howes.symm trivial
  | compareAndSwap p old pos =>
    have howes : s.evictor.owes = 1 := by rw [hevictor]; rfl
    simp only [Evictor.step]
    split_ifs with hold
    · exact .taken hevictor hold
    · exact .scanned howes.symm trivial

theorem effect_step (s : Shared) (t : Thread) (f : Turn) :
    Effect s t (step s t f).1 (step s t f).2.1 (step s t f).2.2 := by
  cases t with
  | call stage => exact effect_call s stage f
  | access key a =>
    simp only [step]
    split
    · exact .ends rfl
    · rename_i cb hkey
      exact .accessed hkey a _
  | evictor => exact effect_evictor s f

theorem Effect.balance (h : Effect s t out s' ts) (hpresent : s.Present) :
    s'.client.breakerCount + ts.countP Thread.adds + s.size + s.evictor.owes =
      s.client.breakerCount + (if t.adds then 1 else 0) + s'.size + s'.evictor.owes + out.length := by
  cases h with
  | ends hadds => simp [hadds]
  | moves hadds _ => simp only [List.countP_singleton, hadds, List.length_nil, Nat.add_zero]
  | admitted key _ => rfl
  | stored hkey cb =>
    have hsize := length_keys_insert hkey cb
    simp only [Shared.size, hsize, Thread.adds, List.countP_singleton, if_true, Bool.false_eq_true, if_false,
      List.length_nil]
    omega
  | added => rfl
  | accessed hkey a cb' =>
    have hsize := length_keys_modify hkey cb'
    simp only [Shared.size, hsize, Thread.adds, List.countP_nil, List.length_nil, Bool.false_eq_true, if_false,
      Nat.add_zero]
  | scanned howes _ =>
    simp only [Shared.size, howes, Thread.adds, List.countP_singleton, List.length_nil, Nat.add_zero]
  | @deleted p key hevictor =>
    have hkey : key ∈ s.client.breakers := by
      rw [Shared.Present, hevictor] at hpresent
      exact hpresent
    have hsize := length_keys_erase hkey
    simp only [Shared.size, hevictor, Evictor.owes, Thread.adds, List.countP_singleton, List.length_nil,
      Bool.false_eq_true, if_false]
    omega
  | skipped hevictor hzero =>
    simp only [Shared.size, hevictor, hzero, Evictor.owes, Thread.adds, List.countP_singleton, List.length_singleton,
      Bool.false_eq_true, if_false]
  | @taken p old pos hevictor hold =>
    simp only [Shared.size, hevictor, hold, Evictor.owes, Thread.adds, List.countP_singleton, List.length_nil,
      Bool.false_eq_true, if_false]
    omega

theorem Effect.present (h : Effect s t out s' ts) (hpresent : s.Present) : s'.Present := by
  have hinsert : ∀ (key : GoString) (cb : TenantCircuitBreaker),
      ({ s with client := { s.client with breakers := s.client.breakers.insert key cb } } : Shared).Present := by
    intro key cb
    unfold Shared.Present at hpresent ⊢
    cases hevictor : s.evictor with
    | delete p key' =>
      rw [hevictor] at hpresent
      exact (AList.mem_insert _).mpr (Or.inr hpresent)
    | waiting => trivial
    | range p => trivial
    | load p => trivial
    | compareAndSwap p old pos => trivial
  cases h with
  | ends _ => exact hpresent
  | moves _ _ => exact hpresent
  | admitted _ _ => exact hpresent
  | stored _ cb => exact hinsert _ cb
  | added => exact hpresent
  | accessed _ _ cb' => exact hinsert _ cb'
  | scanned _ hp => exact hp
  | deleted _ => trivial
  | skipped _ _ => trivial
  | taken _ _ => trivial

theorem Effect.maxBreakers (h : Effect s t out s' ts) : s'.client.maxBreakers = s.client.maxBreakers := by
  cases h <;> rfl

theorem Effect.growth (h : Effect s t out s' ts) (hpresent : s.Present) :
    s'.size + ts.countP Thread.creates ≤ s.size + (if t.creates then 1 else 0) ∨
      (t.calls = true ∧ t.creates = false ∧ t.adds = false ∧ s.client.breakerCount < s.client.maxBreakers ∧
        s'.size = s.size ∧ ts.countP Thread.creates = 1) := by
  cases h with
  | ends _ => exact Or.inl (Nat.le_add_right _ _)
  | moves _ hcreates => exact Or.inl (by rw [List.countP_singleton, hcreates])
  | admitted key hroom => exact Or.inr ⟨rfl, rfl, rfl, hroom, rfl, rfl⟩
  | stored hkey cb => exact Or.inl (length_keys_insert hkey cb).le
  | added => exact Or.inl le_rfl
  | accessed hkey a cb' => exact Or.inl (length_keys_modify hkey cb').le
  | scanned _ _ => exact Or.inl le_rfl
  | @deleted p key hevictor =>
    have hkey : key ∈ s.client.breakers := by
      rw [Shared.Present, hevictor] at hpresent
      exact hpresent
    exact Or.inl ((Nat.le_succ _).trans (length_keys_erase hkey).le)
  | skipped _ _ => exact Or.inl le_rfl
  | taken _ _ => exact Or.inl le_rfl

end Turn

structure Counted (k : ℕ) (s : Shared) (ts : List Thread) : Prop where
  present : s.Present
  balance : s.client.breakerCount + ts.countP Thread.adds = s.size + s.evictor.owes + k

structure Bounded (M P : ℕ) (s : Shared) (ts : List Thread) : Prop where
  maxBreakers : s.client.maxBreakers = M
  size : s.size + ts.countP Thread.creates ≤ M + P - 1

section Run
variable {k M P : ℕ}

theorem countP_calls (ts : List Thread) :
    ts.countP Thread.creates + ts.countP Thread.adds ≤ ts.countP Thread.calls := by
  induction ts with
  | nil => exact le_rfl
  | cons t ts ih =>
    have hone : (if t.creates then 1 else 0) + (if t.adds then 1 else 0) ≤ if t.calls then 1 else 0 := by
      rcases t with (_ | _ | _ | _ | _) | _ | _ <;> simp [Thread.creates, Thread.adds, Thread.calls]
    simp only [List.countP_cons]
    omega

section Turn
variable {s s' : Shared} {t : Thread} {out : List Event} {l₁ l₂ ts : List Thread}

theorem Counted.turn (h : Counted k s (l₁ ++ t :: l₂)) (heffect : Effect s t out s' ts) :
    Counted (k + out.length) s' (l₁ ++ ts ++ l₂) := by
  have hturn := heffect.balance h.present
  have hbalance := h.balance
  have hadds := System.countP_replace Thread.adds t l₁ ts l₂
  exact ⟨heffect.present h.present, by omega⟩

theorem Bounded.turn (h : Bounded M P s (l₁ ++ t :: l₂)) (hcounted : Counted k s (l₁ ++ t :: l₂))
    (hcalls : (l₁ ++ t :: l₂).countP Thread.calls ≤ P) (heffect : Effect s t out s' ts) :
    Bounded M P s' (l₁ ++ ts ++ l₂) := by
  have hbound := h.size
  have hcreates := System.countP_replace Thread.creates t l₁ ts l₂
  refine ⟨heffect.maxBreakers.trans h.maxBreakers, ?_⟩
  rcases heffect.growth hcounted.present with hgrowth | ⟨hcall, hcreate, hadd, hroom, hsize, hone⟩
  · omega
  · -- the counter was below the maximum, and this call was not among those that may add to the map
    have hbalance := hcounted.balance
    have hfirst := countP_calls l₁
    have hrest := countP_calls l₂
    rw [h.maxBreakers] at hroom
    simp only [List.countP_append, List.countP_cons, hcall, hcreate, hadd, if_true, Bool.false_eq_true, if_false] at *
    omega

end Turn

theorem arrive_quiet (a : Arrival) : (system.arrive a).adds = false ∧ (system.arrive a).creates = false := by
  cases a <;> exact ⟨rfl, rfl⟩

theorem Counted.arrive {s : Shared} {ts : List Thread} (h : Counted k s ts) (a : Arrival) :
    Counted k s (ts ++ [system.arrive a]) := by
  refine ⟨h.present, ?_⟩
  simp only [List.countP_append, List.countP_singleton, (arrive_quiet a).1, Bool.false_eq_true, if_false, Nat.add_zero]
  exact h.balance

theorem records_counted : system.Records fun out => Counted out.length where
  arrive h := h.arrive _
  step := by
    intro out s l₁ t l₂ f h
    rw [List.length_append]
    exact h.turn (effect_step s t f)

theorem keeps_bounded :
    system.Keeps (fun _ => True) (fun _ ts _ _ => ts.countP Thread.calls ≤ P)
      (fun s ts => Bounded M P s ts ∧ ∃ k, Counted k s ts) where
  arrive := by
    rintro s ts a ⟨hbounded, k, hcounted⟩ -
    refine ⟨⟨hbounded.maxBreakers, ?_⟩, k, hcounted.arrive a⟩
    simp only [List.countP_append, List.countP_singleton, (arrive_quiet a).2, Bool.false_eq_true, if_false, Nat.add_zero]
    exact hbounded.size
  step := by
    rintro s l₁ t l₂ f ⟨hbounded, k, hcounted⟩ hcalls
    have heffect := effect_step s t f
    exact ⟨hbounded.turn hcounted hcalls heffect, _, hcounted.turn heffect⟩

theorem bounded_run {c : System.Conf Shared Thread} (h : Bounded M P c.shared c.threads)
    (hcounted : Counted k c.shared c.threads) {ms : List (System.Move Arrival Turn)}
    (hcalls : ∀ done, done <+: ms → (system.machine.run c done).threads.countP Thread.calls ≤ P) :
    Bounded M P (system.machine.run c ms).shared (system.machine.run c ms).threads := by
  have halong : system.machine.Along
      (System.Obeys (fun _ => True) fun _ ts _ _ => ts.countP Thread.calls ≤ P) c ms := by
    apply (Machine.along_of_forall_run (P := fun c => c.threads.countP Thread.calls ≤ P) hcalls).mono
    intro c m hfew
    cases m with
    | arrive a => trivial
    | run i f => exact fun _ _ => hfew
  exact (keeps_bounded.run ⟨h, k, hcounted⟩ halong).1

end Run

def Quiet (c : System.Conf Shared Thread) : Prop :=
  c.threads.countP Thread.calls = 0 ∧ c.shared.evictor = .waiting

/-- **The breakers and their counter.** However the steps of at most `P` calls at a time and of the evicting goroutine
interleave, the map never holds more than `P - 1` breakers above the maximum. Whenever nothing is in progress, the
counter is the size of the map exactly if no decrement has been skipped because the counter was at zero. -/
theorem breakers_bounded_counted (cfg : CircuitBreakerConfig) {P : ℕ} {ms : List (System.Move Arrival Turn)}
    (hcalls : ∀ done, done <+: ms → (system.machine.run (start cfg) done).threads.countP Thread.calls ≤ P) :
    (system.machine.run (start cfg) ms).shared.size ≤ (newTenantBreakers cfg).maxBreakers + P - 1 ∧
      (Quiet (system.machine.run (start cfg) ms) →
        ((system.machine.run (start cfg) ms).shared.client.breakerCount =
            (system.machine.run (start cfg) ms).shared.size ↔
          (system.machine.outputs (start cfg) ms).flatten = [])) := by
  have hstart : Counted ([] : List Event).length (start cfg).shared (start cfg).threads := ⟨trivial, rfl⟩
  have hbounded : Bounded (newTenantBreakers cfg).maxBreakers P (start cfg).shared (start cfg).threads :=
    ⟨rfl, Nat.zero_le _⟩
  refine ⟨?_, ?_⟩
  · exact (Nat.le_add_right _ _).trans (bounded_run hbounded hstart hcalls).size
  · rintro ⟨hnone, hwaiting⟩
    have hbalance := (records_counted.run hstart ms).balance
    rw [List.nil_append] at hbalance
    have hadds := countP_calls (system.machine.run (start cfg) ms).threads
    rw [hwaiting] at hbalance
    rw [← List.length_eq_zero_iff]
    simp only [Evictor.owes] at hbalance
    omega

def crowding : List (System.Move Arrival Turn) :=
  [.arrive (.getOrCreateCB (str "a")), .arrive (.getOrCreateCB (str "b"))] ++
    (List.replicate 4 [.run 1 {}, .run 2 {}]).flatten ++ [.run 1 {}, .run 1 {}]

theorem breakers_counted_crowding :
    Quiet (system.machine.run (start { maxCircuitBreakers := 1 }) crowding) ∧
      (system.machine.run (start { maxCircuitBreakers := 1 }) crowding).shared.size = 2 ∧
      (system.machine.run (start { maxCircuitBreakers := 1 }) crowding).shared.client.breakerCount =
        (system.machine.run (start { maxCircuitBreakers := 1 }) crowding).shared.size := by
  have hinits : ∀ done ∈ crowding.inits,
      (system.machine.run (start { maxCircuitBreakers := 1 }) done).threads.countP Thread.calls ≤ 2 := by decide +kernel
  have hquiet : Quiet (system.machine.run (start { maxCircuitBreakers := 1 }) crowding) := ⟨by decide +kernel, rfl⟩
  have hcounted := (breakers_bounded_counted _ fun done hdone => hinits done ((List.mem_inits _ _).mpr hdone)).2 hquiet
  exact ⟨hquiet, by decide +kernel, hcounted.mpr (by decide +kernel)⟩

/-- A call has stored its breaker and is held up before it adds to the counter; a minute later the breaker is stale and
removed, and there is nothing to take from the counter. The call then adds one for a breaker that is gone. -/
def heldUp : List (System.Move Arrival Turn) :=
  [.arrive (.getOrCreateCB (str "a")), .run 1 {}, .run 1 {}, .run 1 {}, .run 1 {}, .run 0 { now := 60000000001 },
    .run 0 { visit := some (str "a") }, .run 0 {}, .run 0 {}, .run 0 {}, .run 1 {}]

theorem breaker_count_drifts :
    Quiet (system.machine.run (start {}) heldUp) ∧
      (system.machine.run (start {}) heldUp).shared.client.breakerCount = 1 ∧
      (system.machine.run (start {}) heldUp).shared.size = 0 := by
  exact ⟨⟨by decide +kernel, rfl⟩, by decide +kernel, by decide +kernel⟩

end EdgeQuota.RateLimit.BreakerCount
