import EdgeQuota.Lib.Threads
import EdgeQuota.RateLimit.Breakers

/-! `GetLimits` called by many for one lookup key. Those that miss the cache at the same time share one call of the
service, which the first of them makes under its own context. -/

namespace EdgeQuota.RateLimit
open Go Lib

inductive Refusal where
  | circuitOpen
  | semaphoreFull

inductive FetchError where
  | service (text : GoString)
  | canceled

def FetchError.isGenuine : FetchError → Bool
  | .service _ => true
  | .canceled => false

inductive LimitsError where
  | refused (reason : Refusal)
  | fetch (e : FetchError)

inductive CallerStage (L : Type) where
  | entering
  | missed
  | closed
  | falling (reason : Refusal)
  | acquired
  | waiting (call : ℕ)
  | leading (call : ℕ)
  | fetching (call : ℕ)
  | fetched (call : ℕ) (result : Except FetchError L)
  | failed (call : ℕ) (e : FetchError)
  | publishing (call : ℕ) (result : Except FetchError L)

structure Caller (L : Type) where
  canceled : Bool := false
  stage : CallerStage L := .entering

/-- A group of `golang.org/x/sync/singleflight`, as `Do` uses it for one key: the call in flight, which a caller joins,
the start of another if there is none, the end of a call, and the results of those that are over. A call that can be
joined is not over; a start changes no result; and the end of a call gives a result to that call alone. -/
structure SingleFlight (L : Type) where
  Group : Type
  empty : Group
  inFlight : Group → Option ℕ
  start : Group → ℕ × Group
  finish : Group → ℕ → Except FetchError L → Group
  result : Group → ℕ → Option (Except FetchError L)
  result_inFlight : ∀ {g call}, inFlight g = some call → result g call = none
  result_start : ∀ g, result (start g).2 = result g
  result_finish : ∀ g call r, result (finish g call r) = Function.update (result g) call (some r)

/-- The breakers, the group, and what the breakers would be had no cancellation been recorded as a failure. -/
structure Flights {L : Type} (sf : SingleFlight L) where
  breakers : TenantBreakers
  fair : TenantBreakers
  group : sf.Group := sf.empty

/-- What a turn meets: the time, what the two caches hold, a place in the semaphore that callers of all keys share,
and the reply of the service. -/
structure Surroundings (L : Type) where
  now : ℤ := 0
  cached : Option L := none
  stale : Option L := none
  room : Bool := true
  reply : Except GoString L := .error []
  /-- A call whose context has ended notices that before its reply. -/
  noticed : Bool := true

inductive CallerTurn (L : Type) where
  | cancel
  | go (w : Surroundings L)

structure Returned (L : Type) where
  canceled : Bool
  result : Except LimitsError L

namespace Flights
variable {L : Type} {sf : SingleFlight L}

def fetchFromService (canceled : Bool) (w : Surroundings L) : Except FetchError L :=
  if canceled && w.noticed then .error .canceled else w.reply.mapError .service

def step (sf : SingleFlight L) (key : GoString) (s : Flights sf) (t : Caller L) :
    CallerTurn L → List (Returned L) × Flights sf × List (Caller L)
  | .cancel => ([], s, [{ t with canceled := true }])
  | .go w =>
    match t.stage with
    | .entering =>
      match w.cached with
      | some limits => ([⟨t.canceled, .ok limits⟩], s, [])
      | none => ([], s, [{ t with stage := .missed }])
    | .missed =>
      let (isOpen, breakers) := s.breakers.isCircuitOpen key w.now
      ([], { s with breakers, fair := (s.fair.isCircuitOpen key w.now).2 },
        [{ t with stage := if isOpen then .falling .circuitOpen else .closed }])
    | .closed => ([], s, [{ t with stage := if w.room then .acquired else .falling .semaphoreFull }])
    | .falling reason =>
      match w.stale with
      | some limits => ([⟨t.canceled, .ok limits⟩], s, [])
      | none => ([⟨t.canceled, .error (.refused reason)⟩], s, [])
    | .acquired =>
      match sf.inFlight s.group with
      | some call => ([], s, [{ t with stage := .waiting call }])
      | none =>
        let (call, group) := sf.start s.group
        ([], { s with group }, [{ t with stage := .leading call }])
    | .waiting call =>
      -- whatever becomes of its own context, a caller waits for the call to end
      match sf.result s.group call with
      | some result => ([⟨t.canceled, result.mapError .fetch⟩], s, [])
      | none => ([], s, [t])
    | .leading call =>
      match w.cached with
      | some limits => ([], s, [{ t with stage := .publishing call (.ok limits) }])
      | none => ([], s, [{ t with stage := .fetching call }])
    | .fetching call => ([], s, [{ t with stage := .fetched call (fetchFromService t.canceled w) }])
    | .fetched call (.error e) =>
      ([], { s with breakers := s.breakers.recordFailure key w.now
                    fair := if e.isGenuine then s.fair.recordFailure key w.now else s.fair },
        [{ t with stage := .failed call e }])
    | .fetched call (.ok limits) =>
      ([], { s with breakers := s.breakers.recordSuccess key w.now, fair := s.fair.recordSuccess key w.now },
        [{ t with stage := .publishing call (.ok limits) }])
    | .failed call e =>
      match w.stale with
      | some limits => ([], s, [{ t with stage := .publishing call (.ok limits) }])
      | none => ([], s, [{ t with stage := .publishing call (.error e) }])
    | .publishing call result =>
      ([⟨t.canceled, result.mapError .fetch⟩], { s with group := sf.finish s.group call result }, [])

def system (sf : SingleFlight L) (key : GoString) :
    System (Flights sf) (Caller L) Unit (CallerTurn L) (Returned L) where
  arrive _ := {}
  step := step sf key

def starting (sf : SingleFlight L) (cfg : CircuitBreakerConfig) : System.Conf (Flights sf) (Caller L) :=
  ⟨{ breakers := newTenantBreakers cfg, fair := newTenantBreakers cfg }, []⟩

def Harmed (s : Flights sf) (t : Caller L) : Prop :=
  t.canceled = false ∧ ∃ call, t.stage = .waiting call ∧ sf.result s.group call = some (.error .canceled)

/-- The circuit is reported open only when it would be open without the cancellations. -/
def Earned (key : GoString) (s : Flights sf) : Prop :=
  ∀ now, (s.breakers.isCircuitOpen key now).1 = true → (s.fair.isCircuitOpen key now).1 = true

def Ends (t : Caller L) (a : CallerTurn L) (call : ℕ) (result : Except FetchError L) : Prop :=
  (∃ w, a = .go w) ∧ t.stage = .publishing call result

def Solitary (ts : List (Caller L)) (t : Caller L) (a : CallerTurn L) : Prop :=
  ∀ call, Ends t a call (.error .canceled) → ∀ u ∈ ts, u.stage = .waiting call → u.canceled = true

/-- A failure that reaches the threshold is one of the service, and those of the service reach it without the
cancellations, or have opened the circuit for as long before. -/
def Uncounted (key : GoString) (s : Flights sf) (t : Caller L) (a : CallerTurn L) : Prop :=
  ∀ w call e, a = .go w → t.stage = .fetched call (.error e) →
    (s.breakers.breaker key).threshold ≤ (s.breakers.breaker key).failures + 1 →
      (e.isGenuine = true ∧ (s.fair.breaker key).threshold ≤ (s.fair.breaker key).failures + 1) ∨
        ((s.fair.breaker key).open_ = true ∧
          w.now + (s.breakers.breaker key).resetTimeout ≤ (s.fair.breaker key).openUntil)

def Considerate (key : GoString) (s : Flights sf) (ts : List (Caller L)) (t : Caller L) (a : CallerTurn L) : Prop :=
  Solitary ts t a ∧ Uncounted key s t a

def brings : CallerStage L → Option FetchError
  | .fetched _ (.error e) | .failed _ e | .publishing _ (.error e) => some e
  | .entering | .missed | .closed | .falling _ | .acquired | .waiting _ | .leading _ | .fetching _
  | .fetched _ (.ok _) | .publishing _ (.ok _) => none

structure Matched (cb fair : TenantCircuitBreaker) : Prop where
  failures : fair.failures ≤ cb.failures
  threshold : fair.threshold = cb.threshold
  resetTimeout : fair.resetTimeout = cb.resetTimeout

structure Attributed (key : GoString) (s : Flights sf) (ts : List (Caller L)) : Prop where
  matched : Matched (s.breakers.breaker key) (s.fair.breaker key)
  own : ∀ t ∈ ts, brings t.stage = some .canceled → t.canceled = true

inductive Turn (sf : SingleFlight L) (key : GoString) (s : Flights sf) :
    Caller L → CallerTurn L → List (Returned L) × Flights sf × List (Caller L) → Prop
  | cancel (t : Caller L) : Turn sf key s t .cancel ([], s, [{ t with canceled := true }])
  | hit {c w} (limits : L) : Turn sf key s ⟨c, .entering⟩ (.go w) ([⟨c, .ok limits⟩], s, [])
  | miss {c w} : Turn sf key s ⟨c, .entering⟩ (.go w) ([], s, [⟨c, .missed⟩])
  | look {c} {w : Surroundings L} (stage : CallerStage L) (h : stage = .falling .circuitOpen ∨ stage = .closed) :
    Turn sf key s ⟨c, .missed⟩ (.go w)
      ([], { s with breakers := (s.breakers.isCircuitOpen key w.now).2
                    fair := (s.fair.isCircuitOpen key w.now).2 }, [⟨c, stage⟩])
  | acquire {c w} : Turn sf key s ⟨c, .closed⟩ (.go w) ([], s, [⟨c, .acquired⟩])
  | crowd {c w} : Turn sf key s ⟨c, .closed⟩ (.go w) ([], s, [⟨c, .falling .semaphoreFull⟩])
  | rescue {c w reason} (limits : L) : Turn sf key s ⟨c, .falling reason⟩ (.go w) ([⟨c, .ok limits⟩], s, [])
  | refuse {c w reason} : Turn sf key s ⟨c, .falling reason⟩ (.go w) ([⟨c, .error (.refused reason)⟩], s, [])
  | join {c w call} (h : sf.inFlight s.group = some call) :
    Turn sf key s ⟨c, .acquired⟩ (.go w) ([], s, [⟨c, .waiting call⟩])
  | lead {c w} : Turn sf key s ⟨c, .acquired⟩ (.go w)
      ([], { s with group := (sf.start s.group).2 }, [⟨c, .leading (sf.start s.group).1⟩])
  | receive {c w call result} (h : sf.result s.group call = some result) :
    Turn sf key s ⟨c, .waiting call⟩ (.go w) ([⟨c, result.mapError .fetch⟩], s, [])
  | wait {c w call} (h : sf.result s.group call = none) :
    Turn sf key s ⟨c, .waiting call⟩ (.go w) ([], s, [⟨c, .waiting call⟩])
  | recheck {c w call} (limits : L) :
    Turn sf key s ⟨c, .leading call⟩ (.go w) ([], s, [⟨c, .publishing call (.ok limits)⟩])
  | ask {c w call} : Turn sf key s ⟨c, .leading call⟩ (.go w) ([], s, [⟨c, .fetching call⟩])
  | fetch {c w call} :
    Turn sf key s ⟨c, .fetching call⟩ (.go w) ([], s, [⟨c, .fetched call (fetchFromService c w)⟩])
  | fail {c} {w : Surroundings L} {call} (e : FetchError) : Turn sf key s ⟨c, .fetched call (.error e)⟩ (.go w)
      ([], { s with breakers := s.breakers.recordFailure key w.now
                    fair := if e.isGenuine then s.fair.recordFailure key w.now else s.fair }, [⟨c, .failed call e⟩])
  | succeed {c} {w : Surroundings L} {call} (limits : L) : Turn sf key s ⟨c, .fetched call (.ok limits)⟩ (.go w)
      ([], { s with breakers := s.breakers.recordSuccess key w.now, fair := s.fair.recordSuccess key w.now },
        [⟨c, .publishing call (.ok limits)⟩])
  | fallBack {c w call e} (limits : L) :
    Turn sf key s ⟨c, .failed call e⟩ (.go w) ([], s, [⟨c, .publishing call (.ok limits)⟩])
  | giveUp {c w call e} : Turn sf key s ⟨c, .failed call e⟩ (.go w) ([], s, [⟨c, .publishing call (.error e)⟩])
  | publish {c w} (call : ℕ) (result : Except FetchError L) : Turn sf key s ⟨c, .publishing call result⟩ (.go w)
      ([⟨c, result.mapError .fetch⟩], { s with group := sf.finish s.group call result }, [])

theorem turn_step (key : GoString) (s : Flights sf) (t : Caller L) (a : CallerTurn L) :
    Turn sf key s t a (step sf key s t a) := by
  rcases t with ⟨c, stage⟩
  cases a with
  | cancel => exact .cancel _
  | go w =>
    cases stage with
    | entering =>
      simp only [step]
      split
      · exact .hit _
      · exact .miss
    | missed =>
      refine .look _ ?_
      by_cases hopen : (s.breakers.isCircuitOpen key w.now).1 = true
      · exact .inl (if_pos hopen)
      · exact .inr (if_neg hopen)
    | closed =>
      simp only [step]
      split
      · exact .acquire
      · exact .crowd
    | falling reason =>
      simp only [step]
      split
      · exact .rescue _
      · exact .refuse
    | acquired =>
      simp only [step]
      split
      · rename_i hflight
        exact .join hflight
      · exact .lead
    | waiting call =>
      simp only [step]
      split
      · rename_i hcall
        exact .receive hcall
      · rename_i hcall
        exact .wait hcall
    | leading call =>
      simp only [step]
      split
      · exact .recheck _
      · exact .ask
    | fetching call => exact .fetch
    | fetched call result =>
      cases result with
      | ok limits => exact .succeed limits
      | error e => exact .fail e
    | failed call e =>
      simp only [step]
      split
      · exact .fallBack _
      · exact .giveUp
    | publishing call result => exact .publish call result

section Step
variable {key : GoString} {s : Flights sf} {t : Caller L} {a : CallerTurn L} {l₁ l₂ : List (Caller L)}
  {r : List (Returned L) × Flights sf × List (Caller L)}

theorem canceled_of_fetchFromService {canceled : Bool} {w : Surroundings L}
    (h : fetchFromService canceled w = .error .canceled) : canceled = true := by
  unfold fetchFromService at h
  cases canceled with
  | true => rfl
  | false => cases hreply : w.reply <;> simp [hreply, Except.mapError] at h

theorem brings_fetched {call : ℕ} {result : Except FetchError L} {e : FetchError}
    (h : brings (.fetched call result) = some e) : result = .error e := by
  cases result with
  | ok limits => cases h
  | error e' => rw [Option.some.inj h]

theorem step_ends {call : ℕ} {result : Except FetchError L} (h : Ends t a call result) :
    step sf key s t a =
      ([⟨t.canceled, result.mapError .fetch⟩], { s with group := sf.finish s.group call result }, []) := by
  obtain ⟨⟨w, rfl⟩, hstage⟩ := h
  simp only [step, hstage]

theorem result_turn (h : Turn sf key s t a r) (hends : ∀ call result, ¬Ends t a call result) :
    sf.result r.2.1.group = sf.result s.group := by
  cases h with
  | lead => exact sf.result_start s.group
  | publish call result => exact absurd ⟨⟨_, rfl⟩, rfl⟩ (hends call result)
  | _ => rfl

theorem brings_turn (h : Turn sf key s t a r) (hown : brings t.stage = some .canceled → t.canceled = true) :
    ∀ u ∈ r.2.2, brings u.stage = some .canceled → u.canceled = true := by
  cases h with
  | cancel t => exact List.forall_mem_singleton.mpr fun _ => rfl
  | look stage h => rcases h with rfl | rfl <;> simp [brings]
  | fetch =>
    refine List.forall_mem_singleton.mpr fun hbrings => ?_
    exact canceled_of_fetchFromService (brings_fetched hbrings)
  | fail e => exact List.forall_mem_singleton.mpr hown
  | giveUp => exact List.forall_mem_singleton.mpr hown
  | _ => simp [brings]

theorem Matched.recordFailure {cb fair : TenantCircuitBreaker} (h : Matched cb fair) (genuine : Bool) (now : ℤ) :
    Matched (cb.recordFailure now) (if genuine then fair.recordFailure now else fair) := by
  obtain ⟨hfailures, hthreshold, hreset⟩ := recordFailure_counts cb now
  obtain ⟨hfailures', hthreshold', hreset'⟩ := recordFailure_counts fair now
  split_ifs
  · refine ⟨?_, ?_, ?_⟩
    · rw [hfailures, hfailures']
      exact Nat.succ_le_succ h.failures
    · rw [hthreshold, hthreshold', h.threshold]
    · rw [hreset, hreset', h.resetTimeout]
  · refine ⟨?_, ?_, ?_⟩
    · rw [hfailures]
      exact h.failures.trans (Nat.le_succ _)
    · rw [hthreshold, h.threshold]
    · rw [hreset, h.resetTimeout]

theorem breaker_fair (fair : TenantBreakers) (key : GoString) (genuine : Bool) (now : ℤ) :
    (if genuine then fair.recordFailure key now else fair).breaker key =
      if genuine then (fair.breaker key).recordFailure now else fair.breaker key := by
  split_ifs
  · exact fair.breaker_recordFailure key now
  · rfl

theorem matched_turn (hturn : Turn sf key s t a r) (h : Matched (s.breakers.breaker key) (s.fair.breaker key)) :
    Matched (r.2.1.breakers.breaker key) (r.2.1.fair.breaker key) := by
  cases hturn with
  | look stage hstage =>
    simp only [TenantBreakers.breaker_isCircuitOpen]
    exact ⟨h.failures, h.threshold, h.resetTimeout⟩
  | succeed limits =>
    simp only [TenantBreakers.breaker_recordSuccess]
    exact ⟨le_rfl, h.threshold, h.resetTimeout⟩
  | fail e =>
    simp only [TenantBreakers.breaker_recordFailure, breaker_fair]
    exact h.recordFailure _ _
  | _ => exact h

theorem keeps_attributed (sf : SingleFlight L) (key : GoString) :
    (system sf key).Keeps (fun _ => True) (fun _ _ _ _ => True) (Attributed key) where
  arrive := by
    intro s ts _ h _
    refine ⟨h.matched, List.forall_mem_append.mpr ⟨h.own, List.forall_mem_singleton.mpr ?_⟩⟩
    rintro ⟨⟩
  step := by
    intro s l₁ t l₂ a h _
    have hmem : t ∈ l₁ ++ t :: l₂ := List.mem_append_cons_self ..
    have hturn := turn_step key s t a
    exact ⟨matched_turn hturn h.matched,
      System.forall_replace h.own (fun u hu => hu) (brings_turn hturn (h.own t hmem))⟩

theorem unharmed_turn (hturn : Turn sf key s t a r) (h : ¬Harmed s t) : ∀ u ∈ r.2.2, ¬Harmed s u := by
  cases hturn with
  | cancel t => simp [Harmed]
  | look stage hstage => rcases hstage with rfl | rfl <;> simp [Harmed]
  | join hflight =>
    -- the call that is joined is not over
    refine List.forall_mem_singleton.mpr ?_
    rintro ⟨-, call', ⟨⟩, hcall⟩
    rw [sf.result_inFlight hflight] at hcall
    cases hcall
  | wait hcall => exact List.forall_mem_singleton.mpr h
  | _ => simp [Harmed]

theorem harmed_finish_iff {u : Caller L} {call : ℕ} {result : Except FetchError L} (h : ¬Harmed s u) :
    Harmed { s with group := sf.finish s.group call result } u ↔
      result = .error .canceled ∧ u.canceled = false ∧ u.stage = .waiting call := by
  unfold Harmed at h ⊢
  rw [sf.result_finish]
  constructor
  · rintro ⟨hlive, call', hstage, hcall⟩
    by_cases heq : call' = call
    · subst heq
      rw [Function.update_self, Option.some.injEq] at hcall
      exact ⟨hcall, hlive, hstage⟩
    · rw [Function.update_of_ne heq] at hcall
      exact absurd ⟨hlive, call', hstage, hcall⟩ h
  · rintro ⟨rfl, hlive, hstage⟩
    exact ⟨hlive, call, hstage, Function.update_self ..⟩

theorem spared_step_iff (h : ∀ u ∈ l₁ ++ t :: l₂, ¬Harmed s u) :
    (∀ u ∈ l₁ ++ (step sf key s t a).2.2 ++ l₂, ¬Harmed (step sf key s t a).2.1 u) ↔
      Solitary (l₁ ++ t :: l₂) t a := by
  have ht : t ∈ l₁ ++ t :: l₂ := List.mem_append_cons_self ..
  by_cases hends : ∃ call result, Ends t a call result
  · obtain ⟨call, result, hends⟩ := hends
    rw [step_ends hends]
    have hothers : ∀ u ∈ l₁ ++ [] ++ l₂, u ∈ l₁ ++ t :: l₂ :=
      System.forall_replace (P := (· ∈ l₁ ++ t :: l₂)) (fun u hu => hu) (fun u hu => hu) (by simp)
    constructor
    · intro hspared call' hends' u hu hstage
      have hstages := hends.2.symm.trans hends'.2
      injection hstages with hcall hresult
      have hne : u ≠ t := by
        rintro rfl
        cases hstage.symm.trans hends.2
      have hrest : u ∈ l₁ ++ [] ++ l₂ := by simpa [hne] using hu
      by_contra hlive
      refine hspared u hrest ((harmed_finish_iff (h u hu)).mpr ⟨hresult, ?_, hcall ▸ hstage⟩)
      exact Bool.eq_false_iff.mpr hlive
    · intro hsolitary u hu hharmed
      obtain ⟨rfl, hlive, hstage⟩ := (harmed_finish_iff (h u (hothers u hu))).mp hharmed
      have hcanceled := hsolitary call hends u (hothers u hu) hstage
      rw [hlive] at hcanceled
      cases hcanceled
  · have hturn := turn_step key s t a
    have hresult := result_turn hturn fun call result h => hends ⟨call, result, h⟩
    refine iff_of_true ?_ fun call hcall => absurd ⟨call, _, hcall⟩ hends
    have hsame : ∀ u, Harmed (step sf key s t a).2.1 u ↔ Harmed s u := by
      intro u
      unfold Harmed
      rw [hresult]
    simp only [hsame]
    exact System.forall_replace h (fun u hu => hu) (unharmed_turn hturn (h t ht))

theorem mapError_fetch_canceled {result : Except FetchError L}
    (h : result.mapError .fetch = .error (LimitsError.fetch .canceled)) : result = .error .canceled := by
  cases result with
  | ok limits => cases h
  | error e =>
    cases h
    rfl

theorem returned_turn (hturn : Turn sf key s t a r) (hown : brings t.stage = some .canceled → t.canceled = true)
    (h : ¬Harmed s t) : ∀ o ∈ r.1, o.canceled = false → o.result ≠ .error (.fetch .canceled) := by
  cases hturn with
  | receive hcall =>
    refine List.forall_mem_singleton.mpr fun hlive hresult => ?_
    rw [mapError_fetch_canceled hresult] at hcall
    exact h ⟨hlive, _, rfl, hcall⟩
  | publish call result =>
    refine List.forall_mem_singleton.mpr fun hlive hresult => ?_
    have hcanceled := hown (by rw [mapError_fetch_canceled hresult]; rfl)
    cases hlive.symm.trans hcanceled
  | _ => simp

def Covered (cb fair : TenantCircuitBreaker) : Prop :=
  cb.open_ = true → fair.open_ = true ∧ cb.openUntil ≤ fair.openUntil

theorem earned_iff : Earned key s ↔ Covered (s.breakers.breaker key) (s.fair.breaker key) := by
  simp only [Earned, TenantBreakers.isCircuitOpen_blocks, TenantCircuitBreaker.blocks, Bool.and_eq_true, decide_eq_true_eq]
  constructor
  · intro h hopen
    obtain ⟨now, hnow⟩ := exists_lt (s.breakers.breaker key).openUntil
    refine ⟨(h now ⟨hopen, hnow⟩).1, ?_⟩
    by_contra hlate
    exact lt_irrefl _ (h (s.fair.breaker key).openUntil ⟨hopen, not_le.mp hlate⟩).2
  · rintro h now ⟨hopen, hnow⟩
    exact ⟨(h hopen).1, hnow.trans_le (h hopen).2⟩

theorem covered_recordFailure_iff {cb fair : TenantCircuitBreaker} (hmatched : Matched cb fair)
    (h : Covered cb fair) (genuine : Bool) (now : ℤ) :
    Covered (cb.recordFailure now) (if genuine then fair.recordFailure now else fair) ↔
      (cb.threshold ≤ cb.failures + 1 →
        (genuine = true ∧ fair.threshold ≤ fair.failures + 1) ∨
          (fair.open_ = true ∧ now + cb.resetTimeout ≤ fair.openUntil)) := by
  have hreset := hmatched.resetTimeout
  by_cases hreaches : cb.threshold ≤ cb.failures + 1
  · rw [forall_prop_of_true hreaches]
    simp only [Covered, recordFailure_of_reaches hreaches, true_imp_iff]
    by_cases hboth : genuine = true ∧ fair.threshold ≤ fair.failures + 1
    · rw [if_pos hboth.1, recordFailure_of_reaches hboth.2]
      exact iff_of_true ⟨rfl, by rw [hreset]⟩ (Or.inl hboth)
    · rw [or_iff_right hboth]
      split_ifs with hgenuine
      · rw [recordFailure_of_below fun hle => hboth ⟨hgenuine, hle⟩]
      · rfl
  · -- the fair breaker has counted no more, and does not reach the threshold either
    have hbelow : ¬fair.threshold ≤ fair.failures + 1 := by
      have hfailures := hmatched.failures
      have hthreshold := hmatched.threshold
      omega
    refine iff_of_true ?_ fun hle => absurd hle hreaches
    rw [recordFailure_of_below hreaches]
    split_ifs
    · rw [recordFailure_of_below hbelow]
      exact h
    · exact h

theorem earned_turn_iff (hturn : Turn sf key s t a r) (hmatched : Matched (s.breakers.breaker key) (s.fair.breaker key))
    (h : Earned key s) : Earned key r.2.1 ↔ Uncounted key s t a := by
  have hcovered := earned_iff.mp h
  cases hturn with
  | cancel t => exact iff_of_true h (by rintro w call e ⟨⟩)
  | look stage hstage =>
    refine iff_of_true (earned_iff.mpr ?_) (by rintro w' call e - ⟨⟩)
    simp only [TenantBreakers.breaker_isCircuitOpen]
    exact hcovered
  | succeed limits =>
    refine iff_of_true (earned_iff.mpr ?_) (by rintro w' call' e - ⟨⟩)
    simp only [TenantBreakers.breaker_recordSuccess]
    rintro ⟨⟩
  | @fail c w call e =>
    rw [earned_iff]
    simp only [TenantBreakers.breaker_recordFailure, breaker_fair, covered_recordFailure_iff hmatched hcovered]
    unfold Uncounted
    constructor
    · rintro hcount w' call' e' ⟨⟩ ⟨⟩
      exact hcount
    · exact fun hcount => hcount w call e rfl rfl
  | _ => exact iff_of_true h (by rintro w' call' e - ⟨⟩)

end Step

theorem spared_arrive {s : Flights sf} {ts : List (Caller L)} (h : ∀ t ∈ ts, ¬Harmed s t) :
    ∀ t ∈ ts ++ [({} : Caller L)], ¬Harmed s t := by
  refine List.forall_mem_append.mpr ⟨h, List.forall_mem_singleton.mpr ?_⟩
  rintro ⟨-, call, ⟨⟩, -⟩

theorem keeps_spared (sf : SingleFlight L) (key : GoString) :
    (system sf key).Keeps (fun _ => True) (Considerate key) fun s ts =>
      Attributed key s ts ∧ ∀ t ∈ ts, ¬Harmed s t where
  arrive h _ := ⟨(keeps_attributed sf key).arrive h.1 trivial, spared_arrive h.2⟩
  step h hturn := ⟨(keeps_attributed sf key).step h.1 trivial, (spared_step_iff h.2).mpr hturn.1⟩

/-- Calls numbered in the order in which they begin. -/
structure Numbered (L : Type) where
  flight : Option ℕ := none
  next : ℕ := 0
  calls : ℕ → Option (Except FetchError L) := fun _ => none
  unused : ∀ call, next ≤ call → calls call = none
  flying : ∀ call ∈ flight, calls call = none

def numbered (L : Type) : SingleFlight L where
  Group := Numbered L
  empty := ⟨none, 0, fun _ => none, fun _ _ => rfl, nofun⟩
  inFlight g := g.flight
  start g :=
    (g.next, ⟨some g.next, g.next + 1, g.calls, fun call h => g.unused call (Nat.le_of_succ_le h), by
      rintro call ⟨⟩
      exact g.unused _ le_rfl⟩)
  finish g call r :=
    ⟨if g.flight = some call then none else g.flight, max g.next (call + 1), Function.update g.calls call (some r), by
      intro m hm
      rw [Function.update_of_ne (by omega)]
      exact g.unused m (by omega), by
      intro m hm
      split_ifs at hm with hflight
      · cases hm
      · rw [Function.update_of_ne]
        · exact g.flying m hm
        · rintro rfl
          exact hflight hm⟩
  result g := g.calls
  result_inFlight := fun {g call} h => g.flying call h
  result_start _ := rfl
  result_finish _ _ _ := rfl

def nothing : CallerTurn Unit := .go {}

end Flights
end EdgeQuota.RateLimit
