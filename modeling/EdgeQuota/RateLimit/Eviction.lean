import EdgeQuota.RateLimit.Breakers

/-! Breakers that nobody has asked for in a while are removed. A breaker that is open was asked for when it opened, so
that it has closed by itself before it is removed, as long as twice the reset timeout is a duration. -/

namespace EdgeQuota.RateLimit
open Go Lib

namespace TenantBreakers
variable {s : TenantBreakers} {key key' : GoString} {now : ℤ}

def maxIdle (s : TenantBreakers) : ℤ := int64 (2 * s.cbResetTimeout)

def evict (maxIdle now : ℤ) (s : TenantBreakers) (key : GoString) : TenantBreakers :=
  match s.breakers.lookup key with
  | none => s
  | some cb =>
    if cb.isStale now maxIdle then { s with breakers := s.breakers.erase key, breakerCount := s.breakerCount - 1 } else s

theorem evictStaleBreakers_eq (s : TenantBreakers) (now : ℤ) :
    s.evictStaleBreakers now = s.breakers.keys.foldl (evict s.maxIdle now) s := rfl

theorem lookup_evict (maxIdle now : ℤ) (s : TenantBreakers) (key key' : GoString) :
    (evict maxIdle now s key).breakers.lookup key' =
      if key' = key then (s.breakers.lookup key').filter fun cb => !cb.isStale now maxIdle else s.breakers.lookup key' := by
  unfold evict
  split_ifs with hkey
  · subst hkey
    cases hlookup : s.breakers.lookup key' with
    | none => simp only [hlookup, Option.filter_none]
    | some cb =>
      cases hstale : cb.isStale now maxIdle with
      | true => simp [hstale, Option.filter]
      | false => simp [hstale, hlookup, Option.filter]
  · split
    · rfl
    · split_ifs
      · exact AList.lookup_erase_ne hkey
      · rfl

theorem lookup_foldl_evict (maxIdle now : ℤ) (s : TenantBreakers) (keys : List GoString) (key : GoString) :
    (keys.foldl (evict maxIdle now) s).breakers.lookup key =
      if key ∈ keys then (s.breakers.lookup key).filter fun cb => !cb.isStale now maxIdle else s.breakers.lookup key := by
  induction keys generalizing s with
  | nil => rfl
  | cons k keys ih =>
    rw [List.foldl_cons, ih, lookup_evict]
    by_cases hk : key = k
    · simp only [hk, if_true, List.mem_cons, true_or, Option.filter_filter, Bool.and_self, ite_self]
    · simp only [hk, if_false, List.mem_cons, false_or]

theorem lookup_evictStaleBreakers (s : TenantBreakers) (now : ℤ) (key : GoString) :
    (s.evictStaleBreakers now).breakers.lookup key =
      (s.breakers.lookup key).filter fun cb => !cb.isStale now s.maxIdle := by
  rw [evictStaleBreakers_eq, lookup_foldl_evict]
  split_ifs with hmem
  · rfl
  · rw [AList.lookup_eq_none.mpr hmem]
    rfl

theorem cbResetTimeout_evictStaleBreakers (s : TenantBreakers) (now : ℤ) :
    (s.evictStaleBreakers now).cbResetTimeout = s.cbResetTimeout := by
  rw [evictStaleBreakers_eq]
  generalize s.maxIdle = maxIdle
  generalize s.breakers.keys = keys
  induction keys generalizing s with
  | nil => rfl
  | cons k keys ih =>
    rw [List.foldl_cons, ih, evict]
    split
    · rfl
    · split_ifs <;> rfl

theorem cbResetTimeout_put (cb : TenantCircuitBreaker) :
    ((s.getOrCreateCB key now).2 cb).cbResetTimeout = s.cbResetTimeout := by
  unfold getOrCreateCB
  split
  · rfl
  · split_ifs <;> rfl

theorem lookup_update {f : TenantCircuitBreaker → TenantCircuitBreaker} {cb' : TenantCircuitBreaker}
    (h : ((s.getOrCreateCB key now).2 (f (s.getOrCreateCB key now).1)).breakers.lookup key' = some cb') :
    s.breakers.lookup key' = some cb' ∨
      ∃ cb, cb' = f cb ∧ (s.breakers.lookup key = some cb ∨ cb = newTenantCB s.cbThreshold s.cbResetTimeout now) := by
  by_cases hkey : key' = key
  · subst hkey
    by_cases hcrowded : s.Crowded key'
    · rw [getOrCreateCB_crowded hcrowded] at h
      exact Or.inl h
    · right
      rw [(getOrCreateCB_own hcrowded _).1, AList.lookup_insert, Option.some.injEq] at h
      refine ⟨_, h.symm, ?_⟩
      unfold getOrCreateCB
      cases hlookup : s.breakers.lookup key' with
      | some cb => exact Or.inl rfl
      | none =>
        have hroom : ¬s.maxBreakers ≤ s.breakerCount := fun hfull => hcrowded ⟨hlookup, hfull⟩
        simp only [if_neg hroom, or_true]
  · rw [lookup_put hkey] at h
    exact Or.inl h

end TenantBreakers

structure TenantCircuitBreaker.Aged (cb : TenantCircuitBreaker) (reset now : ℤ) : Prop where
  resetTimeout : cb.resetTimeout = reset
  lastAccess : cb.lastAccess ≤ now
  openUntil : cb.open_ = true → cb.openUntil ≤ cb.lastAccess + reset

namespace TenantCircuitBreaker
variable {cb : TenantCircuitBreaker} {reset t now : ℤ}

theorem Aged.later (h : cb.Aged reset t) (hle : t ≤ now) : cb.Aged reset now :=
  ⟨h.resetTimeout, h.lastAccess.trans hle, h.openUntil⟩

theorem Aged.isOpen (h : cb.Aged reset now) : (cb.isOpen now).2.Aged reset now := by
  refine ⟨h.resetTimeout, le_rfl, ?_⟩
  intro hopen
  have huntil := h.openUntil hopen
  have hlast := h.lastAccess
  change cb.openUntil ≤ now + reset
  omega

theorem Aged.recordSuccess (h : cb.Aged reset now) : (cb.recordSuccess now).Aged reset now :=
  ⟨h.resetTimeout, le_rfl, by rintro ⟨⟩⟩

theorem Aged.recordFailure (h : cb.Aged reset now) : (cb.recordFailure now).Aged reset now := by
  unfold TenantCircuitBreaker.recordFailure
  simp only
  split_ifs
  · refine ⟨h.resetTimeout, le_rfl, ?_⟩
    intro _
    exact (congrArg (now + ·) h.resetTimeout).le
  · refine ⟨h.resetTimeout, le_rfl, ?_⟩
    intro hopen
    have huntil := h.openUntil hopen
    have hlast := h.lastAccess
    change cb.openUntil ≤ now + reset
    omega

theorem aged_newTenantCB (threshold : ℕ) : (newTenantCB threshold reset now).Aged reset now :=
  ⟨rfl, le_rfl, by rintro ⟨⟩⟩

theorem Aged.not_blocks (h : cb.Aged reset t) {maxIdle : ℤ} (hidle : reset ≤ maxIdle)
    (hstale : cb.isStale now maxIdle = true) : cb.blocks now = false := by
  rw [isStale, decide_eq_true_iff] at hstale
  unfold blocks
  cases hopen : cb.open_ with
  | false => rfl
  | true =>
    have huntil := h.openUntil hopen
    rw [Bool.true_and, decide_eq_false_iff_not]
    omega

theorem blocks_earlier (h : cb.blocks t = true) (hle : now ≤ t) : cb.blocks now = true := by
  rw [blocks, Bool.and_eq_true, decide_eq_true_iff] at h ⊢
  exact ⟨h.1, hle.trans_lt h.2⟩

end TenantCircuitBreaker

def TenantBreakers.Aged (s : TenantBreakers) (now : ℤ) : Prop :=
  ∀ key cb, s.breakers.lookup key = some cb → cb.Aged s.cbResetTimeout now

def BreakerOp.time : BreakerOp → ℤ
  | .isCircuitOpen _ now | .recordFailure _ now | .recordSuccess _ now | .evictStaleBreakers now => now

section Step
variable {s : TenantBreakers} {t : ℤ}

theorem aged_update (h : s.Aged t) {now : ℤ} (hle : t ≤ now) {key : GoString}
    {f : TenantCircuitBreaker → TenantCircuitBreaker}
    (hf : ∀ cb, cb.Aged s.cbResetTimeout now → (f cb).Aged s.cbResetTimeout now) :
    ((s.getOrCreateCB key now).2 (f (s.getOrCreateCB key now).1)).Aged now := by
  intro key' cb' hlookup
  rw [TenantBreakers.cbResetTimeout_put]
  rcases TenantBreakers.lookup_update hlookup with hold | ⟨cb, rfl, hold | rfl⟩
  · exact (h key' cb' hold).later hle
  · exact hf cb ((h key cb hold).later hle)
  · exact hf _ (TenantCircuitBreaker.aged_newTenantCB _)

theorem aged_step (h : s.Aged t) {op : BreakerOp} (hle : t ≤ op.time) : (breakerOps.step s op).2.Aged op.time := by
  cases op with
  | isCircuitOpen key now => exact aged_update h hle fun _ hcb => hcb.isOpen
  | recordFailure key now => exact aged_update h hle fun _ hcb => hcb.recordFailure
  | recordSuccess key now => exact aged_update h hle fun _ hcb => hcb.recordSuccess
  | evictStaleBreakers now =>
    intro key cb hlookup
    change (s.evictStaleBreakers now).breakers.lookup key = some cb at hlookup
    rw [TenantBreakers.lookup_evictStaleBreakers, Option.filter_eq_some_iff] at hlookup
    change cb.Aged (s.evictStaleBreakers now).cbResetTimeout now
    rw [TenantBreakers.cbResetTimeout_evictStaleBreakers]
    exact (h key cb hlookup.1).later hle

theorem cbResetTimeout_step (s : TenantBreakers) (op : BreakerOp) :
    (breakerOps.step s op).2.cbResetTimeout = s.cbResetTimeout := by
  cases op with
  | isCircuitOpen key now => exact TenantBreakers.cbResetTimeout_put _
  | recordFailure key now => exact TenantBreakers.cbResetTimeout_put _
  | recordSuccess key now => exact TenantBreakers.cbResetTimeout_put _
  | evictStaleBreakers now => exact TenantBreakers.cbResetTimeout_evictStaleBreakers s now

end Step

/-- A pass removes no breaker that blocks at the time; and a key with a breaker of its own whose circuit is reported
open, then or later, is still reported so after the pass. -/
def KeepsOpen (s : TenantBreakers) : BreakerOp → Prop
  | .evictStaleBreakers now =>
    (∀ key cb, s.breakers.lookup key = some cb → cb.blocks now = true →
        (s.evictStaleBreakers now).breakers.lookup key = some cb) ∧
      ∀ key, ¬s.Crowded key → ∀ t, now ≤ t →
        (s.isCircuitOpen key t).1 = true → ((s.evictStaleBreakers now).isCircuitOpen key t).1 = true
  | .isCircuitOpen _ _ | .recordFailure _ _ | .recordSuccess _ _ => True

section Keeps
variable {s : TenantBreakers}

theorem isCircuitOpen_own {key : GoString} {cb : TenantCircuitBreaker} (h : s.breakers.lookup key = some cb) (t : ℤ) :
    (s.isCircuitOpen key t).1 = cb.blocks t := by
  unfold TenantBreakers.isCircuitOpen TenantBreakers.getOrCreateCB
  simp only [h]
  rfl

theorem isCircuitOpen_new {key : GoString} (h : s.breakers.lookup key = none) (hroom : ¬s.Crowded key) (t : ℤ) :
    (s.isCircuitOpen key t).1 = false := by
  have hfull : ¬s.maxBreakers ≤ s.breakerCount := fun hfull => hroom ⟨h, hfull⟩
  unfold TenantBreakers.isCircuitOpen TenantBreakers.getOrCreateCB
  simp only [h, if_neg hfull]
  rfl

theorem keepsOpen_evict {now t : ℤ} (h : s.Aged t) (hidle : s.cbResetTimeout ≤ s.maxIdle) :
    KeepsOpen s (.evictStaleBreakers now) := by
  have hkept : ∀ key cb, s.breakers.lookup key = some cb → cb.blocks now = true →
      (s.evictStaleBreakers now).breakers.lookup key = some cb := by
    intro key cb hlookup hblocks
    have hfresh : cb.isStale now s.maxIdle = false := by
      by_contra hstale
      have hnot := (h key cb hlookup).not_blocks hidle (Bool.eq_true_of_not_eq_false hstale)
      rw [hnot] at hblocks
      cases hblocks
    rw [TenantBreakers.lookup_evictStaleBreakers, hlookup, Option.filter_some, hfresh]
    rfl
  refine ⟨hkept, ?_⟩
  intro key hown t hle hopen
  cases hlookup : s.breakers.lookup key with
  | none =>
    rw [isCircuitOpen_new hlookup hown] at hopen
    cases hopen
  | some cb =>
    rw [isCircuitOpen_own hlookup] at hopen
    have hstill := hkept key cb hlookup (TenantCircuitBreaker.blocks_earlier hopen hle)
    rw [isCircuitOpen_own hstill]
    exact hopen

theorem along_keepsOpen {ops : List BreakerOp} {t : ℤ} (h : s.Aged t) (hidle : s.cbResetTimeout ≤ s.maxIdle)
    (htimes : (t :: ops.map BreakerOp.time).Pairwise (· ≤ ·)) : breakerOps.Along KeepsOpen s ops := by
  induction ops generalizing s t with
  | nil => trivial
  | cons op ops ih =>
    rw [List.map_cons, List.pairwise_cons] at htimes
    obtain ⟨hlow, hrest⟩ := htimes
    have hsame := cbResetTimeout_step s op
    refine ⟨?_, ih (aged_step h (hlow _ (List.mem_cons_self ..))) ?_ hrest⟩
    · cases op with
      | evictStaleBreakers now => exact keepsOpen_evict h hidle
      | isCircuitOpen key now => trivial
      | recordFailure key now => trivial
      | recordSuccess key now => trivial
    · unfold TenantBreakers.maxIdle at hidle ⊢
      rw [hsame]
      exact hidle

end Keeps

theorem resolveCBThreshold_pos (configured : ℤ) : 0 < resolveCBThreshold configured := by
  unfold resolveCBThreshold
  split_ifs
  · omega
  · decide

theorem resolveCBResetTimeout_range (configured : GoString) :
    0 < resolveCBResetTimeout configured ∧ resolveCBResetTimeout configured < 2 ^ 63 := by
  unfold resolveCBResetTimeout
  split_ifs
  · decide
  · split
    · rename_i d hd
      have hrange := Time.parseDuration_range hd
      split_ifs with hpos
      · exact ⟨hpos, hrange.2⟩
      · decide
    · decide

theorem le_int64_double_iff {r : ℤ} (hpos : 0 < r) (hlt : r < 2 ^ 63) : r ≤ int64 (2 * r) ↔ r < 2 ^ 62 := by
  unfold int64
  omega

theorem run_failures {s : TenantBreakers} {key : GoString} {cb : TenantCircuitBreaker}
    (h : s.breakers.lookup key = some cb) (now : ℤ) (n : ℕ) :
    (breakerOps.run s (List.replicate n (.recordFailure key now))).breakers.lookup key =
      some ((fun cb => TenantCircuitBreaker.recordFailure cb now)^[n] cb) ∧
    (breakerOps.run s (List.replicate n (.recordFailure key now))).cbResetTimeout = s.cbResetTimeout := by
  induction n generalizing s cb with
  | zero => exact ⟨h, rfl⟩
  | succ n ih =>
    have hown : ¬s.Crowded key := by
      rintro ⟨hnone, -⟩
      rw [h] at hnone
      cases hnone
    have hstep : (s.recordFailure key now).breakers.lookup key = some (cb.recordFailure now) := by
      unfold TenantBreakers.recordFailure
      simp only [(TenantBreakers.getOrCreateCB_own hown _).1, AList.lookup_insert]
      unfold TenantBreakers.getOrCreateCB
      rw [h]
    obtain ⟨hlookup, htimeout⟩ := ih hstep
    rw [List.replicate_succ, Function.iterate_succ_apply]
    exact ⟨hlookup, htimeout.trans (cbResetTimeout_step s (.recordFailure key now))⟩

def opening (cfg : CircuitBreakerConfig) : List BreakerOp :=
  .isCircuitOpen [] 0 :: List.replicate (resolveCBThreshold cfg.threshold) (.recordFailure [] 0)

theorem run_opening (cfg : CircuitBreakerConfig) :
    ∃ cb, (breakerOps.run (newTenantBreakers cfg) (opening cfg)).breakers.lookup [] = some cb ∧
      cb.blocks 0 = true ∧ cb.lastAccess = 0 ∧
      (breakerOps.run (newTenantBreakers cfg) (opening cfg)).cbResetTimeout = resolveCBResetTimeout cfg.resetTimeout := by
  obtain ⟨hpos, -⟩ := resolveCBResetTimeout_range cfg.resetTimeout
  obtain ⟨n, hn⟩ := Nat.exists_eq_succ_of_ne_zero (resolveCBThreshold_pos cfg.threshold).ne'
  have hown : ¬(newTenantBreakers cfg).Crowded [] := by
    rintro ⟨-, hfull⟩
    change (if cfg.maxCircuitBreakers ≤ 0 then defaultMaxCircuitBreakers else cfg.maxCircuitBreakers.toNat) ≤ 0 at hfull
    split_ifs at hfull
    · exact absurd hfull (by decide)
    · omega
  -- the key is asked for once, so that it has a breaker
  let first := newTenantCB (resolveCBThreshold cfg.threshold) (resolveCBResetTimeout cfg.resetTimeout) 0
  have hfirst : (breakerOps.step (newTenantBreakers cfg) (.isCircuitOpen [] 0)).2.breakers.lookup [] = some first := by
    change ((newTenantBreakers cfg).isCircuitOpen [] 0).2.breakers.lookup [] = some first
    unfold TenantBreakers.isCircuitOpen
    simp only [(TenantBreakers.getOrCreateCB_own hown _).1, AList.lookup_insert]
    have hroom : ¬(newTenantBreakers cfg).maxBreakers ≤ (newTenantBreakers cfg).breakerCount :=
      fun hfull => hown ⟨rfl, hfull⟩
    unfold TenantBreakers.getOrCreateCB
    have hnone : (newTenantBreakers cfg).breakers.lookup [] = none := rfl
    rw [hnone]
    simp only [if_neg hroom]
    rfl
  obtain ⟨hlookup, htimeout⟩ := run_failures hfirst 0 (resolveCBThreshold cfg.threshold)
  obtain ⟨hfailures, hthreshold, hreset⟩ := iterate_recordFailure first 0 n
  refine ⟨_, hlookup, ?_, ?_, htimeout.trans (cbResetTimeout_step _ _)⟩ <;> rw [hn, Function.iterate_succ_apply']
  · refine blocks_recordFailure ?_ ?_ 0
    · rw [hthreshold, hfailures]
      change resolveCBThreshold cfg.threshold ≤ 0 + n + 1
      omega
    · rw [hreset]
      exact hpos
  · unfold TenantCircuitBreaker.recordFailure
    simp only
    split_ifs <;> rfl

/-- **Eviction of breakers.** Whatever is asked, recorded and evicted at times that do not decrease, no pass removes a
breaker that is open at the time and no circuit closes early for it, exactly if the reset timeout is less than `2 ^ 62`
nanoseconds: twice a longer one is negative, and every breaker is stale. -/
theorem eviction_keeps_open_iff (cfg : CircuitBreakerConfig) :
    (∀ ops : List BreakerOp, (ops.map BreakerOp.time).Pairwise (· ≤ ·) →
        breakerOps.Along KeepsOpen (newTenantBreakers cfg) ops) ↔
      resolveCBResetTimeout cfg.resetTimeout < 2 ^ 62 := by
  obtain ⟨hpos, hlt⟩ := resolveCBResetTimeout_range cfg.resetTimeout
  rw [← le_int64_double_iff hpos hlt]
  constructor
  · intro hkeeps
    by_contra hshort
    obtain ⟨cb, hlookup, hblocks, hlast, htimeout⟩ := run_opening cfg
    have htimes : ((opening cfg ++ [BreakerOp.evictStaleBreakers 0]).map BreakerOp.time).Pairwise (· ≤ ·) := by
      have hzero : (opening cfg ++ [BreakerOp.evictStaleBreakers 0]).map BreakerOp.time =
          List.replicate (resolveCBThreshold cfg.threshold + 2) (0 : ℤ) := by
        rw [List.replicate_succ, List.replicate_succ']
        simp [opening, BreakerOp.time]
      rw [hzero]
      exact List.pairwise_replicate.mpr (Or.inr le_rfl)
    obtain ⟨-, ⟨hkept, -⟩, -⟩ := (breakerOps.along_append).mp (hkeeps _ htimes)
    have hstill := hkept [] cb hlookup hblocks
    have hstale : cb.isStale 0 (TenantBreakers.maxIdle (breakerOps.run (newTenantBreakers cfg) (opening cfg))) = true := by
      rw [TenantCircuitBreaker.isStale, decide_eq_true_iff, hlast, TenantBreakers.maxIdle, htimeout]
      unfold int64 at hshort ⊢
      omega
    rw [TenantBreakers.lookup_evictStaleBreakers, hlookup, Option.filter_some, hstale] at hstill
    cases hstill
  · intro hidle ops htimes
    cases ops with
    | nil => trivial
    | cons op ops =>
      have haged : (newTenantBreakers cfg).Aged op.time := by
        rintro key cb ⟨⟩
      refine along_keepsOpen haged hidle ?_
      rw [List.map_cons] at htimes ⊢
      refine List.pairwise_cons.mpr ⟨?_, htimes⟩
      exact List.forall_mem_cons.mpr ⟨le_rfl, (List.pairwise_cons.mp htimes).1⟩

theorem eviction_closes_circuit :
    let s := breakerOps.run (newTenantBreakers { threshold := 1, resetTimeout := str "1500000h" })
      [.recordFailure (str "k") 0]
    (s.isCircuitOpen (str "k") 1).1 = true ∧
      ((s.evictStaleBreakers 1).isCircuitOpen (str "k") 1).1 = false := by
  decide +kernel

end EdgeQuota.RateLimit
