import EdgeQuota.Config.Validate
import EdgeQuota.RateLimit.Limiter
import Mathlib.Tactic.FieldSimp

/-! The path of a request through `tryRedisLimit`: the parameters `parseBucketParams` derives
from the configuration, the limiter built from them, and the limits of the external service
that replace its rate and burst but not its TTL. -/

namespace EdgeQuota.Middleware
open Lib Go Config RateLimit

structure BucketParams where
  ratePerSecond : ℚ
  burst : ℤ
  ttl : ℤ
  period : ℤ

structure RateLimitParams extends BucketParams where
  failurePolicy : FailurePolicy
  failureCode : ℤ

def maxTTL : ℤ := 7 * 24 * 3600

def parsePeriod (s : GoString) : ℤ :=
  match Time.parseDuration s with
  | .error _ => 1000000000
  | .ok d => if d ≤ 0 then 1000000000 else d

def ceilSecondsIn (N : Arithmetic) (d : ℤ) : ℤ := ⌈asSeconds N.toRounding ((d : ℚ) / 1000000000)⌉

def ratePerSecondIn (N : Arithmetic) (average period : ℤ) : ℚ :=
  N.fl (N.fl (N.fl average * 1000000000) / N.fl period)

def parseBucketParamsIn (N : Arithmetic) (average burst : ℤ) (periodStr minTTL : GoString) : BucketParams :=
  let period := parsePeriod periodStr
  let burst := max burst 1
  let rate := if 0 < average then ratePerSecondIn N average period else 0
  let ttl := max 2 (ceilSecondsIn N period * 2)
  let ttl := if 0 < rate ∧ rate < 1 then min (⌊N.fl (1 / rate)⌋ + 2) maxTTL else ttl
  let ttl :=
    if minTTL = [] then ttl
    else
      match Time.parseDuration minTTL with
      | .error _ => ttl
      | .ok d => if 0 < d then max ttl (ceilSecondsIn N d) else ttl
  ⟨rate, burst, ttl, period⟩

def parseRateLimitParamsIn (N : Arithmetic) (cfg : RateLimitConfig) : RateLimitParams :=
  { parseBucketParamsIn N cfg.static.average cfg.static.burst cfg.static.period cfg.minTTL with
    failurePolicy := if cfg.failurePolicy = .unset then .passThrough else cfg.failurePolicy
    failureCode := if cfg.failureCode = 0 then 429 else cfg.failureCode }

def redisPrefix (cfg : RateLimitConfig) : GoString :=
  if cfg.keyPrefix = [] then str "rl:edgequota:" else str "rl:" ++ cfg.keyPrefix ++ str ":"

def initRedisIn (N : Arithmetic) (cfg : RateLimitConfig) : Option Limiter :=
  let p := parseRateLimitParamsIn N cfg
  if 0 < p.ratePerSecond ∨ cfg.external.enabled = true then
    some (Limiter.newIn N p.ratePerSecond p.burst p.ttl (redisPrefix cfg))
  else none

structure ExternalLimits where
  average : ℤ
  burst : ℤ
  period : GoString

inductive RedisOutcome where
  | unavailable
  | failed (e : LimiterError)
  | result (r : Result)

/-- `tryRedisLimit` up to the response it writes: a result is served, everything else leaves
the request to the failure policy. -/
def tryRedisLimitIn (N : Arithmetic) (lim : Option Limiter) (key : GoString) (ext : Option ExternalLimits) (m : Moment)
    (db : Redis GoString) : RedisOutcome × Redis GoString :=
  match lim with
  | none => (.unavailable, db)
  | some lim =>
    let (res, db) :=
      match ext.filter (0 < ·.average) with
      | some e =>
        lim.allowWithOverridesIn N key (ratePerSecondIn N e.average (parsePeriod e.period)) (max e.burst 1) 0 m db
      | none => lim.allowIn N key m db
    match res with
    | .ok r => (.result r, db)
    | .error e => (.failed e, db)

def effectiveLimitsIn (N : Arithmetic) (lim : Limiter) (ext : Option ExternalLimits) : Limits :=
  match ext.filter (0 < ·.average) with
  | some e => ⟨N.fl (ratePerSecondIn N e.average (parsePeriod e.period) / 1000000), max e.burst 1, lim.ttl⟩
  | none => ⟨lim.rate, lim.burst, lim.ttl⟩

abbrev ceilSeconds (d : ℤ) : ℤ := ceilSecondsIn .exact d

abbrev ratePerSecond (average period : ℤ) : ℚ := ratePerSecondIn .exact average period

abbrev parseBucketParams (average burst : ℤ) (periodStr minTTL : GoString) : BucketParams :=
  parseBucketParamsIn .exact average burst periodStr minTTL

abbrev parseRateLimitParams (cfg : RateLimitConfig) : RateLimitParams := parseRateLimitParamsIn .exact cfg

abbrev initRedis (cfg : RateLimitConfig) : Option Limiter := initRedisIn .exact cfg

abbrev tryRedisLimit (lim : Option Limiter) (key : GoString) (ext : Option ExternalLimits) (m : Moment)
    (db : Redis GoString) : RedisOutcome × Redis GoString := tryRedisLimitIn .exact lim key ext m db

abbrev effectiveLimits (lim : Limiter) (ext : Option ExternalLimits) : Limits := effectiveLimitsIn .exact lim ext

theorem ceilSeconds_eq (d : ℤ) : ceilSeconds d = ⌈(d : ℚ) / 1000000000⌉ := congrArg Int.ceil (seconds_exact _)

theorem ratePerSecond_eq (average period : ℤ) :
    ratePerSecond average period = (average : ℚ) * 1000000000 / period := rfl

/-- Requests for one key while Redis answers and shares the instance's clock; an event is a
timestamp. -/
def requests (lim : Option Limiter) (key : GoString) (ext : Option ExternalLimits) :
    Machine (Redis GoString) ℤ RedisOutcome where
  step db now := tryRedisLimit lim key ext ⟨now, now, none⟩ db

def RedisOutcome.admitted : RedisOutcome → Bool
  | .result r => r.allowed
  | _ => false

def admittedIn (s t : ℚ) (now : ℤ) (o : RedisOutcome) : Bool :=
  o.admitted && decide (s ≤ now) && decide ((now : ℚ) ≤ t)

section Effective
variable {N : Arithmetic} (lim : Limiter)

theorem effectiveLimits_of_pos {e : ExternalLimits} (h : 0 < e.average) :
    effectiveLimitsIn N lim (some e) =
      ⟨N.fl (ratePerSecondIn N e.average (parsePeriod e.period) / 1000000), max e.burst 1, lim.ttl⟩ := by
  simp only [effectiveLimitsIn, Option.filter_some, decide_eq_true h, if_true]

theorem effectiveLimits_of_not_pos {ext : Option ExternalLimits} (h : ∀ e ∈ ext, ¬0 < e.average) :
    effectiveLimitsIn N lim ext = ⟨lim.rate, lim.burst, lim.ttl⟩ := by
  have hfilter : ext.filter (0 < ·.average) = none := by
    rw [Option.filter_eq_none_iff]
    intro e he
    simpa using h e he
  simp only [effectiveLimitsIn, hfilter]

end Effective

theorem tryRedisLimit_eq_in {N : Arithmetic} {lim : Limiter} (hopen : lim.closed = false) (key : GoString)
    (ext : Option ExternalLimits) {m : Moment} (hfault : m.fault = none) (db : Redis GoString) :
    let e := effectiveLimitsIn N lim ext
    let c : Call GoString := ⟨lim.keyPrefix ++ key, ⟨e.rate, e.burst, e.ttl, m.now⟩, m.clock⟩
    tryRedisLimitIn N (some lim) key ext m db =
      (.result (parseScriptResult (N.script.step db c).1), (N.script.step db c).2) := by
  cases he : ext.filter (0 < ·.average) <;>
    simp only [tryRedisLimitIn, effectiveLimitsIn, he, Limiter.allowIn, Limiter.allowWithOverridesIn, hopen,
      Limiter.evalScriptIn, hfault] <;> rfl

theorem tryRedisLimit_eq {lim : Limiter} (hopen : lim.closed = false) (key : GoString) (ext : Option ExternalLimits)
    {m : Moment} (hfault : m.fault = none) (db : Redis GoString) :
    let e := effectiveLimits lim ext
    tryRedisLimit (some lim) key ext m db =
      (.result (parseScriptResult (script.step db ⟨lim.keyPrefix ++ key, ⟨e.rate, e.burst, e.ttl, m.now⟩, m.clock⟩).1),
       (script.step db ⟨lim.keyPrefix ++ key, ⟨e.rate, e.burst, e.ttl, m.now⟩, m.clock⟩).2) :=
  tryRedisLimit_eq_in hopen key ext hfault db

theorem requests_step {lim : Limiter} (hopen : lim.closed = false) (key : GoString)
    (ext : Option ExternalLimits) (db : Redis GoString) (now : ℤ) :
    (requests (some lim) key ext).step db now =
      (.result (parseScriptResult
        (script.step db ((effectiveLimits lim ext).callAt (lim.keyPrefix ++ key) 0 now)).1),
       (script.step db ((effectiveLimits lim ext).callAt (lim.keyPrefix ++ key) 0 now)).2) := by
  have hclock : now + 0 = now := add_zero now
  rw [Limits.callAt, hclock]
  exact tryRedisLimit_eq hopen key ext rfl db

theorem requests_tally {lim : Limiter} (hopen : lim.closed = false) (key : GoString)
    (ext : Option ExternalLimits) (db : Redis GoString) (s t : ℚ) (ts : List ℤ) :
    (requests (some lim) key ext).tally (admittedIn s t) db ts =
      script.tally (inWindow s t) db ((effectiveLimits lim ext).calls (lim.keyPrefix ++ key) 0 ts) := by
  refine Machine.tally_eq (R := Eq) (P := fun _ _ => True) ?_ ?_
    (Machine.along_of_forall fun _ _ _ => trivial) rfl
  · rintro db _ now - rfl
    rw [requests_step hopen]
  · rintro db _ now - rfl
    rw [requests_step hopen]
    rfl

theorem parsePeriod_pos (s : GoString) : 0 < parsePeriod s := by
  unfold parsePeriod
  split
  · norm_num
  · split_ifs with h
    · norm_num
    · exact not_le.mp h

theorem ceilSeconds_pos {d : ℤ} (h : 0 < d) : 1 ≤ ceilSeconds d := by
  have hq : (0 : ℚ) < d := by exact_mod_cast h
  rw [ceilSeconds_eq]
  exact Int.one_le_ceil_iff.mpr (by positivity)

def baseTTL (rate : ℚ) (period : ℤ) : ℤ :=
  if 0 < rate ∧ rate < 1 then min (⌊1 / rate⌋ + 2) maxTTL else max 2 (ceilSeconds period * 2)

def minTTLSeconds (minTTL : GoString) : ℤ :=
  if minTTL = [] then 0
  else
    match Time.parseDuration minTTL with
    | .error _ => 0
    | .ok d => if 0 < d then ceilSeconds d else 0

theorem two_le_baseTTL (rate : ℚ) (period : ℤ) : 2 ≤ baseTTL rate period := by
  unfold baseTTL
  split_ifs with h
  · have hone : (1 : ℚ) ≤ 1 / rate := by
      rw [le_div_iff₀ h.1]
      linarith [h.2]
    have hfloor : 1 ≤ ⌊1 / rate⌋ := Int.le_floor.mpr (by exact_mod_cast hone)
    exact le_min (by linarith) (by decide)
  · exact le_max_left _ _

theorem parseBucketParams_ttl (average burst : ℤ) (periodStr minTTL : GoString) :
    (parseBucketParams average burst periodStr minTTL).ttl =
      max (baseTTL (parseBucketParams average burst periodStr minTTL).ratePerSecond (parsePeriod periodStr))
        (minTTLSeconds minTTL) := by
  have hzero : ∀ rate, max (baseTTL rate (parsePeriod periodStr)) 0 = baseTTL rate (parsePeriod periodStr) :=
    fun rate => max_eq_left (by linarith [two_le_baseTTL rate (parsePeriod periodStr)])
  have hbase : ∀ rate, (if 0 < rate ∧ rate < 1 then min (⌊Arithmetic.exact.fl (1 / rate)⌋ + 2) maxTTL
      else max 2 (ceilSeconds (parsePeriod periodStr) * 2)) = baseTTL rate (parsePeriod periodStr) := fun _ => rfl
  unfold parseBucketParams parseBucketParamsIn minTTLSeconds
  simp only [hbase]
  split
  · exact (hzero _).symm
  · split
    · exact (hzero _).symm
    · split
      · rfl
      · exact (hzero _).symm

theorem two_le_ttl (N : Arithmetic) (average burst : ℤ) (periodStr minTTL : GoString) :
    2 ≤ (parseBucketParamsIn N average burst periodStr minTTL).ttl := by
  have hslow : ∀ rate : ℚ, 0 < rate → 2 ≤ min (⌊N.fl (1 / rate)⌋ + 2) maxTTL := by
    intro rate hrate
    have hfloor : 0 ≤ ⌊N.fl (1 / rate)⌋ := Int.floor_nonneg.mpr (N.fl_nonneg (by positivity))
    exact le_min (by omega) (by decide)
  have hbase : ∀ (rate : ℚ) (d : ℤ),
      2 ≤ if 0 < rate ∧ rate < 1 then min (⌊N.fl (1 / rate)⌋ + 2) maxTTL else max 2 d := by
    intro rate d
    split_ifs with h
    · exact hslow rate h.1
    · exact le_max_left _ _
  unfold parseBucketParamsIn
  simp only
  split
  · exact hbase _ _
  · split
    · exact hbase _ _
    · split
      · exact (hbase _ _).trans (le_max_left _ _)
      · exact hbase _ _

theorem ratePerSecond_pos_in (N : Arithmetic) {average period : ℤ} (ha : 0 < average) (hp : 0 < period) :
    0 < ratePerSecondIn N average period := by
  have haq : 0 < N.fl average := N.fl_pos (by exact_mod_cast ha)
  have hpq : 0 < N.fl period := N.fl_pos (by exact_mod_cast hp)
  exact N.fl_pos (div_pos (N.fl_pos (mul_pos haq (by norm_num))) hpq)

theorem ratePerSecond_pos {average period : ℤ} (ha : 0 < average) (hp : 0 < period) :
    0 < ratePerSecond average period := ratePerSecond_pos_in .exact ha hp

theorem burst_le_refill_iff {average period : ℤ} (hp : 0 < period) (burst x : ℤ) :
    (burst : ℚ) ≤ ratePerSecond average period / 1000000 * x ↔ burst * period ≤ 1000 * average * x := by
  have hpq : (0 : ℚ) < period := by exact_mod_cast hp
  have hrate : ratePerSecond average period / 1000000 * x = 1000 * average * x / period := by
    rw [ratePerSecond_eq]
    field_simp
    ring
  rw [hrate, le_div_iff₀ hpq]
  exact_mod_cast Iff.rfl

theorem not_burst_le_of_slow {average period burst : ℤ} (ha : 0 < average) (hp : 0 < period) (hb : 1 ≤ burst)
    (hslow : average * 1000000000 < period) :
    ¬(burst : ℚ) ≤ ratePerSecond average period / 1000000 *
      ((baseTTL (ratePerSecond average period) period * 500000 - 999999 : ℤ) : ℚ) := by
  have hpos := ratePerSecond_pos ha hp
  set rate := ratePerSecond average period with hr
  have hpq : (0 : ℚ) < period := by exact_mod_cast hp
  have hlt : rate < 1 := by
    rw [hr, ratePerSecond_eq, div_lt_one hpq]
    exact_mod_cast hslow
  have hbase : (baseTTL rate period : ℚ) ≤ 1 / rate + 2 := by
    rw [baseTTL, if_pos ⟨hpos, hlt⟩]
    calc ((min (⌊1 / rate⌋ + 2) maxTTL : ℤ) : ℚ) ≤ ((⌊1 / rate⌋ + 2 : ℤ) : ℚ) := Int.cast_le.mpr (min_le_left _ _)
      _ ≤ 1 / rate + 2 := by
        push_cast
        linarith [Int.floor_le (1 / rate)]
  have hB : (1 : ℚ) ≤ burst := by exact_mod_cast hb
  have hmul : rate * baseTTL rate period ≤ 1 + 2 * rate := by
    calc rate * baseTTL rate period ≤ rate * (1 / rate + 2) := mul_le_mul_of_nonneg_left hbase hpos.le
      _ = 1 + 2 * rate := by
        field_simp
  push_cast
  intro hle
  nlinarith

theorem baseTTL_of_fast {average period : ℤ} (hp : 0 < period) (hfast : period ≤ average * 1000000000) :
    baseTTL (ratePerSecond average period) period = ceilSeconds period * 2 := by
  have hpq : (0 : ℚ) < period := by exact_mod_cast hp
  have hge : ¬ratePerSecond average period < 1 := by
    rw [ratePerSecond_eq, div_lt_one hpq, not_lt]
    exact_mod_cast hfast
  have hceil := ceilSeconds_pos hp
  rw [baseTTL, if_neg fun h => hge h.2, max_eq_right (by omega)]

/-- Whatever the key, requests on it from a fresh start are admitted within the envelope, in
every window and in every run with timestamps in order. -/
def Bounded (lim : Limiter) (ext : Option ExternalLimits) (burst : ℤ) (rate : ℚ) : Prop :=
  ∀ (key : GoString) (db : Redis GoString), db (lim.keyPrefix ++ key) = none →
    ∀ ts : List ℤ, ts.Pairwise (· ≤ ·) → ∀ s t : ℚ, s ≤ t →
      ((requests (some lim) key ext).tally (admittedIn s t) db ts : ℚ) ≤ burst + rate * (t - s)

theorem bounded_iff (lim : Limiter) (ext : Option ExternalLimits) (hopen : lim.closed = false)
    (hr : 0 < (effectiveLimits lim ext).rate) (hb : 1 ≤ (effectiveLimits lim ext).burst)
    (ht : 2 ≤ (effectiveLimits lim ext).ttl) :
    Bounded lim ext (effectiveLimits lim ext).burst (effectiveLimits lim ext).rate ↔
      ((effectiveLimits lim ext).burst : ℚ) ≤
        (effectiveLimits lim ext).rate * ((effectiveLimits lim ext).ttl * 500000 - 999999 : ℤ) := by
  have hiff : ∀ (key : GoString) (db : Redis GoString), db (lim.keyPrefix ++ key) = none → _ :=
    fun _ _ hfresh => Limits.window_bound_iff hr hb ht hfresh
  have hhalf : (((effectiveLimits lim ext).ttl * 500000 - 999999 : ℤ) : ℚ) =
      (effectiveLimits lim ext).half - 999999 := by
    simp only [Limits.half]
    push_cast
    ring
  rw [hhalf]
  constructor
  · intro h
    refine (hiff [] Keyspace.empty rfl).mp fun ts hts s t hst => ?_
    rw [← requests_tally hopen]
    exact h [] Keyspace.empty rfl ts hts s t hst
  · intro h key db hfresh ts hts s t hst
    rw [requests_tally hopen]
    exact (hiff key db hfresh).mpr h ts hts s t hst

def redisLimiterIn (N : Arithmetic) (cfg : RateLimitConfig) : Limiter :=
  let p := parseRateLimitParamsIn N cfg
  Limiter.newIn N p.ratePerSecond p.burst p.ttl (redisPrefix cfg)

abbrev redisLimiter (cfg : RateLimitConfig) : Limiter := redisLimiterIn .exact cfg

theorem initRedis_eq {N : Arithmetic} {cfg : RateLimitConfig} {lim : Limiter} (h : initRedisIn N cfg = some lim) :
    lim = redisLimiterIn N cfg := by
  unfold initRedisIn at h
  simp only at h
  split at h
  · exact (Option.some.inj h).symm
  · cases h

theorem initRedis_external {cfg : RateLimitConfig} (hext : cfg.external.enabled = true) :
    initRedis cfg = some (redisLimiter cfg) := if_pos (Or.inr hext)

theorem ratePerSecond_parseRateLimitParams (cfg : RateLimitConfig) :
    0 < (parseRateLimitParams cfg).ratePerSecond ↔ 0 < cfg.static.average := by
  have hrate : (parseRateLimitParams cfg).ratePerSecond =
      if 0 < cfg.static.average then ratePerSecond cfg.static.average (parsePeriod cfg.static.period) else 0 := rfl
  rw [hrate]
  split_ifs with h
  · exact iff_of_true (ratePerSecond_pos h (parsePeriod_pos _)) h
  · exact iff_of_false (lt_irrefl _) h

theorem initRedis_of_pos {cfg : RateLimitConfig} (ha : 0 < cfg.static.average) :
    initRedis cfg = some (Limiter.new (ratePerSecond cfg.static.average (parsePeriod cfg.static.period))
      (max cfg.static.burst 1) (parseRateLimitParams cfg).ttl (redisPrefix cfg)) := by
  have hrate : (parseRateLimitParams cfg).ratePerSecond =
      ratePerSecond cfg.static.average (parsePeriod cfg.static.period) := if_pos ha
  have hpos := ratePerSecond_pos ha (parsePeriod_pos cfg.static.period)
  unfold initRedis initRedisIn
  simp only [hrate]
  rw [if_pos (Or.inl hpos)]
  rfl

theorem burst_le_ttl_iff {average period burst minSeconds : ℤ} (ha : 0 < average) (hp : 0 < period)
    (hb : 1 ≤ burst) :
    (burst : ℚ) ≤ ratePerSecond average period / 1000000 *
        (max (baseTTL (ratePerSecond average period) period) minSeconds * 500000 - 999999 : ℤ) ↔
      (period ≤ average * 1000000000 ∧
        burst * period ≤ 1000 * average * (ceilSeconds period * 1000000 - 999999)) ∨
      burst * period ≤ 1000 * average * (minSeconds * 500000 - 999999) := by
  have hrate : 0 ≤ ratePerSecond average period / 1000000 := by
    have := ratePerSecond_pos ha hp
    positivity
  have hbase : (burst : ℚ) ≤ ratePerSecond average period / 1000000 *
      (baseTTL (ratePerSecond average period) period * 500000 - 999999 : ℤ) ↔
      period ≤ average * 1000000000 ∧
        burst * period ≤ 1000 * average * (ceilSeconds period * 1000000 - 999999) := by
    by_cases hfast : period ≤ average * 1000000000
    · rw [baseTTL_of_fast hp hfast, burst_le_refill_iff hp, mul_assoc (ceilSeconds period)]
      simp only [hfast, true_and]
      rfl
    · simp only [hfast, false_and, iff_false]
      exact not_burst_le_of_slow ha hp hb (not_le.mp hfast)
  rw [← hbase, ← burst_le_refill_iff hp]
  -- the refill grows with the TTL, so the larger of the two terms decides
  rcases le_total (baseTTL (ratePerSecond average period) period) minSeconds with hle | hle
  · rw [max_eq_right hle]
    refine ⟨Or.inr, fun h => h.elim (fun h => h.trans (mul_le_mul_of_nonneg_left ?_ hrate)) id⟩
    exact_mod_cast (by omega : baseTTL (ratePerSecond average period) period * 500000 - 999999 ≤
      minSeconds * 500000 - 999999)
  · rw [max_eq_left hle]
    refine ⟨Or.inl, fun h => h.elim id (fun h => h.trans (mul_le_mul_of_nonneg_left ?_ hrate))⟩
    exact_mod_cast (by omega : minSeconds * 500000 - 999999 ≤
      baseTTL (ratePerSecond average period) period * 500000 - 999999)

theorem refill_le_ttl {burst ttl : ℤ} {rate : ℚ} (hr : 0 < rate) (ht : 0 ≤ ttl)
    (h : (burst : ℚ) ≤ rate / 1000000 * (ttl * 500000 - 999999 : ℤ)) : (burst : ℚ) / rate ≤ ttl := by
  have htq : (0 : ℚ) ≤ ttl := by exact_mod_cast ht
  have hmul := mul_nonneg hr.le htq
  rw [div_le_iff₀ hr]
  push_cast at h
  linarith

/-- **The static limit.** The TTL outlasts the refill of a burst and the window bound survives
expiry exactly when the period is no slower than a token a second and long enough to earn the
burst again, less a second of rounding, or half of `min_ttl` is. -/
theorem static_limit_iff {rl cfg : RateLimitConfig} (hval : validateRateLimit rl = .ok cfg)
    (havg : 0 < cfg.static.average) :
    ((cfg.static.burst : ℚ) / (parseRateLimitParams cfg).ratePerSecond ≤ (parseRateLimitParams cfg).ttl ∧
      ∃ lim, initRedis cfg = some lim ∧ Bounded lim none cfg.static.burst
        (ratePerSecond cfg.static.average (parsePeriod cfg.static.period) / 1000000)) ↔
      (parsePeriod cfg.static.period ≤ cfg.static.average * 1000000000 ∧
        cfg.static.burst * parsePeriod cfg.static.period ≤
          1000 * cfg.static.average * (ceilSeconds (parsePeriod cfg.static.period) * 1000000 - 999999)) ∨
      cfg.static.burst * parsePeriod cfg.static.period ≤
        1000 * cfg.static.average * (minTTLSeconds cfg.minTTL * 500000 - 999999) := by
  have hburst := burst_of_validateRateLimit hval
  have hp := parsePeriod_pos cfg.static.period
  have hpos := ratePerSecond_pos havg hp
  have hrate : (parseRateLimitParams cfg).ratePerSecond =
      ratePerSecond cfg.static.average (parsePeriod cfg.static.period) := if_pos havg
  have httl : (parseRateLimitParams cfg).ttl = max (baseTTL (ratePerSecond cfg.static.average
      (parsePeriod cfg.static.period)) (parsePeriod cfg.static.period)) (minTTLSeconds cfg.minTTL) := by
    rw [← hrate]
    exact parseBucketParams_ttl ..
  have htwo : 2 ≤ (parseRateLimitParams cfg).ttl :=
    two_le_ttl .exact cfg.static.average cfg.static.burst cfg.static.period cfg.minTTL
  have hinit := initRedis_of_pos havg
  rw [max_eq_left hburst] at hinit
  have hbounded := bounded_iff (Limiter.new (ratePerSecond cfg.static.average
    (parsePeriod cfg.static.period)) cfg.static.burst (parseRateLimitParams cfg).ttl (redisPrefix cfg))
    none rfl (div_pos hpos (by norm_num)) hburst htwo
  rw [← burst_le_ttl_iff havg hp hburst, ← httl]
  constructor
  · rintro ⟨-, lim, hlim, h⟩
    rw [hinit, Option.some.injEq] at hlim
    subst hlim
    exact hbounded.mp h
  · intro h
    rw [hrate]
    exact ⟨refill_le_ttl hpos (by omega) h, _, hinit, hbounded.mpr h⟩

def plainSection (average burst : ℤ) (period : String) (external : Bool) : RateLimitConfig where
  static := ⟨average, burst, str period, { type := .unset }⟩
  failurePolicy := .unset
  failureCode := 0
  keyPrefix := []
  external := ⟨external, str "http://limits", [], ⟨1, 1, [], { type := .clientIP }⟩⟩
  minTTL := []

def plainConfig (rl : RateLimitConfig) : CoreConfig :=
  ⟨⟨[], [], [], [], []⟩, ⟨[], [], ⟨[], [], [], [], [], [], []⟩⟩, ⟨[], [], []⟩, rl⟩

theorem static_limit_hundred_a_minute :
    ∃ lim, initRedis (plainSection 100 50 "1m" false) = some lim ∧
      Bounded lim none 50 (ratePerSecond 100 (parsePeriod (str "1m")) / 1000000) := by
  have hperiod : parsePeriod (str "1m") = 60000000000 := by decide +kernel
  have hceil : ceilSeconds 60000000000 = 60 := by decide +kernel
  have hvalid : validateRateLimit (plainSection 100 50 "1m" false) = .ok (plainSection 100 50 "1m" false) := rfl
  refine ((static_limit_iff hvalid (by decide)).mpr (Or.inl ?_)).2
  simp only [plainSection, hperiod, hceil]
  decide

/-- One token a second with a burst of ten: the TTL is 2 s where a refill takes 10 s, and
twenty requests are admitted within two seconds. -/
theorem static_limit_overrun :
    validateRateLimit (plainSection 1 10 "1s" false) = .ok (plainSection 1 10 "1s" false) ∧
    validateDurations (plainConfig (plainSection 1 10 "1s" false)) = .ok () ∧
    (parseRateLimitParams (plainSection 1 10 "1s" false)).ttl = 2 ∧
    (parseRateLimitParams (plainSection 1 10 "1s" false)).ratePerSecond = 1 ∧
    ¬((requests (initRedis (plainSection 1 10 "1s" false)) (str "ip") none).tally
      (admittedIn 10000000 12000000) Keyspace.empty
      (List.replicate 10 10000000 ++ List.replicate 10 12000000) : ℚ) ≤
        10 + 1 / 1000000 * (12000000 - 10000000) := by
  refine ⟨rfl, rfl, ?_, ?_, ?_⟩ <;> decide +kernel

/-- **External limits.** The service's rate and burst are charged under the TTL of the static
configuration, so the bound survives expiry exactly when that TTL happens to cover them. -/
theorem external_limit_iff {cfg : RateLimitConfig} {lim : Limiter} (hlim : initRedis cfg = some lim)
    {ext : ExternalLimits} (havg : 0 < ext.average) (hburst : 1 ≤ ext.burst) {period : ℤ}
    (hparse : Time.parseDuration ext.period = .ok period) (hperiod : 0 < period) :
    Bounded lim (some ext) ext.burst (ratePerSecond ext.average period / 1000000) ↔
      ext.burst * period ≤ 1000 * ext.average * ((parseRateLimitParams cfg).ttl * 500000 - 999999) := by
  have hp : parsePeriod ext.period = period := by
    rw [parsePeriod, hparse]
    exact if_neg (not_le.mpr hperiod)
  have htwo : 2 ≤ (parseRateLimitParams cfg).ttl :=
    two_le_ttl .exact cfg.static.average cfg.static.burst cfg.static.period cfg.minTTL
  obtain ⟨hopen, httl⟩ : lim.closed = false ∧ lim.ttl = (parseRateLimitParams cfg).ttl := by
    rw [initRedis_eq hlim]
    exact ⟨rfl, rfl⟩
  have heff : effectiveLimits lim (some ext) =
      ⟨ratePerSecond ext.average period / 1000000, ext.burst, (parseRateLimitParams cfg).ttl⟩ := by
    rw [effectiveLimits, effectiveLimits_of_pos lim havg, hp, max_eq_left hburst, httl]
    rfl
  have hpos := ratePerSecond_pos havg hperiod
  have h := bounded_iff lim (some ext) hopen
  rw [heff] at h
  rw [h (div_pos hpos (by norm_num)) hburst htwo, burst_le_refill_iff hperiod]

theorem external_limit_within_static_ttl :
    Bounded (Limiter.new 0 1 120 (str "rl:edgequota:")) (some ⟨10, 5, str "1s"⟩) 5
      (ratePerSecond 10 1000000000 / 1000000) := by
  have hinit : initRedis (plainSection 0 0 "1m" true) = some (Limiter.new 0 1 120 (str "rl:edgequota:")) := by
    have httl : (parseRateLimitParams (plainSection 0 0 "1m" true)).ttl = 120 := by decide +kernel
    have hrate : (parseRateLimitParams (plainSection 0 0 "1m" true)).ratePerSecond = 0 := by decide +kernel
    have hburst : (parseRateLimitParams (plainSection 0 0 "1m" true)).burst = 1 := by decide +kernel
    unfold initRedis initRedisIn
    simp only [hrate, hburst, httl]
    rfl
  have httl : (parseRateLimitParams (plainSection 0 0 "1m" true)).ttl = 120 := by decide +kernel
  refine (external_limit_iff hinit (by decide) (by decide) (by decide +kernel) (by decide)).mpr ?_
  rw [httl]
  decide

theorem external_limit_overrun :
    validateRateLimit (plainSection 0 1 "" true) = .ok (plainSection 0 1 "" true) ∧
    validateDurations (plainConfig (plainSection 0 1 "" true)) = .ok () ∧
    (initRedis (plainSection 0 1 "" true)).isSome = true ∧
    ¬((requests (initRedis (plainSection 0 1 "" true)) (str "t:acme") (some ⟨1, 10, str "1s"⟩)).tally
      (admittedIn 10000000 12000000) Keyspace.empty
      (List.replicate 10 10000000 ++ List.replicate 10 12000000) : ℚ) ≤
        10 + ratePerSecond 1 1000000000 / 1000000 * (12000000 - 10000000) := by
  refine ⟨rfl, rfl, ?_, ?_⟩ <;> decide +kernel

end EdgeQuota.Middleware
