import EdgeQuota.Middleware.Chain
import EdgeQuota.RateLimit.Replies

/-! The durations of a rate-limit reply on their way to the client. The script counts microseconds in doubles;
`parseScriptResult` makes 64-bit nanoseconds of them, and `serveRateLimited` spreads the time to retry in doubles again. -/

namespace EdgeQuota.Middleware
open Lib Go Config RateLimit
open RateLimit.Arithmetic (binary64)

theorem truncate_eq_floor_iff {q : ℚ} (hq : 0 ≤ q) : truncate q = ⌊q⌋ ↔ ⌊q⌋ < 2 ^ 63 := by
  have hnonneg : 0 ≤ ⌊q⌋ := Int.floor_nonneg.mpr hq
  unfold truncate
  rw [trunc_of_nonneg hq]
  by_cases hlt : ⌊q⌋ < 2 ^ 63
  · rw [if_pos ⟨by omega, hlt⟩]
    exact iff_of_true rfl hlt
  · rw [if_neg fun h => hlt h.2]
    exact iff_of_false (by omega) hlt

theorem jitterFactor_mono : Monotone jitterFactor := by
  intro q q' hqq
  have hscale : 0 ≤ float64.fl (2 / 10) := float64.fl_nonneg (by norm_num)
  have hproduct := float64.mono (mul_le_mul_of_nonneg_right hqq hscale)
  exact float64.mono (by linarith)

theorem jitterFactor_largest : jitterFactor (1 - 1 / 2 ^ 53) = jitterFactor 1 ∧ 1 ≤ jitterFactor 1 := by
  constructor <;> decide +kernel

theorem jitterFactor_nonneg {q : ℚ} (hq : 0 ≤ q) : 0 ≤ jitterFactor q := by
  have hnine : 0 ≤ float64.fl (9 / 10) := float64.fl_nonneg (by norm_num)
  have hscale : 0 ≤ float64.fl (2 / 10) := float64.fl_nonneg (by norm_num)
  exact float64.fl_nonneg (add_nonneg hnine (float64.fl_nonneg (mul_nonneg hq hscale)))

def spread (micros : ℤ) (random : ℚ) : ℤ := ⌊float64.fl (float64.fl ((micros * 1000 : ℤ) : ℚ) * jitterFactor random)⌋

theorem spread_mono {m m' : ℤ} {q q' : ℚ} (hm : 0 ≤ m) (hmm : m ≤ m') (hq : 0 ≤ q) (hqq : q ≤ q') :
    spread m q ≤ spread m' q' := by
  have hmicros : (0 : ℚ) ≤ ((m * 1000 : ℤ) : ℚ) := by exact_mod_cast (by omega : 0 ≤ m * 1000)
  have hle : ((m * 1000 : ℤ) : ℚ) ≤ ((m' * 1000 : ℤ) : ℚ) := Int.cast_le.mpr (by omega)
  refine Int.floor_mono (float64.mono ?_)
  exact mul_le_mul (float64.mono hle) (jitterFactor_mono hqq) (jitterFactor_nonneg hq)
    (float64.fl_nonneg (hmicros.trans hle))

theorem spread_nonneg {m : ℤ} {q : ℚ} (hm : 0 ≤ m) (hq : 0 ≤ q) : 0 ≤ spread m q := by
  have hmicros : (0 : ℚ) ≤ ((m * 1000 : ℤ) : ℚ) := by exact_mod_cast (by omega : 0 ≤ m * 1000)
  exact Int.floor_nonneg.mpr
    (float64.fl_nonneg (mul_nonneg (float64.fl_nonneg hmicros) (jitterFactor_nonneg hq)))

theorem spread_fits_iff {m : ℤ} (hm : 0 ≤ m) :
    (∀ q : ℚ, 0 ≤ q → q < 1 → spread m q < 2 ^ 63) ↔ spread m 1 < 2 ^ 63 := by
  constructor
  · intro h
    have hlargest : spread m (1 - 1 / 2 ^ 53) = spread m 1 := by
      rw [spread, jitterFactor_largest.1, spread]
    rw [← hlargest]
    exact h _ (by norm_num) (by norm_num)
  · intro h q hq hq'
    exact (spread_mono hm le_rfl hq hq'.le).trans_lt h

theorem fits_of_spread {m : ℤ} (h : spread m 1 < 2 ^ 63) : m * 1000 < 2 ^ 63 := by
  by_contra hlarge
  have hfix : float64.fl (2 ^ 63) = 2 ^ 63 := by decide +kernel
  have hle : (2 : ℚ) ^ 63 ≤ ((m * 1000 : ℤ) : ℚ) := by exact_mod_cast not_lt.mp hlarge
  have hnanos : (2 : ℚ) ^ 63 ≤ float64.fl ((m * 1000 : ℤ) : ℚ) := float64.le_fl hfix hle
  have hproduct : (2 : ℚ) ^ 63 ≤ float64.fl ((m * 1000 : ℤ) : ℚ) * jitterFactor 1 :=
    hnanos.trans (le_mul_of_one_le_right (by linarith) jitterFactor_largest.2)
  have hspread : (2 ^ 63 : ℤ) ≤ spread m 1 := by
    rw [spread, Int.le_floor]
    exact_mod_cast float64.le_fl hfix hproduct
  omega

def retryDuration (result : Result) (random : ℚ) : ℤ :=
  truncate (float64.fl (float64.fl result.retryAfter * jitterFactor random))

/-- The result has the times of the reply in nanoseconds, and so has every spread of the time to retry. -/
structure Preserved (r : Reply) (result : Result) : Prop where
  retryAfter : result.retryAfter = r.retryAfter * 1000
  resetAfter : result.resetAfter = r.resetAfter * 1000
  spread : ∀ q : ℚ, 0 ≤ q → q < 1 → retryDuration result q = spread r.retryAfter q

theorem preserved_parseScriptResult_iff {r : Reply} (hretry : 0 ≤ r.retryAfter) (hreset : 0 ≤ r.resetAfter) :
    Preserved r (parseScriptResult r) ↔ r.resetAfter * 1000 < 2 ^ 63 ∧ spread r.retryAfter 1 < 2 ^ 63 := by
  have hnonneg : ∀ q : ℚ, 0 ≤ q →
      0 ≤ float64.fl (float64.fl ((r.retryAfter * 1000 : ℤ) : ℚ) * jitterFactor q) := by
    intro q hq
    have hmicros : (0 : ℚ) ≤ ((r.retryAfter * 1000 : ℤ) : ℚ) := by exact_mod_cast (by omega : 0 ≤ r.retryAfter * 1000)
    exact float64.fl_nonneg (mul_nonneg (float64.fl_nonneg hmicros) (jitterFactor_nonneg hq))
  constructor
  · intro h
    have hfits : -2 ^ 63 ≤ r.resetAfter * 1000 ∧ r.resetAfter * 1000 < 2 ^ 63 := int64_eq_self_iff.mp h.resetAfter
    refine ⟨hfits.2, (spread_fits_iff hretry).mp ?_⟩
    intro q hq hq'
    have heq := h.spread q hq hq'
    unfold retryDuration at heq
    rw [h.retryAfter] at heq
    exact (truncate_eq_floor_iff (hnonneg q hq)).mp heq
  · rintro ⟨hresetFits, hretryFits⟩
    have hnanos := fits_of_spread hretryFits
    have hretryEq : (parseScriptResult r).retryAfter = r.retryAfter * 1000 :=
      int64_eq_self_iff.mpr ⟨by omega, hnanos⟩
    refine ⟨hretryEq, int64_eq_self_iff.mpr ⟨by omega, hresetFits⟩, ?_⟩
    intro q hq hq'
    unfold retryDuration
    rw [hretryEq]
    exact (truncate_eq_floor_iff (hnonneg q hq)).mpr ((spread_fits_iff hretry).mpr hretryFits q hq hq')

def resetShown (micros : ℤ) : ℤ := ceilSecondsIn .binary64 (micros * 1000)

def retryShown (random : ℚ) (micros : ℤ) : ℕ := (max 1 (ceilSecondsIn .binary64 (spread micros random))).toNat

theorem ceilSeconds_mono {d d' : ℤ} (hd : 0 ≤ d) (hdd : d ≤ d') (hfits : d' < 2 ^ 63) :
    ceilSecondsIn .binary64 d ≤ ceilSecondsIn .binary64 d' := by
  have hq : (0 : ℚ) ≤ d := by exact_mod_cast hd
  have hle : (d : ℚ) ≤ d' := Int.cast_le.mpr hdd
  have hlt : (d' : ℚ) < 2 ^ 63 := by exact_mod_cast hfits
  refine Int.ceil_mono (seconds_mono (by positivity) (div_le_div_of_nonneg_right hle (by norm_num)) ?_)
  rw [div_le_iff₀ (by norm_num)]
  linarith

theorem resetShown_mono {m m' : ℤ} (hm : 0 ≤ m) (hmm : m ≤ m') (hfits : m' * 1000 < 2 ^ 63) :
    resetShown m ≤ resetShown m' := ceilSeconds_mono (by omega) (by omega) hfits

theorem retryShown_mono {random : ℚ} (h : 0 ≤ random) {m m' : ℤ} (hm : 0 ≤ m) (hmm : m ≤ m')
    (hfits : spread m' random < 2 ^ 63) : retryShown random m ≤ retryShown random m' := by
  have hceil := ceilSeconds_mono (spread_nonneg hm h) (spread_mono hm hmm h le_rfl) hfits
  exact Int.toNat_le_toNat (max_le_max_left 1 hceil)

structure Shown (r : Reply) (result : Result) : Prop where
  reset : ∀ s : Serving,
    (setRateLimitHeaders s result).w.header.get (str "X-RateLimit-Reset") = formatInt (resetShown r.resetAfter)
  retry : ∀ (s : Serving) (o : Outcomes), 0 ≤ o.random → o.random < 1 →
    (serveRateLimited s o result).w.header.get (str "Retry-After") = itoa (retryShown o.random r.retryAfter)

theorem get_set_self (h : Header) (key value : GoString) : (h.set key value).get key = value := by
  rw [Header.get, Header.values_set, if_pos rfl]
  rfl

theorem get_set_of_ne {h : Header} {key key' : GoString} (hne : canonicalHeaderKey key ≠ canonicalHeaderKey key')
    (value : GoString) : (h.set key value).get key' = h.get key' := by
  rw [Header.get, Header.values_set, if_neg hne, Header.get]

theorem header_writeJSONError (s : Serving) {code : ℤ} (hcode : validStatus code = true) (errType message : GoString)
    (retryAfter : ℕ) :
    (s.writeJSONError code errType message retryAfter).w.header =
      s.w.header.set (str "Content-Type") (str "application/json") := by
  have hwrite : ∀ (w : ResponseWriter) (b : GoString) (n : ℕ), (w.write b n).header = w.header := by
    intro w b n
    unfold ResponseWriter.write ResponseWriter.writeHeader
    split_ifs <;> rfl
  have hhead : ∀ w : ResponseWriter, (w.writeHeader code).header = w.header := by
    intro w
    unfold ResponseWriter.writeHeader
    split_ifs <;> rfl
  unfold Serving.writeJSONError
  simp only [hcode, if_true, hwrite, hhead]
  rfl

theorem Preserved.shown {r : Reply} {result : Result} (h : Preserved r result) : Shown r result := by
  constructor
  · intro s
    rw [resetShown, ← h.resetAfter]
    exact get_set_self ..
  · intro s o hlo hhi
    have hseconds : (max 1 (ceilSecondsIn .binary64 (retryDuration result o.random))).toNat =
        retryShown o.random r.retryAfter := by
      rw [h.spread o.random hlo hhi, retryShown]
    have htype : canonicalHeaderKey (str "Content-Type") ≠ canonicalHeaderKey (str "Retry-After") := by decide
    have hin : canonicalHeaderKey (str "X-Retry-In") ≠ canonicalHeaderKey (str "Retry-After") := by decide
    rw [serveRateLimited, header_writeJSONError _ (by decide), get_set_of_ne htype, ← hseconds]
    exact (get_set_of_ne hin _).trans (get_set_self ..)

structure Attempt where
  cfg : RateLimitConfig
  key : GoString
  ext : Option ExternalLimits
  m : Moment

def attempts : Machine (Redis GoString) Attempt RedisOutcome where
  step db a := tryRedisLimitIn .binary64 (initRedisIn .binary64 a.cfg) a.key a.ext a.m db

def charge (lim : Limiter) (key : GoString) (ext : Option ExternalLimits) (m : Moment) : Call GoString :=
  let e := effectiveLimitsIn .binary64 lim ext
  ⟨lim.keyPrefix ++ key, ⟨e.rate, e.burst, e.ttl, m.now⟩, m.clock⟩

/-- After some requests the script replies `r` under these limits, and `tryRedisLimit` makes `result` of it. -/
def Produced (lim : Limiter) (ext : Option ExternalLimits) (r : Reply) (result : Result) : Prop :=
  ∃ (as : List Attempt) (key : GoString) (m : Moment), m.fault = none ∧
    r = (binary64.script.step (attempts.run Keyspace.empty as) (charge lim key ext m)).1 ∧
    (tryRedisLimitIn .binary64 (some lim) key ext m (attempts.run Keyspace.empty as)).1 = .result result

def Fits (e : Limits) : Prop :=
  0 < e.rate → ⌈binary64.fl (binary64.fl e.burst / e.rate)⌉ * 1000 < 2 ^ 63 ∧
    spread ⌈binary64.fl (1 / e.rate)⌉ 1 < 2 ^ 63

instance (e : Limits) : Decidable (Fits e) := inferInstanceAs (Decidable (_ → _))

theorem tryRedisLimit_fault {lim : Limiter} (hopen : lim.closed = false) (key : GoString) (ext : Option ExternalLimits)
    {m : Moment} {e : RedisError} (hfault : m.fault = some e) (db : Redis GoString) :
    (tryRedisLimitIn .binary64 (some lim) key ext m db).2 = db := by
  cases he : ext.filter (0 < ·.average) <;>
    simp only [tryRedisLimitIn, he, Limiter.allowIn, Limiter.allowWithOverridesIn, hopen, Limiter.evalScriptIn,
      hfault] <;> rfl

section Installed
variable {cfg : RateLimitConfig} {lim : Limiter} (hlim : initRedisIn .binary64 cfg = some lim)
include hlim

theorem open_of_initRedis : lim.closed = false := by
  rw [initRedis_eq hlim]
  rfl

theorem effective_sound (ext : Option ExternalLimits) :
    let e := effectiveLimitsIn .binary64 lim ext
    binary64.fl e.rate = e.rate ∧ 1 ≤ e.burst ∧ 2 ≤ e.ttl := by
  have httl : 2 ≤ lim.ttl := by
    rw [initRedis_eq hlim]
    exact two_le_ttl .binary64 cfg.static.average cfg.static.burst cfg.static.period cfg.minTTL
  by_cases h : ∃ e ∈ ext, 0 < e.average
  · obtain ⟨e, rfl, he⟩ := h
    rw [effectiveLimits_of_pos lim he]
    exact ⟨binary64.fl_fl _, le_max_right _ _, httl⟩
  · have hnone : ∀ e ∈ ext, ¬0 < e.average := fun e he hpos => h ⟨e, he, hpos⟩
    rw [effectiveLimits_of_not_pos lim hnone]
    refine ⟨?_, ?_, httl⟩
    · rw [initRedis_eq hlim]
      exact binary64.fl_fl _
    · rw [initRedis_eq hlim]
      exact le_max_right _ _

theorem tryRedisLimit_charge (key : GoString) (ext : Option ExternalLimits) {m : Moment} (hfault : m.fault = none)
    (db : Redis GoString) :
    tryRedisLimitIn .binary64 (some lim) key ext m db =
      (.result (parseScriptResult (binary64.script.step db (charge lim key ext m)).1),
       (binary64.script.step db (charge lim key ext m)).2) :=
  tryRedisLimit_eq_in (open_of_initRedis hlim) key ext hfault db

end Installed

theorem solvent_attempt {db : Redis GoString} (h : Solvent db) (a : Attempt) : Solvent (attempts.step db a).2 := by
  change Solvent (tryRedisLimitIn .binary64 (initRedisIn .binary64 a.cfg) a.key a.ext a.m db).2
  cases hlim : initRedisIn .binary64 a.cfg with
  | none => exact h
  | some lim =>
    cases hfault : a.m.fault with
    | some e =>
      rw [tryRedisLimit_fault (open_of_initRedis hlim) a.key a.ext hfault]
      exact h
    | none =>
      obtain ⟨-, hburst, -⟩ := effective_sound hlim a.ext
      rw [tryRedisLimit_charge hlim a.key a.ext hfault]
      exact h.step (show 0 ≤ (effectiveLimitsIn .binary64 lim a.ext).burst by omega)

theorem solvent_attempts (as : List Attempt) : Solvent (attempts.run Keyspace.empty as) :=
  Machine.run_of_invariant (P := fun _ _ => True) (I := Solvent) (fun _ a h _ => solvent_attempt h a) solvent_empty
    (Machine.along_of_forall fun _ _ _ => trivial)

structure Said (e : Limits) (r : Reply) (x : ℚ) : Prop where
  reset : r.resetAfter = binary64.toInteger ⌈binary64.fl (binary64.fl (binary64.fl e.burst - x) / e.rate)⌉
  retry : r.retryAfter = if 1 ≤ x then 0 else binary64.toInteger ⌈binary64.fl (binary64.fl (1 - x) / e.rate)⌉

theorem said_reply {db : Redis GoString} {lim : Limiter} {key : GoString} {ext : Option ExternalLimits} {m : Moment}
    (hrate : 0 < (effectiveLimitsIn .binary64 lim ext).rate)
    (hfix : binary64.fl (effectiveLimitsIn .binary64 lim ext).rate = (effectiveLimitsIn .binary64 lim ext).rate) :
    Said (effectiveLimitsIn .binary64 lim ext) (binary64.script.step db (charge lim key ext m)).1
      (binary64.available (charge lim key ext m).args
        (hmget db (charge lim key ext m).clock (charge lim key ext m).key)) := by
  have hpos : 0 < binary64.fl (charge lim key ext m).args.rate := hrate.trans_eq hfix.symm
  have hdivisor : binary64.fl (charge lim key ext m).args.rate = (effectiveLimitsIn .binary64 lim ext).rate := hfix
  constructor
  · rw [resetAfter_eq_in hpos (by decide), hdivisor]
    rfl
  · rw [script_step_in hpos, Arithmetic.replyOf, hdivisor]
    split_ifs <;> rfl

theorem toInteger_of_fits {n : ℤ} (hn : 0 ≤ n) (h : n * 1000 < 2 ^ 63) : binary64.toInteger n = n :=
  toInteger_of_lt (by omega) (by omega)

theorem fits_of_toInteger {n : ℤ} (hn : 0 ≤ n)
    (h : int64 (binary64.toInteger n * 1000) = binary64.toInteger n * 1000) : n * 1000 < 2 ^ 63 := by
  by_cases hlt : n < 2 ^ 63
  · rw [toInteger_of_lt (by omega) hlt] at h
    exact (int64_eq_self_iff.mp h).2
  · -- the least integer is a thousandth of no duration
    have hleast : binary64.toInteger n = -2 ^ 63 := if_neg fun hin => hlt hin.2
    rw [hleast] at h
    have := (int64_eq_self_iff.mp h).1
    omega

theorem missing_le {e : Limits} {x c : ℚ} (hrate : 0 < e.rate) (hx : 0 ≤ x) (hc : binary64.fl c = c) :
    ⌈binary64.fl (binary64.fl (c - x) / e.rate)⌉ ≤ ⌈binary64.fl (c / e.rate)⌉ :=
  Int.ceil_mono (binary64.mono (div_le_div_of_nonneg_right (binary64.fl_le hc (by linarith)) hrate.le))

theorem missing_nonneg {e : Limits} {x c : ℚ} (hrate : 0 < e.rate) (hc : x ≤ c) : 0 ≤ ⌈binary64.fl (binary64.fl (c - x) / e.rate)⌉ :=
  Int.ceil_nonneg (binary64.fl_nonneg (div_nonneg (binary64.fl_nonneg (by linarith)) hrate.le))

theorem Said.bounds {e : Limits} {r : Reply} {x : ℚ} (h : Said e r x) (hrate : 0 < e.rate) (hx : 0 ≤ x)
    (hle : x ≤ binary64.fl e.burst) (hfits : Fits e) :
    0 ≤ r.retryAfter ∧ 0 ≤ r.resetAfter ∧ r.resetAfter * 1000 < 2 ^ 63 ∧ spread r.retryAfter 1 < 2 ^ 63 := by
  obtain ⟨hburst, htoken⟩ := hfits hrate
  have hone : binary64.fl 1 = 1 := binary64.fl_one
  have hresetLe := missing_le hrate hx (binary64.fl_fl e.burst)
  have hresetNonneg := missing_nonneg hrate hle
  have hresetEq := h.reset
  rw [toInteger_of_fits hresetNonneg (by omega)] at hresetEq
  have hretry : 0 ≤ r.retryAfter ∧ r.retryAfter ≤ ⌈binary64.fl (1 / e.rate)⌉ := by
    rw [h.retry]
    split_ifs with hlarge
    · exact ⟨le_rfl, Int.ceil_nonneg (binary64.fl_nonneg (by positivity))⟩
    · have hretryLe := missing_le hrate hx hone
      have hretryNonneg := missing_nonneg hrate (not_le.mp hlarge).le
      have hnanos := fits_of_spread htoken
      rw [toInteger_of_fits hretryNonneg (by omega)]
      exact ⟨hretryNonneg, hretryLe⟩
  refine ⟨hretry.1, by omega, by omega, ?_⟩
  exact (spread_mono hretry.1 hretry.2 zero_le_one le_rfl).trans_lt htoken

theorem Said.fits {e : Limits} {r : Reply} (h : Said e r 0) (hrate : 0 < e.rate) (hburst : 1 ≤ e.burst)
    (hpreserved : Preserved r (parseScriptResult r)) :
    ⌈binary64.fl (binary64.fl e.burst / e.rate)⌉ * 1000 < 2 ^ 63 ∧ spread ⌈binary64.fl (1 / e.rate)⌉ 1 < 2 ^ 63 := by
  have hone : binary64.fl 1 = 1 := binary64.fl_one
  have hcap : (0 : ℚ) ≤ binary64.fl e.burst := binary64.fl_nonneg (by exact_mod_cast zero_le_one.trans hburst)
  have hresetNonneg : 0 ≤ ⌈binary64.fl (binary64.fl e.burst / e.rate)⌉ :=
    Int.ceil_nonneg (binary64.fl_nonneg (div_nonneg hcap hrate.le))
  have hretryNonneg : 0 ≤ ⌈binary64.fl (1 / e.rate)⌉ := Int.ceil_nonneg (binary64.fl_nonneg (by positivity))
  have hreset := h.reset
  have hretry := h.retry
  rw [sub_zero, binary64.fl_fl] at hreset
  rw [if_neg (by norm_num), sub_zero, hone] at hretry
  have hresetKept : int64 (r.resetAfter * 1000) = r.resetAfter * 1000 := hpreserved.resetAfter
  have hretryKept : int64 (r.retryAfter * 1000) = r.retryAfter * 1000 := hpreserved.retryAfter
  rw [hreset] at hresetKept
  rw [hretry] at hretryKept
  have hresetFits := fits_of_toInteger hresetNonneg hresetKept
  have hretryFits := fits_of_toInteger hretryNonneg hretryKept
  rw [toInteger_of_fits hresetNonneg hresetFits] at hreset
  rw [toInteger_of_fits hretryNonneg hretryFits] at hretry
  rw [← hreset, ← hretry]
  exact (preserved_parseScriptResult_iff (hretry.symm ▸ hretryNonneg) (hreset.symm ▸ hresetNonneg)).mp hpreserved

section Installed
variable {cfg : RateLimitConfig} {lim : Limiter} (hlim : initRedisIn .binary64 cfg = some lim)
include hlim

theorem Produced.eq_parse {ext : Option ExternalLimits} {r : Reply} {result : Result} (h : Produced lim ext r result) :
    result = parseScriptResult r := by
  obtain ⟨as, key, m, hfault, hr, hresult⟩ := h
  rw [tryRedisLimit_charge hlim key ext hfault, ← hr] at hresult
  injection hresult with hparse
  exact hparse.symm

theorem Produced.bounds {ext : Option ExternalLimits} {r : Reply} {result : Result} (h : Produced lim ext r result)
    (hfits : Fits (effectiveLimitsIn .binary64 lim ext)) :
    0 ≤ r.retryAfter ∧ 0 ≤ r.resetAfter ∧ r.resetAfter * 1000 < 2 ^ 63 ∧ spread r.retryAfter 1 < 2 ^ 63 := by
  obtain ⟨as, key, m, -, rfl, -⟩ := h
  obtain ⟨hfix, hburst, -⟩ := effective_sound hlim ext
  by_cases hrate : 0 < (effectiveLimitsIn .binary64 lim ext).rate
  · have hpos : 0 < binary64.fl (charge lim key ext m).args.rate := hrate.trans_eq hfix.symm
    have hcharge : 0 ≤ (charge lim key ext m).args.burst := zero_le_one.trans hburst
    exact (said_reply hrate hfix).bounds hrate ((solvent_attempts as).available_nonneg hpos hcharge)
      (min_le_left _ _) hfits
  · have hoff : binary64.fl (charge lim key ext m).args.rate ≤ 0 := hfix.trans_le (not_lt.mp hrate)
    have hsame := congrArg Prod.fst (Arithmetic.rateLimitLua_disabled (charge lim key ext m).key hoff
      (charge lim key ext m).clock (attempts.run Keyspace.empty as))
    have hzero : spread 0 1 < 2 ^ 63 := by decide +kernel
    change (binary64.script.step (attempts.run Keyspace.empty as) (charge lim key ext m)).1 = _ at hsame
    rw [hsame]
    exact ⟨le_rfl, le_rfl, by norm_num, hzero⟩

end Installed

theorem available_drained {db : Redis GoString} {c : Call GoString} (hrate : 0 < binary64.fl c.args.rate)
    (hburst : c.args.burst = 1) (hnow : c.args.now = 0) (httl : 0 ≤ c.args.ttl) (hfresh : db c.key = none) {a : Args}
    (hanow : a.now = 0) (haburst : 0 ≤ a.burst) (clock : ℤ) :
    binary64.available a (hmget (binary64.script.step db c).2 clock c.key) = 0 := by
  have hfind : db.find c.clock c.key = none := Keyspace.find_of_none hfresh c.clock
  have hone : binary64.fl ((1 : ℤ) : ℚ) = 1 := by exact_mod_cast binary64.fl_one
  have hzero : binary64.fl ((0 : ℤ) : ℚ) = 0 := by
    rw [Int.cast_zero]
    exact binary64.fl_zero
  have hkeep : ¬binary64.needsExpire c.args (hmget db c.clock c.key) := by
    have hhalf : 0 ≤ binary64.fl (binary64.fl c.args.ttl * 500000) :=
      binary64.fl_nonneg (mul_nonneg (binary64.fl_nonneg (by exact_mod_cast httl)) (by norm_num))
    rw [hmget_of_find_none hfind, Arithmetic.needsExpire, hnow, hzero]
    simpa using hhalf
  have hslot : (binary64.script.step db c).2 c.key =
      some ⟨binary64.written c.args (hmget db c.clock c.key), none⟩ := by
    rw [slot_after hrate, Arithmetic.slotAfter, if_neg hkeep, hfind]
    rfl
  have hfound : (binary64.script.step db c).2.find clock c.key =
      some ⟨binary64.written c.args (hmget db c.clock c.key), none⟩ := Keyspace.find_eq_some.mpr ⟨hslot, rfl⟩
  have htokens : binary64.take (binary64.available c.args (hmget db c.clock c.key)) = 0 := by
    rw [hmget_of_find_none hfind, available_empty_in hrate, hburst, hone, Rounding.take, if_pos le_rfl, sub_self,
      binary64.fl_zero]
  have hcap : 0 ≤ binary64.fl a.burst := binary64.fl_nonneg (by exact_mod_cast haburst)
  have htokensWritten : binary64.written c.args (hmget db c.clock c.key) .tokens = some 0 := congrArg some htokens
  have hlastWritten : binary64.written c.args (hmget db c.clock c.key) .last = some 0 := by
    rw [Arithmetic.written, hnow, hzero]
  rw [hmget_of_find_some hfound]
  simp only [Arithmetic.available, htokensWritten, hlastWritten, Option.getD_some, hanow, hzero, binary64.fl_zero,
    min_self, sub_self, mul_zero, add_zero]
  exact min_eq_right hcap

def singleSection (cfg : RateLimitConfig) : RateLimitConfig := { cfg with static := { cfg.static with burst := 1 } }

def singleLimits (e : ExternalLimits) : ExternalLimits := { e with burst := 1 }

theorem effective_single (cfg : RateLimitConfig) (ext : Option ExternalLimits) :
    let e := effectiveLimitsIn .binary64 (redisLimiterIn .binary64 (singleSection cfg)) (ext.map singleLimits)
    e.rate = (effectiveLimitsIn .binary64 (redisLimiterIn .binary64 cfg) ext).rate ∧ e.burst = 1 := by
  by_cases h : ∃ e ∈ ext, 0 < e.average
  · obtain ⟨e, rfl, he⟩ := h
    rw [Option.map_some, effectiveLimits_of_pos (e := singleLimits e) _ he, effectiveLimits_of_pos _ he]
    exact ⟨rfl, rfl⟩
  · have hnone : ∀ e ∈ ext, ¬0 < e.average := fun e he hpos => h ⟨e, he, hpos⟩
    have hsingle : ∀ e ∈ ext.map singleLimits, ¬0 < e.average := by
      intro e he
      obtain ⟨e', he', rfl⟩ := Option.mem_map.mp he
      exact hnone e' he'
    rw [effectiveLimits_of_not_pos _ hsingle, effectiveLimits_of_not_pos _ hnone]
    exact ⟨rfl, rfl⟩

section Installed
variable {cfg : RateLimitConfig} {lim : Limiter} (hlim : initRedisIn .binary64 cfg = some lim)
include hlim

theorem initRedis_single : initRedisIn .binary64 (singleSection cfg) = some (redisLimiterIn .binary64 (singleSection cfg)) := by
  unfold initRedisIn at hlim ⊢
  simp only at hlim ⊢
  split at hlim
  · rename_i hon
    exact if_pos hon
  · cases hlim

theorem exists_produced_empty {ext : Option ExternalLimits} (hrate : 0 < (effectiveLimitsIn .binary64 lim ext).rate) :
    ∃ r result, Produced lim ext r result ∧ Said (effectiveLimitsIn .binary64 lim ext) r 0 := by
  obtain ⟨hfix, hburst, -⟩ := effective_sound hlim ext
  have hsingle := initRedis_single hlim
  obtain ⟨-, -, httl⟩ := effective_sound hsingle (ext.map singleLimits)
  have heq : lim = redisLimiterIn .binary64 cfg := initRedis_eq hlim
  obtain ⟨hsame, hone⟩ := effective_single cfg ext
  rw [← heq] at hsame
  have hkey : (redisLimiterIn .binary64 (singleSection cfg)).keyPrefix = lim.keyPrefix := by
    rw [heq]
    rfl
  let m : Moment := ⟨0, 0, none⟩
  let first := charge (redisLimiterIn .binary64 (singleSection cfg)) [] (ext.map singleLimits) m
  let as : List Attempt := [⟨singleSection cfg, [], ext.map singleLimits, m⟩]
  have hrun : attempts.run Keyspace.empty as =
      (binary64.script.step Keyspace.empty first).2 := by
    change (tryRedisLimitIn .binary64 (initRedisIn .binary64 (singleSection cfg)) [] _ m Keyspace.empty).2 = _
    rw [hsingle, tryRedisLimit_charge hsingle [] _ rfl]
  have hfirst : 0 < binary64.fl first.args.rate := by
    change 0 < binary64.fl (effectiveLimitsIn .binary64 (redisLimiterIn .binary64 (singleSection cfg)) _).rate
    rw [hsame, hfix]
    exact hrate
  have hcharge : (charge lim [] ext m).key = first.key := congrArg (· ++ []) hkey.symm
  have hempty : binary64.available (charge lim [] ext m).args
      (hmget (attempts.run Keyspace.empty as)
        (charge lim [] ext m).clock (charge lim [] ext m).key) = 0 := by
    rw [hrun, hcharge]
    exact available_drained hfirst hone rfl (zero_le_two.trans httl) rfl rfl (zero_le_one.trans hburst) 0
  refine ⟨_, _, ⟨as, [], m, rfl, rfl, congrArg Prod.fst (tryRedisLimit_charge hlim [] ext rfl _)⟩, ?_⟩
  rw [← hempty]
  exact said_reply hrate hfix

/-- **Durations are preserved.** Every reply that the script can give under some limits reaches the client with its times,
spread or not, exactly if the refill of a burst, and of one token with the largest spread, fits into 64 bits of
nanoseconds. Then neither header is negative, and both are monotone functions of the microseconds in the reply. -/
theorem durations_preserved_iff (ext : Option ExternalLimits) :
    ((∀ r result, Produced lim ext r result → Preserved r result) ↔ Fits (effectiveLimitsIn .binary64 lim ext)) ∧
      (Fits (effectiveLimitsIn .binary64 lim ext) →
        ∀ r result, Produced lim ext r result → Shown r result ∧ 0 ≤ resetShown r.resetAfter ∧
          0 ≤ r.resetAfter ∧ r.resetAfter * 1000 < 2 ^ 63 ∧ 0 ≤ r.retryAfter ∧ spread r.retryAfter 1 < 2 ^ 63) ∧
      (∀ m m' : ℤ, 0 ≤ m → m ≤ m' → m' * 1000 < 2 ^ 63 → resetShown m ≤ resetShown m') ∧
      ∀ random : ℚ, 0 ≤ random → random < 1 → ∀ m m' : ℤ, 0 ≤ m → m ≤ m' → spread m' 1 < 2 ^ 63 →
        retryShown random m ≤ retryShown random m' := by
  have hpreserved : Fits (effectiveLimitsIn .binary64 lim ext) →
      ∀ r result, Produced lim ext r result → Preserved r result := by
    intro hfits r result h
    obtain ⟨hretry, hreset, hbounds⟩ := h.bounds hlim hfits
    rw [h.eq_parse hlim, preserved_parseScriptResult_iff hretry hreset]
    exact hbounds
  refine ⟨⟨?_, hpreserved⟩, ?_, fun _ _ => resetShown_mono, ?_⟩
  · intro hall hrate
    obtain ⟨r, result, h, hsaid⟩ := exists_produced_empty hlim hrate
    have hexact := hall r result h
    rw [h.eq_parse hlim] at hexact
    exact hsaid.fits hrate (effective_sound hlim ext).2.1 hexact
  · intro hfits r result h
    obtain ⟨hretry, hreset, hresetFits, hretryFits⟩ := h.bounds hlim hfits
    have hq : (0 : ℚ) ≤ (r.resetAfter * 1000 : ℤ) := by exact_mod_cast (by omega : 0 ≤ r.resetAfter * 1000)
    have hshown : 0 ≤ resetShown r.resetAfter := Int.ceil_nonneg (seconds_nonneg _ (by positivity))
    exact ⟨(hpreserved hfits r result h).shown, hshown, hreset, hresetFits, hretry, hretryFits⟩
  · intro random hlo hhi m m' hm hmm hfits
    exact retryShown_mono hlo hm hmm ((spread_fits_iff (hm.trans hmm)).mpr hfits random hlo hhi)

end Installed

theorem durations_preserved_hundred_a_minute :
    let lim := redisLimiterIn .binary64 (plainSection 100 50 "1m" false)
    Fits (effectiveLimitsIn .binary64 lim none) ∧ ∀ r result, Produced lim none r result → Preserved r result := by
  intro lim
  have hlim : initRedisIn .binary64 (plainSection 100 50 "1m" false) = some lim := if_pos (Or.inl (by decide +kernel))
  have hfits : Fits (effectiveLimitsIn .binary64 lim none) := by decide +kernel
  exact ⟨hfits, (durations_preserved_iff hlim none).1.mpr hfits⟩

/-- Two tokens in 580 years: the third request is told that its bucket was full again long ago, and with a large draw
that it may retry in a second. -/
theorem durations_wrap :
    let cfg := plainSection 1 2 "2540400h" false
    let lim := redisLimiterIn .binary64 cfg
    let r : Reply := ⟨0, 9145440000000000, 0, 2, 18290880000000000⟩
    let result : Result := ⟨false, 9145440000000000000, 0, 2, -155864073709551616⟩
    validateRateLimit cfg = .ok cfg ∧ validateDurations (plainConfig cfg) = .ok () ∧
      initRedisIn .binary64 cfg = some lim ∧ Produced lim none r result ∧ ¬Fits (effectiveLimitsIn .binary64 lim none) ∧
      (setRateLimitHeaders { w := {} } result).w.header.get (str "X-RateLimit-Reset") = str "-155864073" ∧
      (serveRateLimited { w := {} } { random := 9 / 10 } result).w.header.get (str "Retry-After") = str "1" ∧
      retryShown (9 / 10) r.retryAfter = 9877075200 := by
  intro cfg lim r result
  have hlim : initRedisIn .binary64 cfg = some lim := if_pos (Or.inl (by decide +kernel))
  have hreply : r = (binary64.script.step (attempts.run Keyspace.empty
      [⟨cfg, str "ip", none, ⟨10000000, 10000000, none⟩⟩, ⟨cfg, str "ip", none, ⟨10000000, 10000000, none⟩⟩])
      (charge lim (str "ip") none ⟨10000000, 10000000, none⟩)).1 := by decide +kernel
  have hresult : result = parseScriptResult r := by decide +kernel
  refine ⟨rfl, rfl, hlim, ⟨_, str "ip", ⟨10000000, 10000000, none⟩, rfl, hreply, ?_⟩, ?_, ?_, ?_, ?_⟩
  · rw [tryRedisLimit_charge hlim (str "ip") none rfl, ← hreply, hresult]
  all_goals decide +kernel

-- Ten tokens of 922337203685477500 ns each would just fit, if doubles could tell.
example : ¬Fits (effectiveLimitsIn .binary64
    (redisLimiterIn .binary64 (plainSection 1 10 "922337203685477500ns" false)) none) := by decide +kernel

end EdgeQuota.Middleware
