import EdgeQuota.Middleware.Chain

/-! What becomes of a request at the chain, apart from how it is answered: which stage refuses it and
with which code, and when every stage lets it on. -/

namespace EdgeQuota.Middleware
open Go Config RateLimit Auth

inductive Refusal where
  | overloaded
  | authDenied (code : ℤ)
  | authUnavailable
  | noKey
  | externalClosed (code : ℤ)
  | rateLimited
  | failClosed (code : ℤ)
  deriving DecidableEq

def Refusal.code : Refusal → ℤ
  | overloaded | authUnavailable => 503
  | noKey => 500
  | rateLimited => 429
  | authDenied code | externalClosed code | failClosed code => code

def ErrorStatus (code : ℤ) : Prop := 400 ≤ code ∧ code ≤ 599

/-- A request is handed on, with the result of the limiter if Redis decided, or refused, or left
without an answer. -/
inductive Decision where
  | forward (result : Option Result)
  | refuse (why : Refusal)
  | ignore
  deriving DecidableEq

def Decision.Forwards (d : Decision) : Prop := ∃ result, d = .forward result

theorem Decision.forwards_ite {p : Prop} [Decidable p] {result : Option Result} {why : Refusal} :
    (if p then Decision.forward result else .refuse why).Forwards ↔ p := by
  split_ifs with hp
  · exact ⟨fun _ => hp, fun _ => ⟨result, rfl⟩⟩
  · exact ⟨nofun, fun h => absurd h hp⟩

def Decision.andThen : Decision → Decision → Decision
  | .forward _, d => d
  | d, _ => d

theorem Decision.andThen_of_not_forwards {d : Decision} (h : ¬d.Forwards) (d' : Decision) : d.andThen d' = d := by
  cases d with
  | forward result => exact absurd ⟨result, rfl⟩ h
  | refuse why => rfl
  | ignore => rfl

namespace Chain

def Bypassed (c : Chain) (r : Request) : Prop := c.bypassPreflight = true ∧ isCORSPreflight r = true

instance (c : Chain) (r : Request) : Decidable (c.Bypassed r) := inferInstanceAs (Decidable (_ ∧ _))

def AuthPassed (c : Chain) (o : Outcomes) : Prop :=
  c.authClient = true →
    match o.cachedAuth.or o.authCheck with
    | some resp => resp.allowed = true
    | none => c.authFailurePolicy = .failOpen

def authDecision (c : Chain) (o : Outcomes) : Decision :=
  if !c.authClient then .forward none
  else
    match o.cachedAuth.or o.authCheck with
    | some resp =>
      if resp.allowed then .forward none
      else .refuse (.authDenied (if resp.statusCode = 0 then 403 else resp.statusCode))
    | none => if c.authFailurePolicy = .failOpen then .forward none else .refuse .authUnavailable

def RateLimitingOff (c : Chain) : Prop := c.staticRL.average = 0 ∧ c.externalRL = false

instance (c : Chain) : Decidable c.RateLimitingOff := inferInstanceAs (Decidable (_ ∧ _))

theorem rateLimitingOff_iff {c : Chain} :
    (c.staticRL.average = 0 ∧ (!c.externalRL) = true) ↔ c.RateLimitingOff := by
  rw [Bool.not_eq_true']
  exact Iff.rfl

theorem not_rateLimitingOff {c : Chain} (hext : c.externalRL = true) : ¬c.RateLimitingOff := by
  rintro ⟨-, hoff⟩
  rw [hext] at hoff
  cases hoff

theorem lookupKey_external {c : Chain} (hext : c.externalRL = true) (o : Outcomes) : c.lookupKey o = some [] :=
  if_pos hext

def policyDecision (c : Chain) (o : Outcomes) (key : GoString) (limits : Option LimitsResponse) : Decision :=
  match (c.resolveFailurePolicy limits).1 with
  | .passThrough => if c.globalBackstop && !o.backstopAllow then .refuse .rateLimited else .forward none
  | .failClosed => .refuse (.failClosed (c.resolveFailurePolicy limits).2)
  | .inMemoryFallback => if o.fallbackAllow c.staticRL.fallback key then .forward none else .refuse .rateLimited
  | .unset | .other _ => .ignore

def limitDecision (c : Chain) (o : Outcomes) (key : GoString) (limits : Option LimitsResponse) : Decision :=
  if ∃ l ∈ limits, l.average < 0 then
    .refuse (.externalClosed (if c.staticRL.failureCode = 0 then 503 else c.staticRL.failureCode))
  else
    match c.redisOutcome o key limits with
    | .result result => if result.allowed then .forward (some result) else .refuse .rateLimited
    | .unavailable | .failed _ => c.policyDecision o key limits

def rateDecision (c : Chain) (o : Outcomes) : Decision :=
  if c.RateLimitingOff then .forward none
  else
    match c.lookupKey o with
    | none => .refuse .noKey
    | some key => c.limitDecision o (c.fetchExternalLimits o key).2 (c.fetchExternalLimits o key).1

def PolicyPassed (c : Chain) (o : Outcomes) (key : GoString) (limits : Option LimitsResponse) : Prop :=
  match (c.resolveFailurePolicy limits).1 with
  | .passThrough => c.globalBackstop = true → o.backstopAllow = true
  | .inMemoryFallback => o.fallbackAllow c.staticRL.fallback key = true
  | .failClosed | .unset | .other _ => False

def LimitPassed (c : Chain) (o : Outcomes) (key : GoString) (limits : Option LimitsResponse) : Prop :=
  match c.redisOutcome o key limits with
  | .result result => result.allowed = true
  | .unavailable | .failed _ => c.PolicyPassed o key limits

def RatePassed (c : Chain) (o : Outcomes) : Prop :=
  c.RateLimitingOff ∨
    ∃ key, c.lookupKey o = some key ∧
      c.LimitPassed o (c.fetchExternalLimits o key).2 (c.fetchExternalLimits o key).1

def decision (c : Chain) (o : Outcomes) (r : Request) : Decision :=
  if c.Bypassed r then .forward none
  else if c.concurrencySem && !o.slot then .refuse .overloaded
  else (c.authDecision o).andThen (c.rateDecision o)

section Passed
variable {c : Chain} {o : Outcomes} {key : GoString} {limits : Option LimitsResponse}

theorem authDecision_forwards : (c.authDecision o).Forwards ↔ c.AuthPassed o := by
  unfold authDecision AuthPassed
  cases c.authClient with
  | false => exact ⟨fun _ h => absurd h Bool.false_ne_true, fun _ => ⟨none, rfl⟩⟩
  | true =>
    rw [Bool.not_true, if_neg Bool.false_ne_true, eq_self_iff_true, true_imp_iff]
    cases o.cachedAuth.or o.authCheck with
    | none => exact Decision.forwards_ite
    | some resp => exact Decision.forwards_ite

theorem policyDecision_forwards (h : (c.policyDecision o key limits).Forwards) : c.PolicyPassed o key limits := by
  unfold policyDecision at h
  unfold PolicyPassed
  cases hfp : (c.resolveFailurePolicy limits).1 <;> simp only [hfp] at h ⊢
  case passThrough =>
    intro hback
    by_contra hallow
    rw [if_pos (by simp [hback, hallow])] at h
    cases h.choose_spec
  case inMemoryFallback => exact Decision.forwards_ite.mp h
  all_goals cases h.choose_spec

theorem limitDecision_forwards (h : (c.limitDecision o key limits).Forwards) : c.LimitPassed o key limits := by
  unfold limitDecision at h
  unfold LimitPassed
  by_cases hclosed : ∃ l ∈ limits, l.average < 0
  · rw [if_pos hclosed] at h
    cases h.choose_spec
  rw [if_neg hclosed] at h
  cases hredis : c.redisOutcome o key limits with
  | result result =>
    simp only [hredis] at h ⊢
    exact Decision.forwards_ite.mp h
  | unavailable =>
    simp only [hredis] at h
    exact policyDecision_forwards h
  | failed e =>
    simp only [hredis] at h
    exact policyDecision_forwards h

theorem rateDecision_forwards (h : (c.rateDecision o).Forwards) : c.RatePassed o := by
  unfold rateDecision at h
  split_ifs at h with hoff
  · exact Or.inl hoff
  · cases hkey : c.lookupKey o with
    | none =>
      rw [hkey] at h
      cases h.choose_spec
    | some key =>
      rw [hkey] at h
      exact Or.inr ⟨key, hkey, limitDecision_forwards h⟩

theorem authDecision_ne_ignore (c : Chain) (o : Outcomes) : c.authDecision o ≠ .ignore := by
  unfold authDecision
  split
  · nofun
  split <;> split_ifs <;> nofun

theorem staticParams_of_accepted {rl rl' : RateLimitConfig} (h : validateRateLimit rl = .ok rl') :
    (staticParams rl').failurePolicy.valid = true ∧ ErrorStatus (staticParams rl').failureCode := by
  obtain ⟨-, hpolicy, hcode, ext, rfl⟩ := accepted_of_validateRateLimit h
  constructor
  · show (if rl.failurePolicy = .unset then FailurePolicy.passThrough else rl.failurePolicy).valid = true
    split_ifs with hunset
    · rfl
    · exact hpolicy.resolve_left hunset
  · show ErrorStatus (if rl.failureCode = 0 then 429 else rl.failureCode)
    split_ifs with hzero
    · exact ⟨by decide, by decide⟩
    · exact hcode.resolve_left hzero

theorem resolveFailurePolicy_valid (hfp : c.staticRL.failurePolicy.valid = true)
    (limits : Option LimitsResponse) : (c.resolveFailurePolicy limits).1.valid = true := by
  cases limits with
  | none => exact hfp
  | some l =>
    show (if l.failurePolicy.valid then l.failurePolicy else c.staticRL.failurePolicy).valid = true
    split_ifs with hl
    · exact hl
    · exact hfp

theorem rateDecision_ne_ignore (hfp : c.staticRL.failurePolicy.valid = true) (o : Outcomes) :
    c.rateDecision o ≠ .ignore := by
  have hpolicy : ∀ key limits, c.policyDecision o key limits ≠ .ignore := by
    intro key limits
    have hvalid := resolveFailurePolicy_valid hfp limits
    unfold policyDecision
    cases hp : (c.resolveFailurePolicy limits).1 <;> simp only <;> rw [hp] at hvalid
    case passThrough => split_ifs <;> nofun
    case failClosed => nofun
    case inMemoryFallback => split_ifs <;> nofun
    all_goals cases hvalid
  have hlimit : ∀ key limits, c.limitDecision o key limits ≠ .ignore := by
    intro key limits
    unfold limitDecision
    by_cases hclosed : ∃ l ∈ limits, l.average < 0
    · rw [if_pos hclosed]
      nofun
    rw [if_neg hclosed]
    split
    · split_ifs <;> nofun
    · exact hpolicy key limits
    · exact hpolicy key limits
  unfold rateDecision
  split_ifs
  · nofun
  split
  · nofun
  · exact hlimit _ _

theorem decision_ne_ignore (hfp : c.staticRL.failurePolicy.valid = true) (o : Outcomes)
    (r : Request) : c.decision o r ≠ .ignore := by
  unfold decision
  split_ifs
  · nofun
  · nofun
  · by_cases hauth : (c.authDecision o).Forwards
    · obtain ⟨result, hauth⟩ := hauth
      rw [hauth]
      exact rateDecision_ne_ignore hfp o
    · rw [Decision.andThen_of_not_forwards hauth]
      exact authDecision_ne_ignore c o

end Passed

def AuthCodes (c : Chain) (o : Outcomes) : Prop :=
  c.authClient = true → ∀ resp ∈ o.cachedAuth.or o.authCheck, resp.allowed = false →
    resp.statusCode = 0 ∨ ErrorStatus resp.statusCode

/-- What a request is closed with is an error: after a failed lookup the configured code, while Redis
does not decide the one that the external service may have put in its place. -/
def LimitCodes (c : Chain) (o : Outcomes) (key : GoString) (limits : Option LimitsResponse) : Prop :=
  ((∃ l ∈ limits, l.average < 0) → c.staticRL.failureCode = 0 ∨ ErrorStatus c.staticRL.failureCode) ∧
    ((¬∃ l ∈ limits, l.average < 0) → (∀ result, c.redisOutcome o key limits ≠ .result result) →
      (c.resolveFailurePolicy limits).1 = .failClosed → ErrorStatus (c.resolveFailurePolicy limits).2)

def RateCodes (c : Chain) (o : Outcomes) : Prop :=
  ¬c.RateLimitingOff → ∀ key ∈ c.lookupKey o,
    c.LimitCodes o (c.fetchExternalLimits o key).2 (c.fetchExternalLimits o key).1

def ErrorCodes (c : Chain) (o : Outcomes) (r : Request) : Prop :=
  ¬c.Bypassed r → (c.concurrencySem = true → o.slot = true) → c.AuthCodes o ∧ (c.AuthPassed o → c.RateCodes o)

end Chain

def Decision.ErrorsOnly (d : Decision) : Prop := ∀ why, d = .refuse why → ErrorStatus why.code

theorem Decision.errorsOnly_forward {result : Option Result} : (Decision.forward result).ErrorsOnly := nofun

theorem Decision.errorsOnly_refuse {why : Refusal} : (Decision.refuse why).ErrorsOnly ↔ ErrorStatus why.code := by
  constructor
  · exact fun h => h why rfl
  · rintro h _ ⟨⟩
    exact h

theorem Decision.errorsOnly_andThen {d d' : Decision} :
    (d.andThen d').ErrorsOnly ↔ d.ErrorsOnly ∧ (d.Forwards → d'.ErrorsOnly) := by
  by_cases hd : d.Forwards
  · obtain ⟨result, rfl⟩ := hd
    exact ⟨fun h => ⟨errorsOnly_forward, fun _ => h⟩, fun h => h.2 ⟨result, rfl⟩⟩
  · rw [andThen_of_not_forwards hd]
    exact ⟨fun h => ⟨h, fun hf => absurd hf hd⟩, fun h => h.1⟩

theorem errorStatus_default (code : ℤ) {other : ℤ} (hother : ErrorStatus other) :
    ErrorStatus (if code = 0 then other else code) ↔ code = 0 ∨ ErrorStatus code := by
  split_ifs with h
  · exact ⟨fun _ => Or.inl h, fun _ => hother⟩
  · exact ⟨Or.inr, fun hcode => hcode.resolve_left h⟩

namespace Chain
open Decision

section Codes
variable {c : Chain} {o : Outcomes} {r : Request} {key : GoString} {limits : Option LimitsResponse}

theorem authDecision_errorsOnly : (c.authDecision o).ErrorsOnly ↔ c.AuthCodes o := by
  have hunavailable : ErrorStatus Refusal.authUnavailable.code := ⟨by decide, by decide⟩
  unfold authDecision AuthCodes
  cases c.authClient with
  | false => exact ⟨fun _ h => absurd h Bool.false_ne_true, fun _ => errorsOnly_forward⟩
  | true =>
    rw [Bool.not_true, if_neg Bool.false_ne_true, eq_self_iff_true, true_imp_iff]
    cases o.cachedAuth.or o.authCheck with
    | none =>
      refine ⟨nofun, fun _ => ?_⟩
      simp only
      split_ifs
      · exact errorsOnly_forward
      · exact errorsOnly_refuse.mpr hunavailable
    | some resp =>
      simp only [Option.mem_some_iff, forall_eq']
      cases resp.allowed with
      | true => exact ⟨fun _ h => absurd h (by decide), fun _ => errorsOnly_forward⟩
      | false =>
        rw [if_neg Bool.false_ne_true, eq_self_iff_true, true_imp_iff, errorsOnly_refuse]
        exact errorStatus_default resp.statusCode ⟨by decide, by decide⟩

theorem policyDecision_errorsOnly :
    (c.policyDecision o key limits).ErrorsOnly ↔
      ((c.resolveFailurePolicy limits).1 = .failClosed → ErrorStatus (c.resolveFailurePolicy limits).2) := by
  have hlimited : (Decision.refuse .rateLimited).ErrorsOnly := errorsOnly_refuse.mpr ⟨by decide, by decide⟩
  unfold policyDecision
  cases (c.resolveFailurePolicy limits).1 <;> simp only
  case failClosed =>
    rw [errorsOnly_refuse, true_imp_iff]
    exact Iff.rfl
  case passThrough =>
    refine ⟨nofun, fun _ => ?_⟩
    split_ifs
    · exact hlimited
    · exact errorsOnly_forward
  case inMemoryFallback =>
    refine ⟨nofun, fun _ => ?_⟩
    split_ifs
    · exact errorsOnly_forward
    · exact hlimited
  all_goals exact ⟨nofun, fun _ => nofun⟩

theorem limitDecision_errorsOnly :
    (c.limitDecision o key limits).ErrorsOnly ↔ c.LimitCodes o key limits := by
  unfold limitDecision LimitCodes
  by_cases hclosed : ∃ l ∈ limits, l.average < 0
  · rw [if_pos hclosed, errorsOnly_refuse]
    refine (errorStatus_default c.staticRL.failureCode ⟨by decide, by decide⟩).trans ?_
    exact ⟨fun h => ⟨fun _ => h, fun hopen => absurd hclosed hopen⟩, fun h => h.1 hclosed⟩
  · rw [if_neg hclosed]
    have hpolicy : (c.policyDecision o key limits).ErrorsOnly ↔
        ((∃ l ∈ limits, l.average < 0) → c.staticRL.failureCode = 0 ∨ ErrorStatus c.staticRL.failureCode) ∧
          ((¬∃ l ∈ limits, l.average < 0) →
            (c.resolveFailurePolicy limits).1 = .failClosed → ErrorStatus (c.resolveFailurePolicy limits).2) := by
      rw [policyDecision_errorsOnly]
      exact ⟨fun h => ⟨fun hneg => absurd hneg hclosed, fun _ => h⟩, fun h => h.2 hclosed⟩
    cases c.redisOutcome o key limits with
    | result result =>
      refine ⟨fun _ => ⟨fun h => absurd h hclosed, fun _ h => absurd rfl (h result)⟩, fun _ => ?_⟩
      simp only
      split_ifs
      · exact errorsOnly_forward
      · exact errorsOnly_refuse.mpr ⟨by decide, by decide⟩
    | unavailable => simpa using hpolicy
    | failed e => simpa using hpolicy

theorem rateDecision_errorsOnly : (c.rateDecision o).ErrorsOnly ↔ c.RateCodes o := by
  unfold rateDecision RateCodes
  by_cases hoff : c.RateLimitingOff
  · rw [if_pos hoff]
    exact ⟨fun _ h => absurd hoff h, fun _ => errorsOnly_forward⟩
  · rw [if_neg hoff]
    cases c.lookupKey o with
    | none => exact ⟨fun _ _ => nofun, fun _ => errorsOnly_refuse.mpr ⟨by decide, by decide⟩⟩
    | some key =>
      refine limitDecision_errorsOnly.trans ⟨fun h _ _ hkey => ?_, fun h => h hoff key rfl⟩
      obtain rfl := Option.some.inj hkey
      exact h

theorem decision_errorsOnly : (c.decision o r).ErrorsOnly ↔ c.ErrorCodes o r := by
  unfold decision ErrorCodes
  by_cases hb : c.Bypassed r
  · rw [if_pos hb]
    exact ⟨fun _ h => absurd hb h, fun _ => errorsOnly_forward⟩
  · have hfull : (c.concurrencySem && !o.slot) = true ↔ ¬(c.concurrencySem = true → o.slot = true) := by
      simp
    rw [if_neg hb, if_congr hfull rfl rfl]
    by_cases hslot : c.concurrencySem = true → o.slot = true
    · rw [if_neg (not_not.mpr hslot), errorsOnly_andThen, authDecision_errorsOnly, rateDecision_errorsOnly,
        authDecision_forwards]
      exact ⟨fun h _ _ => h, fun h => h hb hslot⟩
    · rw [if_pos hslot]
      exact ⟨fun _ _ h => absurd h hslot, fun _ => errorsOnly_refuse.mpr ⟨by decide, by decide⟩⟩

end Codes
end Chain

def Outcomes.LookupFailed (o : Outcomes) : Prop := ∀ l ∈ o.getLimits, l.backendURL = []

theorem Chain.fetchExternalLimits_failed {c : Chain} {o : Outcomes} (hext : c.externalRL = true)
    (hfailed : o.LookupFailed) (key : GoString) : c.fetchExternalLimits o key = c.fallbackLimits o key := by
  unfold fetchExternalLimits
  rw [hext, Bool.not_true, if_neg Bool.false_ne_true]
  cases hl : o.getLimits with
  | none => rfl
  | some l => exact if_pos (hfailed l hl)

theorem Chain.rateDecision_closed {c : Chain} {o : Outcomes} (hext : c.externalRL = true)
    (hclosed : c.externalFailurePolicy = .failClosed) (hfailed : o.LookupFailed) : ¬(c.rateDecision o).Forwards := by
  have hfetch : c.fetchExternalLimits o [] = (some { average := -1, burst := 0, period := [] }, []) :=
    (fetchExternalLimits_failed hext hfailed []).trans (if_pos hclosed)
  unfold rateDecision limitDecision
  rw [if_neg (not_rateLimitingOff hext), lookupKey_external hext]
  simp only [hfetch]
  rw [if_pos ⟨_, rfl, by decide⟩]
  nofun

theorem Chain.failureCode_fallbackLimits {c : Chain} {o : Outcomes} {key : GoString} {l : LimitsResponse}
    (hl : l ∈ (c.fallbackLimits o key).1) : l.failureCode = 0 := by
  unfold fallbackLimits at hl
  split at hl
  · cases hl
    rfl
  split at hl
  · split at hl
    · cases hl
    · cases hl
      rfl
  · cases hl

def Chain.SuppliesError (c : Chain) (o : Outcomes) : Refusal → Prop
  | .authDenied _ => ∀ resp ∈ o.cachedAuth.or o.authCheck, resp.statusCode = 0 ∨ ErrorStatus resp.statusCode
  | .failClosed _ => c.externalRL = true → ∀ l ∈ o.getLimits, l.backendURL ≠ [] → 0 < l.average →
      0 < l.failureCode → ErrorStatus l.failureCode
  | .overloaded | .authUnavailable | .noKey | .externalClosed _ | .rateLimited => True

namespace Chain
variable {c : Chain} {o : Outcomes} {r : Request} {why : Refusal}

theorem errorStatus_resolved (hstatic : ErrorStatus c.staticRL.failureCode) {limits : Option LimitsResponse} :
    ErrorStatus (c.resolveFailurePolicy limits).2 ↔ ∀ l ∈ limits, 0 < l.failureCode → ErrorStatus l.failureCode := by
  cases limits with
  | none => exact iff_of_true hstatic (by rintro _ ⟨⟩)
  | some l =>
    show ErrorStatus (if 0 < l.failureCode then l.failureCode else c.staticRL.failureCode) ↔ _
    simp only [Option.mem_some_iff, forall_eq']
    split_ifs with hcode
    · exact ⟨fun h _ => h, fun h => h hcode⟩
    · exact iff_of_true hstatic fun h => absurd h hcode

theorem errorStatus_closing (hstatic : ErrorStatus c.staticRL.failureCode) (key : GoString) (code : ℤ) :
    ErrorStatus (c.resolveFailurePolicy (c.fetchExternalLimits o key).1).2 ↔ c.SuppliesError o (.failClosed code) := by
  have hfallback : ErrorStatus (c.resolveFailurePolicy (c.fallbackLimits o key).1).2 := by
    refine (errorStatus_resolved hstatic).mpr fun l hl hcode => ?_
    rw [failureCode_fallbackLimits hl] at hcode
    exact absurd hcode (lt_irrefl 0)
  rw [SuppliesError]
  cases hext : c.externalRL with
  | false =>
    have hfetch : c.fetchExternalLimits o key = (none, key) := by
      rw [fetchExternalLimits, hext]
      rfl
    rw [hfetch]
    exact iff_of_true hstatic fun h => absurd h Bool.false_ne_true
  | true =>
    rw [eq_self_iff_true, true_imp_iff]
    cases hl : o.getLimits with
    | none =>
      have hfailed : o.LookupFailed := by
        intro l hmem
        rw [hl] at hmem
        cases hmem
      rw [fetchExternalLimits_failed hext hfailed]
      exact iff_of_true hfallback (by rintro _ ⟨⟩)
    | some l =>
      simp only [Option.mem_some_iff, forall_eq']
      by_cases hurl : l.backendURL = []
      · have hfailed : o.LookupFailed := by
          intro l' hmem
          rw [hl] at hmem
          cases hmem
          exact hurl
        rw [fetchExternalLimits_failed hext hfailed]
        exact iff_of_true hfallback fun hne => absurd hurl hne
      · have hkept : (c.fetchExternalLimits o key).1 = if 0 < l.average then some l else none := by
          simp only [fetchExternalLimits, hext, hl, Bool.not_true, Bool.false_eq_true, if_false, if_neg hurl]
        rw [hkept, errorStatus_resolved hstatic]
        split_ifs with havg
        · simp only [Option.mem_some_iff, forall_eq']
          exact ⟨fun h _ _ => h, fun h => h hurl havg⟩
        · exact iff_of_true (by rintro _ ⟨⟩) fun _ h => absurd h havg

theorem authDecision_refuse (h : c.authDecision o = .refuse why) : ErrorStatus why.code ↔ c.SuppliesError o why := by
  unfold authDecision at h
  split at h
  · cases h
  split at h
  · rename_i resp hresp
    split at h
    · cases h
    · cases h
      refine (errorStatus_default resp.statusCode ⟨by decide, by decide⟩).trans ?_
      simp only [SuppliesError, hresp, Option.mem_some_iff, forall_eq']
  · split at h
    · cases h
    · cases h
      exact iff_of_true ⟨by decide, by decide⟩ trivial

theorem rateDecision_refuse (hstatic : ErrorStatus c.staticRL.failureCode) (h : c.rateDecision o = .refuse why) :
    ErrorStatus why.code ↔ c.SuppliesError o why := by
  have hlimited : ErrorStatus Refusal.rateLimited.code := ⟨by decide, by decide⟩
  unfold rateDecision at h
  split at h
  · cases h
  split at h
  · cases h
    exact iff_of_true ⟨by decide, by decide⟩ trivial
  rename_i key hkey
  have hpolicy : c.policyDecision o (c.fetchExternalLimits o key).2 (c.fetchExternalLimits o key).1 = .refuse why →
      (ErrorStatus why.code ↔ c.SuppliesError o why) := by
    intro h
    unfold policyDecision at h
    split at h
    · split at h
      · cases h
        exact iff_of_true hlimited trivial
      · cases h
    · cases h
      exact errorStatus_closing hstatic key _
    · split at h
      · cases h
      · cases h
        exact iff_of_true hlimited trivial
    all_goals cases h
  unfold limitDecision at h
  split at h
  · cases h
    exact iff_of_true ((errorStatus_default _ ⟨by decide, by decide⟩).mpr (Or.inr hstatic)) trivial
  split at h
  · split at h
    · cases h
    · cases h
      exact iff_of_true hlimited trivial
  · exact hpolicy h
  · exact hpolicy h

theorem decision_refuse (hstatic : ErrorStatus c.staticRL.failureCode) (h : c.decision o r = .refuse why) :
    ErrorStatus why.code ↔ c.SuppliesError o why := by
  unfold decision at h
  split at h
  · cases h
  split at h
  · cases h
    exact iff_of_true ⟨by decide, by decide⟩ trivial
  by_cases hauth : (c.authDecision o).Forwards
  · obtain ⟨result, hauth⟩ := hauth
    rw [hauth] at h
    exact rateDecision_refuse hstatic h
  · rw [Decision.andThen_of_not_forwards hauth] at h
    exact authDecision_refuse h

end Chain

end EdgeQuota.Middleware
