import EdgeQuota.Auth.Client
import EdgeQuota.Cache.Directives
import EdgeQuota.Proxy.Freshness
import EdgeQuota.RateLimit.LimitsCache

/-! Lifetimes that other parties declare in seconds: an origin for its responses, the rate-limit service and the
authentication service for their answers. Each is multiplied up to nanoseconds in 64 bits; the two clients should
read the same lifetime from the same answer. -/

namespace EdgeQuota.Middleware
open Go Cache RateLimit Auth

def longestLifetime : ℤ := 9223372036

/-- Answers of one kind: the numbers of seconds that an answer declares under the name that has precedence, the one that
the code goes by, the nanoseconds that what it goes by comes to, and those that the answer is cached for. -/
structure Channel (α : Type*) where
  declared : α → List ℤ
  taken : α → Option ℤ
  given : α → ℤ
  ttl : α → ℤ
  given_nonneg : ∀ a, 0 ≤ given a
  given_taken : ∀ {a k}, taken a = some k → given a = max 0 k * 1000000000
  ttl_eq : ∀ {a}, (∀ k ∈ taken a, k ≤ longestLifetime) → ttl a = given a
  ttl_lt : ∀ a, ttl a < 2 ^ 63
  exists_plain : ∀ {n}, 0 < n → n ≤ longestLifetime → ∃ a, declared a = [n] ∧ given a = n * 1000000000
  wraps : ∃ a, declared a = [longestLifetime + 1] ∧ given a = (longestLifetime + 1) * 1000000000 ∧ ttl a ≤ 0

namespace Channel
variable {α : Type*} {c : Channel α} {a b : α} {m n : ℤ}

def InPlay (c : Channel α) (b : α) (n : ℤ) : Prop := n ∈ c.declared b ∨ c.taken b = some n

/-- The code goes by the number `n`, or by something that comes to the same lifetime, which is none if `n` is not
positive. -/
def Heeds (c : Channel α) (b : α) (n : ℤ) : Prop := c.given b = max 0 n * 1000000000

/-- The answer is cached for no longer than `n` seconds, and any that declares less, and is heeded, is cached for no longer
than it, but cached if it declares a lifetime at all. -/
def Kept (c : Channel α) (b : α) (n : ℤ) : Prop :=
  c.ttl b ≤ max 0 n * 1000000000 ∧
    ∀ a m, c.declared a = [m] → c.Heeds a m → m ≤ n → (0 < m → 0 < c.ttl a) ∧ c.ttl a ≤ c.ttl b

def KeptUpTo (c : Channel α) (limit : ℤ) : Prop :=
  ∀ b, (∀ n, c.InPlay b n → c.Heeds b n → c.ttl b ≤ max 0 n * 1000000000) ∧
    ((∀ n, c.InPlay b n → c.Kept b n) ↔ ∀ n, c.InPlay b n → n ≤ limit ∧ c.Heeds b n)

theorem ttl_of_heeds (h : c.Heeds a m) (hle : m ≤ longestLifetime) : c.ttl a = max 0 m * 1000000000 := by
  refine (c.ttl_eq fun k hk => ?_).trans h
  have hsame := (c.given_taken hk).symm.trans h
  unfold longestLifetime at hle ⊢
  omega

theorem ttl_le_of_heeds (h : c.Heeds b n) : c.ttl b ≤ max 0 n * 1000000000 := by
  by_cases hfits : n ≤ longestLifetime
  · exact (ttl_of_heeds h hfits).le
  · have hlt := c.ttl_lt b
    unfold longestLifetime at hfits
    omega

theorem le_of_kept (h : c.Kept b n) : n ≤ longestLifetime := by
  by_contra hlarge
  obtain ⟨a, ha, hgiven, hzero⟩ := c.wraps
  have hheeds : c.Heeds a (longestLifetime + 1) := hgiven.trans (by decide)
  have hpos := (h.2 a _ ha hheeds (not_le.mp hlarge)).1 (by decide)
  omega

theorem keptUpTo_longest (c : Channel α) : c.KeptUpTo longestLifetime := by
  intro b
  refine ⟨fun n _ hheeds => ttl_le_of_heeds hheeds, ?_⟩
  constructor
  · intro hkept n hn
    have httl : c.ttl b = c.given b := c.ttl_eq fun k hk => le_of_kept (hkept k (Or.inr hk))
    have hfits := le_of_kept (hkept n hn)
    refine ⟨hfits, ?_⟩
    rcases hn with hdeclared | htaken
    · obtain ⟨hle, hmono⟩ := hkept n (Or.inl hdeclared)
      have hnonneg := c.given_nonneg b
      refine le_antisymm (httl ▸ hle) ?_
      by_cases hpos : 0 < n
      · -- an answer that declares `n` and nothing else is cached for all of it
        obtain ⟨a, ha, hgiven⟩ := c.exists_plain hpos hfits
        have hheeds : c.Heeds a n := by rw [Heeds, hgiven, max_eq_right hpos.le]
        have hshorter := (hmono a n ha hheeds le_rfl).2
        rwa [ttl_of_heeds hheeds hfits, httl] at hshorter
      · omega
    · exact c.given_taken htaken
  · intro hall n hn
    obtain ⟨hfits, hheeds⟩ := hall n hn
    refine ⟨ttl_le_of_heeds hheeds, fun a m _ hheeds' hle => ?_⟩
    rw [ttl_of_heeds hheeds hfits, ttl_of_heeds hheeds' (hle.trans hfits)]
    omega

end Channel

theorem seconds_eq {n : ℤ} (hn : 0 ≤ n) (hle : n ≤ longestLifetime) : int64 (n * 1000000000) = n * 1000000000 := by
  unfold longestLifetime at hle
  exact int64_eq_self_iff.mpr ⟨by omega, by omega⟩

structure Response where
  request : Request
  code : ℤ
  header : Header

def Response.Eligible (b : Response) : Prop :=
  let cc := parseCacheControl (join (byte ',') (b.header.values (str "Cache-Control")))
  (b.code = 200 ∨ b.code = 301) ∧ responseHasSetCookie b.header = false ∧
    b.header.values (str "Cache-Control") ≠ [] ∧ (cc.noStore || cc.noCache || cc.isPrivate) = false ∧
    (b.request.header.get (str "Authorization") = [] ∨ cc.isPublic = true ∨ cc.hasSMaxAge = true ∨
      cc.mustRevalidate = true)

instance (b : Response) : Decidable b.Eligible := inferInstanceAs (Decidable (_ ∧ _ ∧ _ ∧ _ ∧ _))

theorem isCacheable_of_eligible {b : Response} (h : b.Eligible) :
    isCacheable b.request b.code b.header =
      if seconds (Proxy.lifetime b.header) ≤ 0 then none else some (seconds (Proxy.lifetime b.header)) := by
  obtain ⟨hcode, hcookie, hlines, hallowed, hshared⟩ := h
  unfold isCacheable
  dsimp only
  rw [← CacheControl.ttl, (Proxy.ttl_parse b.header).1, if_neg (by omega), hcookie, if_neg Bool.false_ne_true,
    if_neg hlines, hallowed, if_neg Bool.false_ne_true, if_neg]
  rintro ⟨hauth, hpublic, hsmax, hrevalidate⟩
  rcases hshared with hshared | hshared | hshared | hshared
  · exact hauth hshared
  · exact absurd hshared (by simpa using hpublic)
  · exact absurd hshared (by simpa using hsmax)
  · exact absurd hshared (by simpa using hrevalidate)

theorem eligible_of_isCacheable {b : Response} {ttl : ℤ} (h : isCacheable b.request b.code b.header = some ttl) :
    b.Eligible := by
  unfold isCacheable at h
  dsimp only at h
  rw [← CacheControl.ttl] at h
  split_ifs at h with hcode hcookie hlines hforbidden hshared
  refine ⟨?_, by simpa using hcookie, hlines, by simpa using hforbidden, ?_⟩
  · by_contra hnot
    exact hcode (not_or.mp hnot)
  · by_contra hnot
    simp only [not_or, Bool.not_eq_true] at hnot
    obtain ⟨hauth, hpublic, hsmax, hrevalidate⟩ := hnot
    exact hshared ⟨hauth, by simpa using hpublic, by simpa using hsmax, by simpa using hrevalidate⟩

def taken (sMaxAges maxAges : List ℤ) : Option ℤ :=
  ((sMaxAges.filter fun n => decide (0 ≤ n)).getLast?).or (maxAges.filter fun n => decide (0 < n)).getLast?

theorem foldl_declare (ds : List GoString) (d : Proxy.Declared) :
    ds.foldl Proxy.declare d =
      ⟨(((numbers (str "max-age") ds).filter fun n => decide (0 < n)).getLast?).getD d.maxAge,
        (((numbers (str "s-maxage") ds).filter fun n => decide (0 ≤ n)).getLast?).or d.sMaxAge⟩ := by
  induction ds generalizing d with
  | nil => rfl
  | cons x ds ih =>
    have hne : str "max-age" ≠ str "s-maxage" := by decide
    rw [List.foldl_cons, ih]
    unfold numbers Proxy.declare
    rw [List.filterMap_cons, List.filterMap_cons]
    dsimp only
    rw [← directiveName, ← directiveValue]
    by_cases hmax : directiveName x = str "max-age"
    · rw [if_pos hmax, if_pos hmax, if_neg fun h => hne (hmax.symm.trans h)]
      cases atoi (directiveValue x) with
      | none => rfl
      | some n =>
        dsimp only
        by_cases hn : 0 < n
        · rw [if_pos hn, List.filter_cons_of_pos (by simpa using hn), List.getLast?_cons]
          rfl
        · rw [if_neg hn, List.filter_cons_of_neg (by simpa using hn)]
    · rw [if_neg hmax, if_neg hmax]
      by_cases hsmax : directiveName x = str "s-maxage"
      · rw [if_pos hsmax, if_pos hsmax]
        cases atoi (directiveValue x) with
        | none => rfl
        | some n =>
          dsimp only
          by_cases hn : 0 ≤ n
          · rw [if_pos hn, List.filter_cons_of_pos (by simpa using hn), List.getLast?_cons, Option.some_or,
              Option.or_some]
          · rw [if_neg hn, List.filter_cons_of_neg (by simpa using hn)]
      · rw [if_neg hsmax, if_neg hsmax]

theorem lifetime_eq (header : Header) :
    Proxy.lifetime header =
      (taken (numbers (str "s-maxage") (cacheDirectives header)) (numbers (str "max-age") (cacheDirectives header))).getD 0 := by
  unfold Proxy.lifetime Proxy.declared taken
  rw [← cacheDirectives, foldl_declare]
  dsimp only
  cases ((numbers (str "s-maxage") (cacheDirectives header)).filter _).getLast? <;> rfl

def maxAgeLine (n : ℤ) : GoString := str "max-age" ++ byte '=' :: formatInt n

theorem cacheDirectives_maxAgeLine (n : ℤ) :
    cacheDirectives [(str "Cache-Control", maxAgeLine n)] = [maxAgeLine n] := by
  have hbytes : ∀ c ∈ maxAgeLine n, c < 0x80 ∧ c ≠ byte ',' ∧ c ≠ byte '"' := by
    intro c hc
    rcases List.mem_append.mp hc with hc | hc
    · exact (by decide +kernel : ∀ c ∈ str "max-age", c < 0x80 ∧ c ≠ byte ',' ∧ c ≠ byte '"') c hc
    · rcases List.mem_cons.mp hc with rfl | hc
      · decide
      · have hdigit := mem_formatInt hc
        refine ⟨?_, ?_, ?_⟩
        · rcases (Bool.or_eq_true _ _).mp hdigit with hminus | hdigit
          · rw [of_decide_eq_true hminus]
            decide
          · have hnine : c ≤ '9'.toUInt8 := of_decide_eq_true ((Bool.and_eq_true _ _).mp hdigit).2
            exact UInt8.lt_of_le_of_lt hnine (by decide)
        · rintro rfl
          exact absurd hdigit (by decide)
        · rintro rfl
          exact absurd hdigit (by decide)
  have hlines : Header.values [(str "Cache-Control", maxAgeLine n)] (str "Cache-Control") = [maxAgeLine n] := by
    have hname : str "Cache-Control" = canonicalHeaderKey (str "Cache-Control") := by decide +kernel
    simp [Header.values, ← hname]
  have hjoin : join (byte ',') [maxAgeLine n] = maxAgeLine n := by simp [join]
  rw [cacheDirectives, hlines, hjoin]
  exact splitDirectives_of_notMem (fun c hc => (hbytes c hc).1) (fun hc => (hbytes _ hc).2.1 rfl)
    fun hc => (hbytes _ hc).2.2 rfl

theorem directive_maxAgeLine {n : ℤ} (hlow : -2 ^ 63 ≤ n) (hhigh : n < 2 ^ 63) :
    directiveName (maxAgeLine n) = str "max-age" ∧ atoi (directiveValue (maxAgeLine n)) = some n := by
  have hcut : cut (byte '=') (maxAgeLine n) = (str "max-age", some (formatInt n)) := cut_append (by decide) _
  have hatoi := atoi_formatInt hlow hhigh
  unfold directiveName directiveValue
  rw [hcut]
  refine ⟨(by decide +kernel : toLower (trimSpace (str "max-age")) = str "max-age"), ?_⟩
  rw [Option.getD_some, trimSpace_of_atoi hatoi, trim_eq_self (by decide) fun r hr c hc hmem => ?_]
  · exact hatoi
  · have hquote : ∀ r ∈ [str "\""], ∀ c ∈ r, ¬(isDigit c = true ∨ c = byte '-' ∨ c = byte '+') := by
      decide +kernel
    exact hquote r hr c hc (mem_of_atoi hatoi hmem)

theorem numbers_maxAgeLine {n : ℤ} (hlow : -2 ^ 63 ≤ n) (hhigh : n < 2 ^ 63) :
    numbers (str "max-age") [maxAgeLine n] = [n] ∧ numbers (str "s-maxage") [maxAgeLine n] = [] := by
  obtain ⟨hname, hvalue⟩ := directive_maxAgeLine hlow hhigh
  have hne : str "max-age" ≠ str "s-maxage" := by decide
  simp [numbers, hname, hvalue, hne]

theorem eligible_maxAgeLine {n : ℤ} (hlow : -2 ^ 63 ≤ n) (hhigh : n < 2 ^ 63) :
    Response.Eligible ⟨hintedRequest, 200, [(str "Cache-Control", maxAgeLine n)]⟩ := by
  obtain ⟨hname, hvalue⟩ := directive_maxAgeLine hlow hhigh
  have hparse : ∃ k, parseCacheControl (join (byte ',') [maxAgeLine n]) = { maxAge := k } := by
    show ∃ k, (cacheDirectives [(str "Cache-Control", maxAgeLine n)]).foldl applyDirective {} = _
    rw [cacheDirectives_maxAgeLine, List.foldl_cons, List.foldl_nil]
    unfold applyDirective
    dsimp only
    rw [← directiveName, ← directiveValue, if_pos hname, hvalue]
    dsimp only
    split_ifs
    · exact ⟨_, rfl⟩
    · exact ⟨0, rfl⟩
  obtain ⟨k, hk⟩ := hparse
  have hcookie : canonicalHeaderKey (cutTrailer (str "Cache-Control")) ≠ str "Set-Cookie" := by decide +kernel
  refine ⟨Or.inl rfl, by simp [responseHasSetCookie, hcookie], List.cons_ne_nil _ _, ?_, Or.inl ?_⟩
  · show CacheControl.restrictive (parseCacheControl (join (byte ',') [maxAgeLine n])) = false
    rw [hk]
    rfl
  · exact (by decide +kernel : hintedRequest.header.get (str "Authorization") = [])

def responses : Channel Response where
  declared b :=
    if b.Eligible then
      let sMaxAges := numbers (str "s-maxage") (cacheDirectives b.header)
      if sMaxAges = [] then numbers (str "max-age") (cacheDirectives b.header) else sMaxAges
    else []
  taken b :=
    if b.Eligible then
      taken (numbers (str "s-maxage") (cacheDirectives b.header)) (numbers (str "max-age") (cacheDirectives b.header))
    else none
  given b := if b.Eligible then Proxy.lifetime b.header * 1000000000 else 0
  ttl b := (isCacheable b.request b.code b.header).getD 0
  given_nonneg := by
    intro b
    have hnonneg := (Proxy.ttl_parse b.header).2
    split_ifs <;> omega
  given_taken := by
    intro b k hk
    have hnonneg := (Proxy.ttl_parse b.header).2
    split_ifs at hk with heligible
    rw [if_pos heligible]
    rw [lifetime_eq, hk, Option.getD_some] at hnonneg ⊢
    rw [max_eq_right hnonneg]
  ttl_eq := by
    intro b hle
    by_cases heligible : b.Eligible
    · simp only [if_pos heligible] at hle ⊢
      have hnonneg := (Proxy.ttl_parse b.header).2
      have hfits : Proxy.lifetime b.header ≤ longestLifetime := by
        rw [lifetime_eq]
        cases htaken : taken _ _ with
        | none => decide
        | some k => exact hle k htaken
      have hseconds : seconds (Proxy.lifetime b.header) = Proxy.lifetime b.header * 1000000000 := seconds_eq hnonneg hfits
      rw [isCacheable_of_eligible heligible, hseconds]
      split_ifs with hzero
      · rw [Option.getD_none]
        omega
      · rw [Option.getD_some]
    · cases hcache : isCacheable b.request b.code b.header with
      | none => rw [if_neg heligible, Option.getD_none]
      | some ttl => exact absurd (eligible_of_isCacheable hcache) heligible
  ttl_lt := by
    intro b
    cases hcache : isCacheable b.request b.code b.header with
    | none => exact (by decide : (0 : ℤ) < 2 ^ 63)
    | some ttl =>
      rw [Option.getD_some, (Proxy.ttl_eq hcache).1]
      exact int64_lt _
  exists_plain := by
    intro n hpos hle
    have hrange : n < 2 ^ 63 := hle.trans_lt (by decide)
    obtain ⟨hmax, hsmax⟩ := numbers_maxAgeLine (by omega) hrange
    have hlifetime : Proxy.lifetime [(str "Cache-Control", maxAgeLine n)] = n := by
      rw [lifetime_eq, cacheDirectives_maxAgeLine, hmax, hsmax]
      simp [taken, hpos]
    refine ⟨⟨hintedRequest, 200, [(str "Cache-Control", maxAgeLine n)]⟩, ?_, ?_⟩
    · rw [if_pos (eligible_maxAgeLine (by omega) hrange)]
      simp only [cacheDirectives_maxAgeLine, hmax, hsmax, if_pos]
    · rw [if_pos (eligible_maxAgeLine (by omega) hrange), hlifetime]
  wraps :=
    ⟨⟨hintedRequest, 200, [(str "Cache-Control", str "max-age=9223372037")]⟩, by decide +kernel, by decide +kernel,
      by decide +kernel⟩

def bodyDeclared (noStore : Bool) (maxAge : Option ℤ) : Option ℤ := if noStore then none else maxAge

def bodyTTL (noStore : Bool) (maxAge : Option ℤ) : ℤ :=
  if noStore then 0
  else
    match maxAge with
    | some n => if 0 < n then int64 (n * 1000000000) else 0
    | none => 0

theorem resolveCacheTTL_eq (resp : CheckResponse) :
    resp.resolveCacheTTL = bodyTTL resp.cacheNoStore resp.cacheMaxAgeSec := rfl

theorem bodyTTL_lt (noStore : Bool) (maxAge : Option ℤ) : bodyTTL noStore maxAge < 2 ^ 63 := by
  unfold bodyTTL
  split_ifs
  · decide
  · split
    · split_ifs
      · exact int64_lt _
      · decide
    · decide

theorem bodyTTL_eq {noStore : Bool} {maxAge : Option ℤ}
    (hle : ∀ k ∈ bodyDeclared noStore maxAge, k ≤ longestLifetime) :
    bodyTTL noStore maxAge = max 0 ((bodyDeclared noStore maxAge).getD 0) * 1000000000 := by
  unfold bodyDeclared at hle ⊢
  unfold bodyTTL
  split_ifs at hle ⊢ with hstore
  · rfl
  · cases maxAge with
    | none => rfl
    | some n =>
      dsimp only
      rw [Option.getD_some]
      split_ifs with hpos
      · rw [seconds_eq hpos.le (hle n rfl), max_eq_right hpos.le]
      · rw [max_eq_left (not_lt.mp hpos), zero_mul]

def Bans (cc : GoString) : Prop :=
  contains (toLower cc) (str "no-cache") = true ∨ contains (toLower cc) (str "no-store") = true

instance (cc : GoString) : Decidable (Bans cc) := inferInstanceAs (Decidable (_ ∨ _))

theorem ne_nil_of_bans {cc : GoString} (h : Bans cc) : cc ≠ [] := by
  rintro rfl
  revert h
  decide

def expiry (parseTime : GoString → Option ℤ) (h : Header) : Option ℤ :=
  if h.get (str "Expires") = [] then none else parseTime (h.get (str "Expires"))

def untilExpiry (now expTime : ℤ) : ℤ := max 0 (min (expTime - now) maxDuration)

theorem untilExpiry_lt (now expTime : ℤ) : untilExpiry now expTime < 2 ^ 63 := by
  have hle : min (expTime - now) maxDuration ≤ maxDuration := min_le_right _ _
  exact max_lt (by decide) (hle.trans_lt (by decide))

def ages (read : GoString → Option ℤ) (cc : GoString) : List ℤ :=
  (cc.splitOn (byte ',')).filterMap fun directive =>
    let lower := toLower (trimSpace directive)
    if (str "max-age=").isPrefixOf lower then
      (read (lower.drop (str "max-age=").length)).filter fun seconds => decide (0 < seconds)
    else none

def externalAges (cc : GoString) : List ℤ := ages atoi cc

def authAges (cc : GoString) : List ℤ := ages (fun s => atoi (trimSpace s)) cc

theorem pos_of_mem_ages {read : GoString → Option ℤ} {cc : GoString} {n : ℤ} (h : n ∈ ages read cc) : 0 < n := by
  obtain ⟨directive, -, hn⟩ := List.mem_filterMap.mp h
  dsimp only at hn
  split_ifs at hn
  obtain ⟨-, hpos⟩ := Option.filter_eq_some_iff.mp hn
  exact of_decide_eq_true hpos

theorem ages_subset {read read' : GoString → Option ℤ} (h : ∀ s n, read s = some n → read' s = some n) (cc : GoString) :
    ages read cc ⊆ ages read' cc := by
  intro n hn
  obtain ⟨directive, hmem, hn⟩ := List.mem_filterMap.mp hn
  refine List.mem_filterMap.mpr ⟨directive, hmem, ?_⟩
  dsimp only at hn ⊢
  split_ifs at hn ⊢ with hprefix
  obtain ⟨hread, hpos⟩ := Option.filter_eq_some_iff.mp hn
  exact Option.filter_eq_some_iff.mpr ⟨h _ _ hread, hpos⟩

theorem parseMaxAge_eq (cc : GoString) :
    ExternalClient.parseMaxAge cc = (externalAges cc).head?.elim 0 fun n => int64 (n * 1000000000) := by
  unfold ExternalClient.parseMaxAge
  dsimp only
  split
  · rename_i n ns hages
    rw [show externalAges cc = n :: ns from hages]
    rfl
  · rename_i hages
    rw [show externalAges cc = [] from hages]
    rfl

theorem parseMaxAge_lt (cc : GoString) : ExternalClient.parseMaxAge cc < 2 ^ 63 := by
  rw [parseMaxAge_eq]
  cases (externalAges cc).head? with
  | none => decide
  | some n => exact int64_lt _

theorem ne_nil_of_parseMaxAge {cc : GoString} (h : 0 < ExternalClient.parseMaxAge cc) : cc ≠ [] := by
  rintro rfl
  revert h
  decide +kernel

theorem external_ttl_eq (parseTime : GoString → Option ℤ) (now : ℤ) (h : Header) (limits : RateLimit.ExternalLimits) :
    ExternalClient.resolveHTTPCacheTTL parseTime now h limits =
      if 0 < ExternalClient.parseMaxAge (h.get (str "Cache-Control")) then
        ExternalClient.parseMaxAge (h.get (str "Cache-Control"))
      else if Bans (h.get (str "Cache-Control")) then 0
      else (expiry parseTime h).elim (bodyTTL limits.cacheNoStore limits.cacheMaxAgeSec) (untilExpiry now) := by
  unfold ExternalClient.resolveHTTPCacheTTL
  dsimp only
  by_cases hage : 0 < ExternalClient.parseMaxAge (h.get (str "Cache-Control"))
  · rw [if_pos hage, if_pos ⟨ne_nil_of_parseMaxAge hage, hage⟩]
  rw [if_neg hage, if_neg fun hboth => hage hboth.2]
  by_cases hbans : Bans (h.get (str "Cache-Control"))
  · rw [if_pos hbans, if_pos ⟨ne_nil_of_bans hbans, hbans⟩]
  rw [if_neg hbans, if_neg fun hboth => hbans hboth.2, ← expiry]
  cases expiry parseTime h with
  | none => rfl
  | some expTime =>
    change (if 0 < min (expTime - now) maxDuration then min (expTime - now) maxDuration else 0) = untilExpiry now expTime
    unfold untilExpiry
    split_ifs with hpos
    · exact (max_eq_right hpos.le).symm
    · exact (max_eq_left (not_lt.mp hpos)).symm

theorem auth_ttl_eq (clock : Clock) (h : Header) (resp : CheckResponse) :
    (Auth.resolveHTTPCacheTTL clock h resp).resolveCacheTTL =
      if 0 < parseAuthMaxAge (h.get (str "Cache-Control")) then
        int64 (parseAuthMaxAge (h.get (str "Cache-Control")) * 1000000000)
      else if Bans (h.get (str "Cache-Control")) then 0
      else (expiry clock.parseTime h).elim (bodyTTL resp.cacheNoStore resp.cacheMaxAgeSec)
        fun expTime => untilExpiry clock.now expTime / 1000000000 * 1000000000 := by
  have hnil : ¬0 < parseAuthMaxAge [] := by decide +kernel
  unfold Auth.resolveHTTPCacheTTL
  dsimp only
  by_cases hage : 0 < parseAuthMaxAge (h.get (str "Cache-Control"))
  · have hcc : h.get (str "Cache-Control") ≠ [] := fun hempty => hnil (hempty ▸ hage)
    rw [if_pos hage, if_pos ⟨hcc, hage⟩, resolveCacheTTL_eq]
    exact if_pos hage
  rw [if_neg hage, if_neg fun hboth => hage hboth.2]
  by_cases hbans : Bans (h.get (str "Cache-Control"))
  · rw [if_pos hbans, if_pos ⟨ne_nil_of_bans hbans, hbans⟩]
    rfl
  rw [if_neg hbans, if_neg fun hboth => hbans hboth.2, ← expiry]
  cases expiry clock.parseTime h with
  | none => rfl
  | some expTime =>
    simp only [Option.elim_some, untilExpiry]
    generalize hleft : min (expTime - clock.now) maxDuration = left
    have hcap : left ≤ 2 ^ 63 - 1 := hleft ▸ min_le_right _ _
    by_cases hpos : 0 < left
    · rw [if_pos hpos, max_eq_right hpos.le, resolveCacheTTL_eq]
      unfold bodyTTL
      simp only [Bool.false_eq_true, if_false]
      by_cases hsecond : 0 < left / 1000000000
      · rw [if_pos hsecond]
        exact int64_eq_self_iff.mpr ⟨by omega, by omega⟩
      · rw [if_neg hsecond]
        omega
    · rw [if_neg hpos, max_eq_left (not_lt.mp hpos)]
      rfl

def Speaks (parseTime : GoString → Option ℤ) (h : Header) : Prop :=
  (∃ d ∈ cacheDirectives h, directiveName d ∈ [str "no-store", str "no-cache"]) ∨
    ∃ expires ∈ h.values (str "Expires"), (parseTime expires).isSome = true

instance (parseTime : GoString → Option ℤ) (h : Header) : Decidable (Speaks parseTime h) :=
  inferInstanceAs (Decidable (_ ∨ _))

/-- What an answer over HTTP declares: the ages in its headers, or else, if these say nothing, that in its document. -/
def httpDeclared (parseTime : GoString → Option ℤ) (h : Header) (body : Option ℤ) : List ℤ :=
  let ages := numbers (str "max-age") (cacheDirectives h)
  if ages ≠ [] then ages else if Speaks parseTime h then [] else body.toList

/-- What a client goes by that has found the age, or none, in the first `Cache-Control` line. -/
def httpTaken (parseTime : GoString → Option ℤ) (h : Header) (age body : Option ℤ) : Option ℤ :=
  age.or (if Bans (h.get (str "Cache-Control")) ∨ (expiry parseTime h).isSome = true then none else body)

def httpGiven (parseTime : GoString → Option ℤ) (left : ℤ → ℤ) (h : Header) (age body : Option ℤ) : ℤ :=
  age.elim
    (if Bans (h.get (str "Cache-Control")) then 0
      else (expiry parseTime h).elim (max 0 (body.getD 0) * 1000000000) left)
    fun k => max 0 k * 1000000000

theorem httpGiven_nonneg {parseTime : GoString → Option ℤ} {left : ℤ → ℤ} (hleft : ∀ t, 0 ≤ left t) (h : Header)
    (age body : Option ℤ) : 0 ≤ httpGiven parseTime left h age body := by
  unfold httpGiven
  cases age with
  | some k => rw [Option.elim_some]; omega
  | none =>
    rw [Option.elim_none]
    split_ifs
    · exact le_rfl
    · cases expiry parseTime h with
      | none => rw [Option.elim_none]; omega
      | some t => exact hleft t

theorem httpGiven_of_taken {parseTime : GoString → Option ℤ} {left : ℤ → ℤ} {h : Header} {age body : Option ℤ} {k : ℤ}
    (hk : httpTaken parseTime h age body = some k) :
    httpGiven parseTime left h age body = max 0 k * 1000000000 := by
  unfold httpTaken at hk
  unfold httpGiven
  cases age with
  | some n =>
    obtain rfl := Option.some.inj hk
    rfl
  | none =>
    rw [Option.none_or] at hk
    split_ifs at hk with hspeaks
    rw [not_or, Bool.not_eq_true, Option.isSome_eq_false_iff, Option.isNone_iff_eq_none] at hspeaks
    rw [Option.elim_none, if_neg hspeaks.1, hspeaks.2, Option.elim_none, hk, Option.getD_some]

theorem httpGiven_eq {parseTime : GoString → Option ℤ} {left : ℤ → ℤ} {h : Header} {noStore : Bool}
    {age maxAge : Option ℤ} (hage : ∀ k ∈ age, 0 < k)
    (hle : ∀ k ∈ httpTaken parseTime h age (bodyDeclared noStore maxAge), k ≤ longestLifetime) :
    age.elim
        (if Bans (h.get (str "Cache-Control")) then 0 else (expiry parseTime h).elim (bodyTTL noStore maxAge) left)
        (fun k => int64 (k * 1000000000)) =
      httpGiven parseTime left h age (bodyDeclared noStore maxAge) := by
  unfold httpTaken at hle
  unfold httpGiven
  cases age with
  | some k =>
    have hpos := hage k rfl
    rw [Option.elim_some, Option.elim_some, seconds_eq hpos.le (hle k rfl), max_eq_right hpos.le]
  | none =>
    rw [Option.none_or] at hle
    rw [Option.elim_none, Option.elim_none]
    split_ifs with hbans
    · rfl
    · cases hexpiry : expiry parseTime h with
      | some t => rfl
      | none =>
        rw [if_neg (by simp [hbans, hexpiry])] at hle
        exact bodyTTL_eq hle

theorem untilExpiry_nonneg (now expTime : ℤ) : 0 ≤ untilExpiry now expTime := le_max_left _ _

def limitsAge (h : Header) : Option ℤ := (externalAges (h.get (str "Cache-Control"))).head?

def limitsDeclared (parseTime : GoString → Option ℤ) : ServiceReply → List ℤ
  | .http h body => httpDeclared parseTime h (bodyDeclared (body.cacheNoStore.getD false) body.cacheMaxAgeSeconds)
  | .grpc body => (bodyDeclared body.cacheNoStore body.cacheMaxAgeSeconds).toList

def limitsTaken (parseTime : GoString → Option ℤ) : ServiceReply → Option ℤ
  | .http h body =>
    httpTaken parseTime h (limitsAge h) (bodyDeclared (body.cacheNoStore.getD false) body.cacheMaxAgeSeconds)
  | .grpc body => bodyDeclared body.cacheNoStore body.cacheMaxAgeSeconds

def limitsGiven (parseTime : GoString → Option ℤ) (now : ℤ) : ServiceReply → ℤ
  | .http h body => httpGiven parseTime (untilExpiry now) h (limitsAge h)
      (bodyDeclared (body.cacheNoStore.getD false) body.cacheMaxAgeSeconds)
  | .grpc body => max 0 ((bodyDeclared body.cacheNoStore body.cacheMaxAgeSeconds).getD 0) * 1000000000

def limitsAnswers (parseTime : GoString → Option ℤ) (now : ℤ) : Channel ServiceReply where
  declared := limitsDeclared parseTime
  taken := limitsTaken parseTime
  given := limitsGiven parseTime now
  ttl := ExternalClient.cacheTTL parseTime now
  given_nonneg := by
    intro reply
    cases reply with
    | grpc body => simp only [limitsGiven]; omega
    | http h body => exact httpGiven_nonneg (untilExpiry_nonneg now) h _ _
  given_taken := by
    intro reply k hk
    cases reply with
    | grpc body => simp only [limitsTaken, limitsGiven] at hk ⊢; rw [hk, Option.getD_some]
    | http h body => exact httpGiven_of_taken hk
  ttl_eq := by
    intro reply hle
    cases reply with
    | grpc body => exact bodyTTL_eq hle
    | http h body =>
      have hage : ∀ k ∈ limitsAge h, 0 < k := fun k hk => pos_of_mem_ages (List.mem_of_head? hk)
      refine Eq.trans ?_ (httpGiven_eq hage hle)
      unfold ExternalClient.cacheTTL
      dsimp only
      rw [external_ttl_eq, parseMaxAge_eq, ← limitsAge]
      have hfits : ∀ k ∈ limitsAge h, k ≤ longestLifetime := by
        intro k hk
        refine hle k ?_
        show httpTaken _ _ _ _ = some k
        rw [Option.mem_def.mp hk]
        rfl
      cases hlimits : limitsAge h with
      | none =>
        rw [Option.elim_none, if_neg (lt_irrefl _)]
        rfl
      | some k =>
        have hpos := hage k hlimits
        rw [Option.elim_some, Option.elim_some, seconds_eq hpos.le (hfits k hlimits), if_pos (by omega)]
  ttl_lt := by
    intro reply
    cases reply with
    | grpc body => exact bodyTTL_lt _ _
    | http h body =>
      unfold ExternalClient.cacheTTL
      dsimp only
      rw [external_ttl_eq]
      split_ifs
      · exact parseMaxAge_lt _
      · decide
      · cases expiry parseTime h with
        | none => exact bodyTTL_lt _ _
        | some expTime => exact untilExpiry_lt now expTime
  exists_plain := by
    intro n hpos _
    exact ⟨.grpc { cacheMaxAgeSeconds := some n }, rfl, by
      show max 0 n * 1000000000 = _
      rw [max_eq_right hpos.le]⟩
  wraps := ⟨.grpc { cacheMaxAgeSeconds := some 9223372037 }, rfl, rfl,
    (by decide : bodyTTL false (some 9223372037) ≤ 0)⟩

inductive AuthAnswer where
  | http (h : Header) (resp : CheckResponse)
  | grpc (resp : CheckResponse)

def authAge (h : Header) : Option ℤ := (authAges (h.get (str "Cache-Control"))).head?

def authTTL (clock : Clock) : AuthAnswer → ℤ
  | .http h resp => (Auth.resolveHTTPCacheTTL clock h resp).resolveCacheTTL
  | .grpc resp => resp.resolveCacheTTL

theorem parseAuthMaxAge_eq (cc : GoString) : parseAuthMaxAge cc = (authAges cc).headD 0 := rfl

def authAnswers (clock : Clock) : Channel AuthAnswer where
  declared
    | .http h resp => httpDeclared clock.parseTime h (bodyDeclared resp.cacheNoStore resp.cacheMaxAgeSec)
    | .grpc resp => (bodyDeclared resp.cacheNoStore resp.cacheMaxAgeSec).toList
  taken
    | .http h resp => httpTaken clock.parseTime h (authAge h) (bodyDeclared resp.cacheNoStore resp.cacheMaxAgeSec)
    | .grpc resp => bodyDeclared resp.cacheNoStore resp.cacheMaxAgeSec
  given
    | .http h resp => httpGiven clock.parseTime (fun expTime => untilExpiry clock.now expTime / 1000000000 * 1000000000) h
        (authAge h) (bodyDeclared resp.cacheNoStore resp.cacheMaxAgeSec)
    | .grpc resp => max 0 ((bodyDeclared resp.cacheNoStore resp.cacheMaxAgeSec).getD 0) * 1000000000
  ttl := authTTL clock
  given_nonneg := by
    intro reply
    cases reply with
    | grpc resp => dsimp only; omega
    | http h resp =>
      refine httpGiven_nonneg (fun expTime => ?_) h _ _
      have hnonneg := untilExpiry_nonneg clock.now expTime
      omega
  given_taken := by
    intro reply k hk
    cases reply with
    | grpc resp => dsimp only at hk ⊢; rw [hk, Option.getD_some]
    | http h resp => exact httpGiven_of_taken hk
  ttl_eq := by
    intro reply hle
    cases reply with
    | grpc resp => exact bodyTTL_eq hle
    | http h resp =>
      have hage : ∀ k ∈ authAge h, 0 < k := fun k hk => pos_of_mem_ages (List.mem_of_head? hk)
      refine Eq.trans ?_ (httpGiven_eq hage hle)
      unfold authTTL
      dsimp only
      rw [auth_ttl_eq, parseAuthMaxAge_eq, List.headD_eq_head?_getD, ← authAge]
      cases hauth : authAge h with
      | none => rw [Option.getD_none, if_neg (lt_irrefl _), Option.elim_none]
      | some k => rw [Option.getD_some, if_pos (hage k hauth), Option.elim_some]
  ttl_lt := by
    intro reply
    cases reply with
    | grpc resp => exact bodyTTL_lt _ _
    | http h resp =>
      unfold authTTL
      dsimp only
      rw [auth_ttl_eq]
      split_ifs
      · exact int64_lt _
      · decide
      · cases expiry clock.parseTime h with
        | none => exact bodyTTL_lt _ _
        | some expTime =>
          have hlt := untilExpiry_lt clock.now expTime
          rw [Option.elim_some]
          omega
  exists_plain := by
    intro n hpos _
    exact ⟨.grpc { allowed := true, cacheMaxAgeSec := some n }, rfl, by
      show max 0 n * 1000000000 = _
      rw [max_eq_right hpos.le]⟩
  wraps := ⟨.grpc { allowed := true, cacheMaxAgeSec := some 9223372037 }, rfl, rfl,
    (by decide : bodyTTL false (some 9223372037) ≤ 0)⟩

def cacheControl (cc : String) : Header := [(str "Cache-Control", str cc)]

theorem parseAuthMaxAge_nonneg (cc : GoString) : 0 ≤ parseAuthMaxAge cc := by
  rw [parseAuthMaxAge_eq]
  cases hages : authAges cc with
  | nil => exact le_rfl
  | cons n ns => exact (pos_of_mem_ages (hages ▸ List.mem_cons_self ..)).le

theorem externalAges_subset (cc : GoString) : externalAges cc ⊆ authAges cc := by
  apply ages_subset
  intro s n hatoi
  rw [trimSpace_of_atoi hatoi]
  exact hatoi

theorem parseAuthMaxAge_pos {cc : GoString} (h : 0 < ExternalClient.parseMaxAge cc) : 0 < parseAuthMaxAge cc := by
  rw [parseMaxAge_eq] at h
  cases hhead : (externalAges cc).head? with
  | none =>
    rw [hhead] at h
    exact absurd h (lt_irrefl _)
  | some n =>
    have hmem : n ∈ authAges cc := externalAges_subset cc (List.mem_of_head? hhead)
    rw [parseAuthMaxAge_eq]
    cases hages : authAges cc with
    | nil => exact absurd (hages ▸ hmem) List.not_mem_nil
    | cons k ks => exact pos_of_mem_ages (hages ▸ List.mem_cons_self ..)

/-- The lifetime that the external client reads, in whole seconds where it comes from `Expires`. -/
def comparedTTL (clock : Clock) (h : Header) (limits : RateLimit.ExternalLimits) : ℤ :=
  let cc := h.get (str "Cache-Control")
  let ttl := ExternalClient.resolveHTTPCacheTTL clock.parseTime clock.now h limits
  if ¬0 < ExternalClient.parseMaxAge cc ∧ ¬Bans cc ∧ (expiry clock.parseTime h).isSome = true then
    ttl / 1000000000 * 1000000000
  else ttl

theorem comparedTTL_eq (clock : Clock) (h : Header) (limits : RateLimit.ExternalLimits) :
    comparedTTL clock h limits =
      if 0 < ExternalClient.parseMaxAge (h.get (str "Cache-Control")) then
        ExternalClient.parseMaxAge (h.get (str "Cache-Control"))
      else if Bans (h.get (str "Cache-Control")) then 0
      else (expiry clock.parseTime h).elim (bodyTTL limits.cacheNoStore limits.cacheMaxAgeSec)
        fun expTime => untilExpiry clock.now expTime / 1000000000 * 1000000000 := by
  unfold comparedTTL
  dsimp only
  rw [external_ttl_eq]
  by_cases hage : 0 < ExternalClient.parseMaxAge (h.get (str "Cache-Control"))
  · rw [if_neg fun hall => hall.1 hage, if_pos hage, if_pos hage]
  by_cases hbans : Bans (h.get (str "Cache-Control"))
  · rw [if_neg fun hall => hall.2.1 hbans, if_neg hage, if_neg hage, if_pos hbans, if_pos hbans]
  rw [if_neg hage, if_neg hage, if_neg hbans, if_neg hbans]
  cases expiry clock.parseTime h with
  | none =>
    rw [if_neg fun hall => Bool.false_ne_true hall.2.2]
    rfl
  | some expTime =>
    rw [if_pos ⟨hage, hbans, rfl⟩]
    rfl

/-- The two clients agree on what a `Cache-Control` says: neither finds an age, or both find ages of the same
nanoseconds, or the authentication client finds one of no nanoseconds at all where caching is forbidden besides. -/
def Concordant (cc : GoString) : Prop :=
  parseAuthMaxAge cc = 0 ∨
    (0 < ExternalClient.parseMaxAge cc ∧ int64 (parseAuthMaxAge cc * 1000000000) = ExternalClient.parseMaxAge cc) ∨
    (¬0 < ExternalClient.parseMaxAge cc ∧ int64 (parseAuthMaxAge cc * 1000000000) = 0 ∧ Bans cc)

instance (cc : GoString) : Decidable (Concordant cc) := inferInstanceAs (Decidable (_ ∨ _ ∨ _))

/-- A directive that gives an age has the number right after the equals sign, and the number does not wrap. -/
def PlainAge (directive : GoString) : Prop :=
  ∀ value, toLower (trimSpace directive) = str "max-age=" ++ value →
    trimSpace value = value ∧ ∀ n ∈ atoi value, n ≤ longestLifetime

theorem ages_eq_of_plain {cc : GoString} (h : ∀ directive ∈ cc.splitOn (byte ','), PlainAge directive) :
    authAges cc = externalAges cc ∧ ∀ n ∈ externalAges cc, n ≤ longestLifetime := by
  have hvalue : ∀ directive, (str "max-age=").isPrefixOf (toLower (trimSpace directive)) = true →
      toLower (trimSpace directive) =
        str "max-age=" ++ (toLower (trimSpace directive)).drop (str "max-age=").length := by
    intro directive hprefix
    obtain ⟨value, heq⟩ := List.isPrefixOf_iff_prefix.mp hprefix
    rw [← heq, List.drop_left]
  constructor
  · refine List.filterMap_congr fun directive hd => ?_
    dsimp only
    split_ifs with hprefix
    · rw [(h directive hd _ (hvalue directive hprefix)).1]
    · rfl
  · intro n hn
    obtain ⟨directive, hd, hn⟩ := List.mem_filterMap.mp hn
    dsimp only at hn
    split_ifs at hn with hprefix
    exact (h directive hd _ (hvalue directive hprefix)).2 n (Option.filter_eq_some_iff.mp hn).1

theorem concordant_of_plain {cc : GoString} (h : ∀ directive ∈ cc.splitOn (byte ','), PlainAge directive) :
    Concordant cc := by
  obtain ⟨heq, hfits⟩ := ages_eq_of_plain h
  unfold Concordant
  rw [parseAuthMaxAge_eq, parseMaxAge_eq, heq]
  cases hages : externalAges cc with
  | nil => exact Or.inl rfl
  | cons n ns =>
    have hmem : n ∈ externalAges cc := hages ▸ List.mem_cons_self ..
    have hpos := pos_of_mem_ages hmem
    have hseconds := seconds_eq hpos.le (hfits n hmem)
    refine Or.inr (Or.inl ⟨?_, rfl⟩)
    show 0 < int64 (n * 1000000000)
    omega

end EdgeQuota.Middleware
