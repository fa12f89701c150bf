import EdgeQuota.Middleware.Body
import EdgeQuota.Middleware.TagProtocol

/-! The decisions of the authentication service as the chain applies them: which answers over HTTP let a
request on, which requests share a cached decision, and when that is the decision the service would give
itself. -/

namespace EdgeQuota.Middleware
open Go Lib Cache Config Auth

theorem isSome_applyAuthResponse (c : Chain) (r : Request) (s : Serving) (resp : CheckResponse) :
    (c.applyAuthResponse r s resp).1.isSome = resp.allowed := by
  unfold Chain.applyAuthResponse
  cases resp.allowed <;> rfl

theorem allowed_resolveHTTPCacheTTL (clock : Clock) (h : Header) (resp : CheckResponse) :
    (resolveHTTPCacheTTL clock h resp).allowed = resp.allowed := by
  obtain ⟨age, noStore, heq⟩ := resolveHTTPCacheTTL_eq clock h resp
  rw [heq]

theorem allowed_checkHTTP_iff (clock : Clock) (resp : HTTPResponse) :
    (checkHTTP clock resp).allowed = true ↔ resp.statusCode = 200 ∨ resp.Grants := by
  by_cases hok : resp.statusCode = 200
  · obtain ⟨parsed, -, heq⟩ := checkHTTP_ok clock hok
    rw [heq, allowed_resolveHTTPCacheTTL]
    exact iff_of_true rfl (Or.inl hok)
  rw [or_iff_right hok]
  by_cases hwire : ∃ wireResp, resp.Overrides wireResp
  · obtain ⟨wireResp, hwire⟩ := hwire
    rw [checkHTTP_overridden hok hwire, allowed_resolveHTTPCacheTTL]
    refine ⟨fun hallowed => ⟨wireResp, hwire, hallowed⟩, ?_⟩
    rintro ⟨wireResp', hwire', hallowed⟩
    obtain rfl := Option.some.inj (hwire.1.symm.trans hwire'.1)
    exact hallowed
  · rw [checkHTTP_denied hok (not_exists.mp hwire)]
    refine iff_of_false Bool.false_ne_true ?_
    rintro ⟨wireResp, hwire', -⟩
    exact hwire ⟨wireResp, hwire'⟩

/-- **Answers that let a request on.** A request goes on after a 200 of the service and after no other
answer of it, if and only if that is a 200 or the answer at the end of its redirects, if they lead to one,
neither is a 200 nor holds a document that says both `allowed` and a status of its own. -/
theorem http_allow_iff (c : Chain) (r : Request) (s : Serving) (clock : Clock) (parses : GoString → Bool)
    (answer : HTTPResponse) (answers : List HTTPResponse) :
    ((∃ resp ∈ askHTTP clock parses answer answers, (c.applyAuthResponse r s resp).1.isSome = true) ↔
        answer.statusCode = 200) ↔
      answer.statusCode = 200 ∨
        ∀ last ∈ followRedirects parses 9 answer answers, last.statusCode ≠ 200 ∧ ¬last.Grants := by
  have hgoes : (∃ resp ∈ askHTTP clock parses answer answers, (c.applyAuthResponse r s resp).1.isSome = true) ↔
      ∃ last ∈ followRedirects parses 9 answer answers, last.statusCode = 200 ∨ last.Grants := by
    simp only [askHTTP, Option.mem_map, isSome_applyAuthResponse, exists_exists_and_eq_and, allowed_checkHTTP_iff]
  rw [hgoes]
  by_cases hok : answer.statusCode = 200
  · have hfinal : answer.redirects = false := by
      rw [HTTPResponse.redirects, hok]
      rfl
    rw [followRedirects_eq_some hfinal]
    exact iff_of_true (iff_of_true ⟨answer, rfl, Or.inl hok⟩ hok) (Or.inl hok)
  · rw [or_iff_right hok, iff_false_right hok]
    simp only [not_exists, not_and, not_or]

/-- A document under a 403 lets a request on, and so does a redirect to a page that is there. -/
theorem http_allow_forbidden :
    let asked (answer : HTTPResponse) (answers : List HTTPResponse) :=
      (askHTTP {} (fun _ => true) answer answers).map fun resp =>
        ((withoutRedis .passThrough false).applyAuthResponse plainRequest { w := {} } resp).1.isSome
    asked { statusCode := 403, body := str "\x7b\"allowed\":true,\"status_code\":403\x7d" } [] = some true ∧
      asked { statusCode := 302, header := [(str "Location", str "/login")] }
        [{ statusCode := 200, body := str "<html>" }] = some true := by
  decide +kernel

/-- **Keys of cached decisions.** Whatever request shares the key of a request is the same request if and
only if no separator occurs in its method and path and every header of it is ephemeral. Among requests
without a separator in them the key of each is its own. -/
theorem authCacheKey_identifies_iff {sha256 : GoString → GoString} (hsha : Function.Injective sha256) (q : CheckRequest) :
    ((∀ q', authCacheKey sha256 q' = authCacheKey sha256 q →
      SameRequest authCacheKeyEphemeral q.method q.path q.headers q'.method q'.path q'.headers) ↔
    byte '|' ∉ q.method ∧ byte '|' ∉ q.path ∧ stableHeaders authCacheKeyEphemeral q.headers = []) ∧
    ∀ q', Separated authCacheKeyEphemeral q.method q.path q.headers →
      Separated authCacheKeyEphemeral q'.method q'.path q'.headers → authCacheKey sha256 q' = authCacheKey sha256 q →
      SameRequest authCacheKeyEphemeral q.method q.path q.headers q'.method q'.path q'.headers := by
  have hkey : ∀ q', authCacheKey sha256 q' = authCacheKey sha256 q ↔
      flatKey authCacheKeyEphemeral q'.method q'.path q'.headers =
        flatKey authCacheKeyEphemeral q.method q.path q.headers := by
    intro q'
    unfold authCacheKey
    rw [List.append_cancel_left_eq, hexEncode_injective.eq_iff, hsha.eq_iff]
  refine ⟨Iff.trans ?_ (flatKey_identifies_iff authCacheKeyEphemeral q.method q.path q.headers),
    fun q' h h' heq => flatKey_identifies_separated h h' ((hkey q').mp heq)⟩
  constructor
  · exact fun h method' path' headers' heq => h ⟨method', path', headers', [], []⟩ ((hkey _).mpr heq)
  · exact fun h q' heq => h q'.method q'.path q'.headers ((hkey q').mp heq)

def askedAbout (path : GoString) (header : Header) (id : GoString) : CheckRequest :=
  let r : Request := { plainRequest with url := ⟨path, [], []⟩, header := header, host := str "h" }
  (newClient {}).buildCheckRequest (prepareRequest { generatedID := id } r {}).1 []

theorem authCacheKey_identifies_ephemeral :
    let q : CheckRequest := ⟨str "GET", str "/", StringMap.empty.insert (str "Via") (str "a"), str "1.2.3.4:1", []⟩
    let q' : CheckRequest := ⟨str "GET", str "/", StringMap.empty.insert (str "Via") (str "b"), str "1.2.3.4:2", []⟩
    let asked (id : GoString) := askedAbout (str "/a") [(str "Accept", str "v")] id
    (q' ≠ q ∧ SameRequest authCacheKeyEphemeral q.method q.path q.headers q'.method q'.path q'.headers) ∧
    asked (str "2") ≠ asked (str "1") ∧
      SameRequest authCacheKeyEphemeral (asked (str "1")).method (asked (str "1")).path (asked (str "1")).headers
        (asked (str "2")).method (asked (str "2")).path (asked (str "2")).headers := by
  intro q q' asked
  refine ⟨⟨by decide +kernel, (authCacheKey_identifies_iff Function.injective_id q).1.mpr ?_ q' (by decide +kernel)⟩,
    by decide +kernel, (authCacheKey_identifies_iff Function.injective_id (asked (str "1"))).2 _ ?_ ?_ (by decide +kernel)⟩
  · decide +kernel
  · exact ⟨by decide +kernel, by decide +kernel, by decide +kernel⟩
  · exact ⟨by decide +kernel, by decide +kernel, by decide +kernel⟩

theorem authCacheKey_shared :
    let q := askedAbout (str "/a") [(str "Authorization", str "t")] (str "1")
    let q' := askedAbout (str "/a|Authorization=t") [] (str "2")
    authCacheKey id q = authCacheKey id q' ∧ q.path ≠ q'.path ∧
      q.headers.find (str "Authorization") = some (str "t") ∧ q'.headers.find (str "Authorization") = none := by
  decide +kernel

inductive AuthTask where
  | check (q : CheckRequest) (reachable : Bool)
  | purge (tag : GoString)

inductive AuthOutcome where
  | decided (q : CheckRequest) (resp : Option CheckResponse)
  | purged (n : ℕ)

def performAuth (sha256 : GoString → GoString) (svc : CheckRequest → CheckResponse) : AuthTask → Program AuthOutcome
  | .check q reachable => do
    let resp ← checkAuthCached (authCacheKey sha256 q) (if reachable then some (svc q) else none)
    pure (.decided q resp)
  | .purge tag => do
    let n ← deleteAuthByTag tag
    pure (.purged n)

def authRuns (sha256 : GoString → GoString) (svc : CheckRequest → CheckResponse) :
    Machine (Pool World Command Reply AuthOutcome) (Sched AuthTask Surroundings) (Option AuthOutcome) :=
  Pool.interleave exec (performAuth sha256 svc)

def AuthTask.Of (R : CheckRequest → Prop) : AuthTask → Prop
  | .check q _ => R q
  | .purge _ => True

def AnswerUnder (sha256 : GoString → GoString) (svc : CheckRequest → CheckResponse) (R : CheckRequest → Prop)
    (key : GoString) (resp : CheckResponse) : Prop :=
  ∃ q, R q ∧ authCacheKey sha256 q = key ∧ 0 < (svc q).resolveCacheTTL ∧ svc q = resp

def HoldsAnswers (sha256 : GoString → GoString) (svc : CheckRequest → CheckResponse) (R : CheckRequest → Prop)
    (w : World) : Prop :=
  ∀ key resp d, w.redis key = some ⟨.auth resp, d⟩ → AnswerUnder sha256 svc R key resp

section Runs
variable {sha256 : GoString → GoString} {svc : CheckRequest → CheckResponse} {R : CheckRequest → Prop}

abbrev KeepsAnswers (sha256 : GoString → GoString) (svc : CheckRequest → CheckResponse) (R : CheckRequest → Prop)
    {α : Type} (Q : α → Prop) (p : Program α) : Prop :=
  Prog.Sound exec (fun _ _ => True) (HoldsAnswers sha256 svc R) Q p

theorem holdsAnswers_empty : HoldsAnswers sha256 svc R World.empty := by
  rintro key resp d ⟨⟩

theorem HoldsAnswers.of_slots {w w' : World} (h : HoldsAnswers sha256 svc R w)
    (hslot : ∀ key resp d, w'.redis key = some ⟨.auth resp, d⟩ → w.redis key = some ⟨.auth resp, d⟩) :
    HoldsAnswers sha256 svc R w' := fun key resp d hs => h key resp d (hslot key resp d hs)

theorem keepsAnswers_sadd (key member : GoString) :
    KeepsAnswers sha256 svc R (fun _ => True) (send (.sadd key member)) := by
  refine sound_send fun w env hw _ => hw.of_slots fun k resp d hs => ?_
  simp only [exec] at hs
  split_ifs at hs
  · exact hs
  by_cases hk : k = key
  · subst hk
    unfold addMember at hs
    split at hs
    · cases (Keyspace.write_self ..).symm.trans hs
    · exact hs
  · exact (addMember_of_ne hk ..).symm.trans hs

theorem keepsAnswers_del (keys : List GoString) :
    KeepsAnswers sha256 svc R (fun _ => True) (send (.del keys)) := by
  refine sound_send fun w env hw _ => hw.of_slots fun k resp d hs => ?_
  simp only [exec] at hs
  split_ifs at hs
  · exact hs
  · have hs := (remove_apply ..).symm.trans hs
    split_ifs at hs
    exact hs

theorem keepsAnswers_setAuth (hsvc : ∀ q, 0 < (svc q).resolveCacheTTL → (svc q).marshal = svc q) {q : CheckRequest}
    (hq : R q) (httl : 0 < (svc q).resolveCacheTTL) (ttl : ℤ) :
    KeepsAnswers sha256 svc R (fun _ => True) (send (.setAuth (authCacheKey sha256 q) (svc q).marshal ttl)) := by
  refine sound_send fun w env hw _ => ?_
  simp only [exec]
  split_ifs
  · exact hw
  · intro key resp d hslot
    by_cases hk : key = authCacheKey sha256 q
    · subst hk
      cases (Keyspace.write_self ..).symm.trans hslot
      exact ⟨q, hq, rfl, httl, (hsvc q httl).symm⟩
    · exact hw key resp d ((Keyspace.write_of_ne hk ..).symm.trans hslot)

theorem keepsAnswers_indexAuthTags (key : GoString) (tags : List GoString) :
    KeepsAnswers sha256 svc R (fun _ => True) (indexAuthTags key tags) := by
  induction tags with
  | nil => exact trivial
  | cons tag tags ih => exact (keepsAnswers_sadd _ _).bind fun _ _ => ih

theorem keepsAnswers_getAuthFromCache (key : GoString) :
    KeepsAnswers sha256 svc R (fun o => ∀ resp ∈ o, AnswerUnder sha256 svc R key resp) (getAuthFromCache key) := by
  refine Prog.sound_request (c := Command.getAuth key) fun w env hw _ => ⟨hw, ?_⟩
  intro resp hresp
  have hget : lookupAuth w.redis env.clock key = some resp := by
    simp only [exec] at hresp
    split_ifs at hresp
    · exact hresp
    · cases hresp
  unfold lookupAuth at hget
  split at hget
  · rename_i v hv
    obtain rfl := Option.some.inj hget
    obtain ⟨slot, hfind, hvalue⟩ := Option.map_eq_some_iff.mp hv
    obtain ⟨hslot, -⟩ := Keyspace.find_eq_some.mp hfind
    exact hw key v slot.deadline (by rw [hslot, ← hvalue])
  · cases hget

theorem keepsAnswers_deleteAuthByTag (tag : GoString) :
    KeepsAnswers sha256 svc R (fun _ => True) (deleteAuthByTag tag) := by
  refine Prog.Sound.bind (sound_send (c := .smembers _) fun _ _ hw _ => hw) fun keys _ => ?_
  split_ifs
  · exact trivial
  · exact (keepsAnswers_del _).bind fun _ _ => (keepsAnswers_del _).bind fun _ _ => trivial

theorem keepsAnswers_checkAuthCached (hsvc : ∀ q, 0 < (svc q).resolveCacheTTL → (svc q).marshal = svc q)
    {q : CheckRequest} (hq : R q) (reachable : Bool) :
    KeepsAnswers sha256 svc R
      (fun o => ∀ resp ∈ o, resp = svc q ∨ AnswerUnder sha256 svc R (authCacheKey sha256 q) resp)
      (checkAuthCached (authCacheKey sha256 q) (if reachable then some (svc q) else none)) := by
  refine (keepsAnswers_getAuthFromCache _).bind fun o ho => ?_
  cases o with
  | some cached => exact Prog.sound_pure fun resp hresp => Or.inr (ho resp hresp)
  | none =>
    cases reachable with
    | false => exact Prog.sound_pure (by rintro resp ⟨⟩)
    | true =>
      have hstored : KeepsAnswers sha256 svc R (fun _ => True)
          (setAuthInCache (authCacheKey sha256 q) (svc q) (svc q).resolveCacheTTL) := by
        unfold setAuthInCache
        split_ifs with httl
        · exact trivial
        · exact (keepsAnswers_setAuth hsvc hq (not_le.mp httl) _).bind fun _ _ => keepsAnswers_indexAuthTags _ _
      refine hstored.bind fun _ _ => Prog.sound_pure ?_
      rintro resp ⟨⟩
      exact Or.inl rfl

theorem keepsAnswers_performAuth (hsvc : ∀ q, 0 < (svc q).resolveCacheTTL → (svc q).marshal = svc q) {t : AuthTask}
    (ht : t.Of R) :
    KeepsAnswers sha256 svc R
      (fun a => ∀ q resp, a = .decided q (some resp) →
        resp = svc q ∨ R q ∧ AnswerUnder sha256 svc R (authCacheKey sha256 q) resp)
      (performAuth sha256 svc t) := by
  cases t with
  | check q reachable =>
    refine (keepsAnswers_checkAuthCached hsvc ht reachable).bind fun o ho => Prog.sound_pure ?_
    rintro _ resp ⟨⟩
    exact (ho resp rfl).imp id fun h => ⟨ht, h⟩
  | purge tag => exact (keepsAnswers_deleteAuthByTag tag).bind fun _ _ => Prog.sound_pure (by rintro q resp ⟨⟩)

theorem run_indexAuthTags {key : GoString} (hkey : authCacheKeyPrefix <+: key) (tags : List GoString) (w : World)
    (env : ℕ → Surroundings) : (Prog.run exec (indexAuthTags key tags) w env).2.1.redis key = w.redis key := by
  induction tags generalizing w env with
  | nil => rfl
  | cons tag tags ih =>
    unfold indexAuthTags
    rw [Prog.run_bind, ih, run_send]
    simp only [exec]
    split_ifs
    · rfl
    · exact addMember_of_ne (authKey_ne_tagKey hkey tag) ..

theorem run_setAuthInCache {key : GoString} (hkey : authCacheKeyPrefix <+: key) {resp : CheckResponse}
    (hresp : resp.marshal = resp) {ttl : ℤ} (httl : 0 < ttl) (w : World) :
    (Prog.run exec (setAuthInCache key resp ttl) w fun _ => {}).2.1.redis key =
      some ⟨.auth resp, some (0 + expiryMs ttl)⟩ := by
  unfold setAuthInCache
  rw [if_neg (not_le.mpr httl), Prog.run_bind, run_indexAuthTags hkey, run_send, hresp]
  exact Keyspace.write_self ..

theorem expiryMs_pos (ttl : ℤ) : 0 < expiryMs ttl := by
  unfold expiryMs
  split_ifs
  · decide
  · omega

theorem run_performAuth (q : CheckRequest) (w : World) (env : ℕ → Surroundings) :
    let run := Prog.run exec (checkAuthCached (authCacheKey sha256 q) (some (svc q))) w env
    Prog.run exec (performAuth sha256 svc (.check q true)) w env = (.decided q run.1, run.2) := by
  simp only [performAuth, if_pos, Prog.run_bind, Prog.run_pure]

theorem run_check_twice (hsvc : ∀ q, 0 < (svc q).resolveCacheTTL → (svc q).marshal = svc q) {q q' : CheckRequest}
    (hkey : authCacheKey sha256 q = authCacheKey sha256 q') (httl : 0 < (svc q').resolveCacheTTL) :
    let w := (Prog.run exec (performAuth sha256 svc (.check q' true)) World.empty fun _ => {}).2.1
    (Prog.run exec (performAuth sha256 svc (.check q true)) w fun _ => {}).1 = .decided q (some (svc q')) := by
  intro w
  have hprefix : authCacheKeyPrefix <+: authCacheKey sha256 q' := List.prefix_append ..
  have hstored : w.redis (authCacheKey sha256 q') =
      some ⟨.auth (svc q'), some (0 + expiryMs (svc q').resolveCacheTTL)⟩ := by
    have hmiss : Prog.run exec (getAuthFromCache (authCacheKey sha256 q')) World.empty (fun _ => {}) =
        (none, World.empty, fun _ => {}) := rfl
    show (Prog.run exec (performAuth sha256 svc (.check q' true)) World.empty fun _ => {}).2.1.redis _ = _
    rw [run_performAuth, checkAuthCached, Prog.run_bind, hmiss]
    simp only [Prog.run_bind, Prog.run_pure]
    exact run_setAuthInCache hprefix (hsvc q' httl) httl World.empty
  have hlive : (0 : ℤ) < 0 + expiryMs (svc q').resolveCacheTTL := by
    rw [zero_add]
    exact expiryMs_pos _
  have hfound : (Prog.run exec (getAuthFromCache (authCacheKey sha256 q)) w fun _ => {}).1 = some (svc q') := by
    have hfind : w.redis.find 0 (authCacheKey sha256 q') = some _ :=
      Keyspace.find_eq_some.mpr ⟨hstored, decide_eq_true hlive⟩
    show lookupAuth w.redis 0 (authCacheKey sha256 q) = some (svc q')
    rw [hkey, lookupAuth, Keyspace.get, hfind]
    rfl
  rw [run_performAuth, run_checkAuthCached, hfound]
  rfl

end Runs

/-- **Decisions that are shared.** With an authentication service that is a function of what it is asked,
every decision that is applied in any run of checks of the requests in `R` is the one that the service
gives for the request, if and only if requests with one key get one answer as soon as one of the answers
may be cached. -/
theorem cached_decisions_iff (sha256 : GoString → GoString) {svc : CheckRequest → CheckResponse}
    (hsvc : ∀ q, 0 < (svc q).resolveCacheTTL → (svc q).marshal = svc q) (R : CheckRequest → Prop) :
    (∀ es, (authRuns sha256 svc).Along (Pool.Within (AuthTask.Of R) fun _ _ => True) (Pool.init World.empty) es →
      ∀ q resp, some (.decided q (some resp)) ∈ (authRuns sha256 svc).outputs (Pool.init World.empty) es →
        resp = svc q) ↔
    ∀ q q', R q → R q' → authCacheKey sha256 q = authCacheKey sha256 q' → 0 < (svc q').resolveCacheTTL →
      svc q' = svc q := by
  constructor
  · intro h q q' hq hq' hkey httl
    -- the first request is checked, and the second one right after it
    obtain ⟨es, hes, -, hrun⟩ := Pool.exists_alone exec (performAuth sha256 svc) (.check q' true) ({} : Surroundings)
      (g := 0) (s := Pool.init World.empty) rfl
    obtain ⟨es', hes', hmem, -⟩ := Pool.exists_alone exec (performAuth sha256 svc) (.check q true) ({} : Surroundings)
      (g := 0) (s := (authRuns sha256 svc).run (Pool.init World.empty) es) (congrArg (fun s => s.running 0) hrun)
    have halong : (authRuns sha256 svc).Along (Pool.Within (AuthTask.Of R) fun _ _ => True) (Pool.init World.empty)
        (es ++ es') := by
      refine Machine.along_of_forall fun e he s => ?_
      rcases List.mem_append.mp he with he | he
      · rcases hes e he with rfl | rfl
        · exact hq'
        · exact fun _ _ => trivial
      · rcases hes' e he with rfl | rfl
        · exact hq
        · exact fun _ _ => trivial
    have hshared : ((authRuns sha256 svc).run (Pool.init World.empty) es).shared =
        (Prog.run exec (performAuth sha256 svc (.check q' true)) World.empty fun _ => {}).2.1 := congrArg Pool.shared hrun
    rw [hshared, run_check_twice hsvc hkey httl] at hmem
    refine h (es ++ es') halong q (svc q') ?_
    rw [Machine.outputs_append]
    exact List.mem_append_right _ hmem
  · intro h es hes q resp hmem
    have hsound := Pool.interleave_sound (fun t ht => keepsAnswers_performAuth hsvc ht) holdsAnswers_empty hes _ hmem
    rcases hsound q resp rfl with heq | ⟨hq, q', hq', hkey, httl, heq⟩
    · exact heq
    · exact heq.symm.trans (h q q' hq hq' hkey.symm httl)

def inTurn (qs : List CheckRequest) : List (Sched AuthTask Surroundings) :=
  qs.flatMap fun q => .start 0 (.check q true) :: List.replicate 2 (.step 0 {})

def decisions (os : List (Option AuthOutcome)) : List (CheckRequest × CheckResponse) :=
  os.filterMap fun
    | some (.decided q (some resp)) => some (q, resp)
    | _ => none

def posted (body addr : GoString) : CheckRequest :=
  let c : Chain := { withoutRedis .passThrough false with client := newClient { propagateRequestBody := true } }
  let r : Request := { post with host := str "h", remoteAddr := addr }
  c.checkRequest (prepareRequest { generatedID := str "1" } r {}).1 { w := {}, conn := { pieces := [body] } }

def allowing (p : CheckRequest → Bool) (q : CheckRequest) : CheckResponse :=
  checkHTTP {} { statusCode := if p q then 200 else 403, header := [(str "Cache-Control", str "max-age=60")] }

theorem cached_decisions_by_path :
    let svc := allowing fun q => q.path = str "/"
    let qs := [posted (str "a") (str "1.2.3.4:1"), posted (str "b") (str "1.2.3.4:2")]
    let os := (authRuns id svc).outputs (Pool.init World.empty) (inTurn qs)
    (decisions os).length = 2 ∧ (decisions os).Forall fun d => d.2 = svc d.1 := by
  intro svc qs os
  refine ⟨by decide +kernel, List.forall_iff_forall_mem.mpr ?_⟩
  rintro ⟨q, resp⟩ hd
  have hpath : ∀ q ∈ qs, q.path = str "/" := by decide +kernel
  have hshared : ∀ q q', q ∈ qs → q' ∈ qs → authCacheKey id q = authCacheKey id q' → 0 < (svc q').resolveCacheTTL →
      svc q' = svc q := by
    intro q q' hq hq' _ _
    simp only [svc, allowing, hpath q hq, hpath q' hq']
  have hmem : some (.decided q (some resp)) ∈ os := by
    obtain ⟨o, ho, heq⟩ := List.mem_filterMap.mp hd
    split at heq
    · cases heq
      exact ho
    · cases heq
  refine (cached_decisions_iff id (fun _ => marshal_checkHTTP) (· ∈ qs)).mpr hshared (inTurn qs) ?_ q resp hmem
  refine Machine.along_of_forall fun e he s => ?_
  obtain ⟨q, hq, he⟩ := List.mem_flatMap.mp he
  rcases List.mem_cons.mp he with rfl | he
  · exact hq
  · rw [(List.mem_replicate.mp he).2]
    exact fun _ _ => trivial

/-- A service that looks at the body, and one that looks at the address: the second request is let through
with the decision on the first. -/
theorem cached_decisions_shared :
    let first := posted (str "ok") (str "10.0.0.1:1")
    let second := posted (str "no") (str "1.2.3.4:1")
    let byBody := allowing fun q => q.body = str "ok"
    let byAddr := allowing fun q => q.remoteAddr = str "10.0.0.1:1"
    (byBody second).allowed = false ∧ (byAddr second).allowed = false ∧
      (decisions ((authRuns id byBody).outputs (Pool.init World.empty) (inTurn [first, second]))).map
        (fun d => (d.1.body, d.2.allowed)) = [(str "ok", true), (str "no", true)] ∧
      (decisions ((authRuns id byAddr).outputs (Pool.init World.empty) (inTurn [first, second]))).map
        (fun d => (d.1.body, d.2.allowed)) = [(str "ok", true), (str "no", true)] := by
  decide +kernel

end EdgeQuota.Middleware
