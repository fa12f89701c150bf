import EdgeQuota.Lib.Threads
import EdgeQuota.Middleware.Edge
import EdgeQuota.Middleware.Identity
import EdgeQuota.Proxy.WSLimiter

/-! WebSocket connections through the chain and then the limiter of the proxy. The key that the limiter counts by
is put into the context before the external service has told the tenant. -/

namespace EdgeQuota.Middleware
open Go Lib Proxy

def Chain.resolvedKey (c : Chain) (o : Outcomes) (r : Request) : Option GoString :=
  if c.Bypassed r ∨ (c.staticRL.average = 0 ∧ c.externalRL = false) then none
  else (c.lookupKey o).map fun key => (c.fetchExternalLimits o key).2

def countedKey (c : Chain) (p : WebSocketProxy) (o : Outcomes) (r : Request) : Option GoString :=
  (c.serveHTTP o r {}).forwarded.bind fun (r, _) =>
    if isWebSocketUpgrade r && p.originAllowed r then some (WebSocketProxy.wsKey r) else none

def Chain.tableKey (c : Chain) (k : GoString) : GoString :=
  if c.externalRL = true ∨ k = [] then str "__unknown__" else k

theorem key_routed (c : Chain) (o : Outcomes) (r : Request) (key : GoString) (limits : Option LimitsResponse) :
    (c.routed o r key limits).context.key = key := by
  obtain ⟨ctx, hkey, heq⟩ := routed_eq c o r key limits
  rw [heq]
  exact hkey

theorem handsOn_key {c : Chain} {o : Outcomes} {r : Request} {s : Serving}
    (hlimited : ¬(c.staticRL.average = 0 ∧ c.externalRL = false)) :
    HandsOn (fun r' => c.lookupKey o = some r'.context.key) s (c.serveAuthenticated o r s) := by
  have hlimited : ¬(c.staticRL.average = 0 ∧ (!c.externalRL) = true) := by
    rwa [Bool.not_eq_true']
  unfold Chain.serveAuthenticated
  rw [if_neg hlimited]
  cases hkey : c.lookupKey o with
  | none => exact handsOn_writeJSONError _ _ _ _
  | some key =>
    refine handsOn_serveLimited ?_
    rw [key_routed]

theorem next_of_forwarded {s : Serving} {r : Request} {w : ResponseWriter} (h : s.forwarded = some (r, w)) :
    .next r w ∈ s.trace := by
  obtain ⟨e, he, hcall⟩ := List.exists_of_findSome?_eq_some h
  cases e with
  | next r' w' =>
    obtain ⟨rfl, rfl⟩ := Prod.mk.inj (Option.some.inj hcall)
    exact he
  | acquire => cases hcall
  | release => cases hcall

theorem countedKey_eq {c : Chain} {p : WebSocketProxy} {o : Outcomes} {r : Request} {k key : GoString}
    (hk : c.resolvedKey o r = some k) (hkey : countedKey c p o r = some key) : key = c.tableKey k := by
  obtain ⟨⟨r', w⟩, hforwarded, hcounted⟩ := Option.bind_eq_some_iff.mp hkey
  unfold Chain.resolvedKey at hk
  split_ifs at hk with hoff
  obtain ⟨hbypassed, hlimited⟩ := not_or.mp hoff
  obtain ⟨key₀, hlookup, rfl⟩ := Option.map_eq_some_iff.mp hk
  -- the context of what is handed on holds the key that was looked up
  obtain ⟨-, a, s', -, hnone, hnext⟩ := (Chain.next_serveHTTP (next_of_forwarded hforwarded)).resolve_left
    fun hb => hbypassed hb.1
  have hcontext := ((handsOn_key hlimited).next r' w hnext).resolve_left hnone
  obtain rfl := Option.some.inj (hlookup.symm.trans hcontext)
  simp only at hcounted
  split_ifs at hcounted
  obtain rfl := Option.some.inj hcounted
  unfold WebSocketProxy.wsKey Chain.tableKey
  cases hext : c.externalRL with
  | true =>
    have hempty : r'.context.key = [] := by
      rw [Chain.lookupKey, if_pos hext] at hcontext
      exact (Option.some.inj hcontext).symm
    rw [if_pos hempty, if_pos (Or.inl rfl)]
  | false =>
    have hfetch : (c.fetchExternalLimits o r'.context.key).2 = r'.context.key := by
      unfold Chain.fetchExternalLimits
      rw [hext]
      rfl
    rw [hfetch]
    simp only [Bool.false_eq_true, false_or]

structure Socket where
  resolved : Option GoString
  counted : GoString
  deriving DecidableEq

structure Sockets where
  limiter : WSLimiter
  sockets : List Socket

inductive SocketEvent where
  | upgrade (o : Outcomes) (r : Request)
  | close (i : ℕ)

def SocketEvent.tenant (c : Chain) (p : WebSocketProxy) : SocketEvent → Option GoString
  | .upgrade o r => if (countedKey c p o r).isSome then c.resolvedKey o r else none
  | .close _ => none

def SocketEvent.counted (c : Chain) (p : WebSocketProxy) : SocketEvent → Option GoString
  | .upgrade o r => countedKey c p o r
  | .close _ => none

def webSockets (c : Chain) (p : WebSocketProxy) : Machine Sockets SocketEvent Bool where
  step
    | s, .upgrade o r =>
      match countedKey c p o r with
      | none => (false, s)
      | some key =>
        match s.limiter.acquire key with
        | (true, limiter) => (true, ⟨limiter, s.sockets ++ [⟨c.resolvedKey o r, key⟩]⟩)
        | (false, limiter) => (false, { s with limiter := limiter })
    | s, .close i =>
      match s.sockets[i]? with
      | none => (false, s)
      | some socket => (false, ⟨s.limiter.release socket.counted, s.sockets.eraseIdx i⟩)

section Runs
variable {c : Chain} {p : WebSocketProxy} {maxPerKey : ℤ}

structure Sockets.Sound (c : Chain) (maxPerKey : ℤ) (s : Sockets) : Prop where
  limit : s.limiter.maxPerKey = maxPerKey
  balanced : s.limiter.Balanced (s.sockets.map Socket.counted)
  table : ∀ x ∈ s.sockets, ∀ k ∈ x.resolved, x.counted = c.tableKey k

theorem maxPerKey_acquire (l : WSLimiter) (key : GoString) : (l.acquire key).2.maxPerKey = l.maxPerKey := by
  unfold WSLimiter.acquire
  split_ifs <;> rfl

theorem maxPerKey_release (l : WSLimiter) (key : GoString) : (l.release key).maxPerKey = l.maxPerKey := by
  unfold WSLimiter.release
  split_ifs <;> rfl

theorem acquire_of_refused {l : WSLimiter} {key : GoString} (h : (l.acquire key).1 = false) :
    (l.acquire key).2 = l := by
  unfold WSLimiter.acquire at h ⊢
  split_ifs at h ⊢
  rfl

theorem Sockets.Sound.step {s : Sockets} (h : s.Sound c maxPerKey) (e : SocketEvent) :
    ((webSockets c p).step s e).2.Sound c maxPerKey := by
  cases e with
  | upgrade o r =>
    simp only [webSockets]
    cases hkey : countedKey c p o r with
    | none => exact h
    | some key =>
      simp only
      rcases hacquire : s.limiter.acquire key with ⟨_ | _, limiter⟩
      · have hsame := acquire_of_refused (congrArg Prod.fst hacquire)
        rw [hacquire] at hsame
        obtain rfl : limiter = s.limiter := hsame
        exact h
      · have hbalanced := h.balanced.acquire (congrArg Prod.fst hacquire)
        have hlimit := (maxPerKey_acquire s.limiter key).trans h.limit
        rw [hacquire] at hbalanced hlimit
        refine ⟨hlimit, by simpa using hbalanced, fun x hx k hk => ?_⟩
        rcases List.mem_append.mp hx with hold | hnew
        · exact h.table x hold k hk
        · obtain rfl := List.mem_singleton.mp hnew
          exact countedKey_eq hk hkey
  | close i =>
    simp only [webSockets]
    cases hsocket : s.sockets[i]? with
    | none => exact h
    | some socket =>
      have hsplit := System.eq_split hsocket
      have hbalanced := h.balanced
      rw [hsplit, List.map_append, List.map_cons] at hbalanced
      refine ⟨(maxPerKey_release _ _).trans h.limit, ?_, fun x hx => h.table x (List.mem_of_mem_eraseIdx hx)⟩
      simp only [List.eraseIdx_eq_take_drop_succ, List.map_append]
      exact hbalanced.release

theorem Sockets.Sound.open_le {s : Sockets} (h : s.Sound c maxPerKey) (k : GoString) :
    (s.sockets.countP (fun x => x.resolved = some k) : ℤ) ≤ maxPerKey := by
  have hle : s.sockets.countP (fun x => x.resolved = some k) ≤ (s.sockets.map Socket.counted).count (c.tableKey k) := by
    rw [List.count, List.countP_map]
    refine List.countP_mono_left fun x hx hk => ?_
    simpa using h.table x hx k (of_decide_eq_true hk)
  have hbound := h.balanced.bound (c.tableKey k)
  rw [h.limit] at hbound
  omega

def CountedApart (c : Chain) (p : WebSocketProxy) (events : List SocketEvent) : Prop :=
  ∀ e₁ ∈ events, ∀ e₂ ∈ events, ∀ k₁ ∈ e₁.tenant c p, ∀ k₂ ∈ e₂.tenant c p, k₁ ≠ k₂ →
    e₁.counted c p ≠ e₂.counted c p

theorem counted_of_tenant {e : SocketEvent} {k : GoString} (h : e.tenant c p = some k) :
    e.counted c p = some (c.tableKey k) := by
  cases e with
  | close i => cases h
  | upgrade o r =>
    simp only [SocketEvent.tenant] at h
    split_ifs at h with hsome
    obtain ⟨key, hkey⟩ := Option.isSome_iff_exists.mp hsome
    rw [SocketEvent.counted, hkey, countedKey_eq h hkey]

theorem countedApart_iff_injOn (events : List SocketEvent) :
    CountedApart c p events ↔
      ∀ k₁ ∈ events.filterMap (SocketEvent.tenant c p), ∀ k₂ ∈ events.filterMap (SocketEvent.tenant c p),
        c.tableKey k₁ = c.tableKey k₂ → k₁ = k₂ := by
  constructor
  · intro hall k₁ hk₁ k₂ hk₂ hsame
    obtain ⟨e₁, he₁, hk₁⟩ := List.mem_filterMap.mp hk₁
    obtain ⟨e₂, he₂, hk₂⟩ := List.mem_filterMap.mp hk₂
    by_contra hne
    refine hall e₁ he₁ e₂ he₂ k₁ hk₁ k₂ hk₂ hne ?_
    rw [counted_of_tenant hk₁, counted_of_tenant hk₂, hsame]
  · intro hall e₁ he₁ e₂ he₂ k₁ hk₁ k₂ hk₂ hne hsame
    rw [counted_of_tenant hk₁, counted_of_tenant hk₂] at hsame
    exact hne (hall k₁ (List.mem_filterMap.mpr ⟨e₁, he₁, hk₁⟩) k₂ (List.mem_filterMap.mpr ⟨e₂, he₂, hk₂⟩)
      (Option.some.inj hsame))

theorem tableKey_injOn_static (hext : c.externalRL = false) (ks : List GoString) :
    (∀ k₁ ∈ ks, ∀ k₂ ∈ ks, c.tableKey k₁ = c.tableKey k₂ → k₁ = k₂) ↔ ¬([] ∈ ks ∧ str "__unknown__" ∈ ks) := by
  have htable : ∀ k, c.tableKey k = if k = [] then str "__unknown__" else k := by
    intro k
    simp only [Chain.tableKey, hext, Bool.false_eq_true, false_or]
  simp only [htable]
  constructor
  · rintro hall ⟨hempty, hunknown⟩
    exact absurd (hall [] hempty _ hunknown rfl) (by decide)
  · intro hnot k₁ hk₁ k₂ hk₂ hsame
    split_ifs at hsame with h₁ h₂ h₂
    · rw [h₁, h₂]
    · exact absurd ⟨h₁ ▸ hk₁, hsame ▸ hk₂⟩ hnot
    · exact absurd ⟨h₂ ▸ hk₂, hsame ▸ hk₁⟩ hnot
    · exact hsame

/-- **WebSocket limits per tenant.** In every run of upgrades, the upgrades with different resolved keys are
counted apart exactly if in external mode they all have the same key, and in static mode not both the empty key
and the one that stands in for it occur. For one resolved key there are never more connections than allowed. -/
theorem tenants_counted_apart_iff (c : Chain) (p : WebSocketProxy) (hmax : 0 < maxPerKey) (events : List SocketEvent) :
    (CountedApart c p events ↔
        (c.externalRL = true → ∀ k₁ ∈ events.filterMap (SocketEvent.tenant c p),
          ∀ k₂ ∈ events.filterMap (SocketEvent.tenant c p), k₁ = k₂) ∧
        (c.externalRL = false → ¬([] ∈ events.filterMap (SocketEvent.tenant c p) ∧
          str "__unknown__" ∈ events.filterMap (SocketEvent.tenant c p)))) ∧
      ∀ k, (((webSockets c p).run ⟨WSLimiter.new maxPerKey, []⟩ events).sockets.countP
        (fun x => x.resolved = some k) : ℤ) ≤ maxPerKey := by
  constructor
  · rw [countedApart_iff_injOn]
    cases hext : c.externalRL with
    | true =>
      have htable : ∀ k, c.tableKey k = str "__unknown__" := by
        intro k
        simp only [Chain.tableKey, hext, true_or, if_true]
      simp only [htable, true_imp_iff, Bool.true_eq_false, false_imp_iff, and_true]
    | false =>
      rw [tableKey_injOn_static hext]
      simp only [Bool.false_eq_true, false_imp_iff, true_imp_iff, true_and]
  · have hstart : Sockets.Sound c maxPerKey ⟨WSLimiter.new maxPerKey, []⟩ :=
      ⟨rfl, WSLimiter.balanced_new hmax, by rintro x ⟨⟩⟩
    have hsound : ((webSockets c p).run ⟨WSLimiter.new maxPerKey, []⟩ events).Sound c maxPerKey :=
      Machine.run_of_invariant (P := fun _ _ => True) (fun s e hs _ => hs.step e) hstart
        (Machine.along_of_forall fun _ _ _ => trivial)
    exact hsound.open_le

end Runs

def openingSocket : Request :=
  { method := str "GET"
    url := ⟨str "/chat", [], []⟩
    header := [(str "Upgrade", str "websocket"), (str "Connection", str "Upgrade")] }

def upgradeUnder (key : String) : SocketEvent := .upgrade { extract := some (str key) } openingSocket

def upgradeOf (tenant : String) : SocketEvent :=
  .upgrade
    { getLimits := some
        { average := 10, burst := 10, period := str "1s", tenantKey := str tenant, backendURL := str "http://a" } }
    openingSocket

def staticMode : Chain := { routing with externalRL := false }

theorem tenants_counted_apart_static :
    (webSockets staticMode {}).outputs ⟨WSLimiter.new 1, []⟩
        [upgradeUnder "10.0.0.1", upgradeUnder "10.0.0.1", upgradeUnder "10.0.0.2"] = [true, false, true] ∧
      CountedApart staticMode {} [upgradeUnder "10.0.0.1", upgradeUnder "10.0.0.1", upgradeUnder "10.0.0.2"] := by
  refine ⟨by decide +kernel, (tenants_counted_apart_iff staticMode {} (show (0 : ℤ) < 1 by decide) _).1.mpr ⟨?_, ?_⟩⟩
  · intro hext
    cases hext
  · intro _
    decide +kernel

theorem tenants_share_a_count :
    [upgradeOf "a", upgradeOf "b"].map (SocketEvent.tenant routing {}) = [some (str "t:a"), some (str "t:b")] ∧
      (webSockets routing {}).outputs ⟨WSLimiter.new 1, []⟩ [upgradeOf "a", upgradeOf "b"] = [true, false] ∧
      ¬CountedApart routing {} [upgradeOf "a", upgradeOf "b"] := by
  refine ⟨by decide +kernel, by decide +kernel, ?_⟩
  intro hall
  refine hall (upgradeOf "a") (by simp) (upgradeOf "b") (by simp) (str "t:a") ?_ (str "t:b") ?_ (by decide) ?_
  · decide +kernel
  · decide +kernel
  · decide +kernel

end EdgeQuota.Middleware
