import EdgeQuota.Middleware.ClientCustody
import EdgeQuota.Middleware.Operations

/-! Who closes the Redis clients of the chain. A ledger beside the chain records the cache clients that have been
created and every client that is closed, with the way it was. -/

namespace EdgeQuota.Middleware
open Go Config RateLimit Lib

def Live.clients (s : Live) : Clients :=
  ⟨s.limiter.map InstalledLimiter.client, s.cacheRedis, s.cacheRedisOwned, s.authCacheRedis,
    s.externalRL.map ExternalClient.redis, s.allocated, s.closed, s.reconnecting⟩

structure Record where
  dedicated : List RedisHandle := []
  closings : List Closing := []

structure Ledger extends Record where
  live : Live

def usableCache (net : RedisClient.Network) (cfg : FullConfig) : Option RedisConfig :=
  cfg.dedicatedCache.filter fun rc => (RedisClient.newClient rc true net).isOk

namespace Live

def change (s : Live) : Operation → Change
  | .limiterFailure => .limiterLost
  | .recovery net =>
    match s.recoveryEnd net with
    | .pending => .nothing
    | .createFailed => .recoveryOver
    | .gaveUp => .gaveUp s.cfg.redis
    | .reached => if s.unlimited then .notConfigured s.cfg.redis else .installed s.cfg.redis
  | .reload r cfg =>
    match (s.reload r cfg).1 with
    | .error _ => .nothing
    | .ok () => if cfg.rateLimit.external.enabled then .released (usableCache r.cacheRedis cfg) r.externalClient else .rebound
  | .close => .closed

def newLimited (r : Reach) (cfg : FullConfig) : Except StartError Live :=
  match newKeyStrategy cfg.rateLimit.static.keyStrategy with
  | .error e => .error (.chain (.keyStrategy e))
  | .ok ks =>
    match (start cfg ks).storeFallback cfg with
    | .error e => .error (.chain (.fallbackKeyStrategy e))
    | .ok s => s.initRedis r cfg

end Live

namespace Ledger

def new (r : Reach) (cfg : FullConfig) : Except (StartError × Record) Ledger :=
  match Live.newLimited r cfg with
  | .error e => .error (e, {})
  | .ok s₀ =>
    match s₀.initAuth r cfg with
    | .error e => .error (e, {})
    | .ok s₁ =>
      let usable := usableCache r.cacheRedis cfg
      let dedicated :=
        (if cfg.auth.enabled then s₀.clients.adopted usable else []) ++
          if cfg.rateLimit.external.enabled then s₁.clients.adopted usable else []
      match s₁.initExternal r cfg with
      | .error e => .error (e, ⟨dedicated, (s₁.clients.resolve usable).releasing⟩)
      | .ok s₂ => .ok ⟨⟨dedicated, []⟩, s₂.initResponseCache r cfg⟩

def perform (l : Ledger) (op : Operation) : Ledger where
  live := l.live.perform op
  dedicated := l.dedicated ++ l.live.clients.creates (l.live.change op)
  closings := l.closings ++ l.live.clients.closes (l.live.change op)

def machine : Machine Ledger Operation Unit where
  step l op := ((), l.perform op)

theorem live_new (r : Reach) (cfg : FullConfig) :
    ((new r cfg).map Ledger.live).mapError Prod.fst = Live.new r cfg := by
  have hnew : Live.new r cfg = (Live.newLimited r cfg >>= fun s => do
      let s ← s.initAuth r cfg
      let s ← s.initExternal r cfg
      pure (s.initResponseCache r cfg)) := by
    unfold Live.new Live.newLimited
    cases newKeyStrategy cfg.rateLimit.static.keyStrategy with
    | error e => rfl
    | ok ks =>
      simp only
      cases (Live.start cfg ks).storeFallback cfg <;> rfl
  rw [hnew]
  unfold new
  cases Live.newLimited r cfg with
  | error e => rfl
  | ok s₀ =>
    simp only
    show _ = (s₀.initAuth r cfg >>= fun s => _)
    cases s₀.initAuth r cfg with
    | error e => rfl
    | ok s₁ =>
      simp only
      show _ = (s₁.initExternal r cfg >>= fun s => _)
      cases s₁.initExternal r cfg <;> rfl

theorem live_run (l : Ledger) (ops : List Operation) : (machine.run l ops).live = ops.foldl Live.perform l.live := by
  induction ops generalizing l with
  | nil => rfl
  | cons op ops ih => exact ih (l.perform op)

end Ledger

namespace Live
variable {s : Live} {r : Reach} {cfg : FullConfig}

theorem clients_borrowCacheRedis (hnone : s.cacheRedis = none) :
    s.borrowCacheRedis.2.clients = s.clients.borrow ∧ s.borrowCacheRedis.1 = s.clients.borrow.cacheRedis := by
  unfold borrowCacheRedis Clients.borrow
  cases hlim : s.limiter <;> simp [clients, hlim, hnone]

theorem clients_resolveCacheRedis (net : RedisClient.Network) (cfg : FullConfig) (s : Live) :
    (s.resolveCacheRedis net cfg).2.clients = s.clients.resolve (usableCache net cfg) ∧
      (s.resolveCacheRedis net cfg).1 = (s.clients.resolve (usableCache net cfg)).cacheRedis := by
  unfold resolveCacheRedis Clients.resolve
  cases hcache : s.cacheRedis with
  | some existing => simp [clients, hcache]
  | none =>
    rw [if_pos (show s.clients.cacheRedis = none from hcache)]
    unfold usableCache
    cases cfg.dedicatedCache with
    | none => exact clients_borrowCacheRedis hcache
    | some rc =>
      by_cases hok : (RedisClient.newClient rc true net).isOk = true
      · simp only [Option.filter_some, hok, if_true]
        exact ⟨rfl, rfl⟩
      · simp only [Option.filter_some, hok]
        exact clients_borrowCacheRedis hcache

theorem clients_storeFallback {s' : Live} (h : s.storeFallback cfg = .ok s') : s'.clients = s.clients := by
  unfold storeFallback at h
  split at h
  · split at h
    · cases h
    · obtain rfl := Except.ok.inj h
      rfl
  · obtain rfl := Except.ok.inj h
    rfl

theorem clients_storeExternal (cfg : FullConfig) (cache : Option RedisHandle) (s : Live) :
    (s.storeExternal cfg cache).clients =
      { s.clients with external := some cache, allocated := s.clients.allocated + 1 } :=
  rfl

theorem clients_storeConfig (cfg : FullConfig) (s : Live) : (s.storeConfig cfg).clients = s.clients := by
  unfold storeConfig clients
  cases s.limiter <;> rfl

theorem clients_reloadAuth (r : Reach) (prev cfg : FullConfig) (s : Live) :
    (s.reloadAuth r prev cfg).clients = s.clients := by
  unfold reloadAuth
  split_ifs <;> rfl

theorem clients_reloadExternalRL (r : Reach) (cfg : FullConfig) (s : Live) :
    (s.reloadExternalRL r cfg).clients =
      if cfg.rateLimit.external.enabled then s.clients.reloadExternal (usableCache r.cacheRedis cfg) r.externalClient
      else s.clients := by
  unfold reloadExternalRL Clients.reloadExternal
  obtain ⟨hclients, hcache⟩ := clients_resolveCacheRedis r.cacheRedis cfg s.releaseCacheRedis
  by_cases henabled : cfg.rateLimit.external.enabled = true
  · simp only [henabled, if_true]
    cases r.externalClient with
    | false => exact hclients
    | true =>
      simp only [if_true]
      rw [clients_storeExternal, hclients, hcache]
      rfl
  · simp [henabled]

theorem clients_reload_error {e : ChainError} (h : (s.reload r cfg).1 = .error e) :
    (s.reload r cfg).2.clients = s.clients := by
  unfold reload at h ⊢
  split at h
  · rfl
  · simp only at h ⊢
    split at h
    · rfl
    · cases h

theorem clients_reload_ok (h : (s.reload r cfg).1 = .ok ()) :
    (s.reload r cfg).2.clients =
      (if cfg.rateLimit.external.enabled then s.clients.reloadExternal (usableCache r.cacheRedis cfg) r.externalClient
        else s.clients).bindAuth := by
  unfold reload at h ⊢
  split at h
  · cases h
  · simp only at h ⊢
    split at h
    · cases h
    · rename_i s' hfallback
      -- of what a reload stores, only the external section and the reference for authentication matter here
      have hstored := clients_storeFallback hfallback
      have hsame : ((s'.storeStatic cfg).storeConfig cfg).clients = s.clients :=
        (clients_storeConfig ..).trans hstored
      have hrest : ∀ s : Live, ((s.storeAuthCacheRedis s.cacheRedis).storeRest cfg).clients = s.clients.bindAuth :=
        fun _ => rfl
      simp only
      rw [hrest, clients_reloadAuth, clients_reloadExternalRL, hsame]

variable {net : RedisClient.Network}

theorem reconnecting_of_recoveryEnd (h : s.recoveryEnd net = .gaveUp ∨ s.recoveryEnd net = .reached) :
    s.reconnecting = true := by
  by_contra hidle
  have hpending : s.recoveryEnd net = .pending := if_pos (Bool.eq_false_of_not_eq_true hidle)
  rw [hpending] at h
  rcases h with h | h <;> cases h

theorem open_of_recoveryEnd (h : s.recoveryEnd net = .reached) : s.closed = false := by
  unfold recoveryEnd at h
  split_ifs at h
  split at h
  · cases h
  · unfold attemptsEnd at h
    split_ifs at h with hclosed
    exact Bool.eq_false_of_not_eq_true hclosed

theorem possible_change (s : Live) (op : Operation) : s.clients.Possible (s.change op) := by
  cases op with
  | limiterFailure | close => trivial
  | recovery net =>
    simp only [change]
    cases hend : s.recoveryEnd net with
    | pending | createFailed => trivial
    | gaveUp => exact reconnecting_of_recoveryEnd (.inl hend)
    | reached =>
      simp only
      split_ifs
      · exact reconnecting_of_recoveryEnd (.inr hend)
      · exact ⟨reconnecting_of_recoveryEnd (.inr hend), open_of_recoveryEnd hend⟩
  | reload r cfg =>
    simp only [change]
    split
    · trivial
    · split_ifs <;> trivial

theorem clients_recoveryInstall (h : s.unlimited = false) :
    Live.clients { recoveryInstall ⟨s.allocated, s.cfg.redis⟩ { s with allocated := s.allocated + 1 } with
      reconnecting := false } = s.clients.install s.cfg.redis := by
  have hlimited : Live.unlimited { s with allocated := s.allocated + 1 } = false := h
  unfold recoveryInstall rebindBorrowed Clients.install
  rw [hlimited, if_neg Bool.false_ne_true]
  cases howned : s.cacheRedisOwned with
  | true => simp [clients, howned, StaticSnapshot.newLimiter]
  | false => simp [clients, howned, StaticSnapshot.newLimiter, Function.comp_def]

theorem clients_perform (s : Live) (op : Operation) : (s.perform op).clients = s.clients.apply (s.change op) := by
  cases op with
  | limiterFailure | close => rfl
  | recovery net =>
    simp only [perform, recover, change]
    cases s.recoveryEnd net with
    | pending | createFailed | gaveUp => rfl
    | reached =>
      simp only
      cases hlimits : s.unlimited with
      | true =>
        have hunlimited : Live.unlimited { s with allocated := s.allocated + 1 } = true := hlimits
        unfold recoveryInstall
        rw [hunlimited]
        rfl
      | false => exact clients_recoveryInstall hlimits
  | reload r cfg =>
    simp only [perform, change]
    cases hresult : (s.reload r cfg).1 with
    | error e => exact clients_reload_error hresult
    | ok u =>
      rw [clients_reload_ok hresult]
      simp only
      split_ifs <;> rfl

end Live

namespace Live
variable {s s' : Live} {r : Reach} {cfg : FullConfig}

theorem clients_initRedis (h : s.initRedis r cfg = .ok s') :
    s'.clients = s.clients ∨ s'.clients = { s.clients with reconnecting := true } ∨
      s'.clients =
        { s.clients with limiter := some ⟨s.clients.allocated, cfg.redis⟩, allocated := s.clients.allocated + 1 } := by
  unfold initRedis at h
  simp only at h
  split at h
  · obtain rfl := Except.ok.inj h
    exact .inl rfl
  · split at h
    · split at h
      · obtain rfl := Except.ok.inj h
        exact .inr (.inl rfl)
      · obtain rfl := Except.ok.inj h
        exact .inr (.inl rfl)
      · cases h
      · cases h
      · cases h
    · split at h
      · obtain rfl := Except.ok.inj h
        exact .inr (.inr rfl)
      · obtain rfl := Except.ok.inj h
        exact .inl rfl

theorem clients_initAuth (h : s.initAuth r cfg = .ok s') :
    s'.clients =
      if cfg.auth.enabled then (s.clients.resolve (usableCache r.cacheRedis cfg)).bindAuth else s.clients := by
  have hresolve := clients_resolveCacheRedis r.cacheRedis cfg (s.storeAuthClient cfg)
  unfold initAuth at h
  rcases hresult : (s.storeAuthClient cfg).resolveCacheRedis r.cacheRedis cfg with ⟨cache, s₁⟩
  rw [hresult] at h hresolve
  obtain ⟨hclients, hcache⟩ : s₁.clients = _ ∧ cache = _ := hresolve
  split_ifs at h ⊢
  · rw [← Except.ok.inj h]
    change { s₁.clients with authCacheRedis := cache } = _
    rw [hclients, hcache]
    rfl
  · rw [← Except.ok.inj h]

theorem clients_initExternal (h : s.initExternal r cfg = .ok s') :
    s'.clients =
      if cfg.rateLimit.external.enabled then (s.clients.resolve (usableCache r.cacheRedis cfg)).bindExternal
      else s.clients := by
  have hresolve := clients_resolveCacheRedis r.cacheRedis cfg s
  unfold initExternal at h
  rcases hresult : s.resolveCacheRedis r.cacheRedis cfg with ⟨cache, s₁⟩
  rw [hresult] at h hresolve
  obtain ⟨hclients, hcache⟩ : s₁.clients = _ ∧ cache = _ := hresolve
  split_ifs at h ⊢
  · rw [← Except.ok.inj h, clients_storeExternal, hclients, hcache]
    rfl
  · rw [← Except.ok.inj h]

theorem clients_initResponseCache (r : Reach) (cfg : FullConfig) (s : Live) :
    (s.initResponseCache r cfg).clients = s.clients := by
  unfold initResponseCache
  split_ifs <;> rfl

theorem custody_newLimited (h : newLimited r cfg = .ok s) : Custody s.clients [] [] := by
  unfold newLimited at h
  split at h
  · cases h
  · split at h
    · cases h
    · rename_i s₀ hfallback
      have hstart : s₀.clients = .initial := clients_storeFallback hfallback
      rcases clients_initRedis h with hsame | hsame | hsame <;> rw [hsame, hstart]
      · exact .initial
      · exact { Custody.initial with down := fun _ => rfl }
      · exact .limited ..

theorem custody_initAuth (h : Custody s.clients [] []) (hauth : s.initAuth r cfg = .ok s') :
    Custody s'.clients (if cfg.auth.enabled then s.clients.adopted (usableCache r.cacheRedis cfg) else []) [] := by
  rw [clients_initAuth hauth]
  split_ifs
  · exact ⟨(h.toKept.resolve _).bindAuth, .inr (.inl rfl)⟩
  · exact h

theorem custody_initExternal {d : List RedisHandle} (h : Custody s.clients d [])
    (hexternal : s.initExternal r cfg = .ok s') :
    Custody s'.clients
      (d ++ if cfg.rateLimit.external.enabled then s.clients.adopted (usableCache r.cacheRedis cfg) else []) [] := by
  rw [clients_initExternal hexternal]
  split_ifs
  · exact ⟨(h.toKept.resolve _).bindExternal, (h.resolve _).auth⟩
  · rw [List.append_nil]
    exact h

theorem enabled_of_initExternal {e : StartError} (h : s.initExternal r cfg = .error e) :
    cfg.rateLimit.external.enabled = true := by
  unfold initExternal at h
  split_ifs at h with henabled
  exact henabled

end Live

namespace Ledger
variable {l : Ledger} {r : Reach} {cfg : FullConfig}

def InCustody (l : Ledger) : Prop := Custody l.live.clients l.dedicated l.closings

theorem custody_perform (h : l.InCustody) (op : Operation) : (l.perform op).InCustody := by
  unfold InCustody perform
  rw [Live.clients_perform]
  exact h.apply (l.live.possible_change op)

theorem custody_new (h : new r cfg = .ok l) : l.InCustody ∧ l.closings = [] := by
  unfold new at h
  split at h
  · cases h
  · rename_i s₀ hlimited
    split at h
    · cases h
    · rename_i s₁ hauth
      have hcustody := Live.custody_initAuth (Live.custody_newLimited hlimited) hauth
      simp only at h
      split at h
      · cases h
      · rename_i s₂ hexternal
        obtain rfl := Except.ok.inj h
        refine ⟨?_, rfl⟩
        unfold InCustody
        rw [Live.clients_initResponseCache]
        exact Live.custody_initExternal hcustody hexternal

theorem closed_of_new {e : StartError} {record : Record} (h : new r cfg = .error (e, record)) :
    ∀ x ∈ record.dedicated, (record.closings.map Closing.client).count x = 1 := by
  unfold new at h
  split at h
  · obtain ⟨-, rfl⟩ := Prod.mk.inj (Except.error.inj h)
    rintro x ⟨⟩
  · rename_i s₀ hlimited
    split at h
    · obtain ⟨-, rfl⟩ := Prod.mk.inj (Except.error.inj h)
      rintro x ⟨⟩
    · rename_i s₁ hauth
      have hcustody := Live.custody_initAuth (Live.custody_newLimited hlimited) hauth
      simp only at h
      split at h
      · rename_i hexternal
        obtain ⟨-, rfl⟩ := Prod.mk.inj (Except.error.inj h)
        -- the client is released as in a reload, so it counts as given up
        rw [Live.enabled_of_initExternal hexternal, if_pos rfl]
        exact (hcustody.toKept.resolve (usableCache r.cacheRedis cfg)).release.once
      · cases h

def closedClients (l : Ledger) : List RedisHandle := l.closings.map Closing.client

/-- What always holds: a dedicated client is closed once, when it is given up; the way through the cache closes the
dedicated clients and no others, least of all the limiter's; and as long as there is a limiter, neither of the two
references of the chain itself is to a closed client. -/
structure Accounted (l : Ledger) : Prop where
  once : ∀ h ∈ l.dedicated,
    l.closedClients.count h = if l.live.cacheRedisOwned = true ∧ l.live.cacheRedis = some h then 0 else 1
  path : ∀ x ∈ l.closings, x.path = .cache ↔ x.client ∈ l.dedicated
  limiter : ∀ lim ∈ l.live.limiter, lim.client ∉ l.dedicated
  open_caches : l.live.limiter.isSome = true →
    ∀ h, l.live.cacheRedis = some h ∨ l.live.authCacheRedis = some h → h ∉ l.closedClients

theorem InCustody.accounted (h : l.InCustody) : l.Accounted where
  once := h.once
  path := h.path
  limiter := by
    intro lim hlim
    exact (h.installed lim.client (Option.mem_map_of_mem _ hlim)).2.1
  open_caches := by
    intro hlim x hx
    have hsome : l.live.clients.limiter.isSome = true := (Option.isSome_map ..).trans hlim
    rcases hx with hx | hx
    · exact h.open_cacheRedis hx (.inr hsome)
    · rcases h.auth with hnone | hsame | hclosed
      · cases hnone.symm.trans hx
      · exact h.open_cacheRedis (hsame.symm.trans hx) (.inr hsome)
      · rw [h.down (.inl hclosed)] at hsome
        cases hsome

def RefersToOpen (l : Ledger) : Prop := Unclosed l.live.clients l.dedicated l.closings

def Safe (l : Ledger) (op : Operation) : Prop := l.live.clients.Safe l.closings (l.live.change op)

instance (l : Ledger) (op : Operation) : Decidable (l.Safe op) :=
  inferInstanceAs (Decidable (l.live.clients.Safe l.closings (l.live.change op)))

theorem refersToOpen_perform_iff (h : l.InCustody) (hopen : l.RefersToOpen) (op : Operation) :
    (l.perform op).RefersToOpen ↔ l.Safe op := by
  unfold RefersToOpen perform
  rw [Live.clients_perform]
  exact h.unclosed_apply_iff hopen (l.live.possible_change op)

/-- **Who closes the cache clients.** A start that fails has closed its dedicated client. After a start that
succeeds, and any operations that run to their end, the clients are accounted for; and nothing refers to a closed
client, as far as it is dedicated or there is a limiter, exactly as long as every operation is safe. -/
theorem cache_clients_iff (r : Reach) (cfg : FullConfig) :
    (∀ e record, new r cfg = .error (e, record) →
        ∀ h ∈ record.dedicated, (record.closings.map Closing.client).count h = 1) ∧
      ∀ l, new r cfg = .ok l → ∀ ops,
        (∀ done, done <+: ops → (machine.run l done).Accounted) ∧
          ((∀ done, done <+: ops → (machine.run l done).RefersToOpen) ↔ machine.Along Safe l ops) := by
  refine ⟨fun e record herror => closed_of_new herror, ?_⟩
  intro l hnew ops
  obtain ⟨hcustody, hempty⟩ := custody_new hnew
  have hopen : l.RefersToOpen := by
    intro x _ _ hmem
    rw [hempty] at hmem
    cases hmem
  refine ⟨fun done _ => ?_, ?_⟩
  · refine InCustody.accounted ?_
    exact Machine.run_of_invariant (M := machine) (P := fun _ _ => True) (I := InCustody)
      (fun _ op h _ => custody_perform h op) hcustody (Machine.along_of_forall fun _ _ _ => trivial)
  · exact Machine.forall_run_iff_along (M := machine) (P := Safe) (I := RefersToOpen) (K := fun l _ => InCustody l)
      (fun _ op _ h => custody_perform h op) (fun _ op _ h hs => refersToOpen_perform_iff h hs op) hcustody hopen

def dedicatedCache : FullConfig :=
  { Live.plainFull true with cacheRedis := some { endpoints := [str "cache:6379"] } }

theorem cache_clients_recovered :
    ∃ l, new {} dedicatedCache = .ok l ∧
      (machine.run l [.reload {} dedicatedCache, .limiterFailure, .recovery {}]).RefersToOpen := by
  obtain ⟨l, hnew, hsafe⟩ := exists_of_any (x := new {} dedicatedCache)
    (P := fun l => machine.Along Safe l [.reload {} dedicatedCache, .limiterFailure, .recovery {}]) (by decide +kernel)
  exact ⟨l, hnew, (((cache_clients_iff {} dedicatedCache).2 l hnew _).2.mpr hsafe) _ List.prefix_rfl⟩

def missingCA : FullConfig :=
  let rl := dedicatedCache.rateLimit
  { dedicatedCache with
    rateLimit := { rl with external := { rl.external with grpcAddress := str "limits:50051" } }
    externalClient := { grpcTLS := { enabled := true, caFile := str "/missing.pem" } } }

def leftBehind (l : Ledger) : Bool :=
  l.live.limiter.isSome && (l.live.externalRL.bind ExternalClient.redis).any (· ∈ l.closedClients)

/-- The external client stays on the dedicated client that the reload has closed; or, if it had borrowed the
limiter's client, on that one once it is lost, because the recovery finds a dedicated one and rebinds nothing. -/
theorem external_left_behind :
    validate Live.plainURL dedicatedCache = .ok dedicatedCache ∧ validate Live.plainURL missingCA = .ok missingCA ∧
      (∃ l, new {} dedicatedCache = .ok l ∧
        (machine.run l [.reload { externalClient := false } missingCA]).leftBehind = true) ∧
      ∃ l, new { cacheRedis := { pong := false } } dedicatedCache = .ok l ∧
        (machine.run l [.reload { externalClient := false } missingCA, .limiterFailure, .recovery {}]).leftBehind = true := by
  refine ⟨rfl, rfl, ?_, ?_⟩
  · exact exists_of_any (x := new {} dedicatedCache)
      (P := fun l => (machine.run l [.reload { externalClient := false } missingCA]).leftBehind = true)
      (by decide +kernel)
  · exact exists_of_any (x := new { cacheRedis := { pong := false } } dedicatedCache)
      (P := fun l => (machine.run l
        [.reload { externalClient := false } missingCA, .limiterFailure, .recovery {}]).leftBehind = true)
      (by decide +kernel)

end Ledger

end EdgeQuota.Middleware
