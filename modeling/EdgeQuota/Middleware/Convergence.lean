import EdgeQuota.Middleware.RecoveryRuns

/-! Where a recovery and reloads end up together: whether the limiter in place has the parameters of the current
snapshot and a client of the current section, and whether the authentication and the external client cache where
the chain does. -/

namespace EdgeQuota.Middleware
open Go Config RateLimit Lib

def Matching (rc : RedisConfig) (s : Live) : Prop :=
  ∀ lim ∈ s.limiter, lim = s.staticRL.newLimiter lim.client ∧ lim.client.config = rc

def AuthBound (s : Live) : Prop := s.authClient.isSome = true → s.authCacheRedis = s.cacheRedis

def ExternalBound (s : Live) : Prop := ∀ ext ∈ s.externalRL, ext.redis = s.cacheRedis

structure Settled (rc : RedisConfig) (s : Live) : Prop where
  limiter : Matching rc s
  auth : AuthBound s
  external : ExternalBound s

def RecoveryAt.writing : RecoveryAt → Bool
  | .deciding _ _ | .dropping | .swapping _ _ | .rebinding _ | .storingAuth _ | .loadingExternal _
  | .settingExternal _ _ => true
  | _ => false

def ReloadAt.writing : ReloadAt → Bool
  | .start => false
  | _ => true

def Thread.writing : Thread → Bool
  | .recovery pc => pc.writing
  | .reload _ pc => pc.writing
  | _ => false

def RecoveryAt.Ready (rc : RedisConfig) (s : Live) : RecoveryAt → Prop
  | .deciding client snap => Settled rc s ∧ snap = s.staticRL ∧ client.config = rc
  | .dropping => Settled rc s
  | .swapping client snap => Settled rc s ∧ snap = s.staticRL ∧ client.config = rc
  | .rebinding _ => Settled rc s
  | .storingAuth client => Matching rc s ∧ s.cacheRedis = some client
  | .loadingExternal client => Matching rc s ∧ s.cacheRedis = some client ∧ s.authCacheRedis = some client
  | .settingExternal client id =>
    Matching rc s ∧ s.cacheRedis = some client ∧ s.authCacheRedis = some client ∧ ∀ ext ∈ s.externalRL, ext.id = id
  | _ => True

def ReloadAt.Ready (rc : RedisConfig) (s : Live) (cfg : FullConfig) : ReloadAt → Prop
  | .start => True
  | .fallback => Settled rc s
  | .static => Settled rc s
  | .config =>
    s.staticRL = staticSnapshot cfg.rateLimit ∧ (∀ lim ∈ s.limiter, lim.client.config = rc) ∧ AuthBound s ∧ ExternalBound s
  | .releasing _ => Matching rc s
  | .resolving _ => Matching rc s
  | .connecting _ _ => Matching rc s
  | .borrowing _ => Matching rc s
  | .extending _ cache => Matching rc s ∧ cache = s.cacheRedis
  | .auth _ => Matching rc s ∧ ExternalBound s
  | .reading => Matching rc s ∧ ExternalBound s
  | .storing cur => Matching rc s ∧ ExternalBound s ∧ cur = s.cacheRedis
  | .rest => Settled rc s

def Thread.Ready (rc : RedisConfig) (s : Live) : Thread → Prop
  | .recovery pc => pc.Ready rc s
  | .reload cfg pc => pc.Ready rc s cfg
  | _ => True

structure Quiet (s s' : Live) : Prop where
  limiter : ∀ lim ∈ s'.limiter, lim ∈ s.limiter
  staticRL : s'.staticRL = s.staticRL
  cacheRedis : s'.cacheRedis = s.cacheRedis
  authCacheRedis : s'.authCacheRedis = s.authCacheRedis
  authClient : s'.authClient = s.authClient
  externalRL : s'.externalRL = s.externalRL

theorem Quiet.refl (s : Live) : Quiet s s := ⟨fun _ hlim => hlim, rfl, rfl, rfl, rfl, rfl⟩

section Quiet
variable {rc : RedisConfig} {s s' : Live} {cfg : FullConfig}

theorem Matching.of_quiet (h : Matching rc s) (hq : Quiet s s') : Matching rc s' := by
  intro lim hlim
  rw [hq.staticRL]
  exact h lim (hq.limiter lim hlim)

theorem AuthBound.of_quiet (h : AuthBound s) (hq : Quiet s s') : AuthBound s' := by
  unfold AuthBound
  rw [hq.authClient, hq.authCacheRedis, hq.cacheRedis]
  exact h

theorem ExternalBound.of_quiet (h : ExternalBound s) (hq : Quiet s s') : ExternalBound s' := by
  unfold ExternalBound
  rw [hq.externalRL, hq.cacheRedis]
  exact h

theorem Settled.of_quiet (h : Settled rc s) (hq : Quiet s s') : Settled rc s' :=
  ⟨h.limiter.of_quiet hq, h.auth.of_quiet hq, h.external.of_quiet hq⟩

theorem RecoveryAt.Ready.of_quiet {pc : RecoveryAt} (h : pc.Ready rc s) (hq : Quiet s s') : pc.Ready rc s' := by
  cases pc with
  | deciding client snap => exact ⟨h.1.of_quiet hq, h.2.1.trans hq.staticRL.symm, h.2.2⟩
  | dropping => exact Settled.of_quiet h hq
  | swapping client snap => exact ⟨h.1.of_quiet hq, h.2.1.trans hq.staticRL.symm, h.2.2⟩
  | rebinding client => exact Settled.of_quiet h hq
  | storingAuth client => exact ⟨h.1.of_quiet hq, hq.cacheRedis.trans h.2⟩
  | loadingExternal client => exact ⟨h.1.of_quiet hq, hq.cacheRedis.trans h.2.1, hq.authCacheRedis.trans h.2.2⟩
  | settingExternal client id =>
    refine ⟨h.1.of_quiet hq, hq.cacheRedis.trans h.2.1, hq.authCacheRedis.trans h.2.2.1, ?_⟩
    rw [hq.externalRL]
    exact h.2.2.2
  | _ => trivial

theorem ReloadAt.Ready.of_quiet {pc : ReloadAt} (h : pc.Ready rc s cfg) (hq : Quiet s s') : pc.Ready rc s' cfg := by
  cases pc with
  | start => trivial
  | config =>
    obtain ⟨hstatic, hclients, hauth, hexternal⟩ := h
    refine ⟨hq.staticRL.trans hstatic, ?_, hauth.of_quiet hq, hexternal.of_quiet hq⟩
    intro lim hlim
    exact hclients lim (hq.limiter lim hlim)
  | fallback | static | rest => exact Settled.of_quiet h hq
  | releasing _ | resolving _ | connecting _ _ | borrowing _ => exact Matching.of_quiet h hq
  | extending _ cache => exact ⟨h.1.of_quiet hq, h.2.trans hq.cacheRedis.symm⟩
  | auth _ | reading => exact ⟨h.1.of_quiet hq, h.2.of_quiet hq⟩
  | storing cur => exact ⟨h.1.of_quiet hq, h.2.1.of_quiet hq, h.2.2.trans hq.cacheRedis.symm⟩

theorem Thread.Ready.of_quiet {t : Thread} (h : t.Ready rc s) (hq : Quiet s s') : t.Ready rc s' := by
  cases t with
  | recovery pc => exact RecoveryAt.Ready.of_quiet h hq
  | reload cfg pc => exact ReloadAt.Ready.of_quiet h hq
  | _ => trivial

theorem quiet_requestStep (a : Answer) (s : Live) (pc : RequestAt) : Quiet s (requestStep a s pc).2.1 := by
  cases pc with
  | reporting lim => exact ⟨fun _ hlim => absurd hlim (Option.not_mem_none _), rfl, rfl, rfl, rfl, rfl⟩
  | claiming =>
    simp only [requestStep]
    split
    · exact .refl s
    · exact ⟨fun _ hlim => hlim, rfl, rfl, rfl, rfl, rfl⟩
  | _ =>
    simp only [requestStep]
    split <;> exact .refl s

end Quiet

def Thread.Proper (rc : RedisConfig) : Thread → Prop
  | .request _ => True
  | .recovery pc => ∀ client ∈ pc.client, client.config = rc
  | .reload cfg _ => cfg.redis = rc
  | .close _ => False

def Thread.enters : Thread → Bool
  | .recovery (.installing _) => true
  | .reload _ .start => true
  | _ => false

def Thread.renewsExternal : Thread → Bool
  | .reload _ (.extending _ _) => true
  | _ => false

section Turns
variable {rc : RedisConfig} {s : Live} {cfg : FullConfig} {a : Answer}

theorem quiet_goOn {s' : Live} {pc : RecoveryAt} (hquiet : Quiet s s') (hidle : pc.writing = false) :
    Quiet s (goOn s' (.recovery pc)).2.1 ∧ ∀ u ∈ (goOn s' (.recovery pc)).2.2, u.writing = false := by
  refine ⟨hquiet, ?_⟩
  exact List.forall_mem_singleton.mpr hidle

theorem quiet_recoveryStep {pc : RecoveryAt} (hidle : pc.writing = false) (henters : (Thread.recovery pc).enters = false) :
    Quiet s (recoveryStep a s pc).2.1 ∧ ∀ u ∈ (recoveryStep a s pc).2.2, u.writing = false := by
  have hallocated : Quiet s { s with allocated := s.allocated + 1 } := ⟨fun _ hlim => hlim, rfl, rfl, rfl, rfl, rfl⟩
  cases pc with
  | begin => exact quiet_goOn (.refl s) rfl
  | creating n =>
    simp only [recoveryStep]
    split
    · exact quiet_goOn (.refl s) rfl
    · exact quiet_goOn hallocated rfl
  | comparing l =>
    simp only [recoveryStep]
    split
    · exact quiet_goOn (.refl s) rfl
    split
    · exact quiet_goOn (.refl s) rfl
    · exact quiet_goOn hallocated rfl
  | looping l | pinging l | retrying l | sleeping l =>
    simp only [recoveryStep]
    split <;> exact quiet_goOn (.refl s) rfl
  | returned why =>
    exact ⟨⟨fun _ hlim => hlim, rfl, rfl, rfl, rfl, rfl⟩, List.forall_mem_nil _⟩
  | installing client => cases henters
  | _ => cases hidle

theorem proper_step {t u : Thread} (hredis : s.cfg.redis = rc) (ht : t.Proper rc) (hu : u ∈ (step s t a).2.2) :
    u.Proper rc := by
  cases t with
  | request pc =>
    rcases (requesting_requestStep a s pc).threads u hu with ⟨pc', rfl, -⟩ | rfl
    · trivial
    · exact fun client hmem => absurd hmem (Option.not_mem_none client)
  | recovery pc =>
    obtain ⟨s', pc', rfl, hadvances⟩ := (recovering_recoveryStep a s pc).threads u hu
    intro client hmem
    rcases hadvances.client client hmem with hold | hfresh
    · exact ht client hold
    · exact hfresh.trans hredis
  | reload cfg pc =>
    obtain ⟨pc', rfl⟩ := (reloading_reloadStep a cfg s pc).threads u hu
    exact ht
  | close pc => exact ht.elim

theorem redis_step {t : Thread} (hredis : s.cfg.redis = rc) (ht : t.Proper rc) : (step s t a).2.1.cfg.redis = rc := by
  cases t with
  | request pc => exact (congrArg FullConfig.redis (requesting_requestStep a s pc).config).trans hredis
  | recovery pc => exact (congrArg FullConfig.redis (recovering_recoveryStep a s pc).config).trans hredis
  | reload cfg pc =>
    have hcfg : cfg.redis = rc := ht
    rcases (reloading_reloadStep a cfg s pc).config with heq | heq
    · exact (congrArg FullConfig.redis heq).trans hredis
    · exact (congrArg FullConfig.redis heq).trans hcfg
  | close pc => exact ht.elim

abbrev LeavesBehind (rc : RedisConfig) (o : Outcome) : Prop :=
  System.Leaves Thread.writing (Settled rc) (Thread.Ready rc) o.2.1 o.2.2

theorem leaves_on {t : Thread} (hbusy : t.writing = true) (hready : t.Ready rc s) : LeavesBehind rc (goOn s t) :=
  .inl ⟨t, rfl, hbusy, hready⟩

theorem leaves_off {t : Thread} (hidle : t.writing = false) (hsettled : Settled rc s) : LeavesBehind rc (goOn s t) := by
  refine .inr ⟨?_, hsettled⟩
  exact List.forall_mem_singleton.mpr hidle

theorem leaves_end {events : List Event} (hsettled : Settled rc s) : LeavesBehind rc (events, s, []) :=
  .inr ⟨List.forall_mem_nil _, hsettled⟩

theorem matching_swap {client : RedisHandle} {snap : StaticSnapshot} (hsnap : snap = s.staticRL)
    (hclient : client.config = rc) :
    Matching rc { s with limiter := some (snap.newLimiter client), redisUnhealthy := false } := by
  intro lim hlim
  obtain rfl := Option.some.inj hlim
  rw [hsnap]
  exact ⟨rfl, hclient⟩

theorem leaves_recoveryStep {pc : RecoveryAt} (hpc : pc.writing = true) (h : pc.Ready rc s) :
    LeavesBehind rc (recoveryStep a s pc) := by
  cases pc with
  | deciding client snap =>
    simp only [recoveryStep]
    split
    · exact leaves_on rfl h.1
    · exact leaves_on rfl h
  | dropping =>
    have hsettled : Settled rc s := h
    exact leaves_off rfl ⟨fun lim hlim => absurd hlim (Option.not_mem_none lim), hsettled.auth, hsettled.external⟩
  | swapping client snap =>
    obtain ⟨hsettled, hsnap, hclient⟩ := h
    exact leaves_on rfl ⟨matching_swap hsnap hclient, hsettled.auth, hsettled.external⟩
  | rebinding client =>
    have hsettled : Settled rc s := h
    simp only [recoveryStep]
    split
    · exact leaves_off rfl hsettled
    · exact leaves_on rfl ⟨hsettled.limiter, rfl⟩
  | storingAuth client => exact leaves_on rfl ⟨h.1, h.2, rfl⟩
  | loadingExternal client =>
    obtain ⟨hlimiter, hcache, hauth⟩ := h
    simp only [recoveryStep]
    split
    · rename_i hnone
      refine leaves_off rfl ⟨hlimiter, fun _ => hauth.trans hcache.symm, ?_⟩
      intro ext hext
      rw [hnone] at hext
      cases hext
    · rename_i ext hsome
      refine leaves_on rfl ⟨hlimiter, hcache, hauth, ?_⟩
      intro ext' hext
      rw [hsome] at hext
      rw [Option.some.inj hext]
  | settingExternal client id =>
    obtain ⟨hlimiter, hcache, hauth, hid⟩ := h
    refine leaves_off rfl ⟨hlimiter, fun _ => hauth.trans hcache.symm, ?_⟩
    intro ext hext
    obtain ⟨before, hbefore, rfl⟩ := Option.mem_map.mp hext
    rw [if_pos (hid before hbefore)]
    exact hcache.symm
  | _ => cases hpc

theorem matching_storeConfig (hstatic : s.staticRL = staticSnapshot cfg.rateLimit)
    (hclients : ∀ lim ∈ s.limiter, lim.client.config = rc) : Matching rc (s.storeConfig cfg) := by
  intro lim hlim
  obtain ⟨before, hbefore, rfl⟩ := Option.mem_map.mp hlim
  have hstatic' : (s.storeConfig cfg).staticRL = staticSnapshot cfg.rateLimit := hstatic
  rw [hstatic']
  exact ⟨rfl, hclients before hbefore⟩

theorem borrowCacheRedis_fst (s : Live) : s.borrowCacheRedis.1 = s.borrowCacheRedis.2.cacheRedis := by
  unfold Live.borrowCacheRedis
  split <;> rfl

theorem matching_borrowCacheRedis (h : Matching rc s) : Matching rc s.borrowCacheRedis.2 := by
  unfold Live.borrowCacheRedis
  split <;> exact h

theorem leaves_reloadStep {pc : ReloadAt} (hpc : pc.writing = true) (h : pc.Ready rc s cfg)
    (hexternal : (Thread.reload cfg pc).renewsExternal = true → a.externalClient = true) :
    LeavesBehind rc (reloadStep a cfg s pc) := by
  cases pc with
  | start => cases hpc
  | fallback =>
    have hsettled : Settled rc s := h
    simp only [reloadStep]
    split
    · exact leaves_end hsettled
    · rename_i hstored
      obtain ⟨ks, fb, rfl, -⟩ := Live.storeFallback_spec hstored
      have hstored' : Settled rc { s with fallbackKeyStrategy := ks, externalFallback := fb } :=
        ⟨hsettled.limiter, hsettled.auth, hsettled.external⟩
      exact leaves_on rfl hstored'
  | static =>
    have hsettled : Settled rc s := h
    exact leaves_on rfl ⟨rfl, fun lim hlim => (hsettled.limiter lim hlim).2, hsettled.auth, hsettled.external⟩
  | config =>
    obtain ⟨hstatic, hclients, hauth, hbound⟩ := h
    have hmatching := matching_storeConfig hstatic hclients
    simp only [reloadStep]
    split
    · exact leaves_on rfl hmatching
    · exact leaves_on rfl ⟨hmatching, hbound⟩
  | releasing prev => exact leaves_on rfl h
  | resolving prev =>
    simp only [reloadStep]
    split
    · rename_i existing hexisting
      exact leaves_on rfl ⟨h, hexisting.symm⟩
    · split <;> exact leaves_on rfl h
  | connecting prev rc' =>
    simp only [reloadStep]
    split
    · exact leaves_on rfl ⟨h, rfl⟩
    · exact leaves_on rfl h
  | borrowing prev => exact leaves_on rfl ⟨matching_borrowCacheRedis h, borrowCacheRedis_fst s⟩
  | extending prev cache =>
    obtain ⟨hmatching, hcache⟩ := h
    simp only [reloadStep, if_pos (hexternal rfl)]
    refine leaves_on rfl ⟨hmatching, ?_⟩
    intro ext hext
    obtain rfl := Option.some.inj hext
    exact hcache
  | auth prev =>
    simp only [reloadStep, Live.reloadAuth]
    split <;> exact leaves_on rfl h
  | reading => exact leaves_on rfl ⟨h.1, h.2, rfl⟩
  | storing cur =>
    obtain ⟨hmatching, hbound, hcur⟩ := h
    have hsettled : Settled rc (s.storeAuthCacheRedis cur) := ⟨hmatching, fun _ => hcur, hbound⟩
    exact leaves_on rfl hsettled
  | rest =>
    have hsettled : Settled rc s := h
    exact leaves_end ⟨hsettled.limiter, hsettled.auth, hsettled.external⟩

theorem leaves_enters {t : Thread} (henters : t.enters = true) (hproper : t.Proper rc) (h : Settled rc s) :
    LeavesBehind rc (step s t a) := by
  cases t with
  | recovery pc =>
    cases pc with
    | installing client => exact leaves_on rfl ⟨h, rfl, hproper client rfl⟩
    | _ => cases henters
  | reload cfg pc =>
    cases pc with
    | start =>
      simp only [step, reloadStep]
      split
      · exact leaves_end h
      · rename_i ks hks
        have hstored : Settled rc { s with keyStrategy := ks } := ⟨h.limiter, h.auth, h.external⟩
        exact leaves_on rfl hstored
    | _ => cases henters
  | _ => cases henters

end Turns

def Arrival.Keeps (rc : RedisConfig) : Arrival → Prop
  | .reload cfg => cfg.redis = rc
  | .request => True
  | .close => False

instance (rc : RedisConfig) : DecidablePred (Arrival.Keeps rc)
  | .reload cfg => inferInstanceAs (Decidable (cfg.redis = rc))
  | .request => isTrue trivial
  | .close => isFalse id

/-- Recoveries and reloads go for the chain one after the other, and a new external client can be created. -/
def Exclusive (_ : Live) (ts : List Thread) (t : Thread) (a : Answer) : Prop :=
  (t.enters = true → ts.countP Thread.writing = 0) ∧ (t.renewsExternal = true → a.externalClient = true)

instance (s : Live) (ts : List Thread) (t : Thread) (a : Answer) : Decidable (Exclusive s ts t a) :=
  inferInstanceAs (Decidable ((_ → _) ∧ (_ → _)))

structure Converging (rc : RedisConfig) (s : Live) (ts : List Thread) : Prop where
  redis : s.cfg.redis = rc
  proper : ∀ t ∈ ts, t.Proper rc
  busy : System.OneBusy Thread.writing (Settled rc) (Thread.Ready rc) s ts

section Converging
variable {rc : RedisConfig} {s : Live} {t : Thread} {l₁ l₂ : List Thread} {a : Answer}

theorem busy_step (h : Converging rc s (l₁ ++ t :: l₂)) (hturn : Exclusive s (l₁ ++ t :: l₂) t a) :
    System.OneBusy Thread.writing (Settled rc) (Thread.Ready rc) (step s t a).2.1 (l₁ ++ (step s t a).2.2 ++ l₂) := by
  have ht : t.Proper rc := h.proper t (List.mem_append_cons_self ..)
  by_cases henters : t.enters = true
  · -- it goes for the chain, which is at rest
    have hidle : t.writing = false := by
      refine eq_false_of_ne_true ?_
      exact List.countP_eq_zero.mp (hturn.1 henters) t (List.mem_append_cons_self ..)
    exact h.busy.inside (.inr (hturn.1 henters)) fun _ hrest => leaves_enters henters ht (hrest hidle)
  by_cases hwriting : t.writing = true
  · refine h.busy.inside (.inl hwriting) fun hready _ => ?_
    cases t with
    | recovery pc => exact leaves_recoveryStep hwriting (hready hwriting)
    | reload cfg pc => exact leaves_reloadStep hwriting (hready hwriting) hturn.2
    | _ => cases hwriting
  · have hidle : t.writing = false := eq_false_of_ne_true hwriting
    have hquiet : Quiet s (step s t a).2.1 ∧ ∀ u ∈ (step s t a).2.2, u.writing = false := by
      cases t with
      | request pc =>
        refine ⟨quiet_requestStep a s pc, ?_⟩
        intro u hu
        rcases (requesting_requestStep a s pc).threads u hu with ⟨pc', rfl, -⟩ | rfl <;> rfl
      | recovery pc => exact quiet_recoveryStep hidle (eq_false_of_ne_true henters)
      | reload cfg pc =>
        cases pc with
        | start => exact absurd rfl henters
        | _ => cases hidle
      | close pc => exact ht.elim
    exact h.busy.outside hidle hquiet.2 (fun hrest => hrest.of_quiet hquiet.1) fun _ hready => hready.of_quiet hquiet.1

theorem keeps_converging (rc : RedisConfig) : system.Keeps (Arrival.Keeps rc) Exclusive (Converging rc) where
  arrive := by
    intro s ts arrival h harrival
    have hproper : (Middleware.arrive arrival).Proper rc := by
      cases arrival <;> exact harrival
    have hidle : (Middleware.arrive arrival).writing = false := by
      cases arrival with
      | close => exact harrival.elim
      | _ => rfl
    exact ⟨h.redis, List.forall_mem_append.mpr ⟨h.proper, List.forall_mem_singleton.mpr hproper⟩, h.busy.arrive hidle⟩
  step := by
    intro s l₁ t l₂ a h hturn
    have ht : t.Proper rc := h.proper t (List.mem_append_cons_self ..)
    refine ⟨redis_step h.redis ht, ?_, busy_step h hturn⟩
    exact System.forall_replace h.proper (fun _ hu => hu) fun u hu => proper_step h.redis ht hu

theorem converging_conf {r : Reach} {cfg : FullConfig} (hnew : Live.new r cfg = .ok s) :
    Converging cfg.redis s.conf.shared s.conf.threads := by
  have hbuilt := Live.new_spec hnew
  have hsettled : Settled cfg.redis s := by
    refine ⟨?_, ?_, hbuilt.externalCache⟩
    · intro lim hlim
      rw [hbuilt.installed] at hlim
      obtain ⟨rc, hrc, rfl⟩ := Option.mem_map.mp hlim
      rw [hbuilt.staticRL]
      refine ⟨rfl, ?_⟩
      unfold Live.mainRedis at hrc
      split at hrc
      · exact (Option.some.inj hrc).symm
      · cases hrc
    · intro hclient
      rw [hbuilt.authClient] at hclient
      split at hclient
      · rename_i henabled
        exact hbuilt.authCache henabled
      · cases hclient
  have hthreads : ∀ t ∈ s.conf.threads, t = .recovery .begin := by
    intro t ht
    unfold Live.conf at ht
    split at ht
    · exact List.mem_singleton.mp ht
    · cases ht
  have hidle : ∀ t ∈ s.conf.threads, t.writing = false := by
    intro t ht
    rw [hthreads t ht]
    rfl
  refine ⟨congrArg FullConfig.redis hbuilt.config, ?_, ?_⟩
  · intro t ht
    rw [hthreads t ht]
    exact fun client hmem => absurd hmem (Option.not_mem_none client)
  · refine ⟨?_, fun _ => hsettled, ?_⟩
    · rw [System.countP_eq_zero_of_forall hidle]
      exact Nat.zero_le 1
    · intro t ht hbusy
      rw [hidle t ht] at hbusy
      cases hbusy

end Converging

/-- **Recovery and reload agree.** If they go for the chain one after the other, and reloads keep the section of
Redis, then the limiter in place is the one of the snapshot and of the section, and whatever is cached is cached
where the chain does. -/
theorem recovery_and_reload_converge {r : Reach} {cfg : FullConfig} {s : Live} {ms : List (System.Move Arrival Answer)}
    (hnew : Live.new r cfg = .ok s)
    (hms : system.machine.Along (System.Obeys (Arrival.Keeps cfg.redis) Exclusive) s.conf ms)
    (hdone : ∀ t ∈ (system.machine.run s.conf ms).threads, t.writing = false) :
    Settled (system.machine.run s.conf ms).shared.cfg.redis (system.machine.run s.conf ms).shared := by
  have hconverging := (keeps_converging cfg.redis).run (converging_conf hnew) hms
  rw [hconverging.redis]
  exact hconverging.busy.rest (System.countP_eq_zero_of_forall hdone)

def oneByOne : List (System.Move Arrival Answer) :=
  failing ++ turns 4 0 {} ++ [.arrive (.reload Live.doubled)] ++ turns 8 1 {} ++ turns 8 0 {}

theorem recovery_and_reload_converge_one_by_one :
    ∃ s, Live.new {} (Live.plainFull false) = .ok s ∧ (system.machine.run s.conf oneByOne).shared.limiter.isSome = true ∧
      Settled (system.machine.run s.conf oneByOne).shared.cfg.redis (system.machine.run s.conf oneByOne).shared := by
  obtain ⟨s, hs, hsome, hms, hdone⟩ := exists_of_any (x := Live.new {} (Live.plainFull false))
    (P := fun s => (system.machine.run s.conf oneByOne).shared.limiter.isSome = true ∧
      system.machine.Along (System.Obeys (Arrival.Keeps (Live.plainFull false).redis) Exclusive) s.conf oneByOne ∧
      ∀ t ∈ (system.machine.run s.conf oneByOne).threads, t.writing = false) (by decide +kernel)
  exact ⟨s, hs, hsome, recovery_and_reload_converge hs hms hdone⟩

def staleSnapshot : List (System.Move Arrival Answer) :=
  failing ++ turns 6 0 {} ++ [.arrive (.reload Live.doubled)] ++ turns 8 1 {} ++ turns 6 0 {}

def rotated : FullConfig :=
  { Live.plainFull false with redis := { (Live.plainFull false).redis with password := str "new" } }

def staleClient : List (System.Move Arrival Answer) :=
  failing ++ turns 2 0 {} ++ [.arrive (.reload rotated)] ++ turns 8 1 {} ++ turns 10 0 {}

/-- The reload has found no limiter to borrow from; the recovery hands its client to the external client before. -/
def staleCache : List (System.Move Arrival Answer) :=
  failing ++ turns 7 0 {} ++ [.arrive (.reload (Live.plainFull true))] ++ turns 7 1 {} ++ turns 6 0 {} ++ turns 5 0 {}

theorem recovery_and_reload_diverge :
    (validate Live.plainURL Live.doubled = .ok Live.doubled ∧ ∃ s, Live.new {} (Live.plainFull false) = .ok s ∧
        (system.machine.run s.conf staleSnapshot).threads.length = 0 ∧
        ((system.machine.run s.conf staleSnapshot).shared.limiter.map fun lim => lim.limiter.burst) = some 1 ∧
        (system.machine.run s.conf staleSnapshot).shared.staticRL.burst = 2) ∧
      (validate Live.plainURL rotated = .ok rotated ∧ ∃ s, Live.new {} (Live.plainFull false) = .ok s ∧
        (system.machine.run s.conf staleClient).threads.length = 0 ∧
        (system.machine.run s.conf staleClient).shared.limiterSection = some (Live.plainFull false).redis ∧
        (system.machine.run s.conf staleClient).shared.cfg.redis = rotated.redis) ∧
      validate Live.plainURL (Live.plainFull true) = .ok (Live.plainFull true) ∧
      ∃ s, Live.new {} (Live.plainFull true) = .ok s ∧
        (system.machine.run s.conf staleCache).threads.length = 0 ∧
        ((system.machine.run s.conf staleCache).shared.externalRL.map fun ext => ext.redis.isNone) = some true ∧
        (system.machine.run s.conf staleCache).shared.cacheRedis.isSome = true :=
  ⟨⟨rfl, exists_of_any (by decide +kernel)⟩, ⟨rfl, exists_of_any (by decide +kernel)⟩, rfl,
    exists_of_any (by decide +kernel)⟩

end EdgeQuota.Middleware
