import EdgeQuota.Middleware.Recovery

/-! What requests, recoveries and reloads do to one another, whatever the order of their turns: whose error
tears a limiter down, what ends a recovery, and whether a chain without a limiter will get one again. -/

namespace EdgeQuota.Middleware
open Go Config RateLimit Lib

def turns (n i : ℕ) (a : Answer) : List (System.Move Arrival Answer) := List.replicate n (.run i a)

def failing : List (System.Move Arrival Answer) :=
  [.arrive .request] ++ turns 1 0 {} ++ turns 2 0 { served := false } ++ turns 2 0 {}

namespace Thread

def held : Thread → Option InstalledLimiter
  | .request pc => pc.held
  | _ => none

def swaps : Thread → Bool
  | .recovery (.swapping _ _) => true
  | _ => false

end Thread

def Unhurried (_ : Live) (ts : List Thread) (t : Thread) (_ : Answer) : Prop :=
  t.swaps = true → ∀ u ∈ ts, u.held.isNone = true

instance (s : Live) (ts : List Thread) (t : Thread) (a : Answer) : Decidable (Unhurried s ts t a) :=
  inferInstanceAs (Decidable (t.swaps = true → ∀ u ∈ ts, u.held.isNone = true))

def HeldClients (s : Live) (ts : List Thread) : Prop :=
  ∀ u ∈ ts, ∀ lim ∈ u.held, ∀ installed ∈ s.limiter, installed.client = lim.client

section Held
variable {s : Live} {ts : List Thread} {t u : Thread} {a : Answer}

theorem client_of_step {installed : InstalledLimiter} (hswaps : t.swaps = false)
    (h : installed ∈ (step s t a).2.1.limiter) : ∃ lim ∈ s.limiter, lim.client = installed.client := by
  cases t with
  | request pc =>
    obtain heq | heq := (requesting_requestStep a s pc).limiter
    · exact ⟨installed, heq ▸ h, rfl⟩
    · have hnone : installed ∈ (none : Option InstalledLimiter) := heq ▸ h
      cases hnone
  | recovery pc =>
    have hlimiter : installed ∈ pc.limiter s.limiter := (recovering_recoveryStep a s pc).limiter ▸ h
    cases pc with
    | dropping => cases hlimiter
    | swapping client snap => cases hswaps
    | _ => exact ⟨installed, hlimiter, rfl⟩
  | reload cfg pc =>
    obtain heq | heq := (reloading_reloadStep a cfg s pc).limiter
    · exact ⟨installed, heq ▸ h, rfl⟩
    · have hmap : installed ∈ (s.storeConfig cfg).limiter := heq ▸ h
      obtain ⟨lim, hlim, rfl⟩ := Option.mem_map.mp hmap
      exact ⟨lim, hlim, rfl⟩
  | close pc =>
    cases pc with
    | swapping => cases h
    | _ => exact ⟨installed, h, rfl⟩

theorem held_of_step {lim : InstalledLimiter} (hu : u ∈ (step s t a).2.2) (h : lim ∈ u.held) :
    lim ∈ t.held ∨ lim ∈ s.limiter := by
  cases t with
  | request pc =>
    rcases (requesting_requestStep a s pc).threads u hu with ⟨pc', rfl, hheld⟩ | rfl
    · exact hheld lim h
    · cases h
  | recovery pc =>
    obtain ⟨-, pc', rfl, -⟩ := (recovering_recoveryStep a s pc).threads u hu
    cases h
  | reload cfg pc =>
    obtain ⟨pc', rfl⟩ := (reloading_reloadStep a cfg s pc).threads u hu
    cases h
  | close pc =>
    obtain ⟨pc', rfl⟩ := threads_closeStep hu
    cases h

theorem keeps_heldClients : system.Keeps (fun _ => True) Unhurried HeldClients where
  arrive := by
    intro s ts arrival h _
    refine List.forall_mem_append.mpr ⟨h, List.forall_mem_singleton.mpr ?_⟩
    intro lim hlim
    cases arrival <;> cases hlim
  step := by
    intro s l₁ t l₂ a h hturn
    cases hswaps : t.swaps with
    | true =>
      -- nobody holds anything, and the recovery goes on as a recovery
      have hnone : ∀ u ∈ l₁ ++ t :: l₂, u.held = none :=
        fun u hu => Option.isNone_iff_eq_none.mp (hturn hswaps u hu)
      refine System.forall_replace hnone ?_ ?_
      · intro u hheld lim hlim
        rw [hheld] at hlim
        cases hlim
      · intro u hu lim hlim
        cases t with
        | recovery pc =>
          obtain ⟨-, pc', rfl, -⟩ := (recovering_recoveryStep a s pc).threads u hu
          cases hlim
        | _ => cases hswaps
    | false =>
      refine System.forall_replace h ?_ ?_
      · intro u hheld lim hlim installed hinstalled
        obtain ⟨before, hbefore, hclient⟩ := client_of_step hswaps hinstalled
        exact hclient.symm.trans (hheld lim hlim before hbefore)
      · intro u hu lim hlim installed hinstalled
        obtain ⟨before, hbefore, hclient⟩ := client_of_step hswaps hinstalled
        rcases held_of_step hu hlim with hold | hread
        · exact hclient.symm.trans (h t (List.mem_append_cons_self ..) lim hold before hbefore)
        · obtain rfl := Option.mem_unique hbefore hread
          exact hclient.symm

theorem heldClients_conf (s : Live) : HeldClients s.conf.shared s.conf.threads := by
  intro u hu lim hlim
  unfold Live.conf at hu
  split at hu
  · obtain rfl := List.mem_singleton.mp hu
    cases hlim
  · cases hu

def Event.Own : Event → Prop
  | .tornDown removed failed => removed.client = failed.client
  | .returned _ => True
  | .reloaded _ => True

instance : DecidablePred Event.Own
  | .tornDown removed failed => inferInstanceAs (Decidable (removed.client = failed.client))
  | .returned _ => isTrue trivial
  | .reloaded _ => isTrue trivial

theorem own_of_step {e : Event} (h : ∀ lim ∈ t.held, ∀ installed ∈ s.limiter, installed.client = lim.client)
    (he : e ∈ (step s t a).1) : e.Own := by
  rcases event_of_step he with ⟨failed, rfl, removed, hremoved, rfl⟩ | ⟨why, -, rfl⟩ | ⟨result, rfl⟩
  · exact h failed rfl removed hremoved
  · trivial
  · trivial

/-- **An error of one's own.** As long as no recovery puts in a limiter while a request is on its way with the one
before, a limiter is removed only for an error of its own client. -/
theorem torn_down_by_own_error (s : Live) {ms : List (System.Move Arrival Answer)}
    (hms : system.machine.Along (System.Obeys (fun _ => True) Unhurried) s.conf ms) :
    ∀ e ∈ (system.machine.outputs s.conf ms).flatten, e.Own := by
  refine keeps_heldClients.outputs ?_ (heldClients_conf s) hms
  intro s l₁ t l₂ a h _ e he
  exact own_of_step (h t (List.mem_append_cons_self ..)) he

theorem torn_down_by_own_error_failing :
    ∃ s, Live.new {} (Live.plainFull false) = .ok s ∧ (system.machine.outputs s.conf failing).flatten.length = 1 ∧
      ∀ e ∈ (system.machine.outputs s.conf failing).flatten, e.Own := by
  obtain ⟨s, hs, hlength, hms⟩ := exists_of_any (x := Live.new {} (Live.plainFull false))
    (P := fun s => (system.machine.outputs s.conf failing).flatten.length = 1 ∧
      system.machine.Along (System.Obeys (fun _ => True) Unhurried) s.conf failing) (by decide +kernel)
  exact ⟨s, hs, hlength, torn_down_by_own_error s hms⟩

def overtaken : List (System.Move Arrival Answer) :=
  [.arrive .request, .arrive .request] ++ turns 1 1 {} ++ turns 1 0 {} ++ turns 2 0 { served := false } ++ turns 10 0 {} ++
    turns 2 1 { served := false }

theorem torn_down_by_stale_error :
    ∃ s, Live.new {} (Live.plainFull false) = .ok s ∧
      ∃ e ∈ (system.machine.outputs s.conf overtaken).flatten, ¬e.Own :=
  exists_of_any (by decide +kernel)

end Held

def Reason.Good : Reason → Prop
  | .installed | .notConfigured | .shutDown => True
  | .createFailed _ | .exhausted => False

def Event.EndsWell : Event → Prop
  | .returned why => why.Good
  | .tornDown _ _ => True
  | .reloaded _ => True

instance : DecidablePred Event.EndsWell
  | .returned .installed | .returned .notConfigured | .returned .shutDown => isTrue trivial
  | .returned (.createFailed _) | .returned .exhausted => isFalse id
  | .tornDown _ _ => isTrue trivial
  | .reloaded _ => isTrue trivial

def Thread.Lasts (S : Set FullConfig) : Thread → Prop
  | .recovery pc => (∀ n ∈ pc.maxAttempts, n = 0) ∧ ∀ why ∈ pc.ending, why.Good
  | .reload cfg _ => cfg ∈ S
  | .request _ => True
  | .close _ => True

def Arrival.ReloadsIn (S : Set FullConfig) : Arrival → Prop
  | .reload cfg => cfg ∈ S
  | .request => True
  | .close => True

section Ends
variable {S : Set FullConfig} {s : Live} {t u : Thread} {a : Answer}

theorem lasts_begin (S : Set FullConfig) : Thread.Lasts S (.recovery .begin) := by
  refine ⟨?_, ?_⟩
  · intro n hn
    cases hn
  · intro why hwhy
    cases hwhy

theorem lasts_of_step (hattempts : ∀ cfg ∈ S, cfg.maxRecoveryAttempts = 0)
    (hlazy : ∀ cfg ∈ S, ∀ net, ∃ o, RedisClient.newClient cfg.redis false net = .ok o) (hs : s.cfg ∈ S)
    (ht : t.Lasts S) (hu : u ∈ (step s t a).2.2) : u.Lasts S := by
  cases t with
  | request pc =>
    rcases (requesting_requestStep a s pc).threads u hu with ⟨pc', rfl, -⟩ | rfl
    · trivial
    · exact lasts_begin S
  | recovery pc =>
    obtain ⟨s', pc', rfl, hadvances⟩ := (recovering_recoveryStep a s pc).threads u hu
    refine ⟨?_, ?_⟩
    · intro n hn
      rcases hadvances.attempts n hn with hold | rfl
      · exact ht.1 n hold
      · exact hattempts s.cfg hs
    · intro why hwhy
      rcases hadvances.ending why hwhy with hold | hwarrant
      · exact ht.2 why hold
      cases why with
      | createFailed e =>
        obtain ⟨o, ho⟩ := hlazy s.cfg hs a.redis
        cases ho.symm.trans hwarrant.2
      | exhausted =>
        obtain ⟨n, hn, hpos⟩ := hwarrant
        exact absurd (ht.1 n hn) hpos.ne'
      | _ => trivial
  | reload cfg pc =>
    obtain ⟨pc', rfl⟩ := (reloading_reloadStep a cfg s pc).threads u hu
    exact ht
  | close pc =>
    obtain ⟨pc', rfl⟩ := threads_closeStep hu
    trivial

theorem config_of_step (hs : s.cfg ∈ S) (ht : t.Lasts S) : (step s t a).2.1.cfg ∈ S := by
  cases t with
  | request pc => exact (requesting_requestStep a s pc).config ▸ hs
  | recovery pc => exact (recovering_recoveryStep a s pc).config ▸ hs
  | reload cfg pc =>
    obtain heq | heq := (reloading_reloadStep a cfg s pc).config
    · exact heq ▸ hs
    · have hcfg : (step s (.reload cfg pc) a).2.1.cfg = cfg := heq
      rw [hcfg]
      exact ht
  | close pc => cases pc <;> exact hs

theorem keeps_lasts (hattempts : ∀ cfg ∈ S, cfg.maxRecoveryAttempts = 0)
    (hlazy : ∀ cfg ∈ S, ∀ net, ∃ o, RedisClient.newClient cfg.redis false net = .ok o) :
    system.Keeps (Arrival.ReloadsIn S) (fun _ _ _ _ => True) fun s ts => s.cfg ∈ S ∧ ∀ t ∈ ts, t.Lasts S where
  arrive := by
    rintro s ts arrival ⟨hs, hts⟩ harrival
    refine ⟨hs, List.forall_mem_append.mpr ⟨hts, List.forall_mem_singleton.mpr ?_⟩⟩
    cases arrival <;> exact harrival
  step := by
    rintro s l₁ t l₂ a ⟨hs, hts⟩ -
    have ht : t.Lasts S := hts t (List.mem_append_cons_self ..)
    refine ⟨config_of_step hs ht, ?_⟩
    exact System.forall_replace hts (fun _ hu => hu) fun u hu => lasts_of_step hattempts hlazy hs ht hu

theorem endsWell_of_step {e : Event} (ht : t.Lasts S) (he : e ∈ (step s t a).1) : e.EndsWell := by
  rcases event_of_step he with ⟨failed, -, removed, -, rfl⟩ | ⟨why, rfl, rfl⟩ | ⟨result, rfl⟩
  · trivial
  · exact ht.2 why rfl
  · trivial

theorem completes_createFailed {e : RedisClient.ClientError}
    (h : RedisClient.newClient s.cfg.redis false a.redis = .error e) :
    system.Completes a s (.recovery .begin) [.returned (.createFailed e)] { s with reconnecting := false } := by
  have hcreating : system.step s (.recovery (.creating s.cfg.maxRecoveryAttempts)) a =
      ([], s, [.recovery (.returned (.createFailed e))]) := by
    simp only [system, step, recoveryStep, h]
    rfl
  apply System.Completes.silent rfl
  apply System.Completes.silent hcreating
  exact System.Completes.done rfl

/-- **What ends a recovery.** With attempts without limit, and whatever configurations of a set are reloaded, no
recovery ends but for a good reason exactly when every one of them creates its client without the network. -/
theorem recovery_ends_well_iff (parseURL : GoString → Except GoString ParsedURL)
    (hS : ∀ cfg ∈ S, (∃ raw, validate parseURL raw = .ok cfg) ∧ cfg.maxRecoveryAttempts = 0) :
    (∀ s : Live, s.cfg ∈ S → s.reconnecting = true → ∀ ms, (∀ cfg, .arrive (.reload cfg) ∈ ms → cfg ∈ S) →
        ∀ e ∈ (system.machine.outputs ⟨s, [.recovery .begin]⟩ ms).flatten, e.EndsWell) ↔
      ∀ cfg ∈ S, RedisClient.Lazy cfg.redis := by
  constructor
  · intro h cfg hcfg
    cases hclient : RedisClient.newClient cfg.redis false {} with
    | ok o => exact RedisClient.lazy_of_newClient hclient
    | error e =>
      obtain ⟨s, hs, hstarted⟩ : ∃ s : Live, s.cfg = cfg ∧ s.reconnecting = true :=
        ⟨{ Live.start cfg (.clientIP [] 0) with reconnecting := true, redisUnhealthy := true }, rfl, rfl⟩
      obtain ⟨n, -, hout⟩ := completes_createFailed (s := s) (a := {}) (hs.symm ▸ hclient)
      have hturns : ∀ cfg', .arrive (.reload cfg') ∈ turns n 0 {} → cfg' ∈ S := by
        intro cfg' hmem
        cases List.eq_of_mem_replicate hmem
      have hall := h s (hs.symm ▸ hcfg) hstarted (turns n 0 {}) hturns
      rw [turns, hout] at hall
      cases hall _ (List.mem_singleton_self _)
  · intro hlazy s hs _ ms hms
    have hcreate : ∀ cfg ∈ S, ∀ net, ∃ o, RedisClient.newClient cfg.redis false net = .ok o := by
      intro cfg hcfg net
      obtain ⟨⟨raw, hraw⟩, -⟩ := hS cfg hcfg
      have hvalid := valid_of_validateRedisConfig (redis_of_validate parseURL hraw)
      exact RedisClient.newClient_of_lazy hvalid (hlazy cfg hcfg) net
    have hkeeps := keeps_lasts (fun cfg hcfg => (hS cfg hcfg).2) hcreate
    refine hkeeps.outputs ?_ ⟨hs, ?_⟩ ?_
    · intro s l₁ t l₂ a hinv _ e he
      exact endsWell_of_step (hinv.2 t (List.mem_append_cons_self ..)) he
    · intro t ht
      obtain rfl := List.mem_singleton.mp ht
      exact lasts_begin S
    · apply Machine.along_of_forall
      intro m hm c
      cases m with
      | arrive arrival =>
        cases arrival with
        | reload cfg => exact hms cfg hm
        | _ => trivial
      | run i a =>
        intro t _
        trivial

theorem recovery_ends_well_plain :
    RedisClient.Lazy (Live.plainFull false).redis ∧
      ∀ s : Live, s.cfg ∈ ({Live.plainFull false} : Set FullConfig) → s.reconnecting = true → ∀ ms,
        (∀ cfg, .arrive (.reload cfg) ∈ ms → cfg ∈ ({Live.plainFull false} : Set FullConfig)) →
          ∀ e ∈ (system.machine.outputs ⟨s, [.recovery .begin]⟩ ms).flatten, e.EndsWell := by
  have hlazy : RedisClient.Lazy (Live.plainFull false).redis := ⟨by decide, _, rfl⟩
  refine ⟨hlazy, (recovery_ends_well_iff Live.plainURL ?_).mpr ?_⟩
  · intro cfg hcfg
    obtain rfl := Set.mem_singleton_iff.mp hcfg
    exact ⟨⟨Live.plainFull false, rfl⟩, rfl⟩
  · intro cfg hcfg
    obtain rfl := Set.mem_singleton_iff.mp hcfg
    exact hlazy

def replicated : FullConfig :=
  { Live.plainFull false with
    redis := { endpoints := [str "redis-a:6379", str "redis-b:6379"], mode := .replication } }

def master : RedisClient.Network :=
  { role := fun addr => if addr = str "redis-a:6379" then some (str "master") else none }

theorem recovery_ended_by_discovery :
    validate Live.plainURL replicated = .ok replicated ∧
      ∃ s, Live.new { redis := master } replicated = .ok s ∧
        (∃ e ∈ (system.machine.outputs s.conf (failing ++ turns 3 0 {})).flatten, ¬e.EndsWell) ∧
        (system.machine.run s.conf (failing ++ turns 3 0 {})).threads.length = 0 ∧
        (system.machine.run s.conf (failing ++ turns 3 0 {})).shared.limiter.isNone = true :=
  ⟨rfl, exists_of_any (by decide +kernel)⟩

end Ends

end EdgeQuota.Middleware
