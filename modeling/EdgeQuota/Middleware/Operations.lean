import EdgeQuota.Middleware.RecoveryRuns

/-! What the chain goes through, one operation after the other and each to its end: lost connections, recoveries,
reloads and the end. An operation does to the chain what its thread does that nobody disturbs. -/

namespace EdgeQuota.Middleware
open Go Config RateLimit Lib

inductive Operation where
  | limiterFailure
  | recovery (net : RedisClient.Network)
  | reload (r : Reach) (cfg : FullConfig)
  | close

/-- How a recovery ends that nobody disturbs; the network answers it the same every time. -/
inductive RecoveryEnd where
  | pending
  | createFailed
  | gaveUp
  | reached

namespace Live

def handleLimiterError (s : Live) : Live :=
  { s with limiter := none, redisUnhealthy := true, reconnecting := s.reconnecting || !s.closed }

def attemptsEnd (net : RedisClient.Network) (s : Live) : RecoveryEnd :=
  if s.closed then .gaveUp
  else if net.pong then .reached
  else if 0 < s.cfg.maxRecoveryAttempts then .gaveUp
  else .pending

def recoveryEnd (net : RedisClient.Network) (s : Live) : RecoveryEnd :=
  if s.reconnecting = false then .pending
  else
    match RedisClient.newClient s.cfg.redis false net with
    | .error _ => .createFailed
    | .ok _ => s.attemptsEnd net

def unlimited (s : Live) : Bool := s.staticRL.ratePerSecond ≤ 0 ∧ s.cfg.rateLimit.external.enabled = false

def rebindBorrowed (client : RedisHandle) (s : Live) : Live :=
  if s.cacheRedisOwned then s
  else
    { s with
      cacheRedis := some client
      authCacheRedis := some client
      externalRL := s.externalRL.map fun ext => { ext with redis := some client } }

def recoveryInstall (client : RedisHandle) (s : Live) : Live :=
  if s.unlimited then { s with limiter := none, redisUnhealthy := false }
  else rebindBorrowed client { s with limiter := some (s.staticRL.newLimiter client), redisUnhealthy := false }

def recover (net : RedisClient.Network) (s : Live) : Live :=
  match s.recoveryEnd net with
  | .pending => s
  | .createFailed => { s with reconnecting := false }
  | .gaveUp => { s with reconnecting := false, allocated := s.allocated + 1 }
  | .reached =>
    { recoveryInstall ⟨s.allocated, s.cfg.redis⟩ { s with allocated := s.allocated + 1 } with reconnecting := false }

def close (s : Live) : Live :=
  releaseCacheRedis { s with closed := true, limiter := none, redisUnhealthy := true }

def perform (s : Live) : Operation → Live
  | .limiterFailure => s.handleLimiterError
  | .recovery net => s.recover net
  | .reload r cfg => (s.reload r cfg).2
  | .close => s.close

end Live

section Undisturbed
variable {a : Answer} {s : Live}

theorem run_reporting (a : Answer) (s : Live) (lim : InstalledLimiter) :
    system.machine.run ⟨s, [.request (.reporting lim)]⟩ (turns 3 0 a) =
      ⟨s.handleLimiterError, if s.closed || s.reconnecting then [] else [.recovery .begin]⟩ := by
  cases hclosed : s.closed <;> cases hreconnecting : s.reconnecting <;>
    simp [turns, List.replicate, Machine.run, System.machine, System.move, system, step, requestStep, goOn,
      Live.handleLimiterError, hclosed, hreconnecting]

theorem completes_close (a : Answer) (s : Live) : system.Completes a s (.close .cancelling) [] s.close := by
  apply System.Completes.silent rfl
  apply System.Completes.silent rfl
  exact System.Completes.done rfl

theorem completes_loadingExternal (client : RedisHandle) (s : Live) :
    system.Completes a s (.recovery (.loadingExternal client)) [.returned .installed]
      { s with
        externalRL := s.externalRL.map fun ext => { ext with redis := some client }
        reconnecting := false } := by
  cases hexternal : s.externalRL with
  | none =>
    have hloading : system.step s (.recovery (.loadingExternal client)) a =
        ([], s, [.recovery (.returned .installed)]) := by
      simp [system, step, recoveryStep, goOn, hexternal]
    apply System.Completes.silent hloading
    apply System.Completes.done
    simp [system, step, recoveryStep, hexternal]
  | some ext =>
    have hloading : system.step s (.recovery (.loadingExternal client)) a =
        ([], s, [.recovery (.settingExternal client ext.id)]) := by
      simp [system, step, recoveryStep, goOn, hexternal]
    apply System.Completes.silent hloading
    apply System.Completes.silent rfl
    apply System.Completes.done
    simp [system, step, recoveryStep, hexternal]

theorem completes_rebinding (client : RedisHandle) (s : Live) :
    system.Completes a s (.recovery (.rebinding client)) [.returned .installed]
      { s.rebindBorrowed client with reconnecting := false } := by
  unfold Live.rebindBorrowed
  split_ifs with howned
  · have hrebinding : system.step s (.recovery (.rebinding client)) a =
        ([], s, [.recovery (.returned .installed)]) := by
      simp [system, step, recoveryStep, goOn, howned]
    apply System.Completes.silent hrebinding
    exact System.Completes.done rfl
  · have hrebinding : system.step s (.recovery (.rebinding client)) a =
        ([], { s with cacheRedis := some client }, [.recovery (.storingAuth client)]) := by
      simp [system, step, recoveryStep, goOn, howned]
    apply System.Completes.silent hrebinding
    apply System.Completes.silent rfl
    exact completes_loadingExternal client _

theorem completes_installing (client : RedisHandle) (s : Live) :
    ∃ why, system.Completes a s (.recovery (.installing client)) [.returned why]
      { s.recoveryInstall client with reconnecting := false } := by
  unfold Live.recoveryInstall
  cases hlimits : s.unlimited with
  | true =>
    have hdeciding : system.step s (.recovery (.deciding client s.staticRL)) a = ([], s, [.recovery .dropping]) := by
      simp only [system, step, recoveryStep, if_pos (of_decide_eq_true hlimits)]
      rfl
    refine ⟨.notConfigured, ?_⟩
    apply System.Completes.silent rfl
    apply System.Completes.silent hdeciding
    apply System.Completes.silent rfl
    exact System.Completes.done rfl
  | false =>
    have hdeciding : system.step s (.recovery (.deciding client s.staticRL)) a =
        ([], s, [.recovery (.swapping client s.staticRL)]) := by
      simp only [system, step, recoveryStep, if_neg (of_decide_eq_false hlimits)]
      rfl
    refine ⟨.installed, ?_⟩
    apply System.Completes.silent rfl
    apply System.Completes.silent hdeciding
    apply System.Completes.silent rfl
    exact completes_rebinding client _

theorem completes_looping {out : List Event} {s' : Live} {l : Attempts} (hclient : l.client.config = s.cfg.redis)
    (hopen : s.closed = false) (h : system.Completes a s (.recovery (.pinging l)) out s') :
    system.Completes a s (.recovery (.looping l)) out s' := by
  have hlooping : system.step s (.recovery (.looping l)) a = ([], s, [.recovery (.comparing l)]) := by
    simp [system, step, recoveryStep, goOn, hopen]
  have hcomparing : system.step s (.recovery (.comparing l)) a = ([], s, [.recovery (.pinging l)]) := by
    simp [system, step, recoveryStep, goOn, hclient, sameRedisEndpoints]
  apply System.Completes.silent hlooping
  exact System.Completes.silent hcomparing h

theorem completes_exhausted {l : Attempts} (hclient : l.client.config = s.cfg.redis) (hmax : 0 < l.maxAttempts)
    (hopen : s.closed = false) (hsilent : a.redis.pong = false) :
    system.Completes a s (.recovery (.looping l)) [.returned .exhausted] { s with reconnecting := false } := by
  -- By induction on the attempts that are left.
  induction hn : (l.maxAttempts - l.attempt).toNat using Nat.strong_induction_on generalizing l with
  | h n ih =>
    have hpinging : system.step s (.recovery (.pinging l)) a =
        ([], s, [.recovery (.retrying { l with attempt := l.attempt + 1 })]) := by
      simp [system, step, recoveryStep, goOn, hsilent]
    apply completes_looping hclient hopen
    apply System.Completes.silent hpinging
    by_cases hlast : l.maxAttempts ≤ l.attempt + 1
    · have hretrying : system.step s (.recovery (.retrying { l with attempt := l.attempt + 1 })) a =
          ([], s, [.recovery (.returned .exhausted)]) := by
        simp [system, step, recoveryStep, goOn, hmax, hlast]
      apply System.Completes.silent hretrying
      exact System.Completes.done rfl
    · have hretrying : system.step s (.recovery (.retrying { l with attempt := l.attempt + 1 })) a =
          ([], s, [.recovery (.sleeping { l with attempt := l.attempt + 1 })]) := by
        simp [system, step, recoveryStep, goOn, hlast]
      have hsleeping : system.step s (.recovery (.sleeping { l with attempt := l.attempt + 1 })) a =
          ([], s, [.recovery (.looping
            { l with attempt := l.attempt + 1, backoff := min (l.backoff * 2) recoveryBackoffMax })]) := by
        simp [system, step, recoveryStep, goOn, hopen]
      apply System.Completes.silent hretrying
      apply System.Completes.silent hsleeping
      refine ih (l.maxAttempts - (l.attempt + 1)).toNat ?_ ?_ ?_ rfl
      · omega
      · exact hclient
      · exact hmax

theorem completes_shutDown {l : Attempts} (hclosed : s.closed = true) :
    system.Completes a s (.recovery (.looping l)) [.returned .shutDown] { s with reconnecting := false } := by
  have hlooping : system.step s (.recovery (.looping l)) a = ([], s, [.recovery (.returned .shutDown)]) := by
    simp [system, step, recoveryStep, goOn, hclosed]
  apply System.Completes.silent hlooping
  exact System.Completes.done rfl

theorem completes_reached {l : Attempts} (hclient : l.client.config = s.cfg.redis) (hopen : s.closed = false)
    (hpong : a.redis.pong = true) :
    ∃ why, system.Completes a s (.recovery (.looping l)) [.returned why]
      { s.recoveryInstall l.client with reconnecting := false } := by
  obtain ⟨why, hwhy⟩ := completes_installing (a := a) l.client s
  have hpinging : system.step s (.recovery (.pinging l)) a = ([], s, [.recovery (.installing l.client)]) := by
    simp [system, step, recoveryStep, goOn, hpong, hopen]
  exact ⟨why, completes_looping hclient hopen (System.Completes.silent hpinging hwhy)⟩

theorem completes_recover (hrunning : s.reconnecting = true) (hends : s.recoveryEnd a.redis ≠ .pending) :
    ∃ why, system.Completes a s (.recovery .begin) [.returned why] (s.recover a.redis) := by
  have hend : s.recoveryEnd a.redis = _ := if_neg (by simp [hrunning])
  unfold Live.recover
  cases hcreate : RedisClient.newClient s.cfg.redis false a.redis with
  | error e =>
    rw [hcreate] at hend
    rw [hend]
    exact ⟨_, completes_createFailed hcreate⟩
  | ok o =>
    have hcreating : system.step s (.recovery (.creating s.cfg.maxRecoveryAttempts)) a =
        ([], { s with allocated := s.allocated + 1 },
          [.recovery (.looping ⟨⟨s.allocated, s.cfg.redis⟩, s.cfg.maxRecoveryAttempts, 0, recoveryBackoffBase⟩)]) := by
      simp only [system, step, recoveryStep, hcreate]
      rfl
    rw [hcreate] at hend
    simp only [Live.attemptsEnd] at hend
    split_ifs at hend with hclosed hpong hmax <;> rw [hend]
    · refine ⟨.shutDown, System.Completes.silent rfl (System.Completes.silent hcreating ?_)⟩
      exact completes_shutDown hclosed
    · obtain ⟨why, hwhy⟩ := completes_reached (a := a) (s := { s with allocated := s.allocated + 1 })
        (l := ⟨⟨s.allocated, s.cfg.redis⟩, s.cfg.maxRecoveryAttempts, 0, recoveryBackoffBase⟩) rfl
        (Bool.eq_false_of_not_eq_true hclosed) hpong
      exact ⟨why, System.Completes.silent rfl (System.Completes.silent hcreating hwhy)⟩
    · refine ⟨.exhausted, System.Completes.silent rfl (System.Completes.silent hcreating ?_)⟩
      refine completes_exhausted ?_ hmax ?_ ?_
      · rfl
      · exact Bool.eq_false_of_not_eq_true hclosed
      · exact Bool.eq_false_of_not_eq_true hpong
    · exact absurd hend hends

end Undisturbed

end EdgeQuota.Middleware
