import EdgeQuota.Go.Strings
import EdgeQuota.Lib.Threads
import Mathlib.Data.List.Chain

/-! What the store reports of Redis. Every goroutine that has sent a command says how it went. Most of the time nothing
has changed, which is seen without the lock; a change is stored and reported under it. -/

namespace EdgeQuota.Cache.Health
open Go Lib

structure RedisError where
  isNil : Bool := false
  isCanceled : Bool := false
  isDeadlineExceeded : Bool := false
  isTimeout : Bool := false
  isOpError : Bool := false
  text : GoString := []

def isNilErr (err : RedisError) : Bool := err.isNil

def isCanceledErr (err : RedisError) : Bool := err.isCanceled

def connectivityTexts : List GoString :=
  [str "connection refused", str "connection reset", str "broken pipe", str "EOF", str "no such host",
    str "no route to host", str "network is unreachable", str "i/o timeout", str "deadline exceeded",
    str "CLUSTERDOWN", str "LOADING"]

def isConnectivityErr (err : RedisError) : Bool :=
  if err.isCanceled then false
  else if err.isDeadlineExceeded then true
  else if err.isTimeout then true
  else if err.isOpError then true
  else connectivityTexts.any fun s => contains err.text s

structure Hooks where
  onRedisError : Bool := true
  onHealthy : Bool := true

structure Shared where
  healthy : Bool := true
  healthMu : Bool := false

inductive Stage where
  | noteRedis (err : Option RedisError)
  | setHealthy (healthy : Bool)
  | lock (healthy : Bool)
  | recheck (healthy : Bool)
  | store (healthy : Bool)
  | emit (healthy : Bool)
  | unlock

inductive Report where
  | redisError
  | healthy (value : Bool)
  deriving DecidableEq

def Hooks.redisError (hooks : Hooks) : List Report := if hooks.onRedisError then [.redisError] else []

def Hooks.healthy (hooks : Hooks) (value : Bool) : List Report := if hooks.onHealthy then [.healthy value] else []

def noteRedis (hooks : Hooks) : Option RedisError → List Report × List Stage
  | none => ([], [.setHealthy true])
  | some err =>
    if isNilErr err then ([], [.setHealthy true])
    else if isCanceledErr err then ([], [])
    else (hooks.redisError, if isConnectivityErr err then [.setHealthy false] else [])

def step (hooks : Hooks) (s : Shared) : Stage → List Report × Shared × List Stage
  | .noteRedis err => let (out, next) := noteRedis hooks err; (out, s, next)
  -- most calls end here, without the lock
  | .setHealthy healthy => if s.healthy = healthy then ([], s, []) else ([], s, [.lock healthy])
  | .lock healthy =>
    if s.healthMu then ([], s, [.lock healthy]) else ([], { s with healthMu := true }, [.recheck healthy])
  -- the change may have been made while the goroutine waited for the lock
  | .recheck healthy => if s.healthy = healthy then ([], s, [.unlock]) else ([], s, [.store healthy])
  | .store healthy => ([], { s with healthy := healthy }, [.emit healthy])
  | .emit healthy => (hooks.healthy healthy, s, [.unlock])
  | .unlock => ([], { s with healthMu := false }, [])

inductive Call where
  | noteRedis (err : Option RedisError)
  | setHealthy (healthy : Bool)

def system (hooks : Hooks) : System Shared Stage Call Unit Report where
  arrive
    | .noteRedis err => .noteRedis err
    | .setHealthy healthy => .setHealthy healthy
  step s t _ := step hooks s t

def start : System.Conf Shared Stage := ⟨{}, []⟩

def reportHealth (hooks : Hooks) (s : Shared) : List Report := hooks.healthy s.healthy

def Report.health : Report → Option Bool
  | .redisError => none
  | .healthy value => some value

def emitted (out : List Report) : List Bool := out.filterMap Report.health

theorem emitted_append (out out' : List Report) : emitted (out ++ out') = emitted out ++ emitted out' :=
  List.filterMap_append

def Stage.holds : Stage → Bool
  | .recheck _ | .store _ | .emit _ | .unlock => true
  | .noteRedis _ | .setHealthy _ | .lock _ => false

def Agrees (p : List Report × Shared) : Prop := (true :: emitted p.1).getLast? = some p.2.healthy

def Free (p : List Report × Shared) : Prop := p.2.healthMu = false ∧ Agrees p

def Ready (p : List Report × Shared) (t : Stage) : Prop :=
  p.2.healthMu = true ∧
    match t with
    | .store healthy => Agrees p ∧ p.2.healthy ≠ healthy
    | .emit healthy => p.2.healthy = healthy ∧ (true :: emitted p.1).getLast? = some (!healthy)
    | _ => Agrees p

structure Sound (out : List Report) (s : Shared) (ts : List Stage) : Prop where
  alternates : (true :: emitted out).IsChain (· ≠ ·)
  holder : System.OneBusy Stage.holds Free Ready (out, s) ts

variable {hooks : Hooks} {out : List Report} {s : Shared} {t : Stage} {ts l₁ l₂ : List Stage}

theorem Sound.nobody (h : Sound out s ts) (hfree : s.healthMu = false) : ts.countP Stage.holds = 0 := by
  rw [List.countP_eq_zero]
  intro t ht hholds
  have hlocked := (h.holder.ready t ht hholds).1
  rw [hfree] at hlocked
  cases hlocked

theorem Sound.agrees (h : Sound out s ts) (hfree : s.healthMu = false) : Agrees (out, s) :=
  (h.holder.rest (h.nobody hfree)).2

theorem quiet_noteRedis (hooks : Hooks) (err : Option RedisError) :
    emitted (noteRedis hooks err).1 = [] ∧ ∀ u ∈ (noteRedis hooks err).2, u.holds = false := by
  have hquiet : emitted hooks.redisError = [] := by
    unfold Hooks.redisError
    split_ifs <;> rfl
  have hsets : ∀ value, ∀ u ∈ [Stage.setHealthy value], u.holds = false :=
    fun _ => List.forall_mem_singleton.mpr rfl
  cases err with
  | none => exact ⟨rfl, hsets true⟩
  | some err =>
    simp only [noteRedis]
    split_ifs
    · exact ⟨rfl, hsets true⟩
    · exact ⟨rfl, by rintro u ⟨⟩⟩
    · exact ⟨hquiet, hsets false⟩
    · exact ⟨hquiet, by rintro u ⟨⟩⟩

theorem Sound.outside {more : List Report} (h : Sound out s (l₁ ++ t :: l₂)) (hidle : t.holds = false)
    (hquiet : emitted more = []) (hnew : ∀ u ∈ ts, u.holds = false) : Sound (out ++ more) s (l₁ ++ ts ++ l₂) := by
  have hsame : emitted (out ++ more) = emitted out := by
    rw [emitted_append, hquiet, List.append_nil]
  refine ⟨hsame ▸ h.alternates, h.holder.outside hidle hnew ?_ ?_⟩
  · unfold Free Agrees
    rw [hsame]
    exact id
  · intro u hready
    unfold Ready Agrees at hready ⊢
    rwa [hsame]

theorem Sound.inside {out' : List Report} {s' : Shared} (h : Sound out s (l₁ ++ t :: l₂))
    (hthread : t.holds = true ∨ s.healthMu = false) (hchain : (true :: emitted out').IsChain (· ≠ ·))
    (hleaves : (t.holds = true → Ready (out, s) t) → (t.holds = false → Free (out, s)) →
      System.Leaves Stage.holds Free Ready (out', s') ts) : Sound out' s' (l₁ ++ ts ++ l₂) :=
  ⟨hchain, h.holder.inside (hthread.imp_right h.nobody) hleaves⟩

theorem Sound.step (hhook : hooks.onHealthy = true) (h : Sound out s (l₁ ++ t :: l₂)) :
    Sound (out ++ (step hooks s t).1) (step hooks s t).2.1 (l₁ ++ (step hooks s t).2.2 ++ l₂) := by
  cases t with
  | noteRedis err =>
    obtain ⟨hquiet, hnew⟩ := quiet_noteRedis hooks err
    exact h.outside rfl hquiet hnew
  | setHealthy healthy =>
    simp only [Health.step]
    split_ifs
    · exact h.outside rfl rfl (by rintro u ⟨⟩)
    · exact h.outside rfl rfl (List.forall_mem_singleton.mpr rfl)
  | lock healthy =>
    simp only [Health.step]
    split_ifs with htaken
    · exact h.outside rfl rfl (List.forall_mem_singleton.mpr rfl)
    · rw [List.append_nil]
      apply h.inside (Or.inr (Bool.eq_false_of_not_eq_true htaken)) h.alternates
      intro _ hfree
      exact Or.inl ⟨_, rfl, rfl, rfl, (hfree rfl).2⟩
  | recheck healthy =>
    simp only [Health.step]
    split_ifs with hsame
    · rw [List.append_nil]
      apply h.inside (Or.inl rfl) h.alternates
      intro hready _
      exact Or.inl ⟨_, rfl, rfl, hready rfl⟩
    · rw [List.append_nil]
      apply h.inside (Or.inl rfl) h.alternates
      intro hready _
      obtain ⟨hlocked, hagrees⟩ := hready rfl
      exact Or.inl ⟨_, rfl, rfl, hlocked, hagrees, hsame⟩
  | store healthy =>
    simp only [Health.step]
    rw [List.append_nil]
    apply h.inside (Or.inl rfl) h.alternates
    intro hready _
    obtain ⟨hlocked, hagrees, hdiffers⟩ := hready rfl
    refine Or.inl ⟨_, rfl, rfl, hlocked, rfl, ?_⟩
    rw [← Bool.eq_not_of_ne hdiffers]
    exact hagrees
  | emit healthy =>
    obtain ⟨hlocked, hstored, hlast⟩ :=
      h.holder.ready (.emit healthy) (List.mem_append_cons_self ..) rfl
    have hmore : true :: emitted (out ++ hooks.healthy healthy) = (true :: emitted out) ++ [healthy] := by
      rw [emitted_append, Hooks.healthy, if_pos hhook]
      rfl
    apply h.inside (Or.inl rfl)
    · change (true :: emitted (out ++ hooks.healthy healthy)).IsChain (· ≠ ·)
      rw [hmore]
      refine List.isChain_append.mpr ⟨h.alternates, List.isChain_singleton _, ?_⟩
      intro last hmem next hnext
      rw [hlast] at hmem
      obtain rfl := Option.some.inj hmem
      obtain rfl := Option.some.inj hnext
      exact Bool.not_ne_self _
    · intro _ _
      refine Or.inl ⟨_, rfl, rfl, hlocked, ?_⟩
      change (true :: emitted (out ++ hooks.healthy healthy)).getLast? = some s.healthy
      rw [hmore, List.getLast?_concat, hstored]
  | unlock =>
    simp only [Health.step]
    rw [List.append_nil]
    apply h.inside (Or.inl rfl) h.alternates
    intro hready _
    exact Or.inr ⟨by rintro u ⟨⟩, rfl, (hready rfl).2⟩

theorem records_sound (hhook : hooks.onHealthy = true) : (system hooks).Records Sound where
  arrive := by
    intro out s ts call h
    exact ⟨h.alternates, h.holder.arrive (by cases call <;> rfl)⟩
  step h := h.step hhook

theorem sound_start : Sound [] start.shared start.threads :=
  ⟨List.isChain_singleton _, Nat.zero_le 1, fun _ => ⟨rfl, rfl⟩, by rintro t ⟨⟩⟩

theorem records_silent (hhook : hooks.onHealthy = false) :
    (system hooks).Records fun out _ _ => emitted out = [] where
  arrive h := h
  step := by
    intro out s l₁ t l₂ _ h
    have hsilent : emitted (step hooks s t).1 = [] := by
      cases t with
      | noteRedis err => exact (quiet_noteRedis hooks err).1
      | emit healthy =>
        simp only [step, Hooks.healthy, hhook]
        rfl
      | setHealthy healthy | lock healthy | recheck healthy =>
        simp only [step]
        split_ifs <;> rfl
      | store healthy | unlock => rfl
    change emitted (out ++ (step hooks s t).1) = []
    rw [emitted_append, h, hsilent]
    rfl

/-- **Health reports.** However the calls of any number of goroutines interleave, the values that are reported strictly
alternate, beginning with `false`; and whenever the lock is free, the last of them, or the report at the installation of
the store, is the value that is stored. -/
theorem health_reports_alternate (hooks : Hooks) (ms : List (System.Move Call Unit)) :
    let c := (system hooks).machine.run start ms
    let out := ((system hooks).machine.outputs start ms).flatten
    (true :: emitted out).IsChain (· ≠ ·) ∧
      (hooks.onHealthy = true → c.shared.healthMu = false →
        (emitted (reportHealth hooks start.shared ++ out)).getLast? = some c.shared.healthy) := by
  intro c out
  cases hhook : hooks.onHealthy with
  | false =>
    have hempty : emitted [] = [] := rfl
    have hsilent : emitted out = [] := (records_silent hhook).run (c := start) hempty ms
    rw [hsilent]
    exact ⟨List.isChain_singleton _, Bool.noConfusion⟩
  | true =>
    have hsound : Sound out c.shared c.threads := (records_sound hhook).run sound_start ms
    refine ⟨hsound.alternates, ?_⟩
    intro _ hfree
    have hinstall : reportHealth hooks start.shared = [.healthy true] := by
      unfold reportHealth Hooks.healthy
      rw [if_pos hhook]
      rfl
    rw [hinstall, emitted_append]
    exact hsound.agrees hfree

-- Two goroutines see the same outage before either has the lock; the second one finds it reported.
end EdgeQuota.Cache.Health
