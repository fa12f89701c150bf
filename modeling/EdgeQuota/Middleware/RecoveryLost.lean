import EdgeQuota.Middleware.RecoveryRuns

/-! Whether a chain that has lost its limiter gets one again: somebody has to be on the way to install it, either
a recovery or a request that is about to start one. -/

namespace EdgeQuota.Middleware
open Go Config RateLimit Lib

namespace Thread

def isRecovery : Thread → Bool
  | .recovery _ => true
  | _ => false

def settling : Thread → Bool
  | .recovery pc => pc.ending.isSome
  | _ => false

def pending : Thread → Bool
  | .request .starting => true
  | .request .claiming => true
  | _ => false

end Thread

/-- A recovery is going to install a limiter, or a request is going to start one and nothing keeps it from that. -/
def UnderWay (s : Live) (ts : List Thread) : Prop :=
  (∃ t ∈ ts, t.isRecovery = true ∧ t.settling = false) ∨ (s.reconnecting = false ∧ ∃ t ∈ ts, t.pending = true)

def Alike (base cfg : FullConfig) : Prop :=
  (0 < cfg.rateLimit.static.average ↔ 0 < base.rateLimit.static.average) ∧
    cfg.rateLimit.external.enabled = base.rateLimit.external.enabled ∧ cfg.maxRecoveryAttempts = 0

instance (base cfg : FullConfig) : Decidable (Alike base cfg) := inferInstanceAs (Decidable (_ ∧ _ ∧ _))

def Arrival.Alike (base : FullConfig) : Arrival → Prop
  | .reload cfg => Middleware.Alike base cfg
  | .request => True
  | .close => True

instance (base : FullConfig) : DecidablePred (Arrival.Alike base)
  | .reload cfg => inferInstanceAs (Decidable (Middleware.Alike base cfg))
  | .request => isTrue trivial
  | .close => isTrue trivial

namespace Thread

def reports : Thread → Bool
  | .request (.reporting _) => true
  | _ => false

def needsClient (s : Live) : Thread → Bool
  | .recovery pc => pc.needsClient s
  | _ => false

end Thread

/-- Nobody reports an error between the turn in which a recovery has installed a limiter and the one in which it
says that it is over, and no recovery fails to create a client. -/
def Seamless (s : Live) (ts : List Thread) (t : Thread) (a : Answer) : Prop :=
  (t.reports = true → ts.countP Thread.settling = 0) ∧
    (t.needsClient s = true → (RedisClient.newClient s.cfg.redis false a.redis).isOk = true)

instance (s : Live) (ts : List Thread) (t : Thread) (a : Answer) : Decidable (Seamless s ts t a) :=
  inferInstanceAs (Decidable ((_ → _) ∧ (_ → _)))

structure RecoveryAt.Fits (base : FullConfig) (pc : RecoveryAt) : Prop where
  attempts : ∀ n ∈ pc.maxAttempts, n = 0
  snapshot : ∀ snap ∈ pc.snapshot, 0 < snap.ratePerSecond ↔ 0 < base.rateLimit.static.average
  ending : .notConfigured ∈ pc.ending → ¬base.Limits

def Thread.Fits (base : FullConfig) (s : Live) : Thread → Prop
  | .request _ => True
  | .recovery pc => pc.Fits base
  | .reload cfg _ => Alike base cfg
  | .close .cancelling => True
  | .close _ => s.closed = true

theorem fits_begin (base : FullConfig) : RecoveryAt.Fits base .begin := by
  refine ⟨?_, ?_, ?_⟩
  · intro n hn
    cases hn
  · intro snap hsnap
    cases hsnap
  · intro hending
    cases hending

structure Sound (base : FullConfig) (s : Live) (ts : List Thread) : Prop where
  config : Alike base s.cfg
  static : 0 < s.staticRL.ratePerSecond ↔ 0 < base.rateLimit.static.average
  fits : ∀ t ∈ ts, t.Fits base s
  single : ts.countP Thread.isRecovery = if s.reconnecting then 1 else 0
  covered : s.closed = false → base.Limits → s.limiter = none →
    ts.countP Thread.settling = 0 ∧ 0 < ts.countP Thread.isRecovery + ts.countP Thread.pending

section Sound
variable {base : FullConfig} {s s' : Live} {t : Thread} {ts l₁ l₂ : List Thread} {a : Answer}

theorem Thread.Fits.of_closed (h : t.Fits base s) (hclosed : s.closed = true → s'.closed = true) : t.Fits base s' := by
  cases t with
  | close pc =>
    cases pc with
    | cancelling => trivial
    | _ => exact hclosed h
  | _ => exact h

theorem Sound.replace (h : Sound base s (l₁ ++ t :: l₂)) (hclosed : s.closed = true → s'.closed = true)
    (hconfig : Alike base s'.cfg) (hstatic : 0 < s'.staticRL.ratePerSecond ↔ 0 < base.rateLimit.static.average)
    (hfits : ∀ u ∈ ts, u.Fits base s')
    (hsingle : ts.countP Thread.isRecovery + (if s.reconnecting then 1 else 0) =
      (if t.isRecovery then 1 else 0) + if s'.reconnecting then 1 else 0)
    (hcovered : s'.closed = false → base.Limits → s'.limiter = none →
      (l₁ ++ ts ++ l₂).countP Thread.settling = 0 ∧
        0 < (l₁ ++ ts ++ l₂).countP Thread.isRecovery + (l₁ ++ ts ++ l₂).countP Thread.pending) :
    Sound base s' (l₁ ++ ts ++ l₂) := by
  have hcount := System.countP_replace Thread.isRecovery t l₁ ts l₂
  have hone := h.single
  refine ⟨hconfig, hstatic, ?_, ?_, hcovered⟩
  · exact System.forall_replace h.fits (fun u hu => hu.of_closed hclosed) hfits
  · omega

theorem Sound.covered_replace (h : Sound base s (l₁ ++ t :: l₂)) (hopen : s.closed = false) (hlimits : base.Limits)
    (hnone : s.limiter = none) (hless : ts.countP Thread.settling ≤ if t.settling then 1 else 0)
    (hmore : (if t.isRecovery then 1 else 0) + (if t.pending then 1 else 0) ≤
      ts.countP Thread.isRecovery + ts.countP Thread.pending) :
    (l₁ ++ ts ++ l₂).countP Thread.settling = 0 ∧
      0 < (l₁ ++ ts ++ l₂).countP Thread.isRecovery + (l₁ ++ ts ++ l₂).countP Thread.pending := by
  have hrecovery := System.countP_replace Thread.isRecovery t l₁ ts l₂
  have hsettling := System.countP_replace Thread.settling t l₁ ts l₂
  have hpending := System.countP_replace Thread.pending t l₁ ts l₂
  obtain ⟨hzero, hsome⟩ := h.covered hopen hlimits hnone
  omega

theorem Sound.look {pc : RequestAt} (h : Sound base s (l₁ ++ .request pc :: l₂))
    (hrequests : ∀ u ∈ ts, ∃ pc', u = .request pc')
    (hpending : (if (Thread.request pc).pending then 1 else 0) ≤ ts.countP Thread.pending) :
    Sound base s (l₁ ++ ts ++ l₂) := by
  have hrecovery : ts.countP Thread.isRecovery = 0 := by
    apply System.countP_eq_zero_of_forall
    intro u hu
    obtain ⟨pc', rfl⟩ := hrequests u hu
    rfl
  have hsettling : ts.countP Thread.settling = 0 := by
    apply System.countP_eq_zero_of_forall
    intro u hu
    obtain ⟨pc', rfl⟩ := hrequests u hu
    rfl
  refine h.replace id h.config h.static ?_ ?_ ?_
  · intro u hu
    obtain ⟨pc', rfl⟩ := hrequests u hu
    trivial
  · rw [hrecovery]
    rfl
  · intro hopen hlimits hnone
    apply h.covered_replace hopen hlimits hnone
    · rw [hsettling]
      exact Nat.zero_le _
    · rw [hrecovery]
      exact Nat.add_le_add_left hpending 0

theorem settling_replace (hzero : (l₁ ++ t :: l₂).countP Thread.settling = 0) (hnew : ∀ u ∈ ts, u.settling = false) :
    (l₁ ++ ts ++ l₂).countP Thread.settling = 0 := by
  rw [List.countP_eq_zero] at hzero ⊢
  refine System.forall_replace hzero (fun _ hu => hu) ?_
  intro u hu
  rw [hnew u hu]
  exact Bool.false_ne_true

theorem Sound.report {lim : InstalledLimiter} (h : Sound base s (l₁ ++ .request (.reporting lim) :: l₂))
    (hzero : (l₁ ++ .request (.reporting lim) :: l₂).countP Thread.settling = 0) :
    Sound base { s with limiter := none, redisUnhealthy := true } (l₁ ++ [.request .starting] ++ l₂) := by
  refine h.replace id h.config h.static ?_ rfl ?_
  · exact List.forall_mem_singleton.mpr trivial
  · intro _ _ _
    have hpending : 0 < (l₁ ++ [Thread.request .starting] ++ l₂).countP Thread.pending :=
      List.countP_pos_iff.mpr ⟨.request .starting, System.mem_replace (List.mem_singleton_self _), rfl⟩
    exact ⟨settling_replace hzero (List.forall_mem_singleton.mpr rfl), Nat.add_pos_right _ hpending⟩

theorem Sound.leave (h : Sound base s (l₁ ++ .request .claiming :: l₂)) (hrunning : s.reconnecting = true) :
    Sound base s (l₁ ++ [] ++ l₂) := by
  refine h.replace id h.config h.static (List.forall_mem_nil _) rfl ?_
  intro hopen hlimits hnone
  refine ⟨settling_replace (h.covered hopen hlimits hnone).1 (List.forall_mem_nil _), ?_⟩
  have hone := h.single
  rw [if_pos hrunning] at hone
  have hcount := System.countP_replace Thread.isRecovery (.request .claiming) l₁ [] l₂
  rw [hone] at hcount
  change (l₁ ++ [] ++ l₂).countP Thread.isRecovery + 0 = 1 + 0 at hcount
  omega

theorem Sound.claim (h : Sound base s (l₁ ++ .request .claiming :: l₂)) (hidle : s.reconnecting = false) :
    Sound base { s with reconnecting := true } (l₁ ++ [.recovery .begin] ++ l₂) := by
  refine h.replace id h.config h.static ?_ ?_ ?_
  · exact List.forall_mem_singleton.mpr (fits_begin base)
  · rw [hidle]
    rfl
  · intro hopen hlimits hnone
    have hrecovery : 0 < (l₁ ++ [Thread.recovery .begin] ++ l₂).countP Thread.isRecovery :=
      List.countP_pos_iff.mpr ⟨.recovery .begin, System.mem_replace (List.mem_singleton_self _), rfl⟩
    have hzero := (h.covered hopen hlimits hnone).1
    exact ⟨settling_replace hzero (List.forall_mem_singleton.mpr rfl), Nat.add_pos_left hrecovery _⟩

theorem Sound.request {pc : RequestAt} (h : Sound base s (l₁ ++ .request pc :: l₂))
    (hturn : Seamless s (l₁ ++ .request pc :: l₂) (.request pc) a) :
    Sound base (requestStep a s pc).2.1 (l₁ ++ (requestStep a s pc).2.2 ++ l₂) := by
  cases pc with
  | arrived =>
    simp only [requestStep]
    split
    · exact h.look (List.forall_mem_nil _) le_rfl
    · exact h.look (fun _ hu => ⟨_, List.mem_singleton.mp hu⟩) le_rfl
  | calling lim =>
    simp only [requestStep]
    split
    · exact h.look (List.forall_mem_nil _) le_rfl
    · exact h.look (fun _ hu => ⟨_, List.mem_singleton.mp hu⟩) le_rfl
  | starting =>
    simp only [requestStep]
    split
    · rename_i hclosed
      refine h.replace id h.config h.static (List.forall_mem_nil _) rfl ?_
      intro hopen
      rw [hclosed] at hopen
      cases hopen
    · exact h.look (fun _ hu => ⟨_, List.mem_singleton.mp hu⟩) le_rfl
  | reporting lim => exact h.report (hturn.1 rfl)
  | claiming =>
    simp only [requestStep]
    split
    · rename_i hrunning
      exact h.leave hrunning
    · rename_i hidle
      exact h.claim (eq_false_of_ne_true hidle)

theorem Sound.not_limits {pc : RecoveryAt} (h : Sound base s (l₁ ++ .recovery pc :: l₂))
    (hwarrants : pc.Warrants a s .notConfigured) : ¬base.Limits := by
  have hpc : pc.Fits base := h.fits (.recovery pc) (List.mem_append_cons_self ..)
  obtain ⟨snap, hsnap, hrate, hexternal⟩ := hwarrants
  rintro (haverage | henabled)
  · exact absurd ((hpc.snapshot snap hsnap).mpr haverage) (not_lt.mpr hrate)
  · rw [← h.config.2.1, hexternal] at henabled
    cases henabled

theorem Sound.swapping_of_warrants {pc : RecoveryAt} {why : Reason} (h : Sound base s (l₁ ++ .recovery pc :: l₂))
    (hturn : Seamless s (l₁ ++ .recovery pc :: l₂) (.recovery pc) a) (hopen : s.closed = false) (hlimits : base.Limits)
    (hwarrants : pc.Warrants a s why) : ∃ client snap, pc = .swapping client snap := by
  have hpc : pc.Fits base := h.fits (.recovery pc) (List.mem_append_cons_self ..)
  cases why with
  | installed => exact hwarrants
  | notConfigured => exact absurd hlimits (h.not_limits hwarrants)
  | shutDown => exact absurd hopen (ne_false_of_eq_true hwarrants)
  | createFailed e =>
    have hok := hturn.2 hwarrants.1
    rw [hwarrants.2] at hok
    cases hok
  | exhausted =>
    obtain ⟨n, hn, hpos⟩ := hwarrants
    exact absurd (hpc.attempts n hn) hpos.ne'

theorem Sound.fits_advances {pc pc' : RecoveryAt} (h : Sound base s (l₁ ++ .recovery pc :: l₂))
    (hadvances : Advances a s pc s' pc') : pc'.Fits base := by
  have hpc : pc.Fits base := h.fits (.recovery pc) (List.mem_append_cons_self ..)
  refine ⟨?_, ?_, ?_⟩
  · intro n hn
    rcases hadvances.attempts n hn with hold | rfl
    · exact hpc.attempts n hold
    · exact h.config.2.2
  · intro snap hsnap
    rcases hadvances.snapshot snap hsnap with hold | rfl
    · exact hpc.snapshot snap hold
    · exact h.static
  · intro hending
    rcases hadvances.ending _ hending with hold | hwarrants
    · exact hpc.ending hold
    · exact h.not_limits hwarrants

theorem Sound.ending_advances {pc pc' : RecoveryAt} (h : Sound base s (l₁ ++ .recovery pc :: l₂))
    (hturn : Seamless s (l₁ ++ .recovery pc :: l₂) (.recovery pc) a) (hadvances : Advances a s pc s' pc')
    (hopen : s.closed = false) (hlimits : base.Limits) (hnone : s'.limiter = none) :
    s.limiter = none ∧ (pc'.ending.isSome = true → pc.ending.isSome = true) := by
  have hpc : pc.Fits base := h.fits (.recovery pc) (List.mem_append_cons_self ..)
  have hafter : pc.limiter s.limiter = none := hadvances.limiter.symm.trans hnone
  have hswapping : ¬∃ client snap, pc = .swapping client snap := by
    rintro ⟨client, snap, rfl⟩
    exact Option.some_ne_none _ hafter
  constructor
  · rcases pc.limiter_cases with hsame | rfl | hswap
    · exact (hsame s.limiter).symm.trans hafter
    · exact absurd hlimits (hpc.ending rfl)
    · exact absurd hswap hswapping
  · intro hsome
    obtain ⟨why, hwhy⟩ := Option.isSome_iff_exists.mp hsome
    rcases hadvances.ending why hwhy with hold | hwarrants
    · exact Option.isSome_iff_exists.mpr ⟨why, hold⟩
    · exact absurd (h.swapping_of_warrants hturn hopen hlimits hwarrants) hswapping

theorem Sound.finish {why : Reason} (h : Sound base s (l₁ ++ .recovery (.returned why) :: l₂)) :
    Sound base { s with reconnecting := false } (l₁ ++ [] ++ l₂) := by
  have hrunning : s.reconnecting = true := by
    by_contra hidle
    have hzero := h.single
    rw [if_neg hidle, List.countP_eq_zero] at hzero
    exact hzero (.recovery (.returned why)) (List.mem_append_cons_self ..) rfl
  refine h.replace id h.config h.static (List.forall_mem_nil _) ?_ ?_
  · rw [hrunning]
    rfl
  · intro hopen hlimits hnone
    have hzero := (h.covered hopen hlimits hnone).1
    rw [List.countP_eq_zero] at hzero
    exact absurd rfl (hzero (.recovery (.returned why)) (List.mem_append_cons_self ..))

theorem Sound.advance {pc pc' : RecoveryAt} (h : Sound base s (l₁ ++ .recovery pc :: l₂))
    (hturn : Seamless s (l₁ ++ .recovery pc :: l₂) (.recovery pc) a) (hadvances : Advances a s pc s' pc') :
    Sound base s' (l₁ ++ [.recovery pc'] ++ l₂) := by
  have hstanding := hadvances.standing
  refine h.replace (fun hc => hstanding.closed.trans hc) (hstanding.config ▸ h.config) (hstanding.staticRL ▸ h.static)
    ?_ ?_ ?_
  · exact List.forall_mem_singleton.mpr (h.fits_advances hadvances)
  · rw [hstanding.reconnecting]
    rfl
  · intro hopen hlimits hnone
    have hopen' : s.closed = false := hstanding.closed ▸ hopen
    obtain ⟨hnone', hending⟩ := h.ending_advances hturn hadvances hopen' hlimits hnone
    refine h.covered_replace hopen' hlimits hnone' ?_ le_rfl
    rw [List.countP_singleton]
    change (if pc'.ending.isSome = true then 1 else 0) ≤ if pc.ending.isSome = true then 1 else 0
    by_cases hsome : pc'.ending.isSome = true
    · rw [if_pos hsome, if_pos (hending hsome)]
    · rw [if_neg hsome]
      exact Nat.zero_le _

theorem Sound.recovery {pc : RecoveryAt} (h : Sound base s (l₁ ++ .recovery pc :: l₂))
    (hturn : Seamless s (l₁ ++ .recovery pc :: l₂) (.recovery pc) a) :
    Sound base (recoveryStep a s pc).2.1 (l₁ ++ (recoveryStep a s pc).2.2 ++ l₂) := by
  rcases recoveryStep_cases a s pc with ⟨why, rfl, heq⟩ | ⟨s', pc', heq, hadvances⟩
  · rw [heq]
    exact h.finish
  · rw [heq]
    exact h.advance hturn hadvances

theorem alike_static {cfg : FullConfig} (h : Alike base cfg) :
    0 < (staticSnapshot cfg.rateLimit).ratePerSecond ↔ 0 < base.rateLimit.static.average :=
  (ratePerSecond_parseRateLimitParams cfg.rateLimit).trans h.1

theorem Sound.reload {cfg : FullConfig} {pc : ReloadAt} (h : Sound base s (l₁ ++ .reload cfg pc :: l₂)) :
    Sound base (reloadStep a cfg s pc).2.1 (l₁ ++ (reloadStep a cfg s pc).2.2 ++ l₂) := by
  have hcfg : Alike base cfg := h.fits (.reload cfg pc) (List.mem_append_cons_self ..)
  have hstep := reloading_reloadStep a cfg s pc
  have hrecovery : (reloadStep a cfg s pc).2.2.countP Thread.isRecovery = 0 := by
    apply System.countP_eq_zero_of_forall
    intro u hu
    obtain ⟨pc', rfl⟩ := hstep.threads u hu
    rfl
  have hsettling : (reloadStep a cfg s pc).2.2.countP Thread.settling = 0 := by
    apply System.countP_eq_zero_of_forall
    intro u hu
    obtain ⟨pc', rfl⟩ := hstep.threads u hu
    rfl
  refine h.replace (fun hc => hstep.closed.trans hc) ?_ ?_ ?_ ?_ ?_
  · rcases hstep.config with heq | heq
    · exact heq ▸ h.config
    · rw [heq]
      exact hcfg
  · rcases hstep.staticRL with heq | heq
    · exact heq ▸ h.static
    · rw [heq]
      exact alike_static hcfg
  · intro u hu
    obtain ⟨pc', rfl⟩ := hstep.threads u hu
    exact hcfg
  · rw [hrecovery, hstep.reconnecting]
    rfl
  · intro hopen hlimits hnone
    have hnone' : s.limiter = none := by
      rcases hstep.limiter with heq | heq
      · exact heq.symm.trans hnone
      · exact Option.map_eq_none_iff.mp (heq.symm.trans hnone)
    apply h.covered_replace (hstep.closed.symm.trans hopen) hlimits hnone'
    · rw [hsettling]
      exact Nat.zero_le _
    · exact Nat.zero_le _

theorem Sound.close {pc : CloseAt} (h : Sound base s (l₁ ++ .close pc :: l₂)) :
    Sound base (closeStep s pc).2.1 (l₁ ++ (closeStep s pc).2.2 ++ l₂) := by
  have hpc : (Thread.close pc).Fits base s := h.fits (.close pc) (List.mem_append_cons_self ..)
  cases pc with
  | cancelling =>
    refine h.replace (fun _ => rfl) h.config h.static ?_ rfl ?_
    · intro u hu
      obtain rfl := List.mem_singleton.mp hu
      exact (rfl : true = true)
    · intro hopen
      cases hopen
  | swapping =>
    refine h.replace id h.config h.static ?_ rfl ?_
    · exact List.forall_mem_singleton.mpr hpc
    · intro hopen
      exact absurd hopen (ne_false_of_eq_true hpc)
  | releasing =>
    refine h.replace id h.config h.static (List.forall_mem_nil _) rfl ?_
    intro hopen
    exact absurd hopen (ne_false_of_eq_true hpc)

theorem Sound.arrive {arrival : Arrival} (h : Sound base s ts) (harrival : arrival.Alike base) :
    Sound base s (ts ++ [Middleware.arrive arrival]) := by
  have hsame : ∀ p : Thread → Bool, p (Middleware.arrive arrival) = false →
      (ts ++ [Middleware.arrive arrival]).countP p = ts.countP p := by
    intro p hp
    rw [List.countP_append, List.countP_singleton, hp]
    rfl
  have hrecovery := hsame Thread.isRecovery (by cases arrival <;> rfl)
  have hsettling := hsame Thread.settling (by cases arrival <;> rfl)
  have hpending := hsame Thread.pending (by cases arrival <;> rfl)
  refine ⟨h.config, h.static, ?_, hrecovery.trans h.single, ?_⟩
  · refine List.forall_mem_append.mpr ⟨h.fits, List.forall_mem_singleton.mpr ?_⟩
    cases arrival <;> exact harrival
  · rw [hrecovery, hsettling, hpending]
    exact h.covered

theorem keeps_sound (base : FullConfig) : system.Keeps (Arrival.Alike base) Seamless (Sound base) where
  arrive := fun h harrival => h.arrive harrival
  step := by
    intro s l₁ t l₂ a h hturn
    cases t with
    | request pc => exact h.request hturn
    | recovery pc => exact h.recovery hturn
    | reload cfg pc => exact h.reload
    | close pc => exact h.close

theorem sound_conf {r : Reach} (hnew : Live.new r base = .ok s) (hattempts : base.maxRecoveryAttempts = 0) :
    Sound base s.conf.shared s.conf.threads := by
  have hbuilt := Live.new_spec hnew
  have hconfig : Alike base s.cfg := by
    rw [hbuilt.config]
    exact ⟨Iff.rfl, rfl, hattempts⟩
  have hstatic : 0 < s.staticRL.ratePerSecond ↔ 0 < base.rateLimit.static.average := by
    rw [hbuilt.staticRL]
    exact ratePerSecond_parseRateLimitParams base.rateLimit
  unfold Live.conf
  by_cases hrunning : s.reconnecting = true
  · rw [if_pos hrunning]
    refine ⟨hconfig, hstatic, ?_, (if_pos hrunning).symm, fun _ _ _ => ⟨rfl, Nat.one_pos⟩⟩
    exact List.forall_mem_singleton.mpr (fits_begin base)
  · rw [if_neg hrunning]
    refine ⟨hconfig, hstatic, List.forall_mem_nil _, (if_neg hrunning).symm, ?_⟩
    intro _ hlimits hnone
    exact absurd (hbuilt.reconnecting hlimits hnone) hrunning

theorem Sound.underWay (h : Sound base s ts) (hopen : s.closed = false) (hlimits : base.Limits)
    (hnone : s.limiter = none) : UnderWay s ts := by
  obtain ⟨hzero, hsome⟩ := h.covered hopen hlimits hnone
  by_cases hrunning : s.reconnecting = true
  · have hone := h.single
    rw [if_pos hrunning] at hone
    have hpos : 0 < ts.countP Thread.isRecovery := hone.symm ▸ Nat.one_pos
    obtain ⟨t, ht, hrecovery⟩ := List.countP_pos_iff.mp hpos
    have hunsettled : ¬t.settling = true := List.countP_eq_zero.mp hzero t ht
    exact .inl ⟨t, ht, hrecovery, eq_false_of_ne_true hunsettled⟩
  · have hidle := h.single
    rw [if_neg hrunning] at hidle
    rw [hidle, Nat.zero_add] at hsome
    exact .inr ⟨eq_false_of_ne_true hrunning, List.countP_pos_iff.mp hsome⟩

end Sound

/-- **No recovery is lost.** As long as reloads do not change what is limited, no client fails to be created and
nobody reports an error while a recovery is ending, a chain that wants a limiter and has none is going to get one. -/
theorem recovery_under_way {r : Reach} {base : FullConfig} {s : Live} {ms : List (System.Move Arrival Answer)}
    (hnew : Live.new r base = .ok s) (hattempts : base.maxRecoveryAttempts = 0)
    (hms : system.machine.Along (System.Obeys (Arrival.Alike base) Seamless) s.conf ms)
    (hopen : (system.machine.run s.conf ms).shared.closed = false)
    (hlimits : (system.machine.run s.conf ms).shared.cfg.Limits)
    (hnone : (system.machine.run s.conf ms).shared.limiter = none) :
    UnderWay (system.machine.run s.conf ms).shared (system.machine.run s.conf ms).threads := by
  have hsound := (keeps_sound base).run (sound_conf hnew hattempts) hms
  have hbase : base.Limits := by
    rcases hlimits with haverage | hexternal
    · exact .inl (hsound.config.1.mp haverage)
    · exact .inr (hsound.config.2.1.symm.trans hexternal)
  exact hsound.underWay hopen hbase hnone

theorem recovery_under_way_failing :
    ∃ s, Live.new {} (Live.plainFull false) = .ok s ∧
      UnderWay (system.machine.run s.conf failing).shared (system.machine.run s.conf failing).threads := by
  obtain ⟨s, hs, hms, hopen, hlimits, hnone⟩ := exists_of_any (x := Live.new {} (Live.plainFull false))
    (P := fun s => system.machine.Along (System.Obeys (Arrival.Alike (Live.plainFull false)) Seamless) s.conf failing ∧
      (system.machine.run s.conf failing).shared.closed = false ∧
      (system.machine.run s.conf failing).shared.cfg.Limits ∧
      (system.machine.run s.conf failing).shared.limiter.isNone = true) (by decide +kernel)
  exact ⟨s, hs, recovery_under_way hs rfl hms hopen hlimits (Option.isNone_iff_eq_none.mp hnone)⟩

def Lost (c : System.Conf Live Thread) : Prop :=
  c.shared.closed = false ∧ c.shared.cfg.Limits ∧ c.shared.limiter.isNone = true ∧ c.threads.length = 0

instance (c : System.Conf Live Thread) : Decidable (Lost c) := inferInstanceAs (Decidable (_ ∧ _ ∧ _ ∧ _))

/-- The recovery has put in a limiter, on which another request fails before the recovery says that it is over. -/
def crossed : List (System.Move Arrival Answer) :=
  failing ++ turns 9 0 {} ++ [.arrive .request] ++ turns 1 1 {} ++ turns 2 1 { served := false } ++ turns 2 1 {} ++
    turns 4 0 {}

def unlimited : FullConfig := { Live.plainFull false with rateLimit := plainSection 0 1 "1s" false }

def limitedLater : List (System.Move Arrival Answer) := [.arrive (.reload (Live.plainFull false))] ++ turns 8 0 {}

theorem recovery_lost :
    validate Live.plainURL (Live.plainFull false) = .ok (Live.plainFull false) ∧
      (∃ s, Live.new {} (Live.plainFull false) = .ok s ∧ Lost (system.machine.run s.conf crossed)) ∧
      validate Live.plainURL unlimited = .ok unlimited ∧
      ∃ s, Live.new {} unlimited = .ok s ∧ Lost (system.machine.run s.conf limitedLater) :=
  ⟨rfl, exists_of_any (by decide +kernel), rfl, exists_of_any (by decide +kernel)⟩

end EdgeQuota.Middleware
