import EdgeQuota.Lib.Machine

/-! Programs that send commands to a shared server and go on with its replies; a rule for their
safety under any interference that keeps an invariant; and the machine that interleaves them. -/

namespace EdgeQuota.Lib

inductive Prog (C : Type) (R : C → Type) (α : Type) where
  | done (a : α)
  | call (c : C) (k : R c → Prog C R α)

namespace Prog
variable {C : Type} {R : C → Type} {α β : Type}

protected def bind : Prog C R α → (α → Prog C R β) → Prog C R β
  | .done a, f => f a
  | .call c k, f => .call c fun r => (k r).bind f

instance : Monad (Prog C R) where
  pure := .done
  bind := .bind

def request (c : C) : Prog C R (R c) := .call c .done

def command : Prog C R α → Option C
  | .done _ => none
  | .call c _ => some c

section Run
variable {σ F : Type*} {exec : σ → (c : C) → F → R c × σ}

def run (exec : σ → (c : C) → F → R c × σ) : Prog C R α → σ → (ℕ → F) → α × σ × (ℕ → F)
  | .done a, s, env => (a, s, env)
  | .call c k, s, env =>
    run exec (k (exec s c (env 0)).1) (exec s c (env 0)).2 fun i => env (i + 1)

@[simp] theorem run_pure (a : α) (s : σ) (env : ℕ → F) : run exec (pure a : Prog C R α) s env = (a, s, env) := rfl

@[simp] theorem run_bind (p : Prog C R α) (k : α → Prog C R β) (s : σ) (env : ℕ → F) :
    run exec (p >>= k) s env =
      run exec (k (run exec p s env).1) (run exec p s env).2.1 (run exec p s env).2.2 := by
  induction p generalizing s env with
  | done a => rfl
  | call c k' ih => exact ih _ _ _

end Run

section Sound
variable {σ F : Type*} {exec : σ → (c : C) → F → R c × σ} {E : C → F → Prop} {I : σ → Prop}
variable {P Q : α → Prop} {p : Prog C R α}

/-- Whatever state within `I` each command meets, and whatever the environment does within `E`,
the command keeps `I`, and the result satisfies `Q`. -/
def Sound (exec : σ → (c : C) → F → R c × σ) (E : C → F → Prop) (I : σ → Prop) (Q : α → Prop) :
    Prog C R α → Prop
  | .done a => Q a
  | .call c k => ∀ s f, I s → E c f → I (exec s c f).2 ∧ Sound exec E I Q (k (exec s c f).1)

theorem sound_pure {a : α} (h : Q a) : Sound exec E I Q (pure a : Prog C R α) := h

theorem sound_true (p : Prog C R α) : Sound exec (fun _ _ => True) (fun _ => True) (fun _ => True) p := by
  induction p with
  | done a => exact trivial
  | call c k ih => exact fun _ _ _ _ => ⟨trivial, ih _⟩

theorem sound_request {c : C} {P : R c → Prop}
    (h : ∀ s f, I s → E c f → I (exec s c f).2 ∧ P (exec s c f).1) :
    Sound exec E I P (request c) := h

theorem Sound.bind {Q : β → Prop} {k : α → Prog C R β} (hp : Sound exec E I P p)
    (hk : ∀ a, P a → Sound exec E I Q (k a)) : Sound exec E I Q (p >>= k) := by
  induction p with
  | done a => exact hk a hp
  | call c k' ih => exact fun s f hs hf => ⟨(hp s f hs hf).1, ih _ (hp s f hs hf).2⟩

theorem Sound.run (hp : Sound exec E I Q p) {s : σ} (hs : I s) (env : ℕ → F) (henv : ∀ i c, E c (env i)) :
    I (Prog.run exec p s env).2.1 ∧ Q (Prog.run exec p s env).1 := by
  induction p generalizing s env with
  | done a => exact ⟨hs, hp⟩
  | call c k ih =>
    obtain ⟨hnext, hk⟩ := hp s (env 0) hs (henv 0 c)
    exact ih _ hk hnext (fun i => env (i + 1)) fun i => henv (i + 1)

end Sound
end Prog

structure Pool (σ : Type*) (C : Type) (R : C → Type) (α : Type) where
  shared : σ
  running : ℕ → Option (Prog C R α)

inductive Sched (T F : Type*) where
  | start (g : ℕ) (t : T)
  | step (g : ℕ) (f : F)

namespace Pool
variable {σ T F : Type*} {C : Type} {R : C → Type} {α : Type}

def init (s : σ) : Pool σ C R α := ⟨s, fun _ => none⟩

def command (s : Pool σ C R α) (g : ℕ) : Option C := (s.running g).bind Prog.command

def settle (s : Pool σ C R α) (g : ℕ) : Prog C R α → Option α × Pool σ C R α
  | .done a => (some a, { s with running := Function.update s.running g none })
  | .call c k => (none, { s with running := Function.update s.running g (some (.call c k)) })

def interleave (exec : σ → (c : C) → F → R c × σ) (prog : T → Prog C R α) :
    Machine (Pool σ C R α) (Sched T F) (Option α) where
  step s
    | .start g t =>
      match s.running g with
      | none => s.settle g (prog t)
      | some _ => (none, s)
    | .step g f =>
      match s.running g with
      | some (.call c k) => Pool.settle { s with shared := (exec s.shared c f).2 } g (k (exec s.shared c f).1)
      | _ => (none, s)

def Within (A : T → Prop) (E : C → F → Prop) (s : Pool σ C R α) : Sched T F → Prop
  | .start _ t => A t
  | .step g f => ∀ c ∈ s.command g, E c f

instance (A : T → Prop) (E : C → F → Prop) [DecidablePred A] [∀ c f, Decidable (E c f)] (s : Pool σ C R α)
    (e : Sched T F) : Decidable (s.Within A E e) := by
  cases e <;> unfold Within <;> infer_instance

variable {exec : σ → (c : C) → F → R c × σ} {E : C → F → Prop} {I : σ → Prop} {Q : α → Prop}
variable {A : T → Prop} {prog : T → Prog C R α}

def Good (exec : σ → (c : C) → F → R c × σ) (E : C → F → Prop) (I : σ → Prop) (Q : α → Prop)
    (s : Pool σ C R α) : Prop :=
  I s.shared ∧ ∀ g p, s.running g = some p → p.Sound exec E I Q

theorem good_init {s : σ} (h : I s) : (init s : Pool σ C R α).Good exec E I Q := ⟨h, nofun⟩

theorem good_settle {s : Pool σ C R α} (hs : s.Good exec E I Q) (g : ℕ) {p : Prog C R α}
    (hp : p.Sound exec E I Q) :
    (∀ a, (s.settle g p).1 = some a → Q a) ∧ (s.settle g p).2.Good exec E I Q := by
  -- the other places keep the programs they had
  have hrunning : ∀ {o : Option (Prog C R α)}, (∀ q, o = some q → q.Sound exec E I Q) → ∀ g' q,
      Function.update s.running g o g' = some q → q.Sound exec E I Q := by
    intro o ho g' q hq
    by_cases hg : g' = g
    · subst hg
      rw [Function.update_self] at hq
      exact ho q hq
    · rw [Function.update_of_ne hg] at hq
      exact hs.2 g' q hq
  cases p with
  | done a =>
    refine ⟨?_, hs.1, hrunning nofun⟩
    rintro b ⟨⟩
    exact hp
  | call c k =>
    refine ⟨nofun, hs.1, hrunning ?_⟩
    rintro q ⟨⟩
    exact hp

theorem good_step (hprog : ∀ t, A t → (prog t).Sound exec E I Q) {s : Pool σ C R α} {e : Sched T F}
    (hs : s.Good exec E I Q) (he : s.Within A E e) :
    (∀ a, ((interleave exec prog).step s e).1 = some a → Q a) ∧
      ((interleave exec prog).step s e).2.Good exec E I Q := by
  cases e with
  | start g t =>
    simp only [interleave]
    split
    · exact good_settle hs g (hprog t he)
    · exact ⟨nofun, hs⟩
  | step g f =>
    simp only [interleave]
    split
    · rename_i c k hg
      have hf : E c f := he c (by rw [command, hg]; rfl)
      -- the program is sound from whatever state the others have left within the invariant
      obtain ⟨hi, hk⟩ := hs.2 g _ hg s.shared f hs.1 hf
      exact good_settle (s := { s with shared := (exec s.shared c f).2 }) ⟨hi, hs.2⟩ g hk
    · exact ⟨nofun, hs⟩

theorem run_idle {g : ℕ} {es : List (Sched T F)} (hes : ∀ t, .start g t ∉ es) {s : Pool σ C R α}
    (hs : s.running g = none) : ((interleave exec prog).run s es).running g = none := by
  induction es generalizing s with
  | nil => exact hs
  | cons e es ih =>
    have hsettle : ∀ (s : Pool σ C R α) g' p, g ≠ g' → (s.settle g' p).2.running g = s.running g := by
      intro s g' p hne
      cases p <;> exact Function.update_of_ne hne ..
    refine ih (fun t ht => hes t (List.mem_cons_of_mem _ ht)) ?_
    cases e with
    | start g' t =>
      have hne : g ≠ g' := by
        rintro rfl
        exact hes t (List.mem_cons_self ..)
      simp only [interleave]
      split
      · exact (hsettle s g' _ hne).trans hs
      · exact hs
    | step g' f =>
      simp only [interleave]
      split
      · rename_i c k hg
        have hne : g ≠ g' := by
          rintro rfl
          rw [hs] at hg
          cases hg
        exact (hsettle _ g' _ hne).trans hs
      · exact hs

theorem exists_settle_alone (exec : σ → (c : C) → F → R c × σ) (prog : T → Prog C R α) (g : ℕ) (f : F)
    (p : Prog C R α) (s : Pool σ C R α) :
    ∃ es : List (Sched T F), (∀ e ∈ es, e = .step g f) ∧
      some (p.run exec s.shared fun _ => f).1 ∈
        (s.settle g p).1 :: (interleave exec prog).outputs (s.settle g p).2 es ∧
      (interleave exec prog).run (s.settle g p).2 es =
        ⟨(p.run exec s.shared fun _ => f).2.1, Function.update s.running g none⟩ := by
  induction p generalizing s with
  | done a => exact ⟨[], nofun, List.mem_cons_self .., rfl⟩
  | call c k ih =>
    -- the next command is answered, and the program goes on alone
    obtain ⟨es, hes, hmem, hrun⟩ := ih (exec s.shared c f).1
      ⟨(exec s.shared c f).2, Function.update s.running g (some (.call c k))⟩
    have hstep : (interleave exec prog).step (s.settle g (.call c k)).2 (.step g f) =
        Pool.settle ⟨(exec s.shared c f).2, Function.update s.running g (some (.call c k))⟩ g
          (k (exec s.shared c f).1) := by
      simp only [interleave, settle, Function.update_self]
    refine ⟨.step g f :: es, List.forall_mem_cons.mpr ⟨rfl, hes⟩, List.mem_cons_of_mem _ ?_, ?_⟩
    · rw [Machine.outputs, hstep]
      exact hmem
    · rw [Machine.run, hstep, hrun, Function.update_idem]
      rfl

theorem exists_alone (exec : σ → (c : C) → F → R c × σ) (prog : T → Prog C R α) (t : T) (f : F) {g : ℕ}
    {s : Pool σ C R α} (hs : s.running g = none) :
    ∃ es : List (Sched T F), (∀ e ∈ es, e = .start g t ∨ e = .step g f) ∧
      some ((prog t).run exec s.shared fun _ => f).1 ∈ (interleave exec prog).outputs s es ∧
      (interleave exec prog).run s es = ⟨((prog t).run exec s.shared fun _ => f).2.1, s.running⟩ := by
  obtain ⟨es, hes, hmem, hrun⟩ := exists_settle_alone exec prog g f (prog t) s
  have hstep : (interleave exec prog).step s (.start g t) = s.settle g (prog t) := by
    simp only [interleave, hs]
  refine ⟨.start g t :: es, List.forall_mem_cons.mpr ⟨Or.inl rfl, fun e he => Or.inr (hes e he)⟩, ?_, ?_⟩
  · rw [Machine.outputs, hstep]
    exact hmem
  · rw [Machine.run, hstep, hrun, ← hs, Function.update_eq_self]

theorem interleave_sound (hprog : ∀ t, A t → (prog t).Sound exec E I Q) {s : σ} (hs : I s)
    {es : List (Sched T F)} (hes : (interleave exec prog).Along (Within A E) (init s) es) :
    ∀ a, some a ∈ (interleave exec prog).outputs (init s) es → Q a :=
  fun a ha => Machine.forall_outputs_of_invariant (I := Good exec E I Q) (Q := fun o => ∀ a, o = some a → Q a)
    (fun _ _ hs he => good_step hprog hs he) (good_init hs) hes _ ha a rfl

end Pool
end EdgeQuota.Lib
