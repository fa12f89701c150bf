import Mathlib.Algebra.Order.Field.Basic
import Mathlib.Data.List.Chain
import Mathlib.Tactic.Linarith

/-! Deterministic machines that read one event at a time: final states, outputs,
predicates that hold at every step of a run, and simulation. -/

namespace EdgeQuota.Lib

structure Machine (σ ε β : Type*) where
  step : σ → ε → β × σ

namespace Machine
variable {σ τ ε δ β γ : Type*}

def run (M : Machine σ ε β) : σ → List ε → σ
  | s, [] => s
  | s, e :: es => M.run (M.step s e).2 es

def outputs (M : Machine σ ε β) : σ → List ε → List β
  | _, [] => []
  | s, e :: es => (M.step s e).1 :: M.outputs (M.step s e).2 es

def tally (M : Machine σ ε β) (sel : ε → β → Bool) : σ → List ε → ℕ
  | _, [] => 0
  | s, e :: es => (if sel e (M.step s e).1 then 1 else 0) + M.tally sel (M.step s e).2 es

def Along (M : Machine σ ε β) (P : σ → ε → Prop) : σ → List ε → Prop
  | _, [] => True
  | s, e :: es => P s e ∧ M.Along P (M.step s e).2 es

instance decidableAlong (M : Machine σ ε β) (P : σ → ε → Prop) [∀ s e, Decidable (P s e)] :
    ∀ s es, Decidable (M.Along P s es)
  | _, [] => isTrue trivial
  | s, e :: es =>
    have := decidableAlong M P (M.step s e).2 es
    inferInstanceAs (Decidable (P s e ∧ M.Along P (M.step s e).2 es))

variable (M : Machine σ ε β)

theorem run_append (s : σ) (as bs : List ε) : M.run s (as ++ bs) = M.run (M.run s as) bs := by
  induction as generalizing s with
  | nil => rfl
  | cons a as ih => simpa only [List.cons_append, run] using ih (M.step s a).2

theorem outputs_append (s : σ) (as bs : List ε) :
    M.outputs s (as ++ bs) = M.outputs s as ++ M.outputs (M.run s as) bs := by
  induction as generalizing s with
  | nil => rfl
  | cons a as ih => simp only [List.cons_append, outputs, run, ih]

theorem tally_append (sel : ε → β → Bool) (s : σ) (as bs : List ε) :
    M.tally sel s (as ++ bs) = M.tally sel s as + M.tally sel (M.run s as) bs := by
  induction as generalizing s with
  | nil => simp only [List.nil_append, tally, run, Nat.zero_add]
  | cons a as ih => simp only [List.cons_append, tally, run, ih, Nat.add_assoc]

theorem along_append {P : σ → ε → Prop} {s : σ} {as bs : List ε} :
    M.Along P s (as ++ bs) ↔ M.Along P s as ∧ M.Along P (M.run s as) bs := by
  induction as generalizing s with
  | nil => simp only [List.nil_append, Along, run, true_and]
  | cons a as ih => simp only [List.cons_append, Along, run, ih, and_assoc]

theorem tally_congr {sel sel' : ε → β → Bool} {s : σ} {es : List ε}
    (h : ∀ e ∈ es, ∀ o, sel e o = sel' e o) : M.tally sel s es = M.tally sel' s es := by
  induction es generalizing s with
  | nil => rfl
  | cons e es ih =>
    simp only [tally, h e (List.mem_cons_self ..)]
    rw [ih fun a ha => h a (List.mem_cons_of_mem _ ha)]

theorem tally_eq_countP (sel : ε → β → Bool) (s : σ) (es : List ε) :
    M.tally sel s es = (es.zip (M.outputs s es)).countP fun p => sel p.1 p.2 := by
  induction es generalizing s with
  | nil => rfl
  | cons e es ih =>
    simp only [tally, outputs, List.zip_cons_cons, List.countP_cons, ih]
    rw [Nat.add_comm]

theorem length_outputs (s : σ) (es : List ε) : (M.outputs s es).length = es.length := by
  induction es generalizing s with
  | nil => rfl
  | cons e es ih => simp only [outputs, List.length_cons, ih]

variable {M}

theorem exists_of_tally_ne_zero {sel : ε → β → Bool} {s : σ} {es : List ε}
    (h : M.tally sel s es ≠ 0) : ∃ e ∈ es, ∃ o, sel e o = true := by
  rw [tally_eq_countP, ← Nat.pos_iff_ne_zero, List.countP_pos_iff] at h
  obtain ⟨⟨e, o⟩, hmem, hsel⟩ := h
  exact ⟨e, (List.of_mem_zip hmem).1, o, hsel⟩

theorem Along.mono {P Q : σ → ε → Prop} (h : ∀ s e, P s e → Q s e) {s : σ} {es : List ε}
    (hs : M.Along P s es) : M.Along Q s es := by
  induction es generalizing s with
  | nil => trivial
  | cons e es ih => exact ⟨h s e hs.1, ih hs.2⟩

theorem Along.and {P Q : σ → ε → Prop} {s : σ} {es : List ε} (hp : M.Along P s es)
    (hq : M.Along Q s es) : M.Along (fun s e => P s e ∧ Q s e) s es := by
  induction es generalizing s with
  | nil => trivial
  | cons e es ih => exact ⟨⟨hp.1, hq.1⟩, ih hp.2 hq.2⟩

theorem along_of_forall {P : σ → ε → Prop} {s : σ} {es : List ε} (h : ∀ e ∈ es, ∀ s, P s e) :
    M.Along P s es := by
  induction es generalizing s with
  | nil => trivial
  | cons e es ih =>
    exact ⟨h e (List.mem_cons_self ..) s, ih fun a ha => h a (List.mem_cons_of_mem _ ha)⟩

theorem along_of_forall_run {P : σ → Prop} {s : σ} {es : List ε} (h : ∀ done, done <+: es → P (M.run s done)) :
    M.Along (fun s _ => P s) s es := by
  induction es generalizing s with
  | nil => trivial
  | cons e es ih =>
    refine ⟨h [] List.nil_prefix, ih ?_⟩
    intro done hdone
    exact h (e :: done) (List.cons_prefix_cons.mpr ⟨rfl, hdone⟩)

theorem exists_of_not_along {P : σ → ε → Prop} {s : σ} {es : List ε} (h : ¬M.Along P s es) :
    ∃ before e after, es = before ++ e :: after ∧ ¬P (M.run s before) e := by
  induction es generalizing s with
  | nil => exact absurd trivial h
  | cons e es ih =>
    by_cases hp : P s e
    · obtain ⟨before, e', after, rfl, hfails⟩ := ih fun hrest => h ⟨hp, hrest⟩
      exact ⟨e :: before, e', after, rfl, hfails⟩
    · exact ⟨[], e, es, rfl, hp⟩

theorem Along.of_invariant {P Q : σ → ε → Prop} {I : σ → Prop}
    (h : ∀ s e, I s → P s e → Q s e ∧ I (M.step s e).2) {s : σ} {es : List ε}
    (hi : I s) (hs : M.Along P s es) : M.Along Q s es := by
  induction es generalizing s with
  | nil => trivial
  | cons e es ih =>
    obtain ⟨hq, hi'⟩ := h s e hi hs.1
    exact ⟨hq, ih hi' hs.2⟩

theorem run_of_invariant {P : σ → ε → Prop} {I : σ → Prop} (h : ∀ s e, I s → P s e → I (M.step s e).2) {s : σ}
    {es : List ε} (hi : I s) (hs : M.Along P s es) : I (M.run s es) := by
  induction es generalizing s with
  | nil => exact hi
  | cons e es ih => exact ih (h s e hi hs.1) hs.2

theorem forall_run_iff_along {P : σ → ε → Prop} {I : σ → Prop} {K : σ → List ε → Prop}
    (hnext : ∀ s e es, K s (e :: es) → K (M.step s e).2 es)
    (hstep : ∀ s e es, K s (e :: es) → I s → (I (M.step s e).2 ↔ P s e)) {s : σ} {es : List ε} (hk : K s es)
    (hi : I s) : (∀ done, done <+: es → I (M.run s done)) ↔ M.Along P s es := by
  induction es generalizing s with
  | nil =>
    refine iff_of_true ?_ trivial
    intro done hdone
    rw [List.prefix_nil.mp hdone]
    exact hi
  | cons e es ih =>
    constructor
    · intro hall
      have hfirst : I (M.step s e).2 := hall [e] (by simp)
      refine ⟨(hstep s e es hk hi).mp hfirst, (ih (hnext s e es hk) hfirst).mp ?_⟩
      intro done hdone
      exact hall (e :: done) (List.cons_prefix_cons.mpr ⟨rfl, hdone⟩)
    · rintro ⟨hfirst, hrest⟩ done hdone
      cases done with
      | nil => exact hi
      | cons e' done =>
        obtain ⟨rfl, hlater⟩ := List.cons_prefix_cons.mp hdone
        exact (ih (hnext s e' es hk) ((hstep s e' es hk hi).mpr hfirst)).mpr hrest done hlater

theorem forall_outputs_of_invariant {P : σ → ε → Prop} {I : σ → Prop} {Q : β → Prop}
    (h : ∀ s e, I s → P s e → Q (M.step s e).1 ∧ I (M.step s e).2) {s : σ} {es : List ε}
    (hi : I s) (hs : M.Along P s es) : ∀ o ∈ M.outputs s es, Q o := by
  induction es generalizing s with
  | nil => simp only [outputs, List.not_mem_nil, false_implies, implies_true]
  | cons e es ih =>
    obtain ⟨hq, hi'⟩ := h s e hi hs.1
    exact List.forall_mem_cons.mpr ⟨hq, ih hi' hs.2⟩

theorem forall_outputs_iff_along {P : σ → ε → Prop} {I : σ → Prop} {Q : β → Prop}
    (hnext : ∀ s e, I s → I (M.step s e).2) (hstep : ∀ s e, I s → (Q (M.step s e).1 ↔ P s e)) {s : σ} {es : List ε}
    (hi : I s) : (∀ o ∈ M.outputs s es, Q o) ↔ M.Along P s es := by
  induction es generalizing s with
  | nil => exact iff_of_true (by rintro o ⟨⟩) trivial
  | cons e es ih =>
    rw [outputs, List.forall_mem_cons, hstep s e hi, ih (hnext s e hi)]
    rfl

theorem tally_le_tally {sel sel' : ε → β → Bool} {s : σ} {es : List ε}
    (h : M.Along (fun s e => sel e (M.step s e).1 = true → sel' e (M.step s e).1 = true) s es) :
    M.tally sel s es ≤ M.tally sel' s es := by
  induction es generalizing s with
  | nil => exact le_rfl
  | cons e es ih =>
    refine Nat.add_le_add ?_ (ih h.2)
    by_cases hs : sel e (M.step s e).1 = true
    · rw [if_pos hs, if_pos (h.1 hs)]
    · rw [if_neg hs]
      exact Nat.zero_le _

def comap (M : Machine σ ε β) (f : δ → ε) : Machine σ δ β where
  step s d := M.step s (f d)

theorem tally_comap (f : δ → ε) (sel : ε → β → Bool) (s : σ) (ds : List δ) :
    (M.comap f).tally (fun d => sel (f d)) s ds = M.tally sel s (ds.map f) := by
  induction ds generalizing s with
  | nil => rfl
  | cons d ds ih =>
    simp only [tally, List.map_cons, ih]
    rfl

theorem along_comap {f : δ → ε} {P : σ → ε → Prop} {s : σ} {ds : List δ} :
    (M.comap f).Along (fun s d => P s (f d)) s ds ↔ M.Along P s (ds.map f) := by
  induction ds generalizing s with
  | nil => rfl
  | cons d ds ih =>
    simp only [Along, List.map_cons, ih]
    rfl

def bundle (M : Machine σ ε β) (f : δ → List ε) : Machine σ δ (List β) where
  step s d := (M.outputs s (f d), M.run s (f d))

theorem outputs_flatMap (f : δ → List ε) (s : σ) (ds : List δ) :
    M.outputs s (ds.flatMap f) = ((M.bundle f).outputs s ds).flatten := by
  induction ds generalizing s with
  | nil => rfl
  | cons d ds ih =>
    rw [List.flatMap_cons, outputs_append, ih]
    rfl

section Simulation
variable {N : Machine τ δ γ} {R : σ → τ → Prop} {P : σ → ε → Prop} {f : ε → δ}

theorem run_rel (h : ∀ s t e, P s e → R s t → R (M.step s e).2 (N.step t (f e)).2)
    {s : σ} {t : τ} {es : List ε} (hp : M.Along P s es) (hr : R s t) :
    R (M.run s es) (N.run t (es.map f)) := by
  induction es generalizing s t with
  | nil => exact hr
  | cons e es ih => exact ih hp.2 (h s t e hp.1 hr)

theorem outputs_eq {α : Type*} {g : β → α} {k : γ → α}
    (h : ∀ s t e, P s e → R s t → R (M.step s e).2 (N.step t (f e)).2)
    (ho : ∀ s t e, P s e → R s t → g (M.step s e).1 = k (N.step t (f e)).1)
    {s : σ} {t : τ} {es : List ε} (hp : M.Along P s es) (hr : R s t) :
    (M.outputs s es).map g = (N.outputs t (es.map f)).map k := by
  induction es generalizing s t with
  | nil => rfl
  | cons e es ih =>
    simp only [outputs, List.map_cons]
    rw [ho s t e hp.1 hr, ih hp.2 (h s t e hp.1 hr)]

theorem tally_eq {sel : ε → β → Bool} {sel' : δ → γ → Bool}
    (h : ∀ s t e, P s e → R s t → R (M.step s e).2 (N.step t (f e)).2)
    (ho : ∀ s t e, P s e → R s t → sel e (M.step s e).1 = sel' (f e) (N.step t (f e)).1)
    {s : σ} {t : τ} {es : List ε} (hp : M.Along P s es) (hr : R s t) :
    M.tally sel s es = N.tally sel' t (es.map f) := by
  induction es generalizing s t with
  | nil => rfl
  | cons e es ih =>
    simp only [tally, List.map_cons]
    rw [ho s t e hp.1 hr, ih hp.2 (h s t e hp.1 hr)]

end Simulation

section View
variable {α : Type*} {v : σ → α} {p : ε → Bool}
    (hhide : ∀ s e, p e = false → v (M.step s e).2 = v s)
    (hsee : ∀ s s' e, p e = true → v s = v s' →
      (M.step s e).1 = (M.step s' e).1 ∧ v (M.step s e).2 = v (M.step s' e).2)
include hhide hsee

theorem view_run_filter {s s' : σ} (h : v s = v s') (es : List ε) :
    v (M.run s es) = v (M.run s' (es.filter p)) := by
  induction es generalizing s s' with
  | nil => exact h
  | cons e es ih =>
    by_cases hv : p e = true
    · rw [List.filter_cons_of_pos hv]
      exact ih (hsee s s' e hv h).2
    · rw [List.filter_cons_of_neg hv]
      exact ih ((hhide s e (Bool.not_eq_true _ ▸ hv)).trans h)

theorem outputs_filter {s s' : σ} (h : v s = v s') (es : List ε) :
    ((es.zip (M.outputs s es)).filter fun o => p o.1) =
      (es.filter p).zip (M.outputs s' (es.filter p)) := by
  induction es generalizing s s' with
  | nil => rfl
  | cons e es ih =>
    rw [outputs, List.zip_cons_cons]
    by_cases hv : p e = true
    · obtain ⟨ho, hn⟩ := hsee s s' e hv h
      simp only [List.filter_cons, hv, if_true, outputs, List.zip_cons_cons, ho, ih hn]
    · simp only [List.filter_cons, hv, if_false, Bool.false_eq_true]
      exact ih ((hhide s e (Bool.not_eq_true _ ▸ hv)).trans h)

end View

end Machine
end EdgeQuota.Lib
