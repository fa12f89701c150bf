import EdgeQuota.Lib.Machine

/-! Threads over a state that they share. A turn of one thread changes the state, and the thread makes way
for what it becomes: itself a step further, nothing once it is done, or several threads where it has started
others. Which thread takes its turn next, and which ones come in, is up to the run. -/

namespace EdgeQuota.Lib

structure System (σ τ α φ β : Type*) where
  arrive : α → τ
  step : σ → τ → φ → List β × σ × List τ

namespace System

structure Conf (σ τ : Type*) where
  shared : σ
  threads : List τ

inductive Move (α φ : Type*) where
  | arrive (a : α)
  | run (i : ℕ) (f : φ)

variable {σ τ α φ β : Type*}

def move (S : System σ τ α φ β) (c : Conf σ τ) : Move α φ → List β × Conf σ τ
  | .arrive a => ([], ⟨c.shared, c.threads ++ [S.arrive a]⟩)
  | .run i f =>
    match c.threads[i]? with
    | none => ([], c)
    | some t =>
      let (out, s, ts) := S.step c.shared t f
      (out, ⟨s, c.threads.take i ++ ts ++ c.threads.drop (i + 1)⟩)

def machine (S : System σ τ α φ β) : Machine (Conf σ τ) (Move α φ) (List β) where
  step := S.move

def Obeys (arrival : α → Prop) (turn : σ → List τ → τ → φ → Prop) (c : Conf σ τ) : Move α φ → Prop
  | .arrive a => arrival a
  | .run i f => ∀ t, c.threads[i]? = some t → turn c.shared c.threads t f

instance (arrival : α → Prop) (turn : σ → List τ → τ → φ → Prop) [DecidablePred arrival]
    [∀ s ts t f, Decidable (turn s ts t f)] (c : Conf σ τ) : DecidablePred (Obeys arrival turn c)
  | .arrive a => inferInstanceAs (Decidable (arrival a))
  | .run i f => inferInstanceAs (Decidable (∀ t ∈ c.threads[i]?, turn c.shared c.threads t f))

structure Keeps (S : System σ τ α φ β) (arrival : α → Prop) (turn : σ → List τ → τ → φ → Prop)
    (I : σ → List τ → Prop) : Prop where
  arrive : ∀ {s ts a}, I s ts → arrival a → I s (ts ++ [S.arrive a])
  step : ∀ {s l₁ t l₂ f}, I s (l₁ ++ t :: l₂) → turn s (l₁ ++ t :: l₂) t f →
    I (S.step s t f).2.1 (l₁ ++ (S.step s t f).2.2 ++ l₂)

section Keeps
variable {S : System σ τ α φ β} {arrival : α → Prop} {turn : σ → List τ → τ → φ → Prop} {I : σ → List τ → Prop}

theorem eq_split {ts : List τ} {i : ℕ} {t : τ} (h : ts[i]? = some t) : ts = ts.take i ++ t :: ts.drop (i + 1) := by
  obtain ⟨hi, rfl⟩ := List.getElem?_eq_some_iff.mp h
  rw [List.getElem_cons_drop, List.take_append_drop]

theorem Keeps.move (h : S.Keeps arrival turn I) {c : Conf σ τ} {m : Move α φ} (hi : I c.shared c.threads)
    (hm : Obeys arrival turn c m) : I (S.move c m).2.shared (S.move c m).2.threads := by
  cases m with
  | arrive a => exact h.arrive hi hm
  | run i f =>
    simp only [System.move]
    split
    · exact hi
    · rename_i t ht
      have hturn := hm t ht
      rw [eq_split ht] at hi hturn
      exact h.step hi hturn

theorem Keeps.run (h : S.Keeps arrival turn I) {c : Conf σ τ} {ms : List (Move α φ)} (hi : I c.shared c.threads)
    (hms : S.machine.Along (Obeys arrival turn) c ms) :
    I (S.machine.run c ms).shared (S.machine.run c ms).threads := by
  induction ms generalizing c with
  | nil => exact hi
  | cons m ms ih => exact ih (h.move hi hms.1) hms.2

theorem obeys_true (c : Conf σ τ) (m : Move α φ) : Obeys (fun _ => True) (fun _ _ _ _ => True) c m := by
  cases m with
  | arrive a => trivial
  | run i f => exact fun _ _ => trivial

theorem Keeps.always (h : S.Keeps (fun _ => True) (fun _ _ _ _ => True) I) {c : Conf σ τ} (hi : I c.shared c.threads)
    (ms : List (Move α φ)) : I (S.machine.run c ms).shared (S.machine.run c ms).threads :=
  h.run hi (Machine.along_of_forall fun m _ c => obeys_true c m)

theorem Keeps.outputs (h : S.Keeps arrival turn I) {Good : β → Prop}
    (hgood : ∀ {s l₁ t l₂ f}, I s (l₁ ++ t :: l₂) → turn s (l₁ ++ t :: l₂) t f → ∀ o ∈ (S.step s t f).1, Good o)
    {c : Conf σ τ} {ms : List (Move α φ)} (hi : I c.shared c.threads)
    (hms : S.machine.Along (Obeys arrival turn) c ms) : ∀ o ∈ (S.machine.outputs c ms).flatten, Good o := by
  have hstep : ∀ (c : Conf σ τ) (m : Move α φ), I c.shared c.threads → Obeys arrival turn c m →
      (∀ o ∈ (S.machine.step c m).1, Good o) ∧ I (S.machine.step c m).2.shared (S.machine.step c m).2.threads := by
    intro c m hi hm
    refine ⟨?_, h.move hi hm⟩
    cases m with
    | arrive a =>
      intro o ho
      cases ho
    | run i f =>
      intro o ho
      simp only [machine, System.move] at ho
      split at ho
      · cases ho
      · rename_i t ht
        have hturn := hm t ht
        rw [eq_split ht] at hi hturn
        exact hgood hi hturn o ho
  intro o ho
  obtain ⟨out, hout, hmem⟩ := List.mem_flatten.mp ho
  exact Machine.forall_outputs_of_invariant (I := fun c => I c.shared c.threads) (Q := fun out => ∀ o ∈ out, Good o)
    hstep hi hms out hout o hmem

theorem Keeps.forall_run_iff {K : σ → List τ → Prop} (h : S.Keeps (fun _ => True) (fun _ _ _ _ => True) K)
    (harrive : ∀ {s ts a}, I s ts → I s (ts ++ [S.arrive a]))
    (hstep : ∀ {s l₁ t l₂ f}, K s (l₁ ++ t :: l₂) → I s (l₁ ++ t :: l₂) →
      (I (S.step s t f).2.1 (l₁ ++ (S.step s t f).2.2 ++ l₂) ↔ turn s (l₁ ++ t :: l₂) t f))
    {c : Conf σ τ} {ms : List (Move α φ)} (hk : K c.shared c.threads) (hi : I c.shared c.threads) :
    (∀ done, done <+: ms → I (S.machine.run c done).shared (S.machine.run c done).threads) ↔
      S.machine.Along (Obeys (fun _ => True) turn) c ms := by
  refine Machine.forall_run_iff_along (M := S.machine) (I := fun c => I c.shared c.threads)
    (K := fun c _ => K c.shared c.threads) ?_ ?_ hk hi
  · intro c m _ hk
    exact h.move hk (obeys_true c m)
  · intro c m _ hk hi
    cases m with
    | arrive a => exact iff_of_true (harrive hi) trivial
    | run i f =>
      simp only [machine, System.move, Obeys]
      cases ht : c.threads[i]? with
      | none => exact iff_of_true hi (by rintro t ⟨⟩)
      | some t =>
        have hsplit := eq_split ht
        rw [hsplit] at hk hi
        refine (hstep (f := f) hk hi).trans ?_
        rw [← hsplit]
        simp

end Keeps

structure Records (S : System σ τ α φ β) (I : List β → σ → List τ → Prop) : Prop where
  arrive : ∀ {out s ts a}, I out s ts → I out s (ts ++ [S.arrive a])
  step : ∀ {out s l₁ t l₂ f}, I out s (l₁ ++ t :: l₂) →
    I (out ++ (S.step s t f).1) (S.step s t f).2.1 (l₁ ++ (S.step s t f).2.2 ++ l₂)

section Records
variable {S : System σ τ α φ β} {I : List β → σ → List τ → Prop} {out : List β} {c : Conf σ τ}

theorem Records.move (h : S.Records I) (hi : I out c.shared c.threads) (m : Move α φ) :
    I (out ++ (S.move c m).1) (S.move c m).2.shared (S.move c m).2.threads := by
  cases m with
  | arrive a =>
    rw [System.move, List.append_nil]
    exact h.arrive hi
  | run i f =>
    simp only [System.move]
    split
    · rw [List.append_nil]
      exact hi
    · rename_i t ht
      rw [eq_split ht] at hi
      exact h.step hi

theorem Records.run (h : S.Records I) (hi : I out c.shared c.threads) (ms : List (Move α φ)) :
    I (out ++ (S.machine.outputs c ms).flatten) (S.machine.run c ms).shared (S.machine.run c ms).threads := by
  induction ms generalizing c out with
  | nil =>
    rw [Machine.outputs, List.flatten_nil, List.append_nil]
    exact hi
  | cons m ms ih =>
    rw [Machine.outputs, List.flatten_cons, ← List.append_assoc]
    exact ih (h.move hi m)

end Records

section Replace
variable {t : τ} {l₁ l₂ ts : List τ}

theorem forall_replace {P Q : τ → Prop} (h : ∀ u ∈ l₁ ++ t :: l₂, P u) (hothers : ∀ u, P u → Q u)
    (hnew : ∀ u ∈ ts, Q u) : ∀ u ∈ l₁ ++ ts ++ l₂, Q u := by
  intro u hu
  rcases List.mem_append.mp hu with hu | hu
  · rcases List.mem_append.mp hu with hu | hu
    · exact hothers u (h u (List.mem_append_left _ hu))
    · exact hnew u hu
  · exact hothers u (h u (List.mem_append_right _ (List.mem_cons_of_mem _ hu)))

theorem exists_replace {P : τ → Prop} (h : ∃ u ∈ l₁ ++ t :: l₂, P u) (hturn : P t → ∃ u ∈ ts, P u) :
    ∃ u ∈ l₁ ++ ts ++ l₂, P u := by
  simp only [List.mem_append, List.mem_cons, or_and_right, exists_or] at h ⊢
  rcases h with h | ⟨u, rfl, hu⟩ | h
  · exact .inl (.inl h)
  · exact .inl (.inr (hturn hu))
  · exact .inr h

theorem mem_replace {u : τ} (h : u ∈ ts) : u ∈ l₁ ++ ts ++ l₂ := List.mem_append_left _ (List.mem_append_right _ h)

theorem countP_replace (p : τ → Bool) (t : τ) (l₁ ts l₂ : List τ) :
    (l₁ ++ ts ++ l₂).countP p + (if p t then 1 else 0) = (l₁ ++ t :: l₂).countP p + ts.countP p := by
  simp only [List.countP_append, List.countP_cons]
  omega

theorem countP_pos {p : τ → Bool} (h : p t = true) : 0 < (l₁ ++ t :: l₂).countP p :=
  List.countP_pos_iff.mpr ⟨t, List.mem_append_cons_self .., h⟩

theorem countP_of_balance {p : τ → Bool} {n n' : ℕ} (h : (l₁ ++ t :: l₂).countP p = n)
    (hturn : ts.countP p + n = (if p t then 1 else 0) + n') : (l₁ ++ ts ++ l₂).countP p = n' := by
  have hreplace := countP_replace p t l₁ ts l₂
  omega

end Replace

section Busy
variable {busy : τ → Bool} {Rest : σ → Prop} {Ready : σ → τ → Prop} {s s' : σ} {t : τ} {l₁ l₂ ts : List τ}

structure OneBusy (busy : τ → Bool) (Rest : σ → Prop) (Ready : σ → τ → Prop) (s : σ) (ts : List τ) : Prop where
  single : ts.countP busy ≤ 1
  rest : ts.countP busy = 0 → Rest s
  ready : ∀ t ∈ ts, busy t = true → Ready s t

def Leaves (busy : τ → Bool) (Rest : σ → Prop) (Ready : σ → τ → Prop) (s : σ) (ts : List τ) : Prop :=
  (∃ t, ts = [t] ∧ busy t = true ∧ Ready s t) ∨ ((∀ t ∈ ts, busy t = false) ∧ Rest s)

theorem countP_eq_zero_of_forall (h : ∀ u ∈ ts, busy u = false) : ts.countP busy = 0 := by
  rw [List.countP_eq_zero]
  intro u hu
  rw [h u hu]
  exact Bool.false_ne_true

theorem OneBusy.arrive (h : OneBusy busy Rest Ready s ts) (hidle : busy t = false) :
    OneBusy busy Rest Ready s (ts ++ [t]) := by
  have hcount : (ts ++ [t]).countP busy = ts.countP busy := by
    rw [List.countP_append, List.countP_singleton, hidle]
    rfl
  refine ⟨hcount ▸ h.single, fun hzero => h.rest (hcount ▸ hzero), ?_⟩
  refine List.forall_mem_append.mpr ⟨h.ready, List.forall_mem_singleton.mpr ?_⟩
  intro hbusy
  rw [hidle] at hbusy
  cases hbusy

theorem OneBusy.outside (h : OneBusy busy Rest Ready s (l₁ ++ t :: l₂)) (hidle : busy t = false)
    (hnew : ∀ u ∈ ts, busy u = false) (hrest : Rest s → Rest s') (hready : ∀ u, Ready s u → Ready s' u) :
    OneBusy busy Rest Ready s' (l₁ ++ ts ++ l₂) := by
  have hcount := countP_replace busy t l₁ ts l₂
  rw [countP_eq_zero_of_forall hnew, hidle, if_neg Bool.false_ne_true, Nat.add_zero, Nat.add_zero] at hcount
  refine ⟨hcount ▸ h.single, ?_, ?_⟩
  · intro hzero
    exact hrest (h.rest (hcount ▸ hzero))
  · refine forall_replace h.ready ?_ ?_
    · intro u hu hbusy
      exact hready u (hu hbusy)
    · intro u hu hbusy
      rw [hnew u hu] at hbusy
      cases hbusy

theorem OneBusy.inside (h : OneBusy busy Rest Ready s (l₁ ++ t :: l₂))
    (hthread : busy t = true ∨ (l₁ ++ t :: l₂).countP busy = 0)
    (hleaves : (busy t = true → Ready s t) → (busy t = false → Rest s) → Leaves busy Rest Ready s' ts) :
    OneBusy busy Rest Ready s' (l₁ ++ ts ++ l₂) := by
  have hothers : l₁.countP busy = 0 ∧ l₂.countP busy = 0 := by
    have hsingle := h.single
    simp only [List.countP_append, List.countP_cons] at hsingle hthread
    rcases hthread with hbusy | hnone
    · rw [if_pos hbusy] at hsingle
      omega
    · omega
  have hcount : (l₁ ++ ts ++ l₂).countP busy = ts.countP busy := by
    simp only [List.countP_append]
    omega
  have hrest : busy t = false → Rest s := by
    intro hidle
    rcases hthread with hbusy | hnone
    · rw [hidle] at hbusy
      cases hbusy
    · exact h.rest hnone
  have hnew : ∀ u ∈ l₁ ++ ts ++ l₂, busy u = true → u ∈ ts := by
    intro u hu hbusy
    rcases List.mem_append.mp hu with hu | hu
    · rcases List.mem_append.mp hu with hu | hu
      · exact absurd hbusy (List.countP_eq_zero.mp hothers.1 u hu)
      · exact hu
    · exact absurd hbusy (List.countP_eq_zero.mp hothers.2 u hu)
  rcases hleaves (h.ready t (List.mem_append_cons_self ..)) hrest with ⟨u, rfl, hbusy, hready⟩ | ⟨hidle, hat⟩
  · rw [List.countP_singleton, if_pos hbusy] at hcount
    refine ⟨hcount.le, fun hzero => absurd (hcount.symm.trans hzero) Nat.one_ne_zero, ?_⟩
    intro v hv hvbusy
    obtain rfl := List.mem_singleton.mp (hnew v hv hvbusy)
    exact hready
  · rw [countP_eq_zero_of_forall hidle] at hcount
    refine ⟨hcount.le.trans (Nat.zero_le 1), fun _ => hat, ?_⟩
    intro v hv hvbusy
    have hvidle := hidle v (hnew v hv hvbusy)
    rw [hvbusy] at hvidle
    cases hvidle

end Busy

/-- Left to itself, and answered the same every time, a thread ends in a state and has put out so much. -/
def Completes (S : System σ τ α φ β) (f : φ) (s : σ) (t : τ) (out : List β) (s' : σ) : Prop :=
  ∃ n, S.machine.run ⟨s, [t]⟩ (List.replicate n (.run 0 f)) = ⟨s', []⟩ ∧
    (S.machine.outputs ⟨s, [t]⟩ (List.replicate n (.run 0 f))).flatten = out

section Completes
variable {S : System σ τ α φ β} {f : φ} {s s₁ s' : σ} {t t₁ : τ} {ts : List τ} {out : List β}

theorem move_at (l₁ l₂ : List τ) (h : S.step s t f = (out, s₁, ts)) :
    S.move ⟨s, l₁ ++ t :: l₂⟩ (.run l₁.length f) = (out, ⟨s₁, l₁ ++ ts ++ l₂⟩) := by
  simp [System.move, h]

theorem move_single (h : S.step s t f = (out, s₁, ts)) : S.move ⟨s, [t]⟩ (.run 0 f) = (out, ⟨s₁, ts⟩) := by
  have hmove := move_at [] [] h
  rwa [List.append_nil] at hmove

theorem Completes.done (h : S.step s t f = (out, s', [])) : S.Completes f s t out s' := by
  refine ⟨1, ?_, ?_⟩
  · exact congrArg Prod.snd (move_single h)
  · have hout := congrArg Prod.fst (move_single h)
    change [(S.move ⟨s, [t]⟩ (.run 0 f)).1].flatten = out
    rw [hout, List.flatten_singleton]

theorem Completes.silent (h : S.step s t f = ([], s₁, [t₁])) (hrest : S.Completes f s₁ t₁ out s') :
    S.Completes f s t out s' := by
  obtain ⟨n, hrun, hout⟩ := hrest
  have hmove := move_single h
  refine ⟨n + 1, ?_, ?_⟩
  · change S.machine.run (S.move ⟨s, [t]⟩ (.run 0 f)).2 _ = _
    rw [hmove]
    exact hrun
  · change ((S.move ⟨s, [t]⟩ (.run 0 f)).1 :: S.machine.outputs (S.move ⟨s, [t]⟩ (.run 0 f)).2 _).flatten = _
    rw [hmove, List.flatten_cons]
    exact hout

end Completes
end System
end EdgeQuota.Lib
