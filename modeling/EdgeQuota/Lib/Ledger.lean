import EdgeQuota.Lib.Threads

/-! What threads pay for. A thread that is counted when it comes in stands for one unit, and a turn hands the unit to what
the thread puts out or to what it becomes. -/

namespace EdgeQuota.Lib.System
variable {σ τ α φ β : Type*}

def arrivals (ms : List (Move α φ)) : List α :=
  ms.filterMap fun m =>
    match m with
    | .arrive a => some a
    | .run _ _ => none

structure Adds (r : ℕ → ℕ → Prop) : Prop where
  refl : ∀ n, r n n
  trans : ∀ {a b c}, r a b → r b c → r a c
  add : ∀ {a b} c, r a b → r (a + c) (b + c)

theorem adds_eq : Adds (· = ·) := ⟨fun _ => rfl, Eq.trans, fun c h => congrArg (· + c) h⟩

theorem adds_le : Adds (· ≤ ·) := ⟨le_refl, le_trans, fun c h => Nat.add_le_add_right h c⟩

/-- What is `spent` on the output and `held` by the threads, against what was `given` to those who came in. -/
structure Ledger (S : System σ τ α φ β) (r : ℕ → ℕ → Prop) (given : α → Bool) (held : τ → Bool) (spent : β → Bool) :
    Prop where
  adds : Adds r
  arrive : ∀ a, r (held (S.arrive a)).toNat (given a).toNat
  step : ∀ s t f, r ((S.step s t f).1.countP spent + (S.step s t f).2.2.countP held) (held t).toNat

variable {S : System σ τ α φ β} {r : ℕ → ℕ → Prop} {given : α → Bool} {held : τ → Bool} {spent : β → Bool}

theorem countP_singleton_toNat {γ : Type*} (p : γ → Bool) (x : γ) : [x].countP p = (p x).toNat := by
  rw [List.countP_singleton]
  cases p x <;> rfl

theorem gauge_of_balance {p : τ → Bool} {t : τ} {l₁ l₂ ts : List τ} {n n' : ℤ} (h : n = (l₁ ++ t :: l₂).countP p)
    (hturn : n' + (p t).toNat = n + ts.countP p) : n' = (l₁ ++ ts ++ l₂).countP p := by
  have hreplace := countP_replace p t l₁ ts l₂
  have hthread : (if p t = true then 1 else 0) = (p t).toNat := by cases p t <;> rfl
  rw [hthread] at hreplace
  omega

theorem Ledger.move (h : S.Ledger r given held spent) (c : Conf σ τ) (m : Move α φ) :
    r ((S.move c m).1.countP spent + (S.move c m).2.threads.countP held)
      (c.threads.countP held + (arrivals [m]).countP given) := by
  cases m with
  | arrive a =>
    have harrive := h.adds.add (c.threads.countP held) (h.arrive a)
    change r (0 + (c.threads ++ [S.arrive a]).countP held) (c.threads.countP held + [a].countP given)
    rw [List.countP_append, countP_singleton_toNat, countP_singleton_toNat, Nat.zero_add, Nat.add_comm,
      Nat.add_comm _ (given a).toNat]
    exact harrive
  | run i f =>
    change r _ (c.threads.countP held + 0)
    simp only [System.move]
    cases ht : c.threads[i]? with
    | none =>
      rw [List.countP_nil, Nat.zero_add]
      exact h.adds.refl _
    | some t =>
      have hothers := h.adds.add ((c.threads.take i).countP held + (c.threads.drop (i + 1)).countP held)
        (h.step c.shared t f)
      have hsplit := congrArg (List.countP held) (eq_split ht)
      rw [List.countP_append, ← List.singleton_append, List.countP_append, countP_singleton_toNat] at hsplit
      change r ((S.step c.shared t f).1.countP spent +
        (c.threads.take i ++ (S.step c.shared t f).2.2 ++ c.threads.drop (i + 1)).countP held) _
      simp only [List.countP_append]
      refine (congrArg₂ r ?_ ?_).mp hothers
      · omega
      · rw [hsplit]
        omega

theorem Ledger.run (h : S.Ledger r given held spent) (c : Conf σ τ) (ms : List (Move α φ)) :
    r ((S.machine.outputs c ms).flatten.countP spent + (S.machine.run c ms).threads.countP held)
      (c.threads.countP held + (arrivals ms).countP given) := by
  induction ms generalizing c with
  | nil =>
    change r (0 + c.threads.countP held) (c.threads.countP held + 0)
    rw [Nat.zero_add]
    exact h.adds.refl _
  | cons m ms ih =>
    have hmove := h.adds.add ((arrivals ms).countP given) (h.move c m)
    have hrest := h.adds.add ((S.move c m).1.countP spent) (ih (S.move c m).2)
    have harrivals : arrivals (m :: ms) = arrivals [m] ++ arrivals ms := by
      rw [← List.singleton_append]
      exact List.filterMap_append
    rw [Machine.outputs, List.flatten_cons, List.countP_append, harrivals, List.countP_append]
    change r ((S.move c m).1.countP spent + (S.machine.outputs (S.move c m).2 ms).flatten.countP spent +
      (S.machine.run (S.move c m).2 ms).threads.countP held) _
    refine h.adds.trans ((congrArg₂ r ?_ ?_).mp hrest) ((congrArg₂ r rfl ?_).mp hmove)
    all_goals omega

end EdgeQuota.Lib.System
