import EdgeQuota.Lib.Prog

/-! Programs that follow a protocol. Each program has a position, which its commands and the
replies to them move; an invariant of an interleaving may speak of the shared state and of the
positions of all programs together. -/

namespace EdgeQuota.Lib

structure Protocol (C : Type) (R : C → Type) (D : Type*) where
  may : D → C → Prop
  next : D → (c : C) → R c → D

namespace Prog
variable {C : Type} {R : C → Type} {D : Type*} {α β : Type}
variable {P : Protocol C R D} {Q : α → D → Prop} {Q' : β → D → Prop}

/-- The program keeps to the protocol from a position on, whatever the replies, and ends with a
result and a position within `Q`. -/
def Follows (P : Protocol C R D) (Q : α → D → Prop) : Prog C R α → D → Prop
  | .done a, d => Q a d
  | .call c k, d => P.may d c ∧ ∀ r, Follows P Q (k r) (P.next d c r)

theorem follows_pure {a : α} {d : D} (h : Q a d) : Follows P Q (pure a : Prog C R α) d := h

theorem follows_request {c : C} {d : D} (h : P.may d c) :
    Follows P (fun r d' => d' = P.next d c r) (request c : Prog C R (R c)) d := ⟨h, fun _ => rfl⟩

theorem Follows.bind {p : Prog C R α} {k : α → Prog C R β} {d : D} (hp : p.Follows P Q d)
    (hk : ∀ a d', Q a d' → (k a).Follows P Q' d') : (p >>= k).Follows P Q' d := by
  induction p generalizing d with
  | done a => exact hk a d hp
  | call c k' ih => exact ⟨hp.1, fun r => ih r (hp.2 r)⟩

end Prog

namespace Pool
variable {σ T F D : Type*} {C : Type} {R : C → Type} {α : Type}

structure At (P : Protocol C R D) (idle : D) (s : Pool σ C R α) (d : ℕ → D) : Prop where
  rest : ∀ g, s.running g = none → d g = idle
  follows : ∀ g p, s.running g = some p → p.Follows P (fun _ d => d = idle) (d g)

variable {P : Protocol C R D} {idle : D} {s : Pool σ C R α} {d : ℕ → D}

theorem At.update (h : s.At P idle d) (g : ℕ) {o : Option (Prog C R α)} {x : D} (hrest : o = none → x = idle)
    (hfollows : ∀ p, o = some p → p.Follows P (fun _ d => d = idle) x) :
    At P idle { s with running := Function.update s.running g o } (Function.update d g x) := by
  refine ⟨fun g' hg' => ?_, fun g' p hg' => ?_⟩
  · by_cases hg : g' = g
    · subst hg
      simp only [Function.update_self] at hg' ⊢
      exact hrest hg'
    · simp only [Function.update_of_ne hg] at hg' ⊢
      exact h.rest g' hg'
  · by_cases hg : g' = g
    · subst hg
      simp only [Function.update_self] at hg' ⊢
      exact hfollows p hg'
    · simp only [Function.update_of_ne hg] at hg' ⊢
      exact h.follows g' p hg'

theorem At.settle (h : s.At P idle d) (g : ℕ) {p : Prog C R α} {x : D}
    (hp : p.Follows P (fun _ d => d = idle) x) : (s.settle g p).2.At P idle (Function.update d g x) := by
  cases p with
  | done a => exact h.update g (fun _ => hp) nofun
  | call c k =>
    refine h.update g nofun ?_
    rintro _ ⟨⟩
    exact hp

variable {exec : σ → (c : C) → F → R c × σ} {prog : T → Prog C R α} {J : σ → (ℕ → D) → Prop}
variable {W : Pool σ C R α → Sched T F → Prop}

structure Keeps (P : Protocol C R D) (idle : D) (exec : σ → (c : C) → F → R c × σ) (prog : T → Prog C R α)
    (J : σ → (ℕ → D) → Prop) (W : Pool σ C R α → Sched T F → Prop) : Prop where
  start : ∀ s g t, W s (.start g t) → ∃ x, (prog t).Follows P (fun _ d => d = idle) x ∧
    ∀ d, J s.shared d → d g = idle → J s.shared (Function.update d g x)
  command : ∀ s g f c k d, W s (.step g f) → s.running g = some (.call c k) → s.At P idle d → P.may (d g) c →
    J s.shared d → J (exec s.shared c f).2 (Function.update d g (P.next (d g) c (exec s.shared c f).1))

theorem Keeps.step (h : Keeps P idle exec prog J W) {e : Sched T F} (hd : s.At P idle d) (hj : J s.shared d)
    (he : W s e) :
    ∃ d', ((interleave exec prog).step s e).2.At P idle d' ∧ J ((interleave exec prog).step s e).2.shared d' := by
  have hshared : ∀ (s : Pool σ C R α) g p, (s.settle g p).2.shared = s.shared := by
    intro s g p
    cases p <;> rfl
  cases e with
  | start g t =>
    simp only [interleave]
    split
    · rename_i hidle
      obtain ⟨x, hx, hkeep⟩ := h.start s g t he
      refine ⟨_, hd.settle g hx, ?_⟩
      rw [hshared]
      exact hkeep d hj (hd.rest g hidle)
    · exact ⟨d, hd, hj⟩
  | step g f =>
    simp only [interleave]
    split
    · rename_i c k hg
      obtain ⟨hmay, hk⟩ := hd.follows g _ hg
      refine ⟨_, At.settle (s := { s with shared := (exec s.shared c f).2 }) ⟨hd.rest, hd.follows⟩ g (hk _), ?_⟩
      rw [hshared]
      exact h.command s g f c k d he hg hd hmay hj
    · exact ⟨d, hd, hj⟩

theorem Keeps.run (h : Keeps P idle exec prog J W) {s : Pool σ C R α} {d : ℕ → D} (hd : s.At P idle d)
    (hj : J s.shared d) {es : List (Sched T F)} (hes : (interleave exec prog).Along W s es) :
    ∃ d', ((interleave exec prog).run s es).At P idle d' ∧ J ((interleave exec prog).run s es).shared d' := by
  induction es generalizing s d with
  | nil => exact ⟨d, hd, hj⟩
  | cons e es ih =>
    obtain ⟨d', hd', hj'⟩ := h.step hd hj hes.1
    exact ih hd' hj' hes.2

theorem at_init (P : Protocol C R D) (idle : D) (s : σ) : (init s : Pool σ C R α).At P idle fun _ => idle :=
  ⟨fun _ _ => rfl, nofun⟩

end Pool
end EdgeQuota.Lib
