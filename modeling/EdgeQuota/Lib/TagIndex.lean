import Mathlib.Data.List.Basic
import Mathlib.Logic.Function.Basic

/-! An index from tags to the entries that carry them, kept beside the entries and updated in
separate steps. A writer stores an entry and then links it to its tags one by one; a purge of a
tag lists the set, drops the entries it saw and then clears the set. What a purge must not meet
is a link of an entry that it has not listed. -/

namespace EdgeQuota.Lib

inductive Position (K T : Type*) where
  | idle
  | storing (k : K) (ts : List T)
  | linking (k : K) (ts : List T)
  | listing (t : T)
  | dropping (t : T) (ks : List K)
  | clearing (t : T)

structure Catalog (K T : Type*) where
  carries : K → T → Prop
  holds : T → K → Prop

namespace Catalog
variable {K T : Type*} {c c' : Catalog K T} {d : ℕ → Position K T} {g : ℕ} {k : K} {t : T} {ks : List K} {ts : List T}

def Pending (d : ℕ → Position K T) (t : T) (k : K) : Prop := ∃ g ts, d g = .linking k ts ∧ t ∈ ts

/-- An entry is linked to each of its tags, or about to be; what a purge has not seen, or has not
dropped, is about to be. -/
structure Sound (c : Catalog K T) (d : ℕ → Position K T) : Prop where
  linked : ∀ k t, c.carries k t → c.holds t k ∨ Pending d t k
  dropping : ∀ g t ks, d g = .dropping t ks → ∀ k, c.carries k t → k ∈ ks ∨ Pending d t k
  clearing : ∀ g t, d g = .clearing t → ∀ k, c.carries k t → Pending d t k

def Undisturbed (d : ℕ → Position K T) (t : T) (k : K) : Prop :=
  ∀ g, d g ≠ .clearing t ∧ ∀ ks, d g = .dropping t ks → k ∈ ks

theorem Sound.covered (h : c.Sound d) (hd : ∀ g, d g = .idle) (hk : c.carries k t) : c.holds t k := by
  refine (h.linked k t hk).resolve_right ?_
  rintro ⟨g, ts, hg, -⟩
  rw [hd g] at hg
  cases hg

theorem pending_update (hg : ∀ k ts, d g ≠ .linking k ts) (x : Position K T) (h : Pending d t k) :
    Pending (Function.update d g x) t k := by
  obtain ⟨g', ts, hg', ht⟩ := h
  refine ⟨g', ts, ?_, ht⟩
  have hne : g' ≠ g := by
    rintro rfl
    exact hg k ts hg'
  rw [Function.update_of_ne hne, hg']

theorem Sound.proceed (h : c.Sound d) (hg : ∀ k ts, d g ≠ .linking k ts) {x : Position K T}
    (hcarries : ∀ k t, c'.carries k t → c.carries k t ∨ Pending (Function.update d g x) t k)
    (hholds : ∀ k t, c'.carries k t → c.holds t k → c'.holds t k ∨ Pending (Function.update d g x) t k)
    (hdropping : ∀ t ks, x = .dropping t ks → ∀ k, c'.carries k t → k ∈ ks ∨ Pending (Function.update d g x) t k)
    (hclearing : ∀ t, x = .clearing t → ∀ k, c'.carries k t → Pending (Function.update d g x) t k) :
    c'.Sound (Function.update d g x) := by
  refine ⟨fun k t hk => ?_, fun g' t ks hg' k hk => ?_, fun g' t hg' k hk => ?_⟩
  · rcases hcarries k t hk with hold | hpending
    · rcases h.linked k t hold with hset | hpending
      · exact hholds k t hk hset
      · exact Or.inr (pending_update hg x hpending)
    · exact Or.inr hpending
  · by_cases heq : g' = g
    · rw [heq, Function.update_self] at hg'
      exact hdropping t ks hg' k hk
    · rw [Function.update_of_ne heq] at hg'
      rcases hcarries k t hk with hold | hpending
      · exact (h.dropping g' t ks hg' k hold).imp_right (pending_update hg x)
      · exact Or.inr hpending
  · by_cases heq : g' = g
    · rw [heq, Function.update_self] at hg'
      exact hclearing t hg' k hk
    · rw [Function.update_of_ne heq] at hg'
      rcases hcarries k t hk with hold | hpending
      · exact pending_update hg x (h.clearing g' t hg' k hold)
      · exact hpending

theorem Sound.move (h : c.Sound d) (hg : ∀ k ts, d g ≠ .linking k ts) {x : Position K T}
    (hdropping : ∀ t ks, x ≠ .dropping t ks) (hclearing : ∀ t, x ≠ .clearing t) : c.Sound (Function.update d g x) :=
  h.proceed hg (fun _ _ => Or.inl) (fun _ _ _ => Or.inl) (fun t ks hx => absurd hx (hdropping t ks))
    fun t hx => absurd hx (hclearing t)

def link (k : K) : List T → Position K T
  | [] => .idle
  | t :: ts => .linking k (t :: ts)

theorem pending_link (d : ℕ → Position K T) (g : ℕ) (k : K) (ht : t ∈ ts) :
    Pending (Function.update d g (link k ts)) t k := by
  cases ts with
  | nil => cases ht
  | cons t' ts => exact ⟨g, _, Function.update_self .., ht⟩

theorem link_ne_dropping (k : K) (ts : List T) (t : T) (ks : List K) : link k ts ≠ .dropping t ks := by
  cases ts <;> nofun

theorem link_ne_clearing (k : K) (ts : List T) (t : T) : link k ts ≠ .clearing t := by
  cases ts <;> nofun

theorem Sound.store (h : c.Sound d) (hg : d g = .storing k ts)
    (hcarries : ∀ k' t, c'.carries k' t → c.carries k' t ∨ k' = k ∧ t ∈ ts)
    (hholds : ∀ t k', c.holds t k' → c'.holds t k') : c'.Sound (Function.update d g (link k ts)) := by
  refine h.proceed (by simp [hg]) (fun k' t hk => ?_) (fun k' t _ hset => Or.inl (hholds t k' hset))
    (fun t ks hx => absurd hx (link_ne_dropping k ts t ks)) fun t hx => absurd hx (link_ne_clearing k ts t)
  refine (hcarries k' t hk).imp_right ?_
  rintro ⟨rfl, ht⟩
  exact pending_link d g k' ht

theorem Sound.list (h : c.Sound d) (hg : d g = .listing t) (hks : ∀ k, c.holds t k → k ∈ ks) :
    c.Sound (Function.update d g (.dropping t ks)) := by
  have hlinking : ∀ k ts, d g ≠ .linking k ts := by simp [hg]
  refine h.proceed hlinking (fun _ _ => Or.inl) (fun _ _ _ => Or.inl) ?_ nofun
  rintro _ _ ⟨⟩ k hk
  exact (h.linked k t hk).imp (hks k) (pending_update hlinking _)

theorem Sound.drop (h : c.Sound d) (hg : d g = .dropping t ks) (hcarries : ∀ k t, c'.carries k t → c.carries k t)
    (hgone : ∀ k ∈ ks, ¬c'.carries k t) (hholds : ∀ t k, c.holds t k → c'.holds t k) :
    c'.Sound (Function.update d g (.clearing t)) := by
  have hlinking : ∀ k ts, d g ≠ .linking k ts := by simp [hg]
  refine h.proceed hlinking (fun k t hk => Or.inl (hcarries k t hk)) (fun k t _ hset => Or.inl (hholds t k hset)) nofun ?_
  rintro _ ⟨⟩ k hk
  have hpending := (h.dropping g t ks hg k (hcarries k t hk)).resolve_left fun hmem => hgone k hmem hk
  exact pending_update hlinking _ hpending

theorem Sound.clear (h : c.Sound d) (hg : d g = .clearing t) (hcarries : ∀ k t, c'.carries k t → c.carries k t)
    (hholds : ∀ t' k, t' ≠ t → c.holds t' k → c'.holds t' k) : c'.Sound (Function.update d g .idle) := by
  have hlinking : ∀ k ts, d g ≠ .linking k ts := by simp [hg]
  refine h.proceed hlinking (fun k t hk => Or.inl (hcarries k t hk)) (fun k t' hk hset => ?_) nofun nofun
  by_cases heq : t' = t
  · subst heq
    exact Or.inr (pending_update hlinking _ (h.clearing g t' hg k (hcarries k t' hk)))
  · exact Or.inl (hholds t' k heq hset)

theorem Sound.linkOne (h : c.Sound d) (hg : d g = .linking k (t :: ts)) (hdisturbed : Undisturbed d t k)
    (hcarries : ∀ k t, c'.carries k t → c.carries k t) (hholds : ∀ t k, c.holds t k → c'.holds t k)
    (hlinked : c'.holds t k) : c'.Sound (Function.update d g (link k ts)) := by
  -- whatever else is pending stays so
  have hpending : ∀ t' k', Pending d t' k' → (t' = t ∧ k' = k) ∨ Pending (Function.update d g (link k ts)) t' k' := by
    rintro t' k' ⟨g', ts', hg', ht'⟩
    by_cases heq : g' = g
    · rw [heq, hg] at hg'
      cases hg'
      rcases List.mem_cons.mp ht' with rfl | ht'
      · exact Or.inl ⟨rfl, rfl⟩
      · exact Or.inr (pending_link d g _ ht')
    · exact Or.inr ⟨g', ts', by rw [Function.update_of_ne heq, hg'], ht'⟩
  have hother : ∀ g' y, Function.update d g (link k ts) g' = y → link k ts ≠ y → d g' = y := by
    intro g' y hy hne
    by_cases heq : g' = g
    · rw [heq, Function.update_self] at hy
      exact absurd hy hne
    · rwa [Function.update_of_ne heq] at hy
  refine ⟨fun k' t' hk' => ?_, fun g' t' ks hg' k' hk' => ?_, fun g' t' hg' k' hk' => ?_⟩
  · rcases h.linked k' t' (hcarries k' t' hk') with hset | hp
    · exact Or.inl (hholds t' k' hset)
    · rcases hpending t' k' hp with ⟨rfl, rfl⟩ | hp
      · exact Or.inl hlinked
      · exact Or.inr hp
  · have hd : d g' = .dropping t' ks := hother g' _ hg' (link_ne_dropping k ts t' ks)
    rcases h.dropping g' t' ks hd k' (hcarries k' t' hk') with hmem | hp
    · exact Or.inl hmem
    · rcases hpending t' k' hp with ⟨rfl, rfl⟩ | hp
      · exact Or.inl ((hdisturbed g').2 ks hd)
      · exact Or.inr hp
  · have hd : d g' = .clearing t' := hother g' _ hg' (link_ne_clearing k ts t')
    rcases hpending t' k' (h.clearing g' t' hd k' (hcarries k' t' hk')) with ⟨rfl, rfl⟩ | hp
    · exact absurd hd (hdisturbed g').1
    · exact hp

end Catalog
end EdgeQuota.Lib
