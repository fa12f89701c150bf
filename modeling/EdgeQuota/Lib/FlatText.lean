import Mathlib.Data.List.Basic

/-! Two fields and a list of named values written as one text: a separator before every field but the
first, a mark between a name and its value, and nothing escaped. -/

namespace EdgeQuota.Lib
variable {α : Type*} {sep mark : α}

def flatFields (sep mark : α) (fs : List (List α × List α)) : List α :=
  fs.flatMap fun f => sep :: f.1 ++ mark :: f.2

def flatText (sep mark : α) (a b : List α) (fs : List (List α × List α)) : List α :=
  a ++ sep :: b ++ flatFields sep mark fs

theorem flatText_fold (a b k v : List α) (fs : List (List α × List α)) :
    flatText sep mark a (b ++ sep :: k ++ mark :: v) fs = flatText sep mark a b ((k, v) :: fs) := by
  simp [flatText, flatFields]

theorem flatText_shift (a b c : List α) (fs : List (List α × List α)) :
    flatText sep mark (a ++ sep :: b) c fs = flatText sep mark a (b ++ sep :: c) fs := by
  simp [flatText]

theorem flatText_eq_intercalate (a b : List α) (fs : List (List α × List α)) :
    flatText sep mark a b fs = [sep].intercalate (a :: b :: fs.map fun f => f.1 ++ mark :: f.2) := by
  have hfields : ∀ b : List α, [sep].intercalate (b :: fs.map fun f => f.1 ++ mark :: f.2) =
      b ++ flatFields sep mark fs := by
    induction fs with
    | nil => simp [flatFields]
    | cons f fs ih =>
      intro b
      rw [List.map_cons, List.intercalate_cons_cons, ih]
      simp [flatFields]
  rw [List.intercalate_cons_cons, hfields]
  simp [flatText]

abbrev BareField (sep mark : α) (f : List α × List α) : Prop := sep ∉ f.1 ∧ mark ∉ f.1 ∧ sep ∉ f.2

section Decidable
variable [DecidableEq α]

theorem length_le_count_flatFields (sep mark : α) (fs : List (List α × List α)) :
    fs.length ≤ (flatFields sep mark fs).count sep := by
  induction fs with
  | nil => exact Nat.zero_le _
  | cons f fs ih =>
    have hcons : (flatFields sep mark (f :: fs)).count sep =
        (f.1 ++ mark :: f.2).count sep + 1 + (flatFields sep mark fs).count sep := by
      simp only [flatFields, List.flatMap_cons, List.cons_append, List.count_cons_self, List.count_append]
      omega
    rw [hcons, List.length_cons]
    omega

theorem flatText_inj_of_bare {a b a' b' : List α} {fs : List (List α × List α)} (ha : sep ∉ a) (hb : sep ∉ b)
    (h : flatText sep mark a' b' fs = flatText sep mark a b []) : a' = a ∧ b' = b ∧ fs = [] := by
  have hbare : (flatText sep mark a b []).count sep = 1 := by
    simp [flatText, flatFields, List.count_eq_zero_of_not_mem ha, List.count_eq_zero_of_not_mem hb]
  have hcount : (flatText sep mark a' b' fs).count sep =
      a'.count sep + b'.count sep + (flatFields sep mark fs).count sep + 1 := by
    simp only [flatText, List.count_append, List.count_cons_self]
    omega
  have hfields := length_le_count_flatFields sep mark fs
  rw [h, hbare] at hcount
  -- the one separator is the one between the first two fields
  obtain rfl : fs = [] := List.eq_nil_of_length_eq_zero (by omega)
  have ha' : sep ∉ a' := List.count_eq_zero.mp (by omega)
  simp only [flatText, flatFields, List.flatMap_nil, List.append_nil] at h
  have hb' : sep ∉ b' := List.count_eq_zero.mp (by omega)
  obtain ⟨rfl, -, rfl⟩ := (List.append_cons_inj_of_notMem ha' hb').mp h
  exact ⟨rfl, rfl, rfl⟩

theorem takeWhile_field {k : List α} (hk : mark ∉ k) (v : List α) : (k ++ mark :: v).takeWhile (· ≠ mark) = k := by
  have hall : ∀ c ∈ k, decide (c ≠ mark) = true := fun c hc => decide_eq_true fun heq => hk (heq ▸ hc)
  rw [List.takeWhile_append_of_pos hall, List.takeWhile_cons_of_neg (by simp), List.append_nil]

theorem fields_inj {fs fs' : List (List α × List α)} (hfs : ∀ f ∈ fs, mark ∉ f.1) (hfs' : ∀ f ∈ fs', mark ∉ f.1)
    (h : fs'.map (fun f => f.1 ++ mark :: f.2) = fs.map fun f => f.1 ++ mark :: f.2) : fs' = fs := by
  induction fs generalizing fs' with
  | nil => exact List.map_eq_nil_iff.mp h
  | cons f fs ih =>
    cases fs' with
    | nil => cases h
    | cons f' fs' =>
      rw [List.forall_mem_cons] at hfs hfs'
      rw [List.map_cons, List.map_cons, List.cons.injEq] at h
      have hname : f'.1 = f.1 := by rw [← takeWhile_field hfs'.1 f'.2, h.1, takeWhile_field hfs.1]
      have hvalue := h.1
      rw [hname, List.append_cancel_left_eq, List.cons.injEq] at hvalue
      rw [Prod.ext hname hvalue.2, ih hfs.2 hfs'.2 h.2]

theorem splitOn_flatText (hne : sep ≠ mark) {a b : List α} {fs : List (List α × List α)} (ha : sep ∉ a)
    (hb : sep ∉ b) (hfs : ∀ f ∈ fs, BareField sep mark f) :
    (flatText sep mark a b fs).splitOn sep = a :: b :: fs.map fun f => f.1 ++ mark :: f.2 := by
  rw [flatText_eq_intercalate]
  refine List.splitOn_intercalate sep ?_ (by simp)
  intro l hl
  rcases List.mem_cons.mp hl with rfl | hl
  · exact ha
  rcases List.mem_cons.mp hl with rfl | hl
  · exact hb
  obtain ⟨f, hf, rfl⟩ := List.mem_map.mp hl
  obtain ⟨hname, -, hvalue⟩ := hfs f hf
  simp [hname, hvalue, hne]

theorem flatText_inj_of_bareFields (hne : sep ≠ mark) {a b a' b' : List α} {fs fs' : List (List α × List α)}
    (ha : sep ∉ a) (hb : sep ∉ b) (hfs : ∀ f ∈ fs, BareField sep mark f) (ha' : sep ∉ a') (hb' : sep ∉ b')
    (hfs' : ∀ f ∈ fs', BareField sep mark f) (h : flatText sep mark a' b' fs' = flatText sep mark a b fs) :
    a' = a ∧ b' = b ∧ fs' = fs := by
  have heq := congrArg (List.splitOn sep) h
  rw [splitOn_flatText hne ha hb hfs, splitOn_flatText hne ha' hb' hfs', List.cons.injEq, List.cons.injEq] at heq
  exact ⟨heq.1, heq.2.1, fields_inj (fun f hf => (hfs f hf).2.1) (fun f hf => (hfs' f hf).2.1) heq.2.2⟩

end Decidable
end EdgeQuota.Lib
