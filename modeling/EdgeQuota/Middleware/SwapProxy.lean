import EdgeQuota.Proxy.Drain

/-! Proxies that replace one another. A request loads the handler behind the chain and enters it later; `SwapProxy` puts
another one there and closes the old one in the background. Requests, reloads and closings interleave in any way, and every
proxy drains as `Proxy.Draining` does. WebSocket upgrades take no part in this. -/

namespace EdgeQuota.Middleware.SwapProxy
open Lib Proxy

structure Shared where
  next : ℕ := 0
  proxies : ℕ → Draining := fun _ => {}

inductive Thread where
  | load
  | at (k : ℕ) (t : DrainThread)
  | swap

structure Event where
  proxy : ℕ
  serving : ℕ
  out : DrainOut

def step (s : Shared) : Thread → DrainTurn → List Event × Shared × List Thread
  | .load, _ => ([], s, [.at s.next .arriving])
  | .at k t, f =>
    let (out, d, ts) := (s.proxies k).step t f
    (out.map fun o => ⟨k, s.next, o⟩, { s with proxies := Function.update s.proxies k d }, ts.map (.at k))
  | .swap, _ => ([], { s with next := s.next + 1 }, [.at s.next .locking])

inductive Arrival where
  | request
  | reload

def system : System Shared Thread Arrival DrainTurn Event where
  arrive
    | .request => .load
    | .reload => .swap
  step := step

def start : System.Conf Shared Thread := ⟨{}, []⟩

def isOpen : DrainThread → Bool
  | .arriving | .reading | .admitting | .admitted | .working | .completing _ => true
  | _ => false

def closes : DrainOut → Bool
  | .draining | .released _ => true
  | _ => false

def Open (d : Draining) : Prop := d.closing = false ∧ d.released = false

theorem Open.step {d : Draining} {t : DrainThread} (h : Open d) (ht : isOpen t = true) (f : DrainTurn) :
    (∀ o ∈ (d.step t f).1, closes o = false) ∧ Open (d.step t f).2.1 ∧ ∀ u ∈ (d.step t f).2.2, isOpen u = true := by
  cases t with
  | arriving => cases hwriter : d.writer <;> simp [Draining.step, hwriter, isOpen] <;> exact h
  | reading => simp [Draining.step, h.1, isOpen]; exact h
  | admitting => simp [Draining.step, closes, isOpen]; exact h
  | admitted => simp [Draining.step, isOpen]; exact h
  | working => simp [Draining.step, isOpen]; exact h
  | completing panicked => simp [Draining.step, closes]; exact h
  | _ => cases ht

def isClosing : DrainThread → Bool
  | .locking | .locked | .unlocking | .selecting _ | .releasing _ => true
  | _ => false

theorem step_released (d : Draining) (t : DrainThread) (f : DrainTurn) :
    (d.released = true → (d.step t f).2.1.released = true) ∧
      (isClosing t = true → (d.step t f).2.1.released = true ∨ ∃ u ∈ (d.step t f).2.2, isClosing u = true) := by
  cases t <;> simp only [Draining.step] <;> (try split_ifs) <;> simp_all [isClosing]

namespace Thread

def Fits (next : ℕ) : Thread → Prop
  | .at k t => next ≤ k → isOpen t = true
  | _ => True

def Closes (k : ℕ) : Thread → Prop
  | .at k' t => k' = k ∧ isClosing t = true
  | _ => False

end Thread

structure Serving (s : Shared) (ts : List Thread) : Prop where
  proxies : ∀ k, s.next ≤ k → Open (s.proxies k)
  threads : ∀ t ∈ ts, t.Fits s.next
  replaced : ∀ k, k < s.next → (s.proxies k).released = true ∨ ∃ t ∈ ts, t.Closes k

section Turns
variable {s : Shared} {l₁ l₂ : List Thread}

theorem Serving.load (h : Serving s (l₁ ++ .load :: l₂)) : Serving s (l₁ ++ [.at s.next .arriving] ++ l₂) := by
  refine ⟨h.proxies, ?_, ?_⟩
  · exact System.forall_replace h.threads (fun _ => id) (List.forall_mem_singleton.mpr fun _ => rfl)
  · intro k hk
    exact (h.replaced k hk).imp_right fun hcloser => System.exists_replace hcloser False.elim

theorem Serving.swap (h : Serving s (l₁ ++ .swap :: l₂)) :
    Serving { s with next := s.next + 1 } (l₁ ++ [.at s.next .locking] ++ l₂) := by
  refine ⟨fun k hk => h.proxies k (Nat.le_of_succ_le hk), ?_, ?_⟩
  · refine System.forall_replace h.threads ?_ (List.forall_mem_singleton.mpr fun hk => absurd hk (Nat.not_succ_le_self _))
    intro t ht
    cases t with
    | «at» k t => exact fun hk => ht (Nat.le_of_succ_le hk)
    | load | swap => trivial
  · intro k hk
    rcases Nat.lt_succ_iff_lt_or_eq.mp hk with hk | rfl
    · exact (h.replaced k hk).imp_right fun hcloser => System.exists_replace hcloser False.elim
    · exact .inr ⟨_, System.mem_replace (List.mem_singleton_self _), rfl, rfl⟩

theorem Serving.turn {k : ℕ} {t : DrainThread} (h : Serving s (l₁ ++ .at k t :: l₂)) (f : DrainTurn) :
    Serving (step s (.at k t) f).2.1 (l₁ ++ (step s (.at k t) f).2.2 ++ l₂) := by
  have hthread : s.next ≤ k → isOpen t = true := h.threads _ (List.mem_append_cons_self ..)
  refine ⟨?_, ?_, ?_⟩
  · intro j hj
    by_cases hjk : j = k
    · subst hjk
      simp only [step, Function.update_self]
      exact ((h.proxies j hj).step (hthread hj) f).2.1
    · simp only [step, Function.update_of_ne hjk]
      exact h.proxies j hj
  · refine System.forall_replace h.threads (fun _ => id) ?_
    intro u hu
    obtain ⟨v, hv, rfl⟩ := List.mem_map.mp hu
    exact fun hk => ((h.proxies k hk).step (hthread hk) f).2.2 v hv
  · intro j hj
    obtain ⟨hreleased, hcloses⟩ := step_released (s.proxies k) t f
    by_cases hjk : j = k
    · subst hjk
      simp only [step, Function.update_self]
      rcases h.replaced j hj with hdone | hcloser
      · exact .inl (hreleased hdone)
      · by_cases hnow : ((s.proxies j).step t f).2.1.released = true
        · exact .inl hnow
        · refine .inr (System.exists_replace hcloser ?_)
          rintro ⟨-, hclosing⟩
          obtain ⟨u, hu, huclosing⟩ := (hcloses hclosing).resolve_left hnow
          exact ⟨_, List.mem_map.mpr ⟨u, hu, rfl⟩, rfl, huclosing⟩
    · simp only [step, Function.update_of_ne hjk]
      refine (h.replaced j hj).imp_right fun hcloser => System.exists_replace hcloser ?_
      rintro ⟨rfl, -⟩
      exact absurd rfl hjk

end Turns

theorem keeps_serving : system.Keeps (fun _ => True) (fun _ _ _ _ => True) Serving where
  arrive := by
    intro s ts a h _
    refine ⟨h.proxies, ?_, ?_⟩
    · exact List.forall_mem_append.mpr ⟨h.threads, List.forall_mem_singleton.mpr (by cases a <;> trivial)⟩
    · intro k hk
      exact (h.replaced k hk).imp_right fun ⟨t, ht, hcloses⟩ => ⟨t, List.mem_append_left _ ht, hcloses⟩
  step := by
    intro s l₁ t l₂ f h _
    cases t with
    | load => exact h.load
    | swap => exact h.swap
    | «at» k t => exact h.turn f

/-- The proxy in service is never closed. A request is refused, and transports are released, only at a proxy that has been
replaced by then; and every proxy that was replaced has released its transports or is on its way to it. -/
theorem serving_proxy_stays_open (ms : List (System.Move Arrival DrainTurn)) :
    let c := system.machine.run start ms
    Open (c.shared.proxies c.shared.next) ∧
      (∀ e ∈ (system.machine.outputs start ms).flatten, closes e.out = true → e.proxy < e.serving) ∧
      ∀ k < c.shared.next, (c.shared.proxies k).released = true ∨ ∃ t ∈ c.threads, t.Closes k := by
  intro c
  have hstart : Serving start.shared start.threads :=
    ⟨fun _ _ => ⟨rfl, rfl⟩, List.forall_mem_nil _, fun k hk => absurd hk (Nat.not_lt_zero k)⟩
  have h := keeps_serving.always hstart ms
  refine ⟨h.proxies _ le_rfl, ?_, h.replaced⟩
  refine keeps_serving.outputs ?_ hstart (Machine.along_of_forall fun m _ c => System.obeys_true c m)
  intro s l₁ t l₂ f h _ e he hcloses
  cases t with
  | load | swap => cases he
  | «at» k t =>
    obtain ⟨o, ho, rfl⟩ := List.mem_map.mp he
    by_contra hk
    have hnext := Nat.le_of_not_lt hk
    have hthread : isOpen t = true := h.threads _ (List.mem_append_cons_self ..) hnext
    rw [((h.proxies k hnext).step hthread f).1 o ho] at hcloses
    cases hcloses

end EdgeQuota.Middleware.SwapProxy
