import EdgeQuota.RateLimit.Calls

/-! What the script guarantees while its key stays in Redis: it grants exactly what the
`(rate, burst)` envelope allows, and with limits that change from call to call it never
grants more than it found and earned. -/

namespace EdgeQuota.RateLimit
open Lib TokenBucket
open Arithmetic (binary64)

variable {κ : Type*}

theorem stored_of_none_in {N : Arithmetic} {db : Redis κ} {key : κ} (h : db key = none) : N.stored db key = none := by
  rw [Arithmetic.stored, h, Option.map_none]

theorem stored_of_none {db : Redis κ} {key : κ} (h : db key = none) : stored db key = none := stored_of_none_in h

theorem hasFields_of_none {db : Redis κ} {key : κ} (h : db key = none) : HasFields db key := by
  intro s hs
  rw [h] at hs
  exact absurd hs (by simp)

theorem along_of_fresh [DecidableEq κ] {N : Arithmetic} {key : κ} {db : Redis κ} {cs : List (Call κ)}
    (hfresh : db key = none) (hkey : ∀ c ∈ cs, c.key = key ∧ 0 < N.fl c.args.rate)
    (hs : cs.Pairwise fun a b => a.args.now ≤ b.args.now) (hn : N.script.Along N.NoExpiry db cs) :
    N.script.Along (fun db c => N.Ordered key db c ∧ N.Harmless key db c) db cs := by
  refine along_of_noExpiry (along_ordered hkey hs fun b hb => ?_) hn
  rw [stored_of_none_in hfresh] at hb
  exact absurd hb (by simp)

section Fixed
variable {key : κ} {db : Redis κ} {rate : ℚ} {burst : ℤ} {cs : List (Call κ)}

theorem map_demand_fixed (h : ∀ c ∈ cs, c.args.rate = rate ∧ c.args.burst = burst) :
    cs.map demand = fixed (burst : ℚ) rate (cs.map fun c => (c.args.now : ℚ)) := by
  rw [fixed, List.map_map]
  apply List.map_congr_left
  intro c hc
  obtain ⟨hr, hb⟩ := h c hc
  simp only [Function.comp, demand_eq, hr, hb]

theorem pairwise_now (h : cs.Pairwise fun a b => a.args.now ≤ b.args.now) :
    (cs.map fun c => (c.args.now : ℚ)).Pairwise (· ≤ ·) := by
  rw [List.pairwise_map]
  exact h.imp fun hab => by exact_mod_cast hab

variable [DecidableEq κ]

/-- **The script is exact.** A call is allowed iff every window from an earlier-or-equal
call still has room for it, so the decisions are those of the greedy admission. -/
theorem allowed_iff_envelope (hrate : 0 < rate) (hburst : 1 ≤ burst) (hfresh : db key = none)
    (hcs : ∀ c ∈ cs, c.key = key ∧ c.args.rate = rate ∧ c.args.burst = burst)
    (hs : cs.Pairwise fun a b => a.args.now ≤ b.args.now) (hn : script.Along NoExpiry db cs) :
    (∀ pre c post, cs = pre ++ c :: post →
      ((script.step (script.run db pre) c).1.allowed = 1 ↔
        ∀ s ∈ (pre ++ [c]).map fun d => (d.args.now : ℚ),
          (script.tally (inWindow s c.args.now) db pre : ℚ) + 1 ≤ burst + rate * (c.args.now - s))) ∧
    (script.outputs db cs).map (fun r => decide (r.allowed = 1)) =
      greedy (burst : ℚ) rate [] (cs.map fun c => (c.args.now : ℚ)) := by
  have hone : (1 : ℚ) ≤ burst := by exact_mod_cast hburst
  have hst := stored_of_none hfresh
  have hf := hasFields_of_none hfresh
  have hkey : ∀ c ∈ cs, c.key = key ∧ 0 < c.args.rate := fun c hc =>
    ⟨(hcs c hc).1, (hcs c hc).2.1 ▸ hrate⟩
  have hlim : ∀ c ∈ cs, c.args.rate = rate ∧ c.args.burst = burst := fun c hc => (hcs c hc).2
  have halong := along_of_fresh (N := Arithmetic.exact) hfresh hkey hs hn
  refine ⟨?_, ?_⟩
  · rintro pre c post rfl
    obtain ⟨hpre, hc⟩ := (Machine.along_append script).mp halong
    have hprelim : ∀ d ∈ pre, d.args.rate = rate ∧ d.args.burst = burst := fun d hd =>
      hlim d (List.mem_append_left _ hd)
    have hsorted : ((pre ++ [c]).map fun d => (d.args.now : ℚ)).Pairwise (· ≤ ·) :=
      pairwise_now (hs.sublist (List.Sublist.append_left (by simp) pre))
    have hrun := script_run_refines hpre hf
    have hstep := allowed_step hc.1 hrun
    obtain ⟨hcr, hcb⟩ := hlim c (by simp)
    rw [hst, map_demand_fixed hprelim, demand_eq, hcr, hcb] at hstep
    rw [← decide_eq_true_iff (p := _ = (1 : ℤ)), hstep]
    rw [List.map_append, List.map_cons, List.map_nil] at hsorted ⊢
    rw [granted_iff hone hsorted]
    refine forall₂_congr fun s _ => ?_
    rw [script_tally_inWindow s _ hpre hf, hst, map_demand_fixed hprelim]
  · rw [script_outputs_eq halong hf, hst, map_demand_fixed hlim, outputs_eq_greedy hone (pairwise_now hs)]

theorem allowed_iff_envelope_one_token :
    (script.outputs Keyspace.empty ([7000000, 7000000, 9000000].map fun t =>
      (⟨(), ⟨1 / 2000000, 1, 10, t⟩, t⟩ : Call Unit))).map (fun r => decide (r.allowed = 1)) =
      greedy ((1 : ℤ) : ℚ) (1 / 2000000) [] (([7000000, 7000000, 9000000].map fun t =>
        (⟨(), ⟨1 / 2000000, 1, 10, t⟩, t⟩ : Call Unit)).map fun c => (c.args.now : ℚ)) := by
  have hfresh : (Keyspace.empty : Redis Unit) () = none := rfl
  refine (allowed_iff_envelope ?_ ?_ hfresh ?_ ?_ ?_).2
  · norm_num
  · norm_num
  · simp
  · simp
  · decide +kernel

end Fixed

namespace Arithmetic

def refillCredit (N : Arithmetic) : ℚ → List (Call κ) → ℚ
  | _, [] => 0
  | prev, c :: cs => N.fl c.args.rate * (N.fl c.args.now - prev) + N.refillCredit (N.fl c.args.now) cs

theorem refillCredit_eq (N : Arithmetic) (prev : ℚ) (cs : List (Call κ)) :
    N.refillCredit prev cs = credit prev (cs.map N.demand) := by
  induction cs generalizing prev with
  | nil => rfl
  | cons c cs ih =>
    rw [refillCredit, ih, List.map_cons, credit]
    rfl

def maxBurst (N : Arithmetic) (cs : List (Call κ)) : ℚ := (cs.map fun c => N.fl c.args.burst).foldr max 0

theorem burst_le_maxBurst (N : Arithmetic) {c : Call κ} {cs : List (Call κ)} (h : c ∈ cs) :
    N.fl c.args.burst ≤ N.maxBurst cs := by
  induction cs with
  | nil => simp at h
  | cons d ds ih =>
    rcases List.mem_cons.mp h with rfl | h
    · exact le_max_left _ _
    · exact (ih h).trans (le_max_right _ _)

end Arithmetic

section Keys
variable [DecidableEq κ] {N : Arithmetic}

theorem step_of_ne {key : κ} {c : Call κ} (h : c.key ≠ key) (db : Redis κ) : (N.script.step db c).2 key = db key := by
  by_cases hr : 0 < N.fl c.args.rate
  · rw [script_step_in hr]
    exact Keyspace.write_of_ne (Ne.symm h) db _
  · change (N.rateLimitLua c.key c.args c.clock db).2 key = db key
    rw [Arithmetic.rateLimitLua_disabled c.key (not_lt.mp hr)]

theorem step_congr {key : κ} {c : Call κ} (h : c.key = key) {db db' : Redis κ} (hdb : db key = db' key) :
    (N.script.step db c).1 = (N.script.step db' c).1 ∧
      (N.script.step db c).2 key = (N.script.step db' c).2 key := by
  subst h
  by_cases hr : 0 < N.fl c.args.rate
  · have hfind : db.find c.clock c.key = db'.find c.clock c.key := by
      rw [Keyspace.find, hdb, Keyspace.find]
    have hget : hmget db c.clock c.key = hmget db' c.clock c.key := by
      rw [hmget, Keyspace.get, hfind, hmget, Keyspace.get]
    rw [script_step_in hr, script_step_in hr, hget]
    refine ⟨rfl, ?_⟩
    simp only [Keyspace.write_self, Arithmetic.slotAfter, hget, hfind]
  · change (N.rateLimitLua c.key c.args c.clock db).1 = (N.rateLimitLua c.key c.args c.clock db').1 ∧
      (N.rateLimitLua c.key c.args c.clock db).2 c.key = (N.rateLimitLua c.key c.args c.clock db').2 c.key
    rw [Arithmetic.rateLimitLua_disabled c.key (not_lt.mp hr), Arithmetic.rateLimitLua_disabled c.key (not_lt.mp hr)]
    exact ⟨rfl, hdb⟩

theorem run_filter_key (key : κ) (db : Redis κ) (cs : List (Call κ)) :
    N.script.run db cs key = N.script.run db (cs.filter fun c => c.key = key) key :=
  Machine.view_run_filter (v := fun db : Redis κ => db key)
    (fun db _ h => step_of_ne (of_decide_eq_false h) db)
    (fun _ _ _ h hdb => step_congr (of_decide_eq_true h) hdb) rfl cs

theorem outputs_filter_key (key : κ) (db : Redis κ) (cs : List (Call κ)) :
    ((cs.zip (N.script.outputs db cs)).filter fun p => p.1.key = key) =
      (cs.filter fun c => c.key = key).zip (N.script.outputs db (cs.filter fun c => c.key = key)) :=
  Machine.outputs_filter (v := fun db : Redis κ => db key) (p := fun c => decide (c.key = key))
    (fun db _ h => step_of_ne (of_decide_eq_false h) db)
    (fun _ _ _ h hdb => step_congr (of_decide_eq_true h) hdb) rfl cs

end Keys

section Changing
variable {key : κ} {db : Redis κ} {cs : List (Call κ)} {N : Arithmetic}

theorem demand_pos (h : ∀ c ∈ cs, c.key = key ∧ 0 < c.args.rate ∧ 1 ≤ c.args.burst) :
    ∀ d ∈ cs.map N.demand, 0 ≤ d.cap ∧ 0 ≤ d.rate := by
  intro d hd
  obtain ⟨c, hc, rfl⟩ := List.mem_map.mp hd
  obtain ⟨-, hr, hb⟩ := h c hc
  exact ⟨N.fl_nonneg (Int.cast_nonneg (le_trans zero_le_one hb)), (N.fl_pos hr).le⟩

theorem pairwise_demand (h : cs.Pairwise fun a b => a.args.now ≤ b.args.now) :
    (cs.map N.demand).Pairwise fun a b => a.time ≤ b.time := by
  rw [List.pairwise_map]
  exact h.imp fun hab => N.mono (Int.cast_le.mpr hab)

def rounding (cs : List (Call κ)) : ℚ := (cs.map fun c => binary64.fl c.args.burst / 2 ^ 51).sum

theorem slack_eq_rounding (cs : List (Call κ)) :
    binary64.slack (cs.map binary64.demand) = rounding cs := by
  have hunit : ∀ b : ℚ, 4 * (binary64.unit * b) = b / 2 ^ 51 := by
    intro b
    have hval : binary64.unit = 1 / 2 ^ 53 := by
      change (2 : ℚ) ^ (-(53 : ℕ) : ℤ) = 1 / 2 ^ 53
      rw [zpow_neg, zpow_natCast, one_div]
    rw [hval]
    ring
  unfold Rounding.slack rounding
  rw [List.map_map]
  simp only [Function.comp_def, hunit]
  rfl

variable [DecidableEq κ]

section Run
variable (hfresh : db key = none) (hcs : ∀ c ∈ cs, c.key = key ∧ 0 < c.args.rate ∧ 1 ≤ c.args.burst)
  (hs : cs.Pairwise fun a b => a.args.now ≤ b.args.now) (hn : N.script.Along N.NoExpiry db cs)
include hfresh hcs hs hn

theorem available_run {pre : List (Call κ)} {c : Call κ} {post : List (Call κ)} (hsplit : cs = pre ++ c :: post) :
    N.available c.args (hmget (N.script.run db pre) c.clock key) =
        N.level N.fl (N.demand c) (N.tokenBucket.run none (pre.map N.demand)) ∧
      0 ≤ N.level N.fl (N.demand c) (N.tokenBucket.run none (pre.map N.demand)) := by
  have halong := along_of_fresh hfresh (fun c hc => ⟨(hcs c hc).1, N.fl_pos (hcs c hc).2.1⟩) hs hn
  have hpos := demand_pos (N := N) hcs
  have hmono := pairwise_demand (N := N) hs
  rw [hsplit] at halong
  rw [hsplit, List.append_cons, List.map_append, List.map_append, List.map_cons, List.map_nil] at hpos hmono
  obtain ⟨hpre, hrest⟩ := (Machine.along_append N.script).mp halong
  have hrun := script_run_refines_in hpre (hasFields_of_none hfresh)
  rw [stored_of_none_in hfresh] at hrun
  refine ⟨?_, Rounding.level_run_nonneg (fun d hd => hpos d (List.mem_append_left _ hd))
    (List.pairwise_append.mp hmono).1⟩
  rw [available_eq_level_in hrun.1 hrest.1.1 hrest.1.2, hrun.2]

theorem tokens_run {pre : List (Call κ)} {c : Call κ} {post : List (Call κ)} (hsplit : cs = pre ++ c :: post) :
    ∃ b, N.stored (N.script.run db (pre ++ [c])) key = some b ∧ 0 ≤ b.tokens ∧ b.tokens ≤ N.fl c.args.burst := by
  obtain ⟨-, hlev⟩ := available_run hfresh hcs hs hn hsplit
  have halong := along_of_fresh hfresh (fun c hc => ⟨(hcs c hc).1, N.fl_pos (hcs c hc).2.1⟩) hs hn
  rw [hsplit, List.append_cons] at halong
  have hrun := (script_run_refines_in ((Machine.along_append N.script).mp halong).1 (hasFields_of_none hfresh)).2
  have hsnoc : N.tokenBucket.run none ((pre ++ [c]).map N.demand) =
      some ⟨N.take (N.level N.fl (N.demand c) (N.tokenBucket.run none (pre.map N.demand))), (N.demand c).time⟩ := by
    rw [List.map_append, Machine.run_append]
    rfl
  rw [stored_of_none_in hfresh, hsnoc] at hrun
  have hfix : N.fl (N.level N.fl (N.demand c) (N.tokenBucket.run none (pre.map N.demand))) = _ :=
    Rounding.fl_level (N.fl_fl _) _
  exact ⟨_, hrun, Rounding.take_nonneg hlev, (Rounding.take_le hfix).trans (Rounding.level_le_cap _ _)⟩

theorem tally_run {pre : List (Call κ)} {c : Call κ} {seg post : List (Call κ)}
    (hsplit : cs = pre ++ c :: (seg ++ post)) :
    (N.script.tally isAllowed (N.script.run db pre) (c :: seg) : ℚ) ≤
      N.available c.args (hmget (N.script.run db pre) c.clock key) + N.refillCredit (N.fl c.args.now) seg +
        N.slack ((c :: seg).map N.demand) := by
  obtain ⟨havail, hlev⟩ := available_run hfresh hcs hs hn hsplit
  have halong := along_of_fresh hfresh (fun c hc => ⟨(hcs c hc).1, N.fl_pos (hcs c hc).2.1⟩) hs hn
  have hpos := demand_pos (N := N) hcs
  have hmono := pairwise_demand (N := N) hs
  rw [hsplit, ← List.cons_append] at halong hpos hmono
  rw [List.map_append, List.map_append, List.map_cons] at hpos hmono
  obtain ⟨hpre, hrest⟩ := (Machine.along_append N.script).mp halong
  have hseg := ((Machine.along_append N.script).mp hrest).1
  have hrun := script_run_refines_in hpre (hasFields_of_none hfresh)
  rw [stored_of_none_in hfresh] at hrun
  have htally := script_tally_isAllowed hseg hrun.1
  rw [hrun.2] at htally
  have hle := Rounding.tally_granted_le_slack hlev
    (fun d hd => hpos d (List.mem_append_right _ (List.mem_append_left _ hd)))
    (List.pairwise_append.mp (List.pairwise_append.mp hmono).2.1).1
  have hunit : 0 ≤ N.unit * (N.demand c).cap :=
    mul_nonneg N.unit_nonneg (hpos (N.demand c) (by simp)).1
  have hslack : N.slack ((c :: seg).map N.demand) = 4 * (N.unit * (N.demand c).cap) + N.slack (seg.map N.demand) := by
    rw [List.map_cons]
    simp only [Rounding.slack, List.map_cons, List.sum_cons]
  have hcredit : N.refillCredit (N.fl c.args.now) seg = credit (N.demand c).time (seg.map N.demand) :=
    N.refillCredit_eq _ _
  rw [htally, havail, hslack, hcredit, List.map_cons]
  linarith

end Run

/-- **Changing limits.** Each call carries its own rate and burst. The stored tokens stay between zero and the burst of
the last call. A stretch of calls is allowed at most what its first call found, what the others earned, and what the
doubles round in each call. Calls on other keys have no part in it. -/
theorem changing_limits (hfresh : db key = none)
    (hcs : ∀ c ∈ cs, c.key = key ∧ 0 < c.args.rate ∧ 1 ≤ c.args.burst)
    (hs : cs.Pairwise fun a b => a.args.now ≤ b.args.now)
    (hn : binary64.script.Along binary64.NoExpiry db cs) :
    let N := binary64
    (∀ pre c post, cs = pre ++ c :: post →
      ∃ b, N.stored (N.script.run db (pre ++ [c])) key = some b ∧ 0 ≤ b.tokens ∧ b.tokens ≤ N.fl c.args.burst) ∧
    (∀ pre c seg post, cs = pre ++ c :: (seg ++ post) →
      (N.script.tally isAllowed (N.script.run db pre) (c :: seg) : ℚ) ≤
          N.available c.args (hmget (N.script.run db pre) c.clock key) + N.refillCredit (N.fl c.args.now) seg +
            rounding (c :: seg) ∧
      (N.script.tally isAllowed (N.script.run db pre) (c :: seg) : ℚ) ≤
          N.maxBurst (c :: seg) + N.refillCredit (N.fl c.args.now) seg + rounding (c :: seg)) ∧
    (∀ mixed : List (Call κ), (mixed.filter fun c => c.key = key) = cs →
      N.script.run db mixed key = N.script.run db cs key ∧
      ((mixed.zip (N.script.outputs db mixed)).filter fun p => p.1.key = key) =
        cs.zip (N.script.outputs db cs)) := by
  intro N
  refine ⟨?_, ?_, ?_⟩
  · intro pre c post hsplit
    exact tokens_run hfresh hcs hs hn hsplit
  · intro pre c seg post hsplit
    have hle := tally_run hfresh hcs hs hn hsplit
    rw [slack_eq_rounding] at hle
    have hcap : N.available c.args (hmget (N.script.run db pre) c.clock key) ≤ N.fl c.args.burst := min_le_left _ _
    have hburst : N.fl c.args.burst ≤ N.maxBurst (c :: seg) := N.burst_le_maxBurst (List.mem_cons_self ..)
    exact ⟨hle, by linarith⟩
  · rintro mixed rfl
    exact ⟨run_filter_key key db mixed, outputs_filter_key key db mixed⟩

theorem changing_limits_two_calls :
    ∃ b, binary64.stored (binary64.script.run Keyspace.empty
        ([(⟨(), ⟨1 / 2000000, 5, 10, 7000000⟩, 7000000⟩ : Call Unit)] ++ [⟨(), ⟨1 / 1000000, 2, 10, 8000000⟩, 8000000⟩]))
          () = some b ∧ 0 ≤ b.tokens ∧ b.tokens ≤ binary64.fl ((2 : ℤ) : ℚ) := by
  have hfresh : (Keyspace.empty : Redis Unit) () = none := rfl
  refine (changing_limits hfresh ?_ ?_ ?_).1 [⟨(), ⟨1 / 2000000, 5, 10, 7000000⟩, 7000000⟩]
    ⟨(), ⟨1 / 1000000, 2, 10, 8000000⟩, 8000000⟩ [] rfl
  · simp
  · simp
  · decide +kernel

/-- One token per second as a double is a little less than that; a second of it still makes a whole token. -/
theorem changing_limits_rounded_up :
    let N := binary64
    let rate := N.fl (1 / 1000000)
    let c : Call Unit := ⟨(), ⟨rate, 1, 10, 7000000⟩, 7000000⟩
    let d : Call Unit := ⟨(), ⟨rate, 1, 10, 8000000⟩, 8000000⟩
    0 < rate ∧ N.script.Along N.NoExpiry Keyspace.empty [c, d] ∧
      N.script.tally isAllowed Keyspace.empty [c, d] = 2 ∧
      N.available c.args (hmget Keyspace.empty c.clock c.key) + rate * (8000000 - 7000000) < 2 := by
  refine ⟨?_, ?_, ?_, ?_⟩ <;> decide +kernel

end Changing
end EdgeQuota.RateLimit
