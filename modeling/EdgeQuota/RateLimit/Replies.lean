import EdgeQuota.RateLimit.Calls

/-! What a reply of the script tells its caller about the calls that follow: the time after which a denied
call would be allowed, the number of calls that would still be allowed at the same time, and the time after which
the bucket is full. -/

namespace EdgeQuota.RateLimit
open Lib TokenBucket
open Arithmetic (binary64)

variable {κ : Type*} {db : Redis κ} {c : Call κ} {N : Arithmetic}

def Call.again (c : Call κ) (now clock : ℤ) : Call κ :=
  { c with args := { c.args with now := now }, clock := clock }

theorem replyOf_denied {a : Args} {h : Hash} (hdenied : (replyOf a h).allowed = 0) :
    available a h < 1 ∧ (replyOf a h).retryAfter = ⌈(1 - available a h) / a.rate⌉ := by
  have hlt : ¬1 ≤ available a h := by
    intro hone
    rw [(replyOf_allowed a h).mpr hone] at hdenied
    exact one_ne_zero hdenied
  refine ⟨not_le.mp hlt, ?_⟩
  simp only [replyOf_eq, if_neg hlt]

theorem take_available_lt {a : Args} (hburst : 1 ≤ a.burst) (h : Hash) : take (available a h) < a.burst := by
  have hle : available a h ≤ a.burst := min_le_left _ _
  have hcap : (1 : ℚ) ≤ a.burst := by exact_mod_cast hburst
  by_cases hone : 1 ≤ available a h
  · rw [take_of_le hone]
    linarith
  · rw [take_of_not_le hone]
    exact (not_le.mp hone).trans_le hcap

section Small

theorem binary64_fl_sub_one {x : ℚ} (hfix : binary64.fl x = x) (hone : 1 ≤ x) (hle : x ≤ 2 ^ 53) :
    binary64.fl (x - 1) = x - 1 := roundBits_sub_one (by norm_num) hfix hone hle

theorem binary64_beyond :
    binary64.fl (2 ^ 53 + 1) = 2 ^ 53 ∧ binary64.fl (2 ^ 53 + 2) = 2 ^ 53 + 2 ∧
      binary64.fl (2 ^ 53 + 3) = 2 ^ 53 + 4 := by
  refine ⟨?_, ?_, ?_⟩ <;> decide +kernel

theorem toInteger_of_lt {n : ℤ} (hn : -2 ^ 63 ≤ n) (hlt : n < 2 ^ 63) : binary64.toInteger n = n :=
  if_pos ⟨hn, hlt⟩

variable {a : Args} (hburst : a.burst ≤ 2 ^ 53 + 2)
include hburst

theorem take_available_le (h : Hash) :
    binary64.take (binary64.available a h) ≤ 2 ^ 53 := by
  have hle : (a.burst : ℚ) ≤ 2 ^ 53 + 2 := by exact_mod_cast hburst
  have havailable : binary64.available a h ≤ 2 ^ 53 + 2 :=
    (min_le_left _ _).trans (binary64.fl_le binary64_beyond.2.1 hle)
  unfold Rounding.take
  split_ifs with hone
  · exact (binary64.mono (by linarith)).trans_eq binary64_beyond.1
  · linarith

theorem remaining_of_allowed {h : Hash} (hone : 1 ≤ binary64.available a h) :
    (binary64.replyOf a h).remaining =
        ⌊binary64.take (binary64.available a h)⌋ ∧
      0 ≤ (binary64.replyOf a h).remaining := by
  have htake : binary64.take (binary64.available a h) =
      binary64.fl (binary64.available a h - 1) := if_pos hone
  have hle : ⌊binary64.take (binary64.available a h)⌋ ≤ 2 ^ 53 := by
    have hfloor := (Int.floor_le _).trans (take_available_le hburst h)
    exact_mod_cast hfloor
  have hnonneg : 0 ≤ ⌊binary64.take (binary64.available a h)⌋ :=
    Int.floor_nonneg.mpr (Rounding.take_nonneg (by linarith))
  have hremaining : (binary64.replyOf a h).remaining =
      ⌊binary64.take (binary64.available a h)⌋ := by
    rw [← toInteger_of_lt (n := ⌊binary64.take (binary64.available a h)⌋) (by omega) (by omega),
      htake]
    simp only [Arithmetic.replyOf, if_pos hone]
  exact ⟨hremaining, hnonneg.trans_eq hremaining.symm⟩

theorem lt_remaining_iff (h : Hash) (i : ℕ) :
    (i : ℤ) < (binary64.replyOf a h).remaining ↔
      (i : ℤ) < ⌊binary64.take (binary64.available a h)⌋ := by
  by_cases hone : 1 ≤ binary64.available a h
  · rw [(remaining_of_allowed hburst hone).1]
  · have hnone : ¬0 < ⌊binary64.available a h⌋ := fun hpos => hone (Int.floor_pos.mp hpos)
    rw [Rounding.take_of_not_le hone]
    simp only [Arithmetic.replyOf, if_neg hone]
    omega

theorem remaining_le_burst {h : Hash} (hone : 1 ≤ binary64.available a h) :
    (binary64.replyOf a h).remaining ≤ a.burst - 1 := by
  have htake : binary64.take (binary64.available a h) =
      binary64.fl (binary64.available a h - 1) := if_pos hone
  have hcap : binary64.available a h ≤ binary64.fl a.burst := min_le_left _ _
  have hpos : 1 ≤ a.burst := by
    by_contra hneg
    have hle : (a.burst : ℚ) ≤ 0 := by exact_mod_cast (by omega : a.burst ≤ 0)
    have := binary64.fl_le binary64.fl_zero hle
    linarith
  rw [(remaining_of_allowed hburst hone).1, ← Int.cast_le (R := ℚ)]
  refine (Int.floor_le _).trans ?_
  push_cast
  rcases le_or_gt a.burst (2 ^ 53) with hsmall | hlarge
  · have hfix : binary64.fl ((a.burst - 1 : ℤ) : ℚ) = ((a.burst - 1 : ℤ) : ℚ) :=
      Go.float64_fl_intCast (by omega) (by omega)
    have hsame : binary64.fl a.burst = a.burst := Go.float64_fl_intCast (by omega) hsmall
    push_cast at hfix
    rw [hsame] at hcap
    rw [htake]
    exact binary64.fl_le hfix (by linarith)
  · have hbeyond : (2 ^ 53 : ℚ) + 1 ≤ a.burst := by exact_mod_cast hlarge
    exact (take_available_le hburst h).trans (by linarith)

end Small

theorem kept_of_found {clock : ℤ} {key : κ} (h : (db.find clock key).isSome = true) : (db key).isSome = true := by
  obtain ⟨s, hs⟩ := Option.isSome_iff_exists.mp h
  rw [(Keyspace.find_eq_some.mp hs).1]
  rfl

def Solvent (db : Redis κ) : Prop := ∀ key s, db key = some s → ∀ x, s.value .tokens = some x → 0 ≤ x

theorem solvent_empty : Solvent (Keyspace.empty : Redis κ) := by
  intro key s hs
  exact absurd hs (by simp [Keyspace.empty])

theorem Solvent.available_nonneg (h : Solvent db) (hrate : 0 < N.fl c.args.rate) (hburst : 0 ≤ c.args.burst) :
    0 ≤ N.available c.args (hmget db c.clock c.key) := by
  have hcap : 0 ≤ N.fl c.args.burst := N.fl_nonneg (by exact_mod_cast hburst)
  have htokens : 0 ≤ ((hmget db c.clock c.key) .tokens).getD (N.fl c.args.burst) := by
    cases hfind : db.find c.clock c.key with
    | none =>
      rw [hmget_of_find_none hfind]
      exact hcap
    | some s =>
      rw [hmget_of_find_some hfind]
      cases hx : s.value .tokens with
      | none => exact hcap
      | some x => exact h c.key s (Keyspace.find_eq_some.mp hfind).1 x hx
  have hspan : 0 ≤ N.fl (N.fl c.args.now - min (N.fl c.args.now) (N.fl (((hmget db c.clock c.key) .last).getD 0))) :=
    N.fl_nonneg (sub_nonneg.mpr (min_le_left _ _))
  exact le_min hcap (N.fl_nonneg (add_nonneg (N.fl_nonneg htokens) (N.fl_nonneg (mul_nonneg hrate.le hspan))))

variable [DecidableEq κ]

section After
variable (hrate : 0 < N.fl c.args.rate)
include hrate

theorem slot_after : (N.script.step db c).2 c.key = N.slotAfter c.args c.clock db c.key := by
  rw [script_step_in hrate]
  exact Keyspace.write_self ..

theorem stored_after (hkept : ((N.script.step db c).2 c.key).isSome = true) :
    N.stored (N.script.step db c).2 c.key =
      some ⟨N.take (N.available c.args (hmget db c.clock c.key)), N.fl c.args.now⟩ := by
  rw [slot_after hrate] at hkept
  obtain ⟨s, hs⟩ := Option.isSome_iff_exists.mp hkept
  rw [script_step_in hrate]
  exact stored_write_in hs

theorem found_after (hclock : c.clock < N.expireInstant c.args) :
    ((N.script.step db c).2.find c.clock c.key).isSome = true := by
  have hslot : ∃ s, N.slotAfter c.args c.clock db c.key = some s ∧ s.live c.clock = true := by
    unfold Arithmetic.slotAfter
    by_cases hneeds : N.needsExpire c.args (hmget db c.clock c.key)
    · rw [if_pos hneeds, if_neg (not_le.mpr hclock)]
      exact ⟨_, rfl, decide_eq_true hclock⟩
    · rw [if_neg hneeds]
      exact ⟨_, rfl, Keyspace.live_of_find⟩
  obtain ⟨s, hs, hlive⟩ := hslot
  rw [Keyspace.find_eq_some.mpr ⟨(slot_after hrate).trans hs, hlive⟩]
  rfl

theorem along_noExpiry_standing (hclock : c.clock < N.expireInstant c.args) (n : ℕ) :
    N.script.Along N.NoExpiry (N.script.step db c).2 (List.replicate n c) := by
  induction n generalizing db with
  | zero => trivial
  | succ n ih =>
    have hfound : ((N.script.step db c).2.find c.clock c.key).isSome = true := found_after hrate hclock
    refine ⟨⟨hfound.trans (kept_of_found hfound).symm, ?_⟩, ih⟩
    exact kept_of_found (found_after hrate hclock)

theorem outputs_again (hkept : ((N.script.step db c).2 c.key).isSome = true) {now : ℤ} (hlater : c.args.now ≤ now)
    {clocks : List ℤ} (hn : N.script.Along N.NoExpiry (N.script.step db c).2 (clocks.map (c.again now))) :
    (N.script.outputs (N.script.step db c).2 (clocks.map (c.again now))).map (fun r => decide (r.allowed = 1)) =
      N.tokenBucket.outputs (some ⟨N.take (N.available c.args (hmget db c.clock c.key)), N.fl c.args.now⟩)
        (List.replicate clocks.length ⟨N.fl c.args.burst, N.fl c.args.rate, N.fl now⟩) := by
  have hstored := stored_after hrate hkept
  have hkey : ∀ c' ∈ clocks.map (c.again now), c'.key = c.key ∧ 0 < N.fl c'.args.rate := by
    intro c' hc'
    obtain ⟨clock, -, rfl⟩ := List.mem_map.mp hc'
    exact ⟨rfl, hrate⟩
  have hnow : ∀ c' ∈ clocks.map (c.again now), c'.args.now = now := by
    intro c' hc'
    obtain ⟨clock, -, rfl⟩ := List.mem_map.mp hc'
    rfl
  have hordered : N.script.Along (N.Ordered c.key) (N.script.step db c).2 (clocks.map (c.again now)) := by
    refine along_ordered hkey ?_ ?_
    · refine List.pairwise_of_forall_mem_list ?_
      intro c₁ h₁ c₂ h₂
      rw [hnow c₁ h₁, hnow c₂ h₂]
    · intro b hb c' hc'
      rw [hstored] at hb
      rw [← Option.some.inj hb, hnow c' hc']
      exact N.mono (Int.cast_le.mpr hlater)
  have hfields : HasFields (N.script.step db c).2 c.key := by
    rw [script_step_in hrate]
    exact hasFields_write c.args c.clock db c.key
  have hdemands : (clocks.map (c.again now)).map N.demand =
      List.replicate clocks.length ⟨N.fl c.args.burst, N.fl c.args.rate, N.fl now⟩ := by
    have hsame : N.demand ∘ c.again now = fun _ => ⟨N.fl c.args.burst, N.fl c.args.rate, N.fl now⟩ := rfl
    rw [List.map_map, hsame, List.map_const']
  rw [script_outputs_eq_in (along_of_noExpiry hordered hn) hfields, hstored, hdemands]

end After

section Exactly
variable (hrate : 0 < c.args.rate)
include hrate

theorem available_next {clock : ℤ} (hfound : ((script.step db c).2.find clock c.key).isSome = true) (a : Args) :
    available a (hmget (script.step db c).2 clock c.key) =
      level ⟨(a.burst : ℚ), a.rate, ((max a.now c.args.now : ℤ) : ℚ)⟩
        (some ⟨take (available c.args (hmget db c.clock c.key)), c.args.now⟩) := by
  obtain ⟨s, hs⟩ := Option.isSome_iff_exists.mp hfound
  have hslot : slotAfter c.args c.clock db c.key = some s := by
    rw [slotAfter, ← slot_after hrate]
    exact (Keyspace.find_eq_some.mp hs).1
  have hvalue : s.value = written c.args (hmget db c.clock c.key) := slotAfter_value hslot
  have hspan : (a.now : ℚ) - min (a.now : ℚ) c.args.now = max (a.now : ℚ) c.args.now - c.args.now := by
    have hsum := min_add_max (a.now : ℚ) c.args.now
    linarith
  rw [hmget_of_find_some hs, hvalue, level, Int.cast_max, ← hspan]
  rfl

theorem available_after {clock : ℤ} (hfound : ((script.step db c).2.find clock c.key).isSome = true) {a : Args}
    (ha : c.args.now ≤ a.now) :
    available a (hmget (script.step db c).2 clock c.key) =
      level ⟨(a.burst : ℚ), a.rate, a.now⟩
        (some ⟨take (available c.args (hmget db c.clock c.key)), c.args.now⟩) := by
  rw [available_next hrate hfound, max_eq_left ha]

end Exactly

/-- **The retry value is exact.** A denied call names at least one microsecond; as long as the key is there, the
same call is allowed that long after the denied one and at no time before. -/
theorem retry_after_exact (hrate : 0 < c.args.rate) (hburst : 1 ≤ c.args.burst)
    (hdenied : (script.step db c).1.allowed = 0) :
    1 ≤ (script.step db c).1.retryAfter ∧
      ∀ d : ℤ, 0 ≤ d → ∀ clock, ((script.step db c).2.find clock c.key).isSome = true →
        ((script.step (script.step db c).2 (c.again (c.args.now + d) clock)).1.allowed = 1 ↔
          (script.step db c).1.retryAfter ≤ d) := by
  have hreply : (script.step db c).1 = replyOf c.args (hmget db c.clock c.key) := by rw [script_step hrate]
  rw [hreply] at hdenied ⊢
  obtain ⟨hlt, hretry⟩ := replyOf_denied hdenied
  rw [hretry]
  have hone : (1 : ℚ) ≤ c.args.burst := by exact_mod_cast hburst
  have hmissing : 0 < 1 - available c.args (hmget db c.clock c.key) := sub_pos.mpr hlt
  refine ⟨Int.ceil_pos.mpr (div_pos hmissing hrate), ?_⟩
  intro d hd clock hfound
  have hlater : c.args.now ≤ (c.again (c.args.now + d) clock).args.now := by
    change c.args.now ≤ c.args.now + d
    omega
  have hlevel := available_after hrate hfound hlater
  rw [take_of_not_le (not_le.mpr hlt)] at hlevel
  have hagain : 0 < (c.again (c.args.now + d) clock).args.rate := hrate
  rw [script_step hagain, replyOf_allowed]
  change 1 ≤ available _ (hmget _ clock c.key) ↔ _
  rw [hlevel]
  change 1 ≤ level ⟨(c.args.burst : ℚ), c.args.rate, ((c.args.now + d : ℤ) : ℚ)⟩ _ ↔ _
  rw [Int.cast_add]
  exact one_le_level_iff_ceil hone hrate d

theorem retry_after_exact_half_token :
    let c : Call Unit := ⟨(), ⟨1 / 2000000, 1, 10, 8000000⟩, 8000000⟩
    let db := (script.step Keyspace.empty (c.again 7000000 7000000)).2
    (script.step db c).1.allowed = 0 ∧
      ((script.step (script.step db c).2 (c.again 9000000 9000000)).1.allowed = 1 ↔
        (script.step db c).1.retryAfter ≤ 1000000) := by
  intro c db
  have hrate : 0 < c.args.rate := by norm_num [c]
  have hdenied : (script.step db c).1.allowed = 0 := by decide +kernel
  have hfound : ((script.step db c).2.find 9000000 c.key).isSome = true := by decide +kernel
  exact ⟨hdenied, (retry_after_exact hrate (by decide) hdenied).2 1000000 (by norm_num) 9000000 hfound⟩

def FirstAllowed (m : ℤ) (rs : List Reply) : Prop :=
  rs.map (fun r => decide (r.allowed = 1)) = (List.range rs.length).map fun i : ℕ => decide ((i : ℤ) < m)

theorem FirstAllowed.congr {m m' : ℤ} {rs : List Reply} (h : FirstAllowed m rs)
    (hm : ∀ i : ℕ, (i : ℤ) < m ↔ (i : ℤ) < m') : FirstAllowed m' rs := by
  unfold FirstAllowed at h ⊢
  rw [h]
  apply List.map_congr_left
  intro i _
  rw [decide_eq_decide]
  exact hm i

theorem FirstAllowed.forall_iff {m : ℤ} {rs : List Reply} (h : FirstAllowed m rs) (hsome : 0 < rs.length) :
    (∀ r ∈ rs, r.allowed = 1) ↔ (rs.length : ℤ) ≤ m := by
  have hall : (∀ r ∈ rs, r.allowed = 1) ↔ ∀ b ∈ rs.map (fun r => decide (r.allowed = 1)), b = true := by
    simp only [List.mem_map, forall_exists_index, and_imp, forall_apply_eq_imp_iff₂, decide_eq_true_eq]
  have hrange : (∀ b ∈ (List.range rs.length).map (fun i : ℕ => decide ((i : ℤ) < m)), b = true) ↔
      ∀ i < rs.length, (i : ℤ) < m := by
    simp only [List.mem_map, List.mem_range, forall_exists_index, and_imp, forall_apply_eq_imp_iff₂,
      decide_eq_true_eq]
  unfold FirstAllowed at h
  rw [hall, h, hrange]
  constructor
  · intro hlt
    by_contra hmore
    have hlast := hlt m.toNat
    omega
  · intro hle i hi
    omega

theorem firstAllowed_of_noExpiry (hrate : 0 < c.args.rate) (hkept : ((script.step db c).2 c.key).isSome = true)
    {now : ℤ} (hlater : c.args.now ≤ now) {clocks : List ℤ}
    (hn : script.Along NoExpiry (script.step db c).2 (clocks.map (c.again now))) :
    FirstAllowed
      ⌊level ⟨(c.args.burst : ℚ), c.args.rate, now⟩
        (some ⟨take (available c.args (hmget db c.clock c.key)), c.args.now⟩)⌋
      (script.outputs (script.step db c).2 (clocks.map (c.again now))) := by
  have hbucket := outputs_again (N := Arithmetic.exact) hrate hkept hlater hn
  unfold FirstAllowed
  rw [hbucket, Arithmetic.tokenBucket_exact, outputs_standing, Machine.length_outputs, List.length_map]
  rfl

section Remaining
variable (hrate : 0 < c.args.rate)
include hrate

theorem firstAllowed_remaining (hburst : c.args.burst ≤ 2 ^ 53 + 2)
    (hkept : ((binary64.script.step db c).2 c.key).isSome = true) {clocks : List ℤ}
    (hn : binary64.script.Along binary64.NoExpiry (binary64.script.step db c).2
      (clocks.map (c.again c.args.now))) :
    FirstAllowed (binary64.script.step db c).1.remaining
      (binary64.script.outputs (binary64.script.step db c).2
        (clocks.map (c.again c.args.now))) := by
  have hpos := binary64.fl_pos hrate
  have hfix := fl_available (N := binary64) c.args (hmget db c.clock c.key)
  have hcap : binary64.take (binary64.available c.args (hmget db c.clock c.key)) ≤
      binary64.fl c.args.burst := (Rounding.take_le hfix).trans (min_le_left _ _)
  have hsmall := take_available_le hburst (hmget db c.clock c.key)
  have hbucket := outputs_again hpos hkept le_rfl hn
  have hexact : ∀ z, binary64.fl z = z → 1 ≤ z → z ≤ _ → binary64.fl (z - 1) = z - 1 :=
    fun z hz hone hle => binary64_fl_sub_one hz hone (hle.trans hsmall)
  have hstanding := Rounding.outputs_standing (R := binary64.toRounding)
    (d := ⟨binary64.fl c.args.burst, binary64.fl c.args.rate, binary64.fl c.args.now⟩)
    binary64.fl_zero (Rounding.fl_take hfix) hcap hexact clocks.length
  have hfirst : FirstAllowed ⌊binary64.take
      (binary64.available c.args (hmget db c.clock c.key))⌋
        (binary64.script.outputs (binary64.script.step db c).2
          (clocks.map (c.again c.args.now))) := by
    unfold FirstAllowed
    rw [hbucket, hstanding, Machine.length_outputs, List.length_map]
  apply hfirst.congr
  intro i
  rw [script_step_in hpos]
  exact (lt_remaining_iff hburst _ i).symm

theorem allowed_beyond (hburst : 2 ^ 53 + 3 ≤ c.args.burst) (hfresh : db c.key = none)
    (hkept : ((binary64.script.step db c).2 c.key).isSome = true) {clocks : List ℤ}
    (hn : binary64.script.Along binary64.NoExpiry (binary64.script.step db c).2
      (clocks.map (c.again c.args.now))) :
    ∀ r ∈ binary64.script.outputs (binary64.script.step db c).2 (clocks.map (c.again c.args.now)),
      r.allowed = 1 := by
  have hpos := binary64.fl_pos hrate
  have hle : (2 : ℚ) ^ 53 + 3 ≤ c.args.burst := by exact_mod_cast hburst
  have hlarge : (2 : ℚ) ^ 53 + 4 ≤ binary64.fl c.args.burst :=
    binary64_beyond.2.2.symm.trans_le (binary64.mono hle)
  have hfull : binary64.available c.args (hmget db c.clock c.key) = binary64.fl c.args.burst := by
    rw [hmget_of_find_none (Keyspace.find_of_none hfresh c.clock), available_empty_in hpos]
  have hstuck : (2 : ℚ) ^ 53 + 4 ≤ binary64.fl (2 ^ 53 + 4 - 1) := by
    have hsame : (2 : ℚ) ^ 53 + 4 - 1 = 2 ^ 53 + 3 := by norm_num
    rw [hsame, binary64_beyond.2.2]
  have hkeep : (2 : ℚ) ^ 53 + 4 ≤ binary64.take (binary64.fl c.args.burst) := by
    rw [Rounding.take, if_pos (by linarith)]
    exact hstuck.trans (binary64.mono (by linarith))
  have hfix := binary64.fl_fl c.args.burst
  have hbucket := outputs_again hpos hkept le_rfl hn
  rw [hfull, Rounding.outputs_standing_of_stuck (d := ⟨_, _, _⟩) binary64.fl_zero (by norm_num) hstuck
    (Rounding.fl_take hfix) (Rounding.take_le hfix) hkeep] at hbucket
  intro r hr
  have hmem : decide (r.allowed = 1) ∈ List.replicate clocks.length true := by
    rw [← hbucket]
    exact List.mem_map_of_mem hr
  exact of_decide_eq_true (List.eq_of_mem_replicate hmem)

end Remaining

/-- **The remaining value is exact**, up to the size at which the doubles begin to skip integers. An allowed call leaves
less than the burst; of any number of calls that follow with the same timestamp, exactly the first so many are allowed,
if they find the key that the call has left. They do if Redis executes all of them at one instant, before the expiry
that the call would set. With a burst beyond that size a fresh bucket never runs out. -/
theorem remaining_exact (hrate : 0 < c.args.rate) :
    (c.args.burst ≤ 2 ^ 53 + 2 →
      ((binary64.script.step db c).1.allowed = 1 →
        0 ≤ (binary64.script.step db c).1.remaining ∧ (binary64.script.step db c).1.remaining ≤ c.args.burst - 1) ∧
      (∀ clocks : List ℤ, ((binary64.script.step db c).2 c.key).isSome = true →
        binary64.script.Along binary64.NoExpiry (binary64.script.step db c).2 (clocks.map (c.again c.args.now)) →
          FirstAllowed (binary64.script.step db c).1.remaining
            (binary64.script.outputs (binary64.script.step db c).2 (clocks.map (c.again c.args.now)))) ∧
      (c.clock < binary64.expireInstant c.args → ∀ n : ℕ,
        FirstAllowed (binary64.script.step db c).1.remaining
          (binary64.script.outputs (binary64.script.step db c).2 (List.replicate n c)))) ∧
    (2 ^ 53 + 3 ≤ c.args.burst → db c.key = none → c.clock < binary64.expireInstant c.args → ∀ n : ℕ,
      ∀ r ∈ binary64.script.outputs (binary64.script.step db c).2 (List.replicate n c), r.allowed = 1) := by
  have hpos : 0 < binary64.fl c.args.rate := binary64.fl_pos hrate
  have hcalls : ∀ n : ℕ, List.replicate n c = (List.replicate n c.clock).map (c.again c.args.now) := by
    intro n
    rw [List.map_replicate]
    rfl
  have halong : c.clock < binary64.expireInstant c.args → ∀ n : ℕ,
      binary64.script.Along binary64.NoExpiry (binary64.script.step db c).2
        ((List.replicate n c.clock).map (c.again c.args.now)) := by
    intro hclock n
    rw [← hcalls n]
    exact along_noExpiry_standing hpos hclock n
  refine ⟨fun hburst => ⟨?_, ?_, ?_⟩, ?_⟩
  · intro hallowed
    rw [script_step_in hpos] at hallowed ⊢
    have hone := (Arithmetic.replyOf_allowed _ _).mp hallowed
    exact ⟨(remaining_of_allowed hburst hone).2, remaining_le_burst hburst hone⟩
  · intro clocks hkept hn
    exact firstAllowed_remaining hrate hburst hkept hn
  · intro hclock n
    rw [hcalls n]
    exact firstAllowed_remaining hrate hburst (kept_of_found (found_after hpos hclock)) (halong hclock n)
  · intro hburst hfresh hclock n
    rw [hcalls n]
    exact allowed_beyond hrate hburst hfresh (kept_of_found (found_after hpos hclock)) (halong hclock n)

theorem remaining_exact_two_left :
    let N := binary64
    let c : Call Unit := ⟨(), ⟨1 / 2000000, 3, 10, 7000000⟩, 7000000⟩
    (N.script.step Keyspace.empty c).1.remaining = 2 ∧
      FirstAllowed 2 (N.script.outputs (N.script.step Keyspace.empty c).2 (List.replicate 5 c)) := by
  intro N c
  have hrate : 0 < c.args.rate := by norm_num [c]
  have hremaining : (N.script.step Keyspace.empty c).1.remaining = 2 := by decide +kernel
  refine ⟨hremaining, ?_⟩
  rw [← hremaining]
  exact ((remaining_exact hrate).1 (by decide)).2.2 (by decide +kernel) 5

/-- A burst from which one token less is the same double: the call reports the whole burst as remaining, and Redis
stores it again. -/
theorem remaining_never_less :
    let N := binary64
    let c : Call Unit := ⟨(), ⟨1 / 1000000, 10 ^ 17, 10, 7000000⟩, 7000000⟩
    (N.script.step Keyspace.empty c).1 = ⟨1, 0, 10 ^ 17, 10 ^ 17, 0⟩ ∧
      (N.stored (N.script.step Keyspace.empty c).2 ()).map Bucket.tokens = some (10 ^ 17) ∧
      (N.script.step (N.script.step Keyspace.empty c).2 c).1 = ⟨1, 0, 10 ^ 17, 10 ^ 17, 0⟩ := by
  refine ⟨?_, ?_, ?_⟩ <;> decide +kernel

/-- The tokens that the key of a call holds `d` microseconds after the call, for a call that Redis executes when its
clock shows `clock`. -/
def held (db : Redis κ) (c : Call κ) (d clock : ℤ) : ℚ :=
  available (c.again (c.args.now + d) clock).args (hmget (script.step db c).2 clock c.key)

/-- There is no token to take, or with the rounding up to whole microseconds the time to the burst earns one more. -/
def Refilled (db : Redis κ) (c : Call κ) : Prop :=
  let x := available c.args (hmget db c.clock c.key)
  x < 1 ∨ c.args.burst + 1 ≤ x + c.args.rate * ⌈((c.args.burst : ℚ) - x) / c.args.rate⌉

instance (db : Redis κ) (c : Call κ) : Decidable (Refilled db c) := inferInstanceAs (Decidable (_ ∨ _))

theorem resetAfter_eq_in (hrate : 0 < N.fl c.args.rate) (hzero : N.toInteger 0 = 0) :
    (N.script.step db c).1.resetAfter = N.toInteger
      ⌈N.fl (N.fl (N.fl c.args.burst - N.available c.args (hmget db c.clock c.key)) / N.fl c.args.rate)⌉ := by
  have hle : N.available c.args (hmget db c.clock c.key) ≤ N.fl c.args.burst := min_le_left _ _
  have hreset : (N.replyOf c.args (hmget db c.clock c.key)).resetAfter =
      N.toInteger (if N.available c.args (hmget db c.clock c.key) < N.fl c.args.burst then
        ⌈N.fl (N.fl (N.fl c.args.burst - N.available c.args (hmget db c.clock c.key)) / N.fl c.args.rate)⌉ else 0) := by
    unfold Arithmetic.replyOf
    by_cases hone : 1 ≤ N.available c.args (hmget db c.clock c.key)
    · simp only [if_pos hone]
    · simp only [if_neg hone]
  rw [script_step_in hrate, hreset]
  by_cases hlt : N.available c.args (hmget db c.clock c.key) < N.fl c.args.burst
  · rw [if_pos hlt]
  · have heq : N.available c.args (hmget db c.clock c.key) = N.fl c.args.burst := le_antisymm hle (not_lt.mp hlt)
    rw [if_neg hlt, heq, sub_self, N.fl_zero, zero_div, N.fl_zero, Int.ceil_zero, hzero]

theorem resetAfter_eq (hrate : 0 < c.args.rate) :
    (script.step db c).1.resetAfter =
      ⌈((c.args.burst : ℚ) - available c.args (hmget db c.clock c.key)) / c.args.rate⌉ := resetAfter_eq_in hrate rfl

theorem resetAfter_nonneg (hrate : 0 < c.args.rate) : 0 ≤ (script.step db c).1.resetAfter := by
  have hle : available c.args (hmget db c.clock c.key) ≤ c.args.burst := min_le_left _ _
  rw [resetAfter_eq hrate]
  exact Int.ceil_nonneg (div_nonneg (sub_nonneg.mpr hle) hrate.le)

theorem level_reset_eq_iff (hrate : 0 < c.args.rate) :
    level ⟨(c.args.burst : ℚ), c.args.rate, ((c.args.now + (script.step db c).1.resetAfter : ℤ) : ℚ)⟩
        (some ⟨take (available c.args (hmget db c.clock c.key)), c.args.now⟩) = c.args.burst ↔
      Refilled db c := by
  rw [Int.cast_add, level_eq_cap_iff_ceil hrate, Int.ceil_le, div_le_iff₀ hrate, resetAfter_eq hrate]
  unfold Refilled
  by_cases hone : 1 ≤ available c.args (hmget db c.clock c.key)
  · rw [take_of_le hone, mul_comm]
    constructor
    · intro h
      exact Or.inr (by linarith)
    · rintro (h | h)
      · exact absurd hone (not_le.mpr h)
      · linarith
  · -- nothing was taken, so the reported time is the time to the burst
    have hceil := Int.le_ceil (((c.args.burst : ℚ) - available c.args (hmget db c.clock c.key)) / c.args.rate)
    rw [div_le_iff₀ hrate] at hceil
    rw [take_of_not_le hone]
    exact ⟨fun _ => Or.inl (not_le.mp hone), fun _ => hceil⟩

theorem held_reset (hrate : 0 < c.args.rate) {clock : ℤ}
    (hfound : ((script.step db c).2.find clock c.key).isSome = true) :
    held db c (script.step db c).1.resetAfter clock = c.args.burst ↔ Refilled db c := by
  have hnonneg : 0 ≤ (script.step db c).1.resetAfter := resetAfter_nonneg hrate
  have hlater : c.args.now ≤ (c.again (c.args.now + (script.step db c).1.resetAfter) clock).args.now := by
    change c.args.now ≤ c.args.now + (script.step db c).1.resetAfter
    omega
  unfold held
  rw [available_after hrate hfound hlater, ← level_reset_eq_iff hrate]
  rfl

section Full
variable (hrate : 0 < c.args.rate) (hburst : 1 ≤ c.args.burst)
include hrate hburst

theorem held_lt {d : ℤ} (hd : d < (script.step db c).1.resetAfter) {clock : ℤ}
    (hfound : ((script.step db c).2.find clock c.key).isSome = true) : held db c d clock < c.args.burst := by
  have hreset : (script.step db c).1.resetAfter ≤
      ⌈((c.args.burst : ℚ) - take (available c.args (hmget db c.clock c.key))) / c.args.rate⌉ := by
    rw [resetAfter_eq hrate]
    apply Int.ceil_mono
    gcongr
    exact take_le _
  have hpos : 0 < ⌈((c.args.burst : ℚ) - take (available c.args (hmget db c.clock c.key))) / c.args.rate⌉ :=
    Int.ceil_pos.mpr (div_pos (sub_pos.mpr (take_available_lt hburst _)) hrate)
  have hlate : max (c.args.now + d) c.args.now = c.args.now + max d 0 := by omega
  unfold held
  rw [available_next hrate hfound]
  change level ⟨(c.args.burst : ℚ), c.args.rate, ((max (c.args.now + d) c.args.now : ℤ) : ℚ)⟩ _ < _
  rw [hlate, Int.cast_add]
  refine lt_of_le_of_ne (level_le_cap _ _) ?_
  intro hfull
  have hceil := (level_eq_cap_iff_ceil hrate _).mp hfull
  omega

theorem allowed_reset (hkept : ((script.step db c).2 c.key).isSome = true) {clocks : List ℤ}
    (hlength : (clocks.length : ℤ) = c.args.burst)
    (hn : script.Along NoExpiry (script.step db c).2
      (clocks.map (c.again (c.args.now + (script.step db c).1.resetAfter)))) :
    (∀ r ∈ script.outputs (script.step db c).2
        (clocks.map (c.again (c.args.now + (script.step db c).1.resetAfter))), r.allowed = 1) ↔ Refilled db c := by
  have hnonneg : 0 ≤ (script.step db c).1.resetAfter := resetAfter_nonneg hrate
  have hfirst := firstAllowed_of_noExpiry hrate hkept (by omega) hn
  rw [← level_reset_eq_iff hrate]
  set L := level ⟨(c.args.burst : ℚ), c.args.rate, ((c.args.now + (script.step db c).1.resetAfter : ℤ) : ℚ)⟩
    (some ⟨take (available c.args (hmget db c.clock c.key)), c.args.now⟩) with hL
  set rs := script.outputs (script.step db c).2
    (clocks.map (c.again (c.args.now + (script.step db c).1.resetAfter))) with hrs
  have hlen : rs.length = clocks.length := by rw [hrs, Machine.length_outputs, List.length_map]
  have hcap : L ≤ c.args.burst := level_le_cap _ _
  have hfull : L = c.args.burst ↔ c.args.burst ≤ ⌊L⌋ := by
    rw [Int.le_floor]
    exact ⟨fun h => h.ge, fun h => le_antisymm hcap h⟩
  rw [hfull, hfirst.forall_iff (by omega), hlen, hlength]

end Full

/-- **The reset value is when the bucket would have been full, had the call taken nothing.** Before that time the bucket
is never full. At that time it is full, and as many further calls as the burst are allowed, exactly if the call was
denied or the rounding of the reported time to whole microseconds has earned the token that the call has taken. -/
theorem reset_after_full_iff (hrate : 0 < c.args.rate) (hburst : 1 ≤ c.args.burst) :
    (∀ clock, ((script.step db c).2.find clock c.key).isSome = true →
        (held db c (script.step db c).1.resetAfter clock = c.args.burst ↔ Refilled db c)) ∧
      (∀ clocks : List ℤ, (clocks.length : ℤ) = c.args.burst → ((script.step db c).2 c.key).isSome = true →
        script.Along NoExpiry (script.step db c).2
          (clocks.map (c.again (c.args.now + (script.step db c).1.resetAfter))) →
        ((∀ r ∈ script.outputs (script.step db c).2
          (clocks.map (c.again (c.args.now + (script.step db c).1.resetAfter))), r.allowed = 1) ↔ Refilled db c)) ∧
      ∀ d < (script.step db c).1.resetAfter, ∀ clock, ((script.step db c).2.find clock c.key).isSome = true →
        held db c d clock < c.args.burst := by
  refine ⟨?_, ?_, ?_⟩
  · intro clock hfound
    exact held_reset hrate hfound
  · intro clocks hlength hkept hn
    exact allowed_reset hrate hburst hkept hlength hn
  · intro d hd clock hfound
    exact held_lt hrate hburst hd hfound

theorem reset_after_full_iff_denied :
    let c : Call Unit := ⟨(), ⟨1 / 1000000, 2, 10, 8000000⟩, 8000000⟩
    let db := script.run Keyspace.empty [c, c]
    (script.step db c).1 = ⟨0, 1000000, 0, 2, 2000000⟩ ∧ held db c 2000000 10000000 = 2 := by
  intro c db
  have hreply : (script.step db c).1 = ⟨0, 1000000, 0, 2, 2000000⟩ := by decide +kernel
  have hrate : 0 < c.args.rate := by norm_num [c]
  have hfound : ((script.step db c).2.find 10000000 c.key).isSome = true := by decide +kernel
  have hrefilled : Refilled db c := by decide +kernel
  have hfull := ((reset_after_full_iff hrate (by decide)).1 10000000 hfound).mpr hrefilled
  rw [hreply] at hfull
  exact ⟨hreply, hfull⟩

/-- An allowed call: one token is missing when the second that its reply names is over, and of two calls at that time
one is denied. -/
theorem reset_after_token_short :
    let c : Call Unit := ⟨(), ⟨1 / 1000000, 2, 10, 8000000⟩, 8000000⟩
    let db := script.run Keyspace.empty [c]
    let again := c.again 9000000 9000000
    (script.step db c).1 = ⟨1, 0, 0, 2, 1000000⟩ ∧ held db c 1000000 9000000 = 1 ∧
      script.Along NoExpiry (script.step db c).2 [again, again] ∧
      (script.outputs (script.step db c).2 [again, again]).map Reply.allowed = [1, 0] ∧ ¬Refilled db c := by
  intro c db again
  refine ⟨?_, ?_, ?_, ?_, ?_⟩ <;> decide +kernel

theorem Solvent.step (h : Solvent db) (hburst : 0 ≤ c.args.burst) : Solvent (N.script.step db c).2 := by
  by_cases hrate : 0 < N.fl c.args.rate
  · intro key s hs x hx
    rw [script_step_in hrate] at hs
    change db.write c.key (N.slotAfter c.args c.clock db c.key) key = some s at hs
    by_cases hkey : key = c.key
    · subst hkey
      rw [Keyspace.write_self] at hs
      rw [slotAfter_value hs] at hx
      rw [← Option.some.inj hx]
      exact Rounding.take_nonneg (h.available_nonneg hrate hburst)
    · rw [Keyspace.write_of_ne hkey] at hs
      exact h key s hs x hx
  · have hsame : (N.script.step db c).2 = db :=
      congrArg Prod.snd (Arithmetic.rateLimitLua_disabled c.key (not_lt.mp hrate) c.clock db)
    rw [hsame]
    exact h

end EdgeQuota.RateLimit
