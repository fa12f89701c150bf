import EdgeQuota.RateLimit.Script

/-! Runs of script calls. As long as no call meets an expired key whose refill would have been incomplete, the calls on
one key are the demands on one abstract token bucket, in the arithmetic of the script. -/

namespace EdgeQuota.RateLimit
open Lib TokenBucket

/-- A script call: the key, the caller's arguments, and Redis's clock when it executes. -/
structure Call (κ : Type*) where
  key : κ
  args : Args
  clock : ℤ

def isAllowed {κ : Type*} (_ : Call κ) (r : Reply) : Bool := decide (r.allowed = 1)

def HasFields {κ : Type*} (db : Redis κ) (key : κ) : Prop :=
  ∀ s, db key = some s → (s.value .tokens).isSome = true ∧ (s.value .last).isSome = true

namespace Arithmetic
variable {κ : Type*}

def demand (N : Arithmetic) (c : Call κ) : Demand ℚ := ⟨N.fl c.args.burst, N.fl c.args.rate, N.fl c.args.now⟩

def stored (N : Arithmetic) (db : Redis κ) (key : κ) : Option (Bucket ℚ) :=
  (db key).map fun s => ⟨N.fl ((s.value .tokens).getD 0), N.fl ((s.value .last).getD 0)⟩

def Ordered (N : Arithmetic) (key : κ) (db : Redis κ) (c : Call κ) : Prop :=
  c.key = key ∧ 0 < N.fl c.args.rate ∧ ∀ b, N.stored db key = some b → b.last ≤ N.fl c.args.now

def Refines (N : Arithmetic) (key : κ) (db : Redis κ) (s : Option (Bucket ℚ)) : Prop :=
  HasFields db key ∧ N.stored db key = s

abbrev tokenBucket (N : Arithmetic) : Machine (Option (Bucket ℚ)) (Demand ℚ) Bool := N.bucket N.fl

theorem tokenBucket_exact : exact.tokenBucket = bucket := Rounding.bucket_exact

variable [DecidableEq κ]

def script (N : Arithmetic) : Machine (Redis κ) (Call κ) Reply where
  step db c := N.rateLimitLua c.key c.args c.clock db

def Harmless (N : Arithmetic) (key : κ) (db : Redis κ) (c : Call κ) : Prop :=
  (db.find c.clock key = none → ∀ b, N.stored db key = some b →
    N.fl c.args.burst ≤ N.fl (b.tokens + N.fl (N.fl c.args.rate * N.fl (N.fl c.args.now - b.last)))) ∧
  (N.slotAfter c.args c.clock db key).isSome = true

/-- The call finds its key as the previous call left it and leaves it in place. -/
def NoExpiry (N : Arithmetic) (db : Redis κ) (c : Call κ) : Prop :=
  (db.find c.clock c.key).isSome = (db c.key).isSome ∧ ((N.script.step db c).2 c.key).isSome = true

instance (N : Arithmetic) (db : Redis κ) (c : Call κ) : Decidable (N.NoExpiry db c) :=
  inferInstanceAs (Decidable (_ ∧ _))

end Arithmetic

section Exact
variable {κ : Type*}

def inWindow (s t : ℚ) (c : Call κ) (r : Reply) : Bool :=
  decide (r.allowed = 1) && decide (s ≤ c.args.now) && decide ((c.args.now : ℚ) ≤ t)

abbrev demand (c : Call κ) : Demand ℚ := Arithmetic.exact.demand c

theorem demand_eq (c : Call κ) : demand c = ⟨(c.args.burst : ℚ), c.args.rate, (c.args.now : ℚ)⟩ := rfl

abbrev stored (db : Redis κ) (key : κ) : Option (Bucket ℚ) := Arithmetic.exact.stored db key

theorem stored_eq (db : Redis κ) (key : κ) :
    stored db key = (db key).map fun s => ⟨(s.value .tokens).getD 0, (s.value .last).getD 0⟩ := rfl

abbrev Ordered (key : κ) (db : Redis κ) (c : Call κ) : Prop := Arithmetic.exact.Ordered key db c

abbrev Refines (key : κ) (db : Redis κ) (s : Option (Bucket ℚ)) : Prop := Arithmetic.exact.Refines key db s

variable [DecidableEq κ]

abbrev script : Machine (Redis κ) (Call κ) Reply := Arithmetic.exact.script

abbrev Harmless (key : κ) (db : Redis κ) (c : Call κ) : Prop := Arithmetic.exact.Harmless key db c

abbrev NoExpiry (db : Redis κ) (c : Call κ) : Prop := Arithmetic.exact.NoExpiry db c

end Exact

section Step
variable {κ : Type*} {N : Arithmetic}

theorem hmget_of_find_none {db : Redis κ} {clock : ℤ} {key : κ} (h : db.find clock key = none) :
    hmget db clock key = fun _ => none := by
  simp only [hmget, Keyspace.get, h, Option.map_none, Option.getD_none]

theorem hmget_of_find_some {db : Redis κ} {clock : ℤ} {key : κ} {s : Slot Hash ℤ}
    (h : db.find clock key = some s) : hmget db clock key = s.value := by
  simp only [hmget, Keyspace.get, h, Option.map_some, Option.getD_some]

theorem slotAfter_value {a : Args} {clock : ℤ} {db : Redis κ} {key : κ} {s : Slot Hash ℤ}
    (h : N.slotAfter a clock db key = some s) : s.value = N.written a (hmget db clock key) := by
  unfold Arithmetic.slotAfter at h
  split_ifs at h <;> rw [← Option.some.inj h]

theorem fl_available (a : Args) (h : Hash) : N.fl (N.available a h) = N.available a h :=
  N.fl_min (N.fl_fl _) (N.fl_fl _)

theorem available_empty_in {a : Args} (hr : 0 < N.fl a.rate) : N.available a (fun _ => none) = N.fl a.burst := by
  have hle : min (N.fl a.now) (N.fl 0) ≤ N.fl a.now := min_le_left _ _
  have hspan : 0 ≤ N.fl (N.fl a.now - min (N.fl a.now) (N.fl 0)) := N.fl_nonneg (sub_nonneg.mpr hle)
  have hearned := N.fl_nonneg (mul_nonneg hr.le hspan)
  simp only [Arithmetic.available, Option.getD_none, N.fl_fl]
  exact min_eq_left (N.le_fl (N.fl_fl _) (by linarith))

theorem available_empty {a : Args} (hr : 0 < a.rate) : available a (fun _ => none) = a.burst := available_empty_in hr

theorem available_stored_in {a : Args} {s : Slot Hash ℤ} {b : Bucket ℚ}
    (hb : b = ⟨N.fl ((s.value .tokens).getD 0), N.fl ((s.value .last).getD 0)⟩)
    (hf : (s.value .tokens).isSome = true ∧ (s.value .last).isSome = true) (ho : b.last ≤ N.fl a.now) :
    N.available a s.value = N.level N.fl ⟨N.fl a.burst, N.fl a.rate, N.fl a.now⟩ (some b) := by
  obtain ⟨x, hx⟩ := Option.isSome_iff_exists.mp hf.1
  obtain ⟨l, hl⟩ := Option.isSome_iff_exists.mp hf.2
  subst hb
  simp only [hl, Option.getD_some] at ho
  simp only [Arithmetic.available, Rounding.level, hx, hl, Option.getD_some, min_eq_right ho]

theorem available_stored {a : Args} {s : Slot Hash ℤ} {b : Bucket ℚ}
    (hb : b = ⟨(s.value .tokens).getD 0, (s.value .last).getD 0⟩)
    (hf : (s.value .tokens).isSome = true ∧ (s.value .last).isSome = true) (ho : b.last ≤ a.now) :
    available a s.value = level (⟨a.burst, a.rate, a.now⟩ : Demand ℚ) (some b) := available_stored_in hb hf ho

theorem available_eq_level_in {key : κ} {db : Redis κ} {c : Call κ} (hf : HasFields db key)
    (ho : N.Ordered key db c) (hh : N.Harmless key db c) :
    N.available c.args (hmget db c.clock key) = N.level N.fl (N.demand c) (N.stored db key) := by
  obtain ⟨-, hr, hlast⟩ := ho
  cases hfind : db.find c.clock key with
  | some s =>
    have hs := (Keyspace.find_eq_some.mp hfind).1
    have hst : N.stored db key = some ⟨N.fl ((s.value .tokens).getD 0), N.fl ((s.value .last).getD 0)⟩ := by
      rw [Arithmetic.stored, hs, Option.map_some]
    rw [hmget_of_find_some hfind, hst]
    exact available_stored_in rfl (hf s hs) (hlast _ hst)
  | none =>
    rw [hmget_of_find_none hfind, available_empty_in hr]
    cases hst : N.stored db key with
    | none => rfl
    | some b => exact (min_eq_left (hh.1 hfind b hst)).symm

variable [DecidableEq κ]

theorem script_step_in {c : Call κ} (hr : 0 < N.fl c.args.rate) (db : Redis κ) :
    N.script.step db c = (N.replyOf c.args (hmget db c.clock c.key),
      db.write c.key (N.slotAfter c.args c.clock db c.key)) := Arithmetic.rateLimitLua_eq c.key hr c.clock db

theorem script_step {c : Call κ} (hr : 0 < c.args.rate) (db : Redis κ) :
    script.step db c = (replyOf c.args (hmget db c.clock c.key),
      db.write c.key (slotAfter c.args c.clock db c.key)) := script_step_in hr db

theorem stored_write_in {db : Redis κ} {key : κ} {a : Args} {clock : ℤ} {s : Slot Hash ℤ}
    (h : N.slotAfter a clock db key = some s) :
    N.stored (db.write key (N.slotAfter a clock db key)) key =
      some ⟨N.take (N.available a (hmget db clock key)), N.fl a.now⟩ := by
  have htokens : N.fl (N.take (N.available a (hmget db clock key))) = N.take (N.available a (hmget db clock key)) :=
    Rounding.fl_take (fl_available _ _)
  have hlast : N.fl (N.fl a.now) = N.fl a.now := N.fl_fl _
  rw [Arithmetic.stored, Keyspace.write_self, h, Option.map_some, slotAfter_value h]
  simp only [Arithmetic.written, Option.getD_some, htokens, hlast]

theorem eq_of_stored_write_in {a : Args} {clock : ℤ} {db : Redis κ} {key : κ} {b : Bucket ℚ}
    (h : N.stored (db.write key (N.slotAfter a clock db key)) key = some b) :
    b = ⟨N.take (N.available a (hmget db clock key)), N.fl a.now⟩ := by
  cases hs : N.slotAfter a clock db key with
  | none =>
    rw [Arithmetic.stored, Keyspace.write_self, hs] at h
    exact absurd h (by simp)
  | some s =>
    rw [stored_write_in hs] at h
    exact (Option.some.inj h).symm

theorem eq_of_stored_write {a : Args} {clock : ℤ} {db : Redis κ} {key : κ} {b : Bucket ℚ}
    (h : stored (db.write key (slotAfter a clock db key)) key = some b) :
    b = ⟨take (available a (hmget db clock key)), a.now⟩ := eq_of_stored_write_in h

theorem hasFields_write (a : Args) (clock : ℤ) (db : Redis κ) (key : κ) :
    HasFields (db.write key (N.slotAfter a clock db key)) key := by
  intro s hs
  rw [Keyspace.write_self] at hs
  rw [slotAfter_value hs]
  exact ⟨rfl, rfl⟩

theorem refines_step {key : κ} {db : Redis κ} {s : Option (Bucket ℚ)} {c : Call κ}
    (hp : N.Ordered key db c ∧ N.Harmless key db c) (hr : N.Refines key db s) :
    N.Refines key (N.script.step db c).2 (N.tokenBucket.step s (N.demand c)).2 := by
  obtain ⟨⟨rfl, hrate, hlast⟩, hh⟩ := hp
  obtain ⟨hf, rfl⟩ := hr
  rw [script_step_in hrate]
  obtain ⟨slot, hslot⟩ := Option.isSome_iff_exists.mp hh.2
  refine ⟨hasFields_write c.args c.clock db c.key, ?_⟩
  rw [stored_write_in hslot, available_eq_level_in hf ⟨rfl, hrate, hlast⟩ hh]
  rfl

theorem allowed_step_in {key : κ} {db : Redis κ} {s : Option (Bucket ℚ)} {c : Call κ}
    (hp : N.Ordered key db c ∧ N.Harmless key db c) (hr : N.Refines key db s) :
    decide ((N.script.step db c).1.allowed = 1) = (N.tokenBucket.step s (N.demand c)).1 := by
  obtain ⟨⟨rfl, hrate, hlast⟩, hh⟩ := hp
  obtain ⟨hf, rfl⟩ := hr
  change _ = decide (1 ≤ N.level N.fl (N.demand c) (N.stored db c.key))
  rw [script_step_in hrate, Bool.eq_iff_iff, decide_eq_true_eq, decide_eq_true_eq, Arithmetic.replyOf_allowed,
    available_eq_level_in hf ⟨rfl, hrate, hlast⟩ hh]

theorem allowed_step {key : κ} {db : Redis κ} {s : Option (Bucket ℚ)} {c : Call κ}
    (hp : Ordered key db c ∧ Harmless key db c) (hr : Refines key db s) :
    decide ((script.step db c).1.allowed = 1) = (bucket.step s (demand c)).1 := by
  rw [allowed_step_in hp hr, Arithmetic.tokenBucket_exact]

end Step

section Runs
variable {κ : Type*} [DecidableEq κ] {N : Arithmetic} {key : κ} {db : Redis κ} {cs : List (Call κ)}

theorem script_run_refines_in (hp : N.script.Along (fun db c => N.Ordered key db c ∧ N.Harmless key db c) db cs)
    (hf : HasFields db key) :
    N.Refines key (N.script.run db cs) (N.tokenBucket.run (N.stored db key) (cs.map N.demand)) :=
  Machine.run_rel (fun _ _ _ => refines_step) hp ⟨hf, rfl⟩

theorem script_run_refines (hp : script.Along (fun db c => Ordered key db c ∧ Harmless key db c) db cs)
    (hf : HasFields db key) :
    Refines key (script.run db cs) (bucket.run (stored db key) (cs.map demand)) := by
  rw [← Arithmetic.tokenBucket_exact]
  exact script_run_refines_in hp hf

theorem script_outputs_eq_in (hp : N.script.Along (fun db c => N.Ordered key db c ∧ N.Harmless key db c) db cs)
    (hf : HasFields db key) :
    (N.script.outputs db cs).map (fun r => decide (r.allowed = 1)) =
      N.tokenBucket.outputs (N.stored db key) (cs.map N.demand) := by
  have h := Machine.outputs_eq (g := fun r : Reply => decide (r.allowed = 1)) (k := id)
    (fun _ _ _ => refines_step) (fun _ _ _ => allowed_step_in) hp
    (show N.Refines key db (N.stored db key) from ⟨hf, rfl⟩)
  rwa [List.map_id] at h

theorem script_outputs_eq (hp : script.Along (fun db c => Ordered key db c ∧ Harmless key db c) db cs)
    (hf : HasFields db key) :
    (script.outputs db cs).map (fun r => decide (r.allowed = 1)) =
      bucket.outputs (stored db key) (cs.map demand) := by
  rw [← Arithmetic.tokenBucket_exact]
  exact script_outputs_eq_in hp hf

theorem script_tally_inWindow (s t : ℚ)
    (hp : script.Along (fun db c => Ordered key db c ∧ Harmless key db c) db cs) (hf : HasFields db key) :
    script.tally (inWindow s t) db cs = bucket.tally (window s t) (stored db key) (cs.map demand) := by
  rw [← Arithmetic.tokenBucket_exact]
  refine Machine.tally_eq (fun _ _ _ => refines_step) (fun db' s' c hp hr => ?_) hp
    (show Refines key db (stored db key) from ⟨hf, rfl⟩)
  rw [inWindow, allowed_step_in hp hr]
  rfl

theorem script_tally_isAllowed
    (hp : N.script.Along (fun db c => N.Ordered key db c ∧ N.Harmless key db c) db cs) (hf : HasFields db key) :
    N.script.tally isAllowed db cs = N.tokenBucket.tally granted (N.stored db key) (cs.map N.demand) := by
  refine Machine.tally_eq (fun _ _ _ => refines_step) (fun db' s' c hp hr => ?_) hp
    (show N.Refines key db (N.stored db key) from ⟨hf, rfl⟩)
  rw [isAllowed, allowed_step_in hp hr]
  rfl

theorem along_ordered (hkey : ∀ c ∈ cs, c.key = key ∧ 0 < N.fl c.args.rate)
    (hs : cs.Pairwise fun a b => a.args.now ≤ b.args.now)
    (h0 : ∀ b, N.stored db key = some b → ∀ c ∈ cs, b.last ≤ N.fl c.args.now) :
    N.script.Along (N.Ordered key) db cs := by
  induction cs generalizing db with
  | nil => trivial
  | cons c cs ih =>
    obtain ⟨⟨rfl, hrate⟩, hkey'⟩ := List.forall_mem_cons.mp hkey
    rw [List.pairwise_cons] at hs
    refine ⟨⟨rfl, hrate, fun b hb => h0 b hb c (List.mem_cons_self ..)⟩, ih hkey' hs.2 ?_⟩
    intro b hb d hd
    rw [script_step_in hrate] at hb
    rw [eq_of_stored_write_in hb]
    exact N.mono (Int.cast_le.mpr (hs.1 d hd))

theorem harmless_of_noExpiry {c : Call κ} (hkey : c.key = key) (hrate : 0 < N.fl c.args.rate)
    (h : N.NoExpiry db c) : N.Harmless key db c := by
  subst hkey
  refine ⟨fun hnone b hb => ?_, ?_⟩
  · rw [Arithmetic.stored, Option.map_eq_some_iff] at hb
    obtain ⟨s, hs, -⟩ := hb
    have hfound := h.1
    rw [hnone, hs] at hfound
    exact absurd hfound (by simp)
  · have hkept := h.2
    rw [script_step_in hrate] at hkept
    simpa only [Keyspace.write_self] using hkept

theorem along_of_noExpiry (ho : N.script.Along (N.Ordered key) db cs) (hn : N.script.Along N.NoExpiry db cs) :
    N.script.Along (fun db c => N.Ordered key db c ∧ N.Harmless key db c) db cs :=
  (ho.and hn).mono fun _ _ h => ⟨h.1, harmless_of_noExpiry h.1.1 h.1.2.1 h.2⟩

end Runs
end EdgeQuota.RateLimit
