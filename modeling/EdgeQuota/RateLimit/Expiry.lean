import EdgeQuota.RateLimit.Envelope
import Mathlib.Tactic.NormNum

/-! Key expiry. The script refreshes the deadline of its key only when the last refresh is
more than half a TTL old, and hands EXPIREAT whole seconds. A key that was last written half
a TTL after its refresh can therefore be gone `ttl / 2 - 0.999999 s` later. -/

namespace EdgeQuota.RateLimit
open Lib TokenBucket

variable {κ : Type*}

structure Limits where
  rate : ℚ
  burst : ℤ
  ttl : ℤ

namespace Limits

def callAt (l : Limits) (key : κ) (offset now : ℤ) : Call κ :=
  ⟨key, ⟨l.rate, l.burst, l.ttl, now⟩, now + offset⟩

def calls (l : Limits) (key : κ) (offset : ℤ) (ts : List ℤ) : List (Call κ) :=
  ts.map (l.callAt key offset)

def half (l : Limits) : ℤ := l.ttl * 500000

theorem one_second_le_half {l : Limits} (ht : 2 ≤ l.ttl) : 1000000 ≤ l.half := by
  unfold half
  omega

def deadline (l : Limits) (refresh : ℤ) : ℤ := (refresh / 1000000 + l.ttl) * 1000000

theorem deadline_ge (l : Limits) (r : ℤ) : r - 999999 + 2 * l.half ≤ l.deadline r := by
  unfold deadline half
  omega

variable {l : Limits} {key : κ} {offset now : ℤ} {db : Redis κ}

theorem needsExpire_iff {h : Hash} {r : ℚ} (hr : (h .lastExpire).getD 0 = r) :
    needsExpire (l.callAt key offset now).args h ↔ (l.half : ℚ) < now - r := by
  rw [RateLimit.needsExpire_iff]
  simp only [callAt, half, hr]
  push_cast
  rfl

theorem expireInstant_eq : expireInstant (l.callAt key offset now).args = l.deadline now :=
  RateLimit.expireInstant_eq _

def At (db : Redis κ) (key : κ) (n : ℤ) (x : ℚ) (refresh : Option ℤ) (d : Option ℤ) : Prop :=
  ∃ s, db key = some s ∧ s.value .last = some (n : ℚ) ∧ s.value .tokens = some x ∧
    s.value .lastExpire = refresh.map (fun r : ℤ => (r : ℚ)) ∧ s.deadline = d

theorem find_of_at {n : ℤ} {x : ℚ} {refresh d : Option ℤ} {clock : ℤ} (h : At db key n x refresh d)
    (hlive : ∀ e, d = some e → clock < e) : ∃ s, db.find clock key = some s ∧
      s.value .last = some (n : ℚ) ∧ s.value .tokens = some x ∧
      s.value .lastExpire = refresh.map (fun r : ℤ => (r : ℚ)) ∧ s.deadline = d := by
  obtain ⟨s, hs, hn, hx, hr, hd⟩ := h
  refine ⟨s, Keyspace.find_eq_some.mpr ⟨hs, ?_⟩, hn, hx, hr, hd⟩
  unfold Slot.live
  rw [hd]
  cases d with
  | none => rfl
  | some e => exact decide_eq_true (hlive e rfl)

theorem find_none_of_at {n : ℤ} {x : ℚ} {refresh : Option ℤ} {e clock : ℤ}
    (h : At db key n x refresh (some e)) (he : e ≤ clock) : db.find clock key = none := by
  obtain ⟨s, hs, -, -, -, hd⟩ := h
  cases hf : db.find clock key with
  | none => rfl
  | some s' =>
    obtain ⟨hs', hlive⟩ := Keyspace.find_eq_some.mp hf
    rw [hs] at hs'
    rw [← Option.some.inj hs', Slot.live, hd] at hlive
    exact absurd (of_decide_eq_true hlive) (not_lt.mpr he)

theorem needsExpire_map {h : Hash} {r : Option ℤ}
    (hr : h .lastExpire = r.map (fun r : ℤ => (r : ℚ))) :
    needsExpire (l.callAt key offset now).args h ↔ l.half < now - r.getD 0 := by
  rw [needsExpire_iff (r := ((r.getD 0 : ℤ) : ℚ)) (by rw [hr]; cases r <;> simp)]
  exact_mod_cast Iff.rfl

theorem hmget_of_at {n : ℤ} {x : ℚ} {refresh d : Option ℤ} (clock : ℤ) (h : At db key n x refresh d)
    (hlive : ∀ e, d = some e → clock < e) :
    (∃ s, db.find clock key = some s ∧ s.deadline = d) ∧
      hmget db clock key .last = some (n : ℚ) ∧ hmget db clock key .tokens = some x ∧
      hmget db clock key .lastExpire = refresh.map (fun r : ℤ => (r : ℚ)) := by
  obtain ⟨s, hs, hn, hx, hr, hd⟩ := find_of_at h hlive
  rw [hmget_of_find_some hs]
  exact ⟨⟨s, hs, hd⟩, hn, hx, hr⟩

theorem available_of_at {n : ℤ} {x : ℚ} {refresh d : Option ℤ} (h : At db key n x refresh d)
    (hlive : ∀ e, d = some e → now + offset < e) (hn : n ≤ now) :
    available (l.callAt key offset now).args (hmget db (now + offset) key) =
      min (l.burst : ℚ) (x + l.rate * (now - n)) := by
  obtain ⟨-, hlast, htok, -⟩ := hmget_of_at _ h hlive
  have hmin : min (now : ℚ) n = n := min_eq_right (by exact_mod_cast hn)
  rw [available_eq]
  simp only [callAt, hlast, htok, Option.getD_some, hmin]

theorem available_back {n : ℤ} {x : ℚ} {r d : Option ℤ} (h : At db key n x r d)
    (hlive : ∀ e, d = some e → now + offset < e) (hn : now ≤ n) :
    available (l.callAt key offset now).args (hmget db (now + offset) key) = min (l.burst : ℚ) x := by
  obtain ⟨-, hlast, htok, -⟩ := hmget_of_at _ h hlive
  have hmin : min (now : ℚ) n = now := min_eq_left (by exact_mod_cast hn)
  rw [available_eq]
  simp only [callAt, hlast, htok, Option.getD_some, hmin, sub_self, mul_zero, add_zero]

theorem available_of_find_none (hr : 0 < l.rate) (h : db.find (now + offset) key = none) :
    available (l.callAt key offset now).args (hmget db (now + offset) key) = l.burst := by
  rw [hmget_of_find_none h]
  exact available_empty (a := (l.callAt key offset now).args) hr

theorem lastExpire_of_find_none (h : db.find (now + offset) key = none) :
    hmget db (now + offset) key .lastExpire = (none : Option ℤ).map (fun r : ℤ => (r : ℚ)) := by
  rw [hmget_of_find_none h]
  rfl

/-- The last call was at `n`, and the deadline, if any, is the one of a refresh that lies at
most half a TTL before it. -/
def Scheduled (l : Limits) (key : κ) (db : Redis κ) (n : ℤ) : Prop :=
  ∃ x r d, At db key n x r d ∧ ∀ e, d = some e → ∃ m, r = some m ∧ e = l.deadline m ∧ n ≤ m + l.half

theorem stored_of_at {n : ℤ} {x : ℚ} {r d : Option ℤ} (h : At db key n x r d) :
    stored db key = some ⟨x, n⟩ := by
  obtain ⟨s, hs, hn, hx, -, -⟩ := h
  rw [stored_eq, hs, Option.map_some, hn, hx]
  rfl

theorem hasFields_of_scheduled {n : ℤ} (h : l.Scheduled key db n) : HasFields db key := by
  obtain ⟨x, r, d, ⟨s', hs', hn, hx, -, -⟩, -⟩ := h
  intro s hs
  rw [hs] at hs'
  rw [Option.some.inj hs', hn, hx]
  exact ⟨rfl, rfl⟩

theorem find_of_scheduled {n clock : ℤ} (h : l.Scheduled key db n) (hc : clock + 999999 < n + l.half) :
    (db.find clock key).isSome = true := by
  obtain ⟨x, r, d, hat, hsched⟩ := h
  have hlive : ∀ e, d = some e → clock < e := by
    intro e he
    obtain ⟨m, -, rfl, hn⟩ := hsched e he
    have := l.deadline_ge m
    omega
  obtain ⟨s, hs, -⟩ := find_of_at hat hlive
  rw [hs]
  rfl

theorem demand_calls (l : Limits) (key : κ) (offset : ℤ) (ts : List ℤ) :
    ∀ d ∈ (l.calls key offset ts).map demand, d.cap = l.burst ∧ d.rate = l.rate := by
  intro d hd
  simp only [calls, List.map_map, List.mem_map] at hd
  obtain ⟨t, -, rfl⟩ := hd
  exact ⟨rfl, rfl⟩

variable [DecidableEq κ]

theorem step_callAt (hr : 0 < l.rate) (db : Redis κ) :
    script.step db (l.callAt key offset now) =
      (replyOf (l.callAt key offset now).args (hmget db (now + offset) key),
        db.write key (slotAfter (l.callAt key offset now).args (now + offset) db key)) :=
  script_step (c := l.callAt key offset now) hr db

theorem allowed_callAt (hr : 0 < l.rate) (db : Redis κ) :
    (script.step db (l.callAt key offset now)).1.allowed = 1 ↔
      1 ≤ available (l.callAt key offset now).args (hmget db (now + offset) key) := by
  rw [step_callAt hr]
  exact replyOf_allowed _ _

theorem at_refresh (hr : 0 < l.rate) {r : Option ℤ}
    (hre : hmget db (now + offset) key .lastExpire = r.map (fun r : ℤ => (r : ℚ)))
    (hneed : l.half < now - r.getD 0) (hd : now + offset < l.deadline now) :
    At (script.step db (l.callAt key offset now)).2 key now
      (take (available (l.callAt key offset now).args (hmget db (now + offset) key)))
      (some now) (some (l.deadline now)) := by
  have hneeds : needsExpire (l.callAt key offset now).args _ := (needsExpire_map hre).mpr hneed
  rw [step_callAt hr, slotAfter_eq, if_pos hneeds, expireInstant_eq, if_neg (not_le.mpr hd)]
  refine ⟨_, Keyspace.write_self .., rfl, rfl, ?_, rfl⟩
  simp only [written, Arithmetic.written, if_pos hneeds]
  rfl

theorem at_keep (hr : 0 < l.rate) {r : Option ℤ}
    (hre : hmget db (now + offset) key .lastExpire = r.map (fun r : ℤ => (r : ℚ)))
    (hneed : ¬l.half < now - r.getD 0) :
    At (script.step db (l.callAt key offset now)).2 key now
      (take (available (l.callAt key offset now).args (hmget db (now + offset) key)))
      r ((db.find (now + offset) key).bind Slot.deadline) := by
  have hneeds : ¬needsExpire (l.callAt key offset now).args _ := (needsExpire_map hre).not.mpr hneed
  rw [step_callAt hr, slotAfter_eq, if_neg hneeds]
  refine ⟨_, Keyspace.write_self .., rfl, rfl, ?_, rfl⟩
  simp only [written, Arithmetic.written, if_neg hneeds, hre]

theorem scheduled_step (hr : 0 < l.rate) (ht : 0 ≤ l.ttl)
    (h : db key = none ∨ ∃ n, l.Scheduled key db n) (hd : now + offset < l.deadline now) :
    l.Scheduled key (script.step db (l.callAt key offset now)).2 now := by
  have hhalf : 0 ≤ l.half := by unfold half; omega
  have hcall : ∀ r : Option ℤ, hmget db (now + offset) key .lastExpire = r.map (fun r : ℤ => (r : ℚ)) →
      (∀ e, (db.find (now + offset) key).bind Slot.deadline = some e → ∃ m, r = some m ∧ e = l.deadline m) →
      l.Scheduled key (script.step db (l.callAt key offset now)).2 now := by
    intro r hre hold
    by_cases hneed : l.half < now - r.getD 0
    · refine ⟨_, _, _, at_refresh hr hre hneed hd, ?_⟩
      intro e he
      exact ⟨now, rfl, (Option.some.inj he).symm, by omega⟩
    · refine ⟨_, _, _, at_keep hr hre hneed, ?_⟩
      intro e he
      obtain ⟨m, rfl, rfl⟩ := hold e he
      rw [Option.getD_some] at hneed
      exact ⟨m, rfl, rfl, by omega⟩
  cases hf : db.find (now + offset) key with
  | none =>
    refine hcall none (lastExpire_of_find_none hf) ?_
    rw [hf]
    simp
  | some s =>
    obtain ⟨hs, -⟩ := Keyspace.find_eq_some.mp hf
    rcases h with h | ⟨n, x, r, d, ⟨s', hs', -, -, hre, hd'⟩, hsched⟩
    · rw [h] at hs
      exact absurd hs (by simp)
    rw [hs] at hs'
    obtain rfl := Option.some.inj hs'
    refine hcall r (by rw [hmget_of_find_some hf, hre]) ?_
    intro e he
    rw [hf, Option.bind_some, hd'] at he
    obtain ⟨m, hm, hem, -⟩ := hsched e he
    exact ⟨m, hm, hem⟩

/-- The next call comes in the same microsecond, or soon enough to find the key, or late
enough to find it full. -/
def Spaced (l : Limits) (offset : ℤ) (a b : ℤ) : Prop :=
  a ≤ b ∧ (a = b ∨ b - a + offset + 999999 < l.half ∨ (l.burst : ℚ) ≤ l.rate * (b - a))

def NoDebt (db : Redis κ) (key : κ) : Prop := ∀ b, stored db key = some b → 0 ≤ b.tokens

theorem noDebt_step {c : Call κ} (hf : HasFields db key) (ho : Ordered key db c) (hb : 0 ≤ c.args.burst)
    (h : NoDebt db key) : NoDebt (script.step db c).2 key := by
  obtain ⟨rfl, hr, hlast⟩ := ho
  have hb0 : (0 : ℚ) ≤ c.args.burst := by exact_mod_cast hb
  have hav : 0 ≤ available c.args (hmget db c.clock c.key) := by
    cases hfind : db.find c.clock c.key with
    | none =>
      rw [hmget_of_find_none hfind, available_empty hr]
      exact hb0
    | some s =>
      have hs := (Keyspace.find_eq_some.mp hfind).1
      have hst : stored db c.key = some ⟨(s.value .tokens).getD 0, (s.value .last).getD 0⟩ := by
        rw [stored_eq, hs, Option.map_some]
      rw [hmget_of_find_some hfind, available_stored rfl (hf s hs) (hlast _ hst)]
      exact level_nonneg hb0 hr.le (h _ hst) (hlast _ hst)
  intro b hb'
  rw [script_step hr] at hb'
  rw [eq_of_stored_write hb']
  exact take_nonneg hav

theorem lt_deadline (hoff : offset + 999999 < 2 * l.half) (n : ℤ) : n + offset < l.deadline n := by
  have := l.deadline_ge n
  omega

theorem find_after (hr : 0 < l.rate) (hd : now + offset < l.deadline now) (db : Redis κ) (key : κ) :
    ∃ s, (script.step db (l.callAt key offset now)).2.find (now + offset) key = some s ∧
      slotAfter (l.callAt key offset now).args (now + offset) db key = some s := by
  rw [step_callAt hr]
  rw [slotAfter_eq, expireInstant_eq, if_neg (not_le.mpr hd)]
  by_cases hn : needsExpire (l.callAt key offset now).args (hmget db (now + offset) key)
  · rw [if_pos hn]
    exact ⟨_, Keyspace.find_eq_some.mpr ⟨Keyspace.write_self .., decide_eq_true hd⟩, rfl⟩
  · rw [if_neg hn]
    exact ⟨_, Keyspace.find_eq_some.mpr ⟨Keyspace.write_self .., Keyspace.live_of_find⟩, rfl⟩

theorem along_of_spaced (hr : 0 < l.rate) (hb : 1 ≤ l.burst) (ht : 0 ≤ l.ttl)
    (hoff : offset + 999999 < 2 * l.half) {n : ℤ} {ts : List ℤ} (hts : (n :: ts).IsChain (l.Spaced offset))
    (hs : l.Scheduled key db n) (hx : NoDebt db key) (hnow : (db.find (n + offset) key).isSome = true) :
    script.Along (fun db c => Ordered key db c ∧ Harmless key db c) db (l.calls key offset ts) := by
  induction ts generalizing db n with
  | nil => trivial
  | cons t ts ih =>
    obtain ⟨⟨hle, hgap⟩, hts'⟩ := List.isChain_cons_cons.mp hts
    have hlast : ∀ b, stored db key = some b → b.last = n := by
      obtain ⟨x, r, d, hat, -⟩ := hs
      rw [stored_of_at hat]
      rintro b ⟨⟩
      rfl
    have hord : Ordered key db (l.callAt key offset t) := by
      refine ⟨rfl, hr, fun b hb' => ?_⟩
      rw [hlast b hb']
      exact Int.cast_le.mpr hle
    have hd := lt_deadline hoff t
    obtain ⟨slot, hfind, hslot⟩ := find_after hr hd db key
    refine ⟨⟨hord, ?_, Option.isSome_iff_exists.mpr ⟨slot, hslot⟩⟩,
      ih hts' (scheduled_step hr ht (Or.inr ⟨n, hs⟩) hd)
        (noDebt_step (hasFields_of_scheduled hs) hord (zero_le_one.trans hb) hx) (Option.isSome_iff_exists.mpr ⟨slot, hfind⟩)⟩
    intro hnone b hb'
    change db.find (t + offset) key = none at hnone
    have hx' := hx b hb'
    rw [hlast b hb']
    rcases hgap with rfl | hsoon | hlate
    · rw [hnone] at hnow
      exact absurd hnow (by simp)
    · have hfound : (db.find (t + offset) key).isSome = true := find_of_scheduled hs (by omega)
      rw [hnone] at hfound
      exact absurd hfound (by simp)
    · change (l.burst : ℚ) ≤ b.tokens + l.rate * (t - n)
      linarith

theorem along_of_spaced_fresh (hr : 0 < l.rate) (hb : 1 ≤ l.burst) (ht : 0 ≤ l.ttl)
    (hoff : offset + 999999 < 2 * l.half) {ts : List ℤ} (hts : ts.IsChain (l.Spaced offset))
    (hfresh : db key = none) :
    script.Along (fun db c => Ordered key db c ∧ Harmless key db c) db (l.calls key offset ts) := by
  have habsent : ∀ {P : Bucket ℚ → Prop} b, stored db key = some b → P b := by
    intro P b hb'
    rw [stored_of_none hfresh] at hb'
    exact absurd hb' (by simp)
  cases ts with
  | nil => trivial
  | cons t ts =>
    have hd := lt_deadline hoff t
    obtain ⟨slot, hfind, hslot⟩ := find_after hr hd db key
    have hord : Ordered key db (l.callAt key offset t) := ⟨rfl, hr, habsent⟩
    refine ⟨⟨hord, fun _ => habsent, Option.isSome_iff_exists.mpr ⟨slot, hslot⟩⟩,
      along_of_spaced hr hb ht hoff hts (scheduled_step hr ht (Or.inl hfresh) hd) ?_ (Option.isSome_iff_exists.mpr ⟨slot, hfind⟩)⟩
    exact noDebt_step (hasFields_of_none hfresh) hord (zero_le_one.trans hb) habsent

theorem tally_le_of_spaced (hr : 0 < l.rate) (hb : 1 ≤ l.burst) (ht : 0 ≤ l.ttl)
    (hoff : offset + 999999 < 2 * l.half) {ts : List ℤ} (hts : ts.IsChain (l.Spaced offset))
    (hfresh : db key = none) {s t : ℚ} (hst : s ≤ t) :
    (script.tally (inWindow s t) db (l.calls key offset ts) : ℚ) ≤ l.burst + l.rate * (t - s) := by
  rw [script_tally_inWindow s t (along_of_spaced_fresh hr hb ht hoff hts hfresh) (hasFields_of_none hfresh)]
  exact tally_window_le hr.le (by exact_mod_cast zero_le_one.trans hb) hst (l.demand_calls key offset ts)

end Limits
end EdgeQuota.RateLimit
