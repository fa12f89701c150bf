import EdgeQuota.RateLimit.Expiry

/-! How far the expiry of a key can be used against its limit. A key refreshed in the last
microsecond of a second and last used half a TTL later is gone after another
`ttl / 2 - 0.999999 s` of Redis's clock; the runs below do exactly that. -/

namespace EdgeQuota.RateLimit
open Lib TokenBucket

variable {κ : Type*}

namespace Limits
variable {l : Limits} {key : κ} {offset now : ℤ} {db : Redis κ}

/-- The latest instant of a second that still lies more than half a TTL after zero. A refresh
there loses 999999 microseconds to the rounding of EXPIREAT. -/
def phase (l : Limits) : ℤ := l.half / 1000000 * 1000000 + 999999

theorem half_lt_phase (l : Limits) : l.half + 1 < l.phase := by
  unfold phase half
  omega

theorem phase_le (l : Limits) : l.phase ≤ l.half + 999999 := by
  unfold phase
  omega

theorem deadline_phase (l : Limits) : l.deadline l.phase = l.phase + 2 * l.half - 999999 := by
  unfold deadline phase half
  omega

theorem deadline_phase_sub_one (l : Limits) : l.deadline (l.phase - 1) = l.phase + 2 * l.half - 999999 := by
  unfold deadline phase half
  omega

theorem inWindow_callAt {s t : ℚ} {r : Reply} (hs : s ≤ now) (ht : (now : ℚ) ≤ t) :
    inWindow s t (l.callAt key offset now) r = decide (r.allowed = 1) := by
  simp only [inWindow, callAt, hs, ht, decide_true, Bool.and_true]

theorem calls_append (l : Limits) (key : κ) (offset : ℤ) (ts us : List ℤ) :
    l.calls key offset (ts ++ us) = l.calls key offset ts ++ l.calls key offset us := List.map_append

variable [DecidableEq κ]

theorem tally_cons_allowed (hr : 0 < l.rate) {s t : ℚ} (hs : s ≤ now) (ht : (now : ℚ) ≤ t)
    (hav : 1 ≤ available (l.callAt key offset now).args (hmget db (now + offset) key)) (ts : List ℤ) :
    script.tally (inWindow s t) db (l.calls key offset (now :: ts)) =
      1 + script.tally (inWindow s t) (script.step db (l.callAt key offset now)).2
        (l.calls key offset ts) := by
  rw [calls, List.map_cons, Machine.tally, inWindow_callAt hs ht,
    decide_eq_true ((allowed_callAt hr db).mpr hav), if_pos rfl]
  rfl

theorem at_step (offset : ℤ) (hr : 0 < l.rate) {n : ℤ} {x : ℚ} {r d : Option ℤ} (h : At db key n x r d)
    (hlive : ∀ e, d = some e → now + offset < e) (hold : ¬l.half < now - r.getD 0) (hn : n ≤ now) :
    At (script.step db (l.callAt key offset now)).2 key now
      (take (min (l.burst : ℚ) (x + l.rate * (now - n)))) r d := by
  obtain ⟨⟨s, hs, hd⟩, -, -, hre⟩ := hmget_of_at _ h hlive
  have hnext := at_keep hr hre hold
  rwa [hs, Option.bind_some, hd, available_of_at h hlive hn] at hnext

theorem drain (hr : 0 < l.rate) {n : ℤ} {x : ℚ} {r d : Option ℤ} (h : At db key n x r d)
    (hlive : ∀ e, d = some e → now + offset < e) (hold : ¬l.half < now - r.getD 0) (hn : n ≤ now) {k : ℕ}
    (hk : (k : ℚ) ≤ min (l.burst : ℚ) (x + l.rate * (now - n))) {s t : ℚ} (hs : s ≤ now)
    (ht : (now : ℚ) ≤ t) :
    script.tally (inWindow s t) db (l.calls key offset (List.replicate k now)) = k ∧
      ∃ n' x', n' ≤ now ∧ At (script.run db (l.calls key offset (List.replicate k now))) key n' x' r d := by
  induction k generalizing db n x with
  | zero => exact ⟨rfl, n, x, hn, h⟩
  | succ k ih =>
    push_cast at hk
    have hk0 : (0 : ℚ) ≤ k := Nat.cast_nonneg k
    have hav := available_of_at (l := l) h hlive hn
    have hone : 1 ≤ min (l.burst : ℚ) (x + l.rate * (now - n)) := by linarith
    have hnext := at_step offset hr h hlive hold hn
    rw [take_of_le hone] at hnext
    -- the calls that follow find what this one left, at the same instant
    obtain ⟨htally, hat⟩ := ih hnext le_rfl (by
      rw [sub_self, mul_zero, add_zero]
      have := min_le_left (l.burst : ℚ) (x + l.rate * (now - n))
      exact le_min (by linarith) (by linarith))
    rw [List.replicate_succ, tally_cons_allowed hr hs ht (by rw [hav]; exact hone), htally]
    exact ⟨Nat.add_comm 1 k, hat⟩

section Runs
variable (hr : 0 < l.rate) (hb : 1 ≤ l.burst)
include hr hb

theorem tally_fresh (hfresh : db key = none) {a : ℤ} {t : ℚ} (hat : (a : ℚ) ≤ t) :
    script.tally (inWindow a t) db (l.calls key offset [a]) = 1 := by
  have hav : available (l.callAt key offset a).args (hmget db (a + offset) key) = l.burst :=
    available_of_find_none hr (Keyspace.find_of_none hfresh _)
  rw [tally_cons_allowed hr le_rfl hat (by rw [hav]; exact_mod_cast hb)]
  rfl

variable (hoff : offset + 999999 < 2 * l.half)
include hoff

theorem start {n : ℤ} (hnone : db.find (n + offset) key = none) (hn : l.half < n) :
    At (script.step db (l.callAt key offset n)).2 key n ((l.burst : ℚ) - 1) (some n)
      (some (l.deadline n)) := by
  have h := at_refresh hr (lastExpire_of_find_none hnone) (by simpa using hn) (lt_deadline hoff n)
  rwa [available_of_find_none hr hnone, take_of_le (by exact_mod_cast hb)] at h

theorem start_fresh (hfresh : db key = none) {a : ℤ} (ha : l.half < a) :
    At (script.run db (l.calls key offset [a])) key a ((l.burst : ℚ) - 1) (some a) (some (l.deadline a)) :=
  start hr hb hoff (Keyspace.find_of_none hfresh _) ha

theorem burst_after_expiry (hhalf : 0 ≤ l.half) {n : ℤ} (hnone : db.find (n + offset) key = none)
    (hn : l.half < n) {s t : ℚ} (hs : s ≤ n) (hnt : (n : ℚ) ≤ t) :
    (script.tally (inWindow s t) db (l.calls key offset (List.replicate l.burst.toNat n)) : ℚ) = l.burst := by
  obtain ⟨k, hk⟩ : ∃ k : ℕ, l.burst = (k : ℤ) + 1 := ⟨(l.burst - 1).toNat, by omega⟩
  have hB : (l.burst : ℚ) = k + 1 := by exact_mod_cast hk
  have hav : available (l.callAt key offset n).args (hmget db (n + offset) key) = l.burst :=
    available_of_find_none hr hnone
  have hone : 1 ≤ (l.burst : ℚ) := by exact_mod_cast hb
  have hlive : ∀ e, some (l.deadline n) = some e → n + offset < e := by
    rintro e ⟨⟩
    exact lt_deadline hoff n
  have hrest := (drain hr (start hr hb hoff hnone hn) hlive (by simpa using hhalf) le_rfl (k := k)
    (by rw [sub_self, mul_zero, add_zero, hB]; simp) hs hnt).1
  rw [show l.burst.toNat = k + 1 by omega, List.replicate_succ,
    tally_cons_allowed hr hs hnt (by rwa [hav]), hrest, hB]
  push_cast
  ring

theorem burst_across {a n : ℤ} {x : ℚ} (ha : l.half < a) (h : At db key a x (some a) (some (l.deadline a)))
    (han : a ≤ n) (hna : n ≤ a + l.half) (hn : n + offset < l.deadline a) {m : ℕ}
    (hm : (m : ℚ) ≤ min (l.burst : ℚ) (x + l.rate * (n - a))) {s : ℚ} (hs : s ≤ n) :
    (m : ℚ) + l.burst ≤ script.tally (inWindow s (l.deadline a - offset : ℤ)) db (l.calls key offset
      (List.replicate (m + 1) n ++ List.replicate l.burst.toNat (l.deadline a - offset))) := by
  set e := l.deadline a - offset with he
  have hne : (n : ℚ) ≤ e := Int.cast_le.mpr (by omega)
  have hlive : ∀ e, some (l.deadline a) = some e → n + offset < e := by
    rintro e ⟨⟩
    exact hn
  have hold : ¬l.half < n - (some a).getD 0 := by rw [Option.getD_some]; omega
  obtain ⟨htally, n', x', hn', hat⟩ := drain hr h hlive hold han hm hs hne
  -- one more call at `n`, granted or not, leaves the deadline as it is
  have hnone : Keyspace.find (script.step _ (l.callAt key offset n)).2 (e + offset) key = none :=
    find_none_of_at (at_step offset hr hat hlive hold hn') (by omega)
  have hburst := burst_after_expiry hr hb hoff (by omega) hnone (by omega) (hs.trans hne) le_rfl
  have hextra : script.tally (inWindow s e) (script.step (script.run db
      (l.calls key offset (List.replicate m n))) (l.callAt key offset n)).2
        (l.calls key offset (List.replicate l.burst.toNat e)) ≤
      script.tally (inWindow s e) (script.run db (l.calls key offset (List.replicate m n)))
        (l.calls key offset (n :: List.replicate l.burst.toNat e)) := Nat.le_add_left _ _
  rw [← Nat.cast_le (α := ℚ), hburst] at hextra
  rw [List.replicate_succ', List.append_assoc, List.singleton_append, calls_append, Machine.tally_append, htally]
  push_cast
  linarith

def Close (l : Limits) (ts : List ℤ) : Prop := ts.IsChain fun a b => a ≤ b ∧ b - a ≤ l.half

variable (hfresh : db key = none)
  (hbound : ∀ ts : List ℤ, l.Close ts → ∀ s t : ℚ, s ≤ t →
    (script.tally (inWindow s t) db (l.calls key offset ts) : ℚ) ≤ l.burst + l.rate * (t - s))
include hbound

theorem across_le {a n : ℤ} (ts : List ℤ) (hts : l.Close (ts ++ [a])) {x : ℚ} (ha : l.half < a)
    (h : At (script.run db (l.calls key offset (ts ++ [a]))) key a x (some a) (some (l.deadline a)))
    (han : a ≤ n) (hna : n ≤ a + l.half) (hn : n + offset < l.deadline a)
    (hgap : l.deadline a - offset - n ≤ l.half) {m : ℕ}
    (hm : (m : ℚ) ≤ min (l.burst : ℚ) (x + l.rate * (n - a))) {s : ℚ} (hs : s ≤ n) :
    (script.tally (inWindow s (l.deadline a - offset : ℤ)) db (l.calls key offset (ts ++ [a])) : ℚ) + m ≤
      l.rate * ((l.deadline a - offset : ℤ) - s) := by
  have hhalf : 0 ≤ l.half := by omega
  have hself : ∀ (k : ℕ) (n : ℤ), (List.replicate k n).IsChain fun a b => a ≤ b ∧ b - a ≤ l.half := fun k n =>
    List.isChain_replicate_of_rel k ⟨le_rfl, by rwa [sub_self]⟩
  have hclose : l.Close ((ts ++ [a]) ++ (List.replicate (m + 1) n ++
      List.replicate l.burst.toNat (l.deadline a - offset))) := by
    refine List.isChain_append.mpr ⟨hts, List.isChain_append.mpr ⟨hself _ _, hself _ _, ?_⟩, ?_⟩
    · intro y hy z hz
      rw [List.eq_of_mem_replicate (List.mem_of_mem_getLast? hy),
        List.eq_of_mem_replicate (List.mem_of_mem_head? hz)]
      omega
    · intro y hy z hz
      rw [List.getLast?_concat, Option.mem_some_iff] at hy
      rw [List.replicate_succ, List.cons_append, List.head?_cons, Option.mem_some_iff] at hz
      omega
  have hall := hbound _ hclose s (l.deadline a - offset : ℤ) (hs.trans (Int.cast_le.mpr (by omega)))
  have hend := burst_across hr hb hoff ha h han hna hn hm hs
  rw [calls_append, Machine.tally_append, Nat.cast_add] at hall
  linarith

include hfresh

theorem burst_le_of_first {a n : ℤ} (ha : l.half < a) (han : a ≤ n) (hna : n ≤ a + l.half)
    (hn : n + offset < l.deadline a) (hgap : l.deadline a - offset - n ≤ l.half) :
    (l.burst : ℚ) ≤ l.rate * ((l.deadline a - offset : ℤ) - a) := by
  have hpred : (((l.burst - 1).toNat : ℕ) : ℚ) = l.burst - 1 := by
    exact_mod_cast (Int.toNat_of_nonneg (by omega : 0 ≤ l.burst - 1))
  have hanq : (a : ℚ) ≤ n := Int.cast_le.mpr han
  have hearn := mul_nonneg hr.le (sub_nonneg.mpr hanq)
  have h := across_le hr hb hoff hbound [] (List.isChain_singleton _) ha
    (start_fresh hr hb hoff hfresh ha) han hna hn hgap (m := (l.burst - 1).toNat)
    (by rw [hpred]; exact le_min (by linarith) (by linarith)) hanq
  rw [List.nil_append, tally_fresh hr hb hfresh (Int.cast_le.mpr (by omega)), hpred] at h
  push_cast at h ⊢
  linarith

theorem burst_le_of_earned {a n : ℤ} (ha : l.half < a) (han : a ≤ n) (hna : n ≤ a + l.half)
    (hn : n + offset < l.deadline a) (hgap : l.deadline a - offset - n ≤ l.half)
    (hearned : 1 ≤ l.rate * (n - a)) : (l.burst : ℚ) ≤ l.rate * ((l.deadline a - offset : ℤ) - n) := by
  have hnat : ((l.burst.toNat : ℕ) : ℚ) = l.burst := by exact_mod_cast Int.toNat_of_nonneg (by omega)
  have h := across_le hr hb hoff hbound [] (List.isChain_singleton _) ha
    (start_fresh hr hb hoff hfresh ha) han hna hn hgap (m := l.burst.toNat)
    (by rw [hnat]; exact le_min le_rfl (by linarith)) le_rfl
  rw [hnat] at h
  exact (le_add_of_nonneg_left (Nat.cast_nonneg _)).trans h

theorem one_le_of_slow (ht : 2 ≤ l.ttl) (hone : l.burst = 1) (hlo : -999999 ≤ offset)
    (hpos : offset + 999999 < l.half) (hslow : l.rate * l.half < 1) (htwo : 1 ≤ 2 * (l.rate * l.half)) :
    (1 : ℚ) ≤ l.rate * ((l.deadline l.phase - offset : ℤ) - (l.phase + l.half : ℤ)) := by
  have hhalf := one_second_le_half ht
  have hphase := l.half_lt_phase
  have hphase' := l.phase_le
  have hdp := l.deadline_phase
  set a := l.phase - l.half with ha
  have hnone := Keyspace.find_of_none hfresh (a + offset)
  have hold : ¬l.half < a - (none : Option ℤ).getD 0 := by simp; omega
  have hfirst := at_keep hr (lastExpire_of_find_none hnone) hold
  rw [available_of_find_none hr hnone, hone, hnone, Option.bind_none, Int.cast_one, take_of_le le_rfl,
    sub_self] at hfirst
  have hav : available (l.callAt key offset l.phase).args _ = _ := available_of_at hfirst (by simp) (by omega)
  obtain ⟨-, -, -, hre⟩ := hmget_of_at (l.phase + offset) hfirst (by simp)
  have hsecond := at_refresh hr hre (by simp; omega) (lt_deadline hoff _)
  have hgap : ((l.phase : ℚ) - a) = l.half := by rw [ha]; push_cast; ring
  rw [hav, hone, hgap, zero_add, Int.cast_one, min_eq_right hslow.le,
    take_of_not_le (not_le.mpr hslow)] at hsecond
  have hclose : l.Close ([a] ++ [l.phase]) :=
    List.isChain_cons_cons.mpr ⟨by omega, List.isChain_singleton _⟩
  have h := across_le hr hb hoff hbound [a] hclose (by omega) hsecond
    (n := l.phase + l.half) (by omega) (by omega) (by omega) (by omega) (m := 1)
    (by rw [hone]; push_cast; exact le_min le_rfl (by ring_nf; linarith)) le_rfl
  rw [Nat.cast_one] at h
  exact (le_add_of_nonneg_left (Nat.cast_nonneg _)).trans h

theorem burst_le_of_bound (ht : 2 ≤ l.ttl) (hlo : -999999 ≤ offset) :
    (l.burst : ℚ) ≤ l.rate * (max 1 (l.half - 999999 - offset) : ℤ) := by
  have hhalf := one_second_le_half ht
  have hphase := l.half_lt_phase
  have hdp := l.deadline_phase
  by_cases hpos : offset + 999999 < l.half
  · -- the key survives half a TTL of silence in part: the calls there empty the bucket
    rw [max_eq_right (by omega)]
    have hend : (l.half - 999999 - offset : ℤ) = (l.deadline l.phase - offset) - (l.phase + l.half) := by omega
    rw [hend, Int.cast_sub]
    by_cases hfast : 1 ≤ l.rate * l.half
    · exact burst_le_of_earned hr hb hoff hfresh hbound (by omega) (by omega) le_rfl (by omega) (by omega)
        (by push_cast; rwa [add_sub_cancel_left])
    · have hslow := not_le.mp hfast
      have hfirst := burst_le_of_first hr hb hoff hfresh hbound (a := l.phase) (n := l.phase + l.half)
        (by omega) (by omega) le_rfl (by omega) (by omega)
      have htwo : (l.burst : ℚ) ≤ 2 * (l.rate * l.half) := by
        refine hfirst.trans ?_
        have hle : ((l.deadline l.phase - offset : ℤ) : ℚ) - l.phase ≤ 2 * l.half := by
          exact_mod_cast (by omega : l.deadline l.phase - offset - l.phase ≤ 2 * l.half)
        calc l.rate * (((l.deadline l.phase - offset : ℤ) : ℚ) - l.phase) ≤ l.rate * (2 * l.half) :=
              mul_le_mul_of_nonneg_left hle hr.le
          _ = 2 * (l.rate * l.half) := by ring
      have hone : l.burst = 1 := by
        have : (l.burst : ℚ) < 2 := by linarith
        have : l.burst < 2 := by exact_mod_cast this
        omega
      rw [hone, Int.cast_one] at htwo ⊢
      exact one_le_of_slow hr hb hoff hfresh hbound ht hone hlo hpos hslow htwo
  · -- the key is gone before half a TTL has passed: empty it in the microsecond before
    rw [max_eq_left (by omega), Int.cast_one, mul_one]
    have hdp' := l.deadline_phase_sub_one
    have hfirst := burst_le_of_first hr hb hoff hfresh hbound (a := l.phase) (n := l.phase) (by omega) le_rfl
      (by omega) (by omega) (by omega)
    have hearned := burst_le_of_earned hr hb hoff hfresh hbound (a := l.phase - 1)
      (n := l.deadline l.phase - offset - 1) (by omega) (by omega) (by omega) (by omega) (by omega) (by
        have hB : (1 : ℚ) ≤ l.burst := by exact_mod_cast hb
        push_cast at hfirst ⊢
        linarith)
    have hlen : ((l.deadline (l.phase - 1) - offset : ℤ) : ℚ) - (l.deadline l.phase - offset - 1 : ℤ) = 1 := by
      rw [hdp', hdp]
      push_cast
      ring
    rwa [hlen, mul_one] at hearned

end Runs

theorem window_bound_iff (hr : 0 < l.rate) (hb : 1 ≤ l.burst) (ht : 2 ≤ l.ttl) (hfresh : db key = none) :
    (∀ ts : List ℤ, ts.Pairwise (· ≤ ·) → ∀ s t : ℚ, s ≤ t →
      (script.tally (inWindow s t) db (l.calls key 0 ts) : ℚ) ≤ l.burst + l.rate * (t - s)) ↔
      (l.burst : ℚ) ≤ l.rate * (l.half - 999999) := by
  have hhalf := one_second_le_half ht
  constructor
  · intro h
    have hle := burst_le_of_bound hr hb (by omega) hfresh
      (fun ts hts => h ts (hts.imp fun _ _ hab => hab.1).pairwise) ht (by norm_num)
    rw [max_eq_right (by omega)] at hle
    push_cast at hle
    rwa [sub_zero] at hle
  · intro h ts hts s t hst
    refine tally_le_of_spaced hr hb (by omega) (by omega) ?_ hfresh hst
    refine hts.isChain.imp fun a b hab => ⟨hab, Or.inr ?_⟩
    -- calls that are too far apart for the key to survive are far enough apart to refill it
    by_cases hgap : b - a + 0 + 999999 < l.half
    · exact Or.inl hgap
    · refine Or.inr (h.trans (mul_le_mul_of_nonneg_left ?_ hr.le))
      have : l.half - 999999 ≤ b - a := by omega
      exact_mod_cast this

def Finds (db : Redis κ) (c : Call κ) : Prop := (db.find c.clock c.key).isSome = true

instance (db : Redis κ) (c : Call κ) : Decidable (Finds db c) := inferInstanceAs (Decidable (_ = _))

theorem finds_of_steady (hr : 0 < l.rate) (ht : 2 ≤ l.ttl) {g : ℤ} (hg : g + 999999 < l.half) {n : ℤ}
    {ts : List ℤ} (hts : (n :: ts).IsChain fun a b => |b - a| ≤ g) (hs : l.Scheduled key db n) :
    script.Along Finds db (l.calls key 0 ts) := by
  induction ts generalizing db n with
  | nil => trivial
  | cons t ts ih =>
    obtain ⟨hgap, hts'⟩ := List.isChain_cons_cons.mp hts
    have hhalf := one_second_le_half ht
    have hlt : t + 0 < l.deadline t := lt_deadline (by omega) t
    refine ⟨find_of_scheduled hs ?_, ih hts' (scheduled_step hr (by omega) (Or.inr ⟨n, hs⟩) hlt)⟩
    have := (le_abs_self (t - n)).trans hgap
    change t + 0 + 999999 < n + l.half
    omega

def ascend : ℤ → ℕ → List ℤ
  | _, 0 => []
  | n, k + 1 => (n + 1) :: ascend (n + 1) k

theorem isChain_ascend {g d : ℤ} (hg : 1 ≤ g) {n : ℤ} {k : ℕ} (hd : |d - (n + k)| ≤ g) :
    (n :: (ascend n k ++ [d])).IsChain fun a b => |b - a| ≤ g := by
  induction k generalizing n with
  | zero => simpa [ascend] using hd
  | succ k ih =>
    refine List.isChain_cons_cons.mpr ⟨?_, ih ?_⟩
    · rwa [add_sub_cancel_left, abs_one]
    · rwa [show n + 1 + (k : ℤ) = n + ((k + 1 : ℕ) : ℤ) by push_cast; ring]

theorem not_finds_ascend (hr : 0 < l.rate) {n m e : ℤ} {x : ℚ} {k : ℕ}
    (h : At db key n x (some m) (some e)) (hk : n + k ≤ m + l.half) (he : m + l.half < e) :
    ¬script.Along Finds db (l.calls key 0 (ascend n k ++ [e])) := by
  induction k generalizing db n x with
  | zero =>
    rintro ⟨hfinds, -⟩
    have hnone : db.find (e + 0) key = none := find_none_of_at h (by omega)
    change (db.find (e + 0) key).isSome = true at hfinds
    rw [hnone] at hfinds
    exact absurd hfinds (by simp)
  | succ k ih =>
    rintro ⟨-, hrest⟩
    have hlive : ∀ e', some e = some e' → n + 1 + 0 < e' := by
      rintro e' ⟨⟩
      omega
    have hnext := at_step (l := l) 0 hr h hlive (by rw [Option.getD_some]; omega) (by omega)
    exact ih hnext (by push_cast at hk; omega) hrest

/-- **Steady traffic.** Calls at most `g` microseconds apart keep their key alive exactly when
`g` stays a whole second, less a microsecond, below half the TTL. -/
theorem steady_iff (hr : 0 < l.rate) (hb : 1 ≤ l.burst) (ht : 2 ≤ l.ttl) (hfresh : db key = none) (g : ℤ) :
    (∀ t ts, (t :: ts).IsChain (fun a b => |b - a| ≤ g) →
      script.Along Finds (script.step db (l.callAt key 0 t)).2 (l.calls key 0 ts)) ↔
      g + 999999 < l.ttl * 500000 := by
  constructor
  · intro hall
    by_contra hg
    have hdp := l.deadline_phase
    have hphase := l.half_lt_phase
    have hhalf : l.half = l.ttl * 500000 := rfl
    have hk : ((l.half.toNat : ℕ) : ℤ) = l.half := Int.toNat_of_nonneg (by omega)
    have hstart := start hr hb (by omega) (Keyspace.find_of_none hfresh (l.phase + 0)) (by omega)
    refine not_finds_ascend (l := l) hr hstart (k := l.half.toNat) (by omega) (by omega)
      (hall _ _ (isChain_ascend ?_ ?_))
    · omega
    · rw [abs_le]
      omega
  · intro hg t ts hts
    have hhalf := one_second_le_half ht
    have hlt : t + 0 < l.deadline t := lt_deadline (by omega) t
    exact finds_of_steady hr ht hg hts (scheduled_step hr (by omega) (Or.inl hfresh) hlt)

theorem steady_ttl_four :
    script.Along Finds (script.step Keyspace.empty (callAt ⟨1, 1, 4⟩ () 0 5000000)).2
      (calls ⟨1, 1, 4⟩ () 0 [6000000, 7000000]) :=
  (steady_iff (by decide +kernel) (by decide) (by decide) rfl 1000000).mpr (by decide) 5000000
    [6000000, 7000000] (by simp)

theorem steady_reset :
    [1000900000, 1001800000, 1002700000].IsChain (fun a b : ℤ => |b - a| < 2 * 500000) ∧
    ¬script.Along Finds (script.step Keyspace.empty (callAt ⟨1 / 10000000, 1, 2⟩ () 0 1000900000)).2
      (calls ⟨1 / 10000000, 1, 2⟩ () 0 [1001800000, 1002700000]) ∧
    (script.outputs Keyspace.empty (calls ⟨1 / 10000000, 1, 2⟩ () 0
      [1000900000, 1001800000, 1002700000])).map Reply.allowed = [1, 0, 1] := by
  refine ⟨by simp, ?_, ?_⟩ <;> decide +kernel

end Limits
end EdgeQuota.RateLimit
