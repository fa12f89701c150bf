import EdgeQuota.RateLimit.Envelope
import EdgeQuota.RateLimit.Fallback

/-! The Redis script and the in-memory limiter decide alike: each drives the same abstract
bucket, the script with time in microseconds and the fallback with time in seconds. -/

namespace EdgeQuota.RateLimit
open Lib Go TokenBucket

variable {κ : Type*}

/-- A call of `Allow` that no other call overlaps and whose new bucket, if it makes one, is
admitted at once. Steps the call does not come to do nothing. -/
def undisturbed (g : ℕ) (key : κ) (now : ℚ) : List (Event κ) :=
  [.lookup g key now, .loadOrStore g, .cacheSet g false, .processItem true, .pendingDelete g, .refill g]

def answers (os : List (Option (Decision κ))) : List Bool := os.filterMap (Option.map Decision.allowed)

theorem bucket_seconds_exact : Rounding.exact.bucket (asSeconds .exact) = bucket := by
  rw [funext seconds_exact]
  exact Rounding.bucket_exact

theorem rescale_demand {l : InMemoryLimiter} {c : Call κ} (hrate : c.args.rate = l.rate / 1000000)
    (hburst : c.args.burst = l.burst) : (demand c).rescale 1000000 = l.demand .exact (c.args.now / 1000000) := by
  rw [demand_eq]
  simp only [Demand.rescale, InMemoryLimiter.demand, hrate, hburst]
  rw [div_mul_cancel₀ _ (by norm_num)]
  rfl

namespace Shared

structure Quiet (key : κ) (s : Shared κ) (o : Option (Bucket ℚ)) : Prop where
  calls : s.calls = fun _ => none
  pending : s.pending key = none
  buffer : s.buffer = []
  cached : (s.cache key).map s.heap = o

theorem quiet_init {key : κ} : (init : Shared κ).Quiet key none := ⟨rfl, rfl, rfl, rfl⟩

variable [DecidableEq κ] {l : InMemoryLimiter} {s : Shared κ} {key : κ} {o : Option (Bucket ℚ)}

theorem run_undisturbed_found (h : s.Quiet key o) (hdis : l.disabled = false) {id : ℕ} (hc : s.cache key = some id)
    (g : ℕ) (now : ℚ) :
    (fallback l).run s (undisturbed g key now) =
      { s with heap := Function.update s.heap id (l.refill .exact now (s.heap id)).2 } := by
  obtain ⟨hcalls, -, hbuffer, -⟩ := h
  simp [undisturbed, Machine.run, fallbackIn, lookup, loadOrStore, cacheSet, pendingDelete, processItem, refill, goto,
    hcalls, hdis, hc, hbuffer]

theorem run_undisturbed_missed (h : s.Quiet key o) (hdis : l.disabled = false) (hc : s.cache key = none) (g : ℕ)
    (now : ℚ) :
    (fallback l).run s (undisturbed g key now) =
      { s with
        cache := Function.update s.cache key (some s.next)
        heap := Function.update s.heap s.next (l.newBucket .exact now)
        next := s.next + 1 } := by
  obtain ⟨hcalls, hpending, hbuffer, -⟩ := h
  simp [undisturbed, Machine.run, fallbackIn, lookup, loadOrStore, cacheSet, pendingDelete, processItem, refill, goto,
    hcalls, hdis, hc, hbuffer, hpending]

theorem quiet_undisturbed (hr : 0 < l.rate) (hb : 1 ≤ l.burst) (h : s.Quiet key o) (g : ℕ) (now : ℚ) :
    answers ((fallback l).outputs s (undisturbed g key now)) = [(bucket.step o (l.demand .exact now)).1] ∧
      ((fallback l).run s (undisturbed g key now)).Quiet key (bucket.step o (l.demand .exact now)).2 := by
  have hdis : l.disabled = false := decide_eq_false (not_le.mpr hr)
  cases hc : s.cache key with
  | some id =>
    rw [run_undisturbed_found h hdis hc]
    obtain ⟨hcalls, hpending, hbuffer, hcached⟩ := h
    rw [hc, Option.map_some] at hcached
    subst hcached
    rw [← bucket_seconds_exact, ← l.refill_eq now (s.heap id)]
    refine ⟨?_, hcalls, hpending, hbuffer, ?_⟩
    · simp [answers, undisturbed, Machine.outputs, fallbackIn, lookup, loadOrStore, cacheSet, pendingDelete,
        processItem, refill, goto, hcalls, hdis, hc, hbuffer]
    · simp only [hc, Option.map_some, Function.update_self]
  | none =>
    rw [run_undisturbed_missed h hdis hc]
    obtain ⟨hcalls, hpending, hbuffer, hcached⟩ := h
    rw [hc, Option.map_none] at hcached
    subst hcached
    rw [← bucket_seconds_exact, InMemoryLimiter.newBucket_eq hb]
    refine ⟨?_, hcalls, hpending, hbuffer, ?_⟩
    · simp [answers, undisturbed, Machine.outputs, fallbackIn, lookup, loadOrStore, cacheSet, pendingDelete,
        processItem, refill, goto, hcalls, hdis, hc, hbuffer, hpending]
    · simp only [Function.update_self, Option.map_some]

end Shared

variable [DecidableEq κ]

theorem answers_eq_outputs {l : InMemoryLimiter} (hr : 0 < l.rate) (hb : 1 ≤ l.burst) (g : ℕ) (key : κ)
    (ts : List ℚ) :
    answers ((fallback l).outputs Shared.init (ts.flatMap (undisturbed g key))) =
      bucket.outputs none (ts.map (l.demand .exact)) := by
  have hsim := Machine.outputs_eq (M := (fallback l).bundle (undisturbed g key)) (N := bucket)
    (R := Shared.Quiet key) (P := fun _ _ => True) (f := l.demand .exact) (g := answers) (k := fun o : Bool => [o])
    (s := Shared.init) (t := none)
    (fun _ _ now _ h => (Shared.quiet_undisturbed hr hb h g now).2)
    (fun _ _ now _ h => (Shared.quiet_undisturbed hr hb h g now).1)
    (Machine.along_of_forall (fun t (_ : t ∈ ts) _ => trivial)) Shared.quiet_init
  rw [Machine.outputs_flatMap, answers, List.filterMap_flatten]
  change (List.map answers _).flatten = _
  rw [hsim, ← List.flatMap_def, List.flatMap_singleton']

/-- **Agreement.** On a fresh key, with timestamps in order and nothing expired or evicted, the
script and the in-memory limiter give the same answers. -/
theorem script_agrees_fallback {l : InMemoryLimiter} (hr : 0 < l.rate) (hb : 1 ≤ l.burst) {key : κ}
    {db : Redis κ} (hfresh : db key = none) {cs : List (Call κ)}
    (hcs : ∀ c ∈ cs, c.key = key ∧ c.args.rate = l.rate / 1000000 ∧ c.args.burst = l.burst)
    (hs : cs.Pairwise fun a b => a.args.now ≤ b.args.now) (hn : script.Along NoExpiry db cs) (g : ℕ) :
    (script.outputs db cs).map (fun r => decide (r.allowed = 1)) =
      answers ((fallback l).outputs Shared.init
        ((cs.map fun c => (c.args.now / 1000000 : ℚ)).flatMap (undisturbed g key))) := by
  have hrate : 0 < l.rate / 1000000 := by positivity
  have halong := along_of_fresh (N := Arithmetic.exact) hfresh (fun c hc => ⟨(hcs c hc).1, (hcs c hc).2.1 ▸ hrate⟩) hs hn
  have hrescale : (cs.map demand).map (Demand.rescale 1000000) =
      (cs.map fun c => (c.args.now / 1000000 : ℚ)).map (l.demand .exact) := by
    rw [List.map_map, List.map_map]
    exact List.map_congr_left fun c hc => rescale_demand (hcs c hc).2.1 (hcs c hc).2.2
  rw [script_outputs_eq halong (hasFields_of_none hfresh), stored_of_none hfresh, answers_eq_outputs hr hb,
    ← hrescale, outputs_rescale (by norm_num)]

theorem script_agrees_fallback_half_token :
    answers ((fallback ⟨1 / 2, 1⟩).outputs Shared.init
      (([⟨(), ⟨1 / 2 / 1000000, 1, 10, 7000000⟩, 7000000⟩, ⟨(), ⟨1 / 2 / 1000000, 1, 10, 7000000⟩, 7000001⟩,
        ⟨(), ⟨1 / 2 / 1000000, 1, 10, 9000000⟩, 9000000⟩].map fun c : Call Unit =>
          (c.args.now / 1000000 : ℚ)).flatMap (undisturbed 0 ()))) = [true, false, true] := by
  have hfresh : (Keyspace.empty : Redis Unit) () = none := rfl
  refine (script_agrees_fallback (by norm_num) (by decide) hfresh ?_ ?_ ?_ 0).symm.trans ?_
  · simp
  · simp
  · decide +kernel
  · decide +kernel

end EdgeQuota.RateLimit
