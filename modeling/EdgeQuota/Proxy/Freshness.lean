import EdgeQuota.Cache.Capture
import EdgeQuota.Proxy.ResponseCache

/-! How old a response is when it is served from the cache. Redis keeps an entry for the whole
lifetime that its origin declared, counted from the moment it is stored. -/

namespace EdgeQuota.Proxy
open Go Lib Cache

structure Declared where
  maxAge : ℤ := 0
  sMaxAge : Option ℤ := none

def declare (d : Declared) (directive : GoString) : Declared :=
  let value := trim [str "\""] (trimSpace ((cut (byte '=') directive).2.getD []))
  let name := toLower (trimSpace (cut (byte '=') directive).1)
  if name = str "max-age" then
    match atoi value with
    | some n => if 0 < n then { d with maxAge := n } else d
    | none => d
  else if name = str "s-maxage" then
    match atoi value with
    | some n => if 0 ≤ n then { d with sMaxAge := some n } else d
    | none => d
  else d

def declared (cc : GoString) : Declared := (splitDirectives cc).foldl declare {}

def lifetime (header : Header) : ℤ :=
  let d := declared (join (byte ',') (header.values (str "Cache-Control")))
  d.sMaxAge.getD d.maxAge

structure Agrees (c : CacheControl) (d : Declared) : Prop where
  maxAge : c.maxAge = seconds d.maxAge
  hasSMaxAge : c.hasSMaxAge = d.sMaxAge.isSome
  sMaxAge : c.sMaxAge = seconds (d.sMaxAge.getD 0)
  maxAge_nonneg : 0 ≤ d.maxAge
  sMaxAge_nonneg : 0 ≤ d.sMaxAge.getD 0

theorem Agrees.apply {c : CacheControl} {d : Declared} (h : Agrees c d) (directive : GoString) :
    Agrees (applyDirective c directive) (declare d directive) := by
  unfold applyDirective declare
  dsimp only
  generalize toLower (trimSpace (cut (byte '=') directive).1) = name
  generalize trim [str "\""] (trimSpace ((cut (byte '=') directive).2.getD [])) = value
  have hsame {c' : CacheControl} (hmax : c'.maxAge = c.maxAge) (hhas : c'.hasSMaxAge = c.hasSMaxAge)
      (hsmax : c'.sMaxAge = c.sMaxAge) : Agrees c' d :=
    ⟨hmax.trans h.maxAge, hhas.trans h.hasSMaxAge, hsmax.trans h.sMaxAge, h.maxAge_nonneg, h.sMaxAge_nonneg⟩
  by_cases hmax : name = str "max-age"
  · rw [if_pos hmax, if_pos hmax]
    cases atoi value with
    | none => exact h
    | some n =>
      dsimp only
      split_ifs with hn
      · exact ⟨rfl, h.hasSMaxAge, h.sMaxAge, hn.le, h.sMaxAge_nonneg⟩
      · exact h
  · rw [if_neg hmax, if_neg hmax]
    by_cases hsmax : name = str "s-maxage"
    · rw [if_pos hsmax, if_pos hsmax]
      cases atoi value with
      | none => exact h
      | some n =>
        dsimp only
        split_ifs with hn
        · exact ⟨h.maxAge, rfl, rfl, h.maxAge_nonneg, hn⟩
        · exact h
    · rw [if_neg hsmax, if_neg hsmax]
      split_ifs
      · exact hsame rfl rfl rfl
      · exact hsame rfl rfl rfl
      · exact hsame rfl rfl rfl
      · exact hsame rfl rfl rfl
      · exact hsame rfl rfl rfl
      · exact h

theorem agrees_parse (cc : GoString) : Agrees (parseCacheControl cc) (declared cc) := by
  unfold parseCacheControl declared
  have hstart : Agrees {} {} := ⟨by decide, rfl, by decide, le_rfl, le_rfl⟩
  generalize splitDirectives cc = ds
  revert hstart
  generalize ({} : CacheControl) = c, ({} : Declared) = d
  intro hstart
  induction ds generalizing c d with
  | nil => exact hstart
  | cons directive ds ih => exact ih _ _ (hstart.apply directive)

theorem ttl_parse (header : Header) :
    (parseCacheControl (join (byte ',') (header.values (str "Cache-Control")))).ttl = seconds (lifetime header) ∧
      0 ≤ lifetime header := by
  have hagrees := agrees_parse (join (byte ',') (header.values (str "Cache-Control")))
  rw [CacheControl.ttl, hagrees.hasSMaxAge, hagrees.sMaxAge, hagrees.maxAge, lifetime]
  have hmax := hagrees.maxAge_nonneg
  have hsmax := hagrees.sMaxAge_nonneg
  generalize declared (join (byte ',') (header.values (str "Cache-Control"))) = d at hmax hsmax
  obtain ⟨m, _ | n⟩ := d
  · exact ⟨rfl, hmax⟩
  · exact ⟨rfl, hsmax⟩

theorem ttl_eq {r : Request} {code ttl : ℤ} {header : Header} (h : isCacheable r code header = some ttl) :
    ttl = seconds (lifetime header) ∧ 0 < lifetime header := by
  obtain ⟨-, hpos, httl⟩ := isCacheable_some h
  obtain ⟨hseconds, hnonneg⟩ := ttl_parse header
  rw [hseconds] at httl
  refine ⟨httl, lt_of_le_of_ne hnonneg fun hzero => ?_⟩
  rw [httl, ← hzero] at hpos
  exact absurd hpos (by decide)

theorem seconds_of_lt {n : ℤ} (h : 0 ≤ n) (hlt : n < 2 ^ 31) : seconds n = n * 1000000000 := by
  unfold seconds int64
  omega

theorem expiryMs_seconds {n : ℤ} (h : 0 < n) (hlt : n < 2 ^ 31) : expiryMs (seconds n) = n * 1000 := by
  rw [seconds_of_lt h.le hlt, expiryMs, if_neg (by omega)]
  omega

def upstreamAge (e : Entry) : ℤ :=
  match atoi (trimSpace (e.headers.get (str "Age"))) with
  | some a => if 0 < a then min a maxAge else 0
  | none => 0

theorem age_eq (e : Entry) (now : ℤ) :
    age e now = min (upstreamAge e + max 0 ((now - e.createdAt) / 1000000000)) maxAge := rfl

theorem upstreamAge_nonneg (e : Entry) : 0 ≤ upstreamAge e := by
  unfold upstreamAge maxAge
  split
  · split_ifs <;> omega
  · exact le_rfl

theorem age_le_maxAge (e : Entry) (now : ℤ) : age e now ≤ maxAge := min_le_right _ _

def redisClock (offset now : ℤ) : ℤ := (now + offset) / 1000000

theorem age_le_iff (e : Entry) {n clock offset stored : ℤ} (hn : 0 < n) (hlt : n < 2 ^ 31)
    (hcreated : e.createdAt ≤ stored) (hclock : clock = redisClock offset stored) :
    (∀ now, stored ≤ now → redisClock offset now < clock + n * 1000 → age e now ≤ n) ↔
      upstreamAge e * 1000000000 + (clock * 1000000 - offset - e.createdAt) ≤ 1000000000 := by
  have hage := upstreamAge_nonneg e
  unfold redisClock at hclock
  have hmaxAge : maxAge = 2 ^ 31 := rfl
  constructor
  · intro h
    -- the last nanosecond before Redis drops the entry
    have hlast := h (clock * 1000000 - offset + n * 1000000000 - 1) (by omega) (by unfold redisClock; omega)
    rw [age_eq, hmaxAge] at hlast
    omega
  · intro h now _ hlive
    unfold redisClock at hlive
    rw [age_eq]
    apply min_le_of_left_le
    omega

theorem lookup_of_slot {w : World} {key : GoString} {s : Stored} {clock ttl : ℤ}
    (h : entries w key = some (slotOf s clock ttl)) (t : ℤ) :
    lookup w.redis t (keyPrefix ++ key) =
      if t < clock + expiryMs ttl then some { s with entry := s.entry.marshal } else none := by
  unfold entries at h
  unfold lookup Keyspace.get Keyspace.find
  rw [h]
  by_cases hlive : t < clock + expiryMs ttl <;> simp [Option.filter, Slot.live, slotOf, hlive]

theorem stale_iff {w : World} {key : GoString} {s : Stored} {n offset stored : ℤ} (hpos : 0 < n)
    (hslot : entries w key = some (slotOf s (redisClock offset stored) (seconds n)))
    (hcreated : s.entry.createdAt ≤ stored) :
    (∀ now t, stored ≤ now → lookup w.redis (redisClock offset now) (keyPrefix ++ key) = some t → age t.entry now ≤ n) ↔
      2 ^ 31 ≤ n ∨ upstreamAge s.entry.marshal * 1000000000 +
        (redisClock offset stored * 1000000 - offset - s.entry.createdAt) ≤ 1000000000 := by
  by_cases hlong : 2 ^ 31 ≤ n
  · exact iff_of_true (fun now t _ _ => (age_le_maxAge t.entry now).trans hlong) (Or.inl hlong)
  · have hlookup := lookup_of_slot hslot
    rw [expiryMs_seconds hpos (not_le.mp hlong)] at hlookup
    rw [or_iff_right hlong]
    refine Iff.trans ?_ (age_le_iff s.entry.marshal hpos (not_le.mp hlong) hcreated rfl)
    constructor
    · intro hage now hnow hlive
      have hfound := (hlookup (redisClock offset now)).trans (if_pos hlive)
      exact hage now { s with entry := s.entry.marshal } hnow hfound
    · intro hage now t hnow hfound
      rw [hlookup] at hfound
      split_ifs at hfound with hlive
      cases hfound
      exact hage now hnow hlive

def aged (age : List GoString) : Handling where
  ops :=
    .setHeader (str "Cache-Control") (str "max-age=60") :: age.map (.setHeader (str "Age")) ++
      [.writeHeader 200, .write (str "hello") 5]

end EdgeQuota.Proxy
