import EdgeQuota.Middleware.Live

/-! The custody of the Redis clients, apart from the rest of the chain: the references there are, the changes that
operations make to them, which clients a change creates and closes, and what is true of the record of them all. -/

namespace EdgeQuota.Middleware
open Config

/-- Which code closes a client: `releaseCacheRedis`, whoever takes the limiter away, or the recovery that has
created it. -/
inductive ClosePath where
  | cache
  | limiter
  | recovery
  deriving DecidableEq

structure Closing where
  path : ClosePath
  client : RedisHandle
  deriving DecidableEq

/-- What an operation amounts to for the clients; `rc` is the section of a client that a recovery has created,
`usable` that of a dedicated one that can be. -/
inductive Change where
  | nothing
  | recoveryOver
  | limiterLost
  | gaveUp (rc : RedisConfig)
  | notConfigured (rc : RedisConfig)
  | installed (rc : RedisConfig)
  | rebound
  | released (usable : Option RedisConfig) (created : Bool)
  | closed

structure Clients where
  limiter : Option RedisHandle
  cacheRedis : Option RedisHandle
  cacheRedisOwned : Bool
  authCacheRedis : Option RedisHandle
  /-- The client of the external service, if there is one, and its Redis. -/
  external : Option (Option RedisHandle)
  allocated : ℕ
  closed : Bool
  reconnecting : Bool

namespace Clients

def Refers (c : Clients) (h : RedisHandle) : Prop :=
  c.cacheRedis = some h ∨ c.authCacheRedis = some h ∨ c.external = some (some h)

def release (c : Clients) : Clients := { c with cacheRedis := none, cacheRedisOwned := false }

def releasing (c : Clients) : List Closing :=
  if c.cacheRedisOwned then c.cacheRedis.toList.map (Closing.mk .cache) else []

def swappedOut (c : Clients) : List Closing := c.limiter.toList.map (Closing.mk .limiter)

theorem swappedOut_of_none {c : Clients} (h : c.limiter = none) : c.swappedOut = [] := by
  rw [swappedOut, h]
  rfl

def adopted (usable : Option RedisConfig) (c : Clients) : List RedisHandle :=
  if c.cacheRedis = none then (usable.map (RedisHandle.mk c.allocated)).toList else []

def adopt (rc : RedisConfig) (c : Clients) : Clients :=
  { c with cacheRedis := some ⟨c.allocated, rc⟩, cacheRedisOwned := true, allocated := c.allocated + 1 }

def borrow (c : Clients) : Clients :=
  match c.limiter with
  | some lim => { c with cacheRedis := some lim, cacheRedisOwned := false }
  | none => c

def resolve (usable : Option RedisConfig) (c : Clients) : Clients :=
  if c.cacheRedis = none then
    match usable with
    | some rc => c.adopt rc
    | none => c.borrow
  else c

def bindExternal (c : Clients) : Clients := { c with external := some c.cacheRedis, allocated := c.allocated + 1 }

def bindAuth (c : Clients) : Clients := { c with authCacheRedis := c.cacheRedis }

def reloadExternal (usable : Option RedisConfig) (created : Bool) (c : Clients) : Clients :=
  let c := c.release.resolve usable
  if created then c.bindExternal else c

def install (rc : RedisConfig) (c : Clients) : Clients :=
  let client : RedisHandle := ⟨c.allocated, rc⟩
  let c := { c with limiter := some client, allocated := c.allocated + 1, reconnecting := false }
  if c.cacheRedisOwned then c
  else
    { c with
      cacheRedis := some client, authCacheRedis := some client, external := c.external.map fun _ => some client }

theorem frame_resolve (usable : Option RedisConfig) (c : Clients) :
    (c.resolve usable).external = c.external ∧ (c.resolve usable).limiter = c.limiter ∧
      (c.resolve usable).authCacheRedis = c.authCacheRedis ∧ (c.resolve usable).closed = c.closed := by
  unfold resolve
  split_ifs
  · cases usable with
    | some rc => exact ⟨rfl, rfl, rfl, rfl⟩
    | none =>
      unfold borrow
      simp only
      split <;> exact ⟨rfl, rfl, rfl, rfl⟩
  · exact ⟨rfl, rfl, rfl, rfl⟩

theorem id_of_adopted {usable : Option RedisConfig} {c : Clients} {x : RedisHandle} (h : x ∈ c.adopted usable) :
    x.id = c.allocated := by
  unfold adopted at h
  split_ifs at h
  · obtain ⟨rc, -, rfl⟩ := Option.map_eq_some_iff.mp (Option.mem_toList.mp h)
    rfl
  · cases h

def apply (c : Clients) : Change → Clients
  | .nothing => c
  | .recoveryOver => { c with reconnecting := false }
  | .limiterLost => { c with limiter := none, reconnecting := c.reconnecting || !c.closed }
  | .gaveUp _ => { c with reconnecting := false, allocated := c.allocated + 1 }
  | .notConfigured _ => { c with limiter := none, reconnecting := false, allocated := c.allocated + 1 }
  | .installed rc => c.install rc
  | .rebound => c.bindAuth
  | .released usable created => (c.reloadExternal usable created).bindAuth
  | .closed => release { c with limiter := none, closed := true }

def creates (c : Clients) : Change → List RedisHandle
  | .released usable _ => c.release.adopted usable
  | .nothing | .recoveryOver | .limiterLost | .gaveUp _ | .notConfigured _ | .installed _ | .rebound | .closed => []

def closes (c : Clients) : Change → List Closing
  | .nothing | .recoveryOver | .rebound => []
  | .limiterLost | .installed _ => c.swappedOut
  | .gaveUp rc => [⟨.recovery, ⟨c.allocated, rc⟩⟩]
  | .notConfigured rc => c.swappedOut ++ [⟨.recovery, ⟨c.allocated, rc⟩⟩]
  | .released _ _ => c.releasing
  | .closed => c.swappedOut ++ c.releasing

def Possible (c : Clients) : Change → Prop
  | .gaveUp _ | .notConfigured _ => c.reconnecting = true
  | .installed _ => c.reconnecting = true ∧ c.closed = false
  | .nothing | .recoveryOver | .limiterLost | .rebound | .released _ _ | .closed => True

end Clients

structure Kept (c : Clients) (d : List RedisHandle) (k : List Closing) : Prop where
  referred : ∀ h, c.Refers h → h.id < c.allocated
  installed : ∀ h ∈ c.limiter, h.id < c.allocated ∧ h ∉ d ∧ h ∉ k.map Closing.client
  created : ∀ h ∈ d, h.id < c.allocated
  logged : ∀ x ∈ k, x.client.id < c.allocated
  owned : c.cacheRedisOwned = true → ∃ h ∈ d, c.cacheRedis = some h
  borrowed : c.cacheRedisOwned = false → ∀ h ∈ c.cacheRedis, h ∉ d ∧ ∀ lim ∈ c.limiter, lim = h
  once : ∀ h ∈ d, (k.map Closing.client).count h = if c.cacheRedisOwned = true ∧ c.cacheRedis = some h then 0 else 1
  path : ∀ x ∈ k, x.path = .cache ↔ x.client ∈ d
  down : c.closed = true ∨ c.reconnecting = true → c.limiter = none

namespace Kept
variable {c : Clients} {d : List RedisHandle} {k : List Closing} {usable : Option RedisConfig} {rc : RedisConfig}

theorem fresh_created (h : Kept c d k) (rc : RedisConfig) : (⟨c.allocated, rc⟩ : RedisHandle) ∉ d :=
  fun hmem => Nat.lt_irrefl _ (h.created _ hmem)

theorem fresh_logged (h : Kept c d k) (rc : RedisConfig) :
    (⟨c.allocated, rc⟩ : RedisHandle) ∉ k.map Closing.client := by
  intro hmem
  obtain ⟨x, hx, hclient⟩ := List.mem_map.mp hmem
  have hid := h.logged x hx
  rw [hclient] at hid
  exact Nat.lt_irrefl _ hid

theorem not_owned (h : Kept c d k) (hnone : c.cacheRedis = none) : c.cacheRedisOwned = false := by
  by_contra howned
  obtain ⟨client, -, hclient⟩ := h.owned (Bool.eq_true_of_not_eq_false howned)
  rw [hnone] at hclient
  cases hclient

theorem allocate (h : Kept c d k) : Kept { c with allocated := c.allocated + 1 } d k :=
  { h with
    referred := fun x hx => Nat.lt_succ_of_lt (h.referred x hx)
    installed := fun x hx => ⟨Nat.lt_succ_of_lt (h.installed x hx).1, (h.installed x hx).2⟩
    created := fun x hx => Nat.lt_succ_of_lt (h.created x hx)
    logged := fun x hx => Nat.lt_succ_of_lt (h.logged x hx) }

theorem referred_of_cacheRedis (h : Kept c d k) {o : Option RedisHandle} (ho : ∀ x ∈ o, x.id < c.allocated)
    (x : RedisHandle) (hx : { c with cacheRedis := o }.Refers x) : x.id < c.allocated := by
  rcases hx with hx | hx | hx
  · exact ho x hx
  · exact h.referred x (.inr (.inl hx))
  · exact h.referred x (.inr (.inr hx))

theorem log (h : Kept c d k) {x : Closing} (hdown : c.limiter = none) (hid : x.client.id < c.allocated)
    (hcreated : x.client ∉ d) (hpath : x.path ≠ .cache) : Kept c d (k ++ [x]) := by
  refine { h with installed := ?_, logged := ?_, once := ?_, path := ?_ }
  · intro y hy
    cases hdown.symm.trans hy
  · exact List.forall_mem_append.mpr ⟨h.logged, List.forall_mem_singleton.mpr hid⟩
  · intro y hy
    have hne : x.client ≠ y := by
      rintro rfl
      exact hcreated hy
    rw [List.map_append, List.count_append, h.once y hy]
    simp [hne]
  · exact List.forall_mem_append.mpr ⟨h.path, List.forall_mem_singleton.mpr (iff_of_false hpath hcreated)⟩

theorem release (h : Kept c d k) : Kept c.release d (k ++ c.releasing) := by
  have hreferred := h.referred_of_cacheRedis (o := none) (by rintro x ⟨⟩)
  unfold Clients.releasing
  cases howned : c.cacheRedisOwned with
  | false =>
    rw [if_neg Bool.false_ne_true, List.append_nil]
    refine { h with referred := hreferred, owned := by rintro ⟨⟩, borrowed := by rintro - x ⟨⟩, once := ?_ }
    intro x hx
    rw [h.once x hx, howned]
    rfl
  | true =>
    obtain ⟨client, hclient, hcache⟩ := h.owned howned
    rw [if_pos rfl, hcache]
    -- the owned client has not been closed before, so this is the one time
    constructor
    case referred => exact hreferred
    case installed =>
      intro x hx
      obtain ⟨hid, hcreated, hlogged⟩ := h.installed x hx
      refine ⟨hid, hcreated, ?_⟩
      rw [List.map_append, List.mem_append, not_or]
      refine ⟨hlogged, fun hmem => ?_⟩
      obtain rfl : x = client := List.mem_singleton.mp hmem
      exact hcreated hclient
    case created => exact h.created
    case logged =>
      refine List.forall_mem_append.mpr ⟨h.logged, List.forall_mem_singleton.mpr ?_⟩
      exact h.created client hclient
    case owned => rintro ⟨⟩
    case borrowed => rintro - x ⟨⟩
    case once =>
      intro x hx
      rw [List.map_append, List.count_append, h.once x hx, howned, hcache]
      by_cases hx : client = x
      · simp [hx, Clients.release]
      · simp [hx, Clients.release]
    case path =>
      refine List.forall_mem_append.mpr ⟨h.path, List.forall_mem_singleton.mpr ?_⟩
      exact iff_of_true rfl hclient
    case down => exact h.down

theorem adopt (h : Kept c d k) (hnone : c.cacheRedis = none) (rc : RedisConfig) :
    Kept (c.adopt rc) (d ++ [⟨c.allocated, rc⟩]) k := by
  refine
    { h.allocate with
      referred := ?_, installed := ?_, created := ?_, owned := ?_, borrowed := ?_, once := ?_, path := ?_ }
  · refine h.allocate.referred_of_cacheRedis ?_
    rintro x ⟨⟩
    exact Nat.lt_succ_self _
  · intro x hx
    obtain ⟨hid, hcreated, hlogged⟩ := h.installed x hx
    refine ⟨Nat.lt_succ_of_lt hid, ?_, hlogged⟩
    rw [List.mem_append, not_or, List.mem_singleton]
    refine ⟨hcreated, ?_⟩
    rintro rfl
    exact Nat.lt_irrefl _ hid
  · exact List.forall_mem_append.mpr ⟨h.allocate.created, List.forall_mem_singleton.mpr (Nat.lt_succ_self _)⟩
  · exact fun _ => ⟨_, List.mem_append_right _ (List.mem_singleton_self _), rfl⟩
  · rintro ⟨⟩
  · refine List.forall_mem_append.mpr ⟨?_, List.forall_mem_singleton.mpr ?_⟩
    · intro x hx
      rw [h.once x hx, h.not_owned hnone, if_neg (fun hboth => Bool.false_ne_true hboth.1), if_neg]
      rintro ⟨-, hsame⟩
      obtain rfl := Option.some.inj hsame
      exact h.fresh_created rc hx
    · rw [if_pos ⟨rfl, rfl⟩]
      exact List.count_eq_zero.mpr (h.fresh_logged rc)
  · intro x hx
    rw [h.path x hx, List.mem_append, List.mem_singleton]
    refine (or_iff_left ?_).symm
    intro hfresh
    exact h.fresh_logged rc (hfresh ▸ List.mem_map_of_mem hx)

theorem borrow (h : Kept c d k) (hnone : c.cacheRedis = none) : Kept c.borrow d k := by
  unfold Clients.borrow
  split
  case h_2 => exact h
  case h_1 lim hlim =>
    obtain ⟨hid, hcreated, -⟩ := h.installed lim hlim
    refine { h with referred := ?_, owned := ?_, borrowed := ?_, once := ?_ }
    · refine h.referred_of_cacheRedis ?_
      rintro x ⟨⟩
      exact hid
    · rintro ⟨⟩
    · intro _ x hx
      obtain rfl := Option.some.inj hx
      exact ⟨hcreated, fun y hy => Option.some.inj (hy.symm.trans hlim)⟩
    · intro x hx
      rw [h.once x hx, h.not_owned hnone]
      rfl

theorem resolve (h : Kept c d k) (usable : Option RedisConfig) :
    Kept (c.resolve usable) (d ++ c.adopted usable) k := by
  unfold Clients.resolve Clients.adopted
  split_ifs with hnone
  · cases usable with
    | none => simpa using h.borrow hnone
    | some rc => exact h.adopt hnone rc
  · simpa using h

theorem bindExternal (h : Kept c d k) : Kept c.bindExternal d k := by
  refine { h.allocate with referred := ?_ }
  rintro x (hx | hx | hx)
  · exact h.allocate.referred x (.inl hx)
  · exact h.allocate.referred x (.inr (.inl hx))
  · exact h.allocate.referred x (.inl (Option.some.inj hx))

theorem bindAuth (h : Kept c d k) : Kept c.bindAuth d k := by
  refine { h with referred := ?_ }
  rintro x (hx | hx | hx)
  · exact h.referred x (.inl hx)
  · exact h.referred x (.inl hx)
  · exact h.referred x (.inr (.inr hx))

theorem drop (h : Kept c d k) (closed reconnecting : Bool) :
    Kept { c with limiter := none, closed := closed, reconnecting := reconnecting } d (k ++ c.swappedOut) := by
  have hdropped : Kept { c with limiter := none, closed := closed, reconnecting := reconnecting } d k := by
    refine { h with installed := by rintro x ⟨⟩, borrowed := ?_, down := fun _ => rfl }
    intro howned x hx
    exact ⟨(h.borrowed howned x hx).1, by rintro lim ⟨⟩⟩
  cases hlim : c.limiter with
  | none =>
    rw [Clients.swappedOut_of_none hlim, List.append_nil]
    exact hdropped
  | some lim =>
    obtain ⟨hid, hcreated, -⟩ := h.installed lim hlim
    rw [Clients.swappedOut, hlim]
    exact hdropped.log rfl hid hcreated (by rintro ⟨⟩)

theorem giveUp (h : Kept c d k) (rc : RedisConfig) (reconnecting : Bool) (hdown : c.limiter = none) :
    Kept { c with reconnecting := reconnecting, allocated := c.allocated + 1 } d
      (k ++ [⟨.recovery, ⟨c.allocated, rc⟩⟩]) := by
  have hallocated : Kept { c with reconnecting := reconnecting, allocated := c.allocated + 1 } d k :=
    { h.allocate with down := fun _ => hdown }
  exact hallocated.log hdown (Nat.lt_succ_self _) (h.fresh_created rc) (by rintro ⟨⟩)

theorem reloadExternal (h : Kept c d k) (usable : Option RedisConfig) (created : Bool) :
    Kept (c.reloadExternal usable created) (d ++ c.release.adopted usable) (k ++ c.releasing) := by
  unfold Clients.reloadExternal
  cases created with
  | false => exact h.release.resolve usable
  | true => exact (h.release.resolve usable).bindExternal

theorem install (h : Kept c d k) (rc : RedisConfig) (hclosed : c.closed = false) : Kept (c.install rc) d k := by
  have hnew : ∀ x ∈ some (⟨c.allocated, rc⟩ : RedisHandle),
      x.id < c.allocated + 1 ∧ x ∉ d ∧ x ∉ k.map Closing.client := by
    rintro x ⟨⟩
    exact ⟨Nat.lt_succ_self _, h.fresh_created rc, h.fresh_logged rc⟩
  have hup : ¬(c.closed = true ∨ false = true) := by simp [hclosed]
  unfold Clients.install
  simp only
  split_ifs with howned
  · refine { h.allocate with installed := hnew, borrowed := ?_, down := fun hdown => absurd hdown hup }
    intro hfalse
    rw [howned] at hfalse
    cases hfalse
  · refine
      { h.allocate with
        installed := hnew, referred := ?_, owned := fun htrue => absurd htrue howned, borrowed := ?_, once := ?_
        down := fun hdown => absurd hdown hup }
    · rintro x (hx | hx | hx)
      · exact (hnew x hx).1
      · exact (hnew x hx).1
      · obtain ⟨-, -, hx⟩ := Option.map_eq_some_iff.mp hx
        exact (hnew x hx).1
    · intro _ x hx
      exact ⟨(hnew x hx).2.1, fun lim hlim => Option.some.inj (hlim.symm.trans hx)⟩
    · intro x hx
      rw [h.once x hx, if_neg fun hboth => howned hboth.1, if_neg fun hboth => howned hboth.1]

end Kept

structure Custody (c : Clients) (d : List RedisHandle) (k : List Closing) : Prop extends Kept c d k where
  auth : c.authCacheRedis = none ∨ c.authCacheRedis = c.cacheRedis ∨ c.closed = true

namespace Custody
variable {c : Clients} {d : List RedisHandle} {k : List Closing} {ch : Change}

theorem apply (h : Custody c d k) (hpossible : c.Possible ch) :
    Custody (c.apply ch) (d ++ c.creates ch) (k ++ c.closes ch) := by
  cases ch with simp only [Clients.apply, Clients.creates, Clients.closes, List.append_nil, ← List.append_assoc]
  | nothing => exact h
  | recoveryOver =>
    exact { h with down := fun hdown => h.down (hdown.imp_right fun hfalse => absurd hfalse Bool.false_ne_true) }
  | limiterLost => exact ⟨h.toKept.drop _ _, h.auth⟩
  | gaveUp rc => exact ⟨h.toKept.giveUp rc false (h.down (.inr hpossible)), h.auth⟩
  | notConfigured rc => exact ⟨(h.toKept.drop c.closed false).giveUp rc false rfl, h.auth⟩
  | installed rc =>
    -- there is no limiter during a recovery, so none to close
    rw [Clients.swappedOut_of_none (h.down (.inr hpossible.1)), List.append_nil]
    refine ⟨h.toKept.install rc hpossible.2, ?_⟩
    unfold Clients.install
    simp only
    split_ifs
    · exact h.auth
    · exact .inr (.inl rfl)
  | rebound => exact ⟨h.toKept.bindAuth, .inr (.inl rfl)⟩
  | released usable created => exact ⟨(h.toKept.reloadExternal usable created).bindAuth, .inr (.inl rfl)⟩
  | closed => exact ⟨(h.toKept.drop true c.reconnecting).release, .inr (.inr rfl)⟩

end Custody

def Clients.initial : Clients := ⟨none, none, false, none, none, 0, false, false⟩

namespace Custody
variable {c : Clients} {d : List RedisHandle} {k : List Closing}

theorem initial : Custody .initial [] [] where
  referred := by rintro x (⟨⟨⟩⟩ | ⟨⟨⟩⟩ | ⟨⟨⟩⟩)
  installed := by rintro x ⟨⟩
  created := by rintro x ⟨⟩
  logged := by rintro x ⟨⟩
  owned := by rintro ⟨⟩
  borrowed := by rintro - x ⟨⟩
  once := by rintro x ⟨⟩
  path := by rintro x ⟨⟩
  down := fun _ => rfl
  auth := .inl rfl

theorem limited (rc : RedisConfig) :
    Custody { Clients.initial with limiter := some ⟨0, rc⟩, allocated := 1 } [] [] :=
  { initial with
    referred := fun x hx => Nat.lt_succ_of_lt (initial.referred x hx)
    installed := by
      rintro x ⟨⟩
      exact ⟨Nat.zero_lt_one, List.not_mem_nil, List.not_mem_nil⟩
    created := by rintro x ⟨⟩
    logged := by rintro x ⟨⟩
    borrowed := by rintro - x ⟨⟩
    down := by rintro (⟨⟨⟩⟩ | ⟨⟨⟩⟩) }

theorem resolve (h : Custody c d k) (usable : Option RedisConfig) :
    Custody (c.resolve usable) (d ++ c.adopted usable) k := by
  refine ⟨h.toKept.resolve usable, ?_⟩
  obtain ⟨-, -, hauth, hclosed⟩ := c.frame_resolve usable
  rw [hauth, hclosed]
  by_cases hnone : c.cacheRedis = none
  · rcases h.auth with hauth | hsame | hclosed
    · exact .inl hauth
    · exact .inl (hsame.trans hnone)
    · exact .inr (.inr hclosed)
  · rw [show c.resolve usable = c from if_neg hnone]
    exact h.auth

end Custody

def Unclosed (c : Clients) (d : List RedisHandle) (k : List Closing) : Prop :=
  ∀ h, c.Refers h → h ∈ d ∨ c.limiter.isSome = true → h ∉ k.map Closing.client

/-- A change after which no closed client is referred to. The dedicated client that a reload or the end closes is
not that of the external client that stays (nor, at the end, the one for authentication), and a recovery that
leaves the references alone finds that of the external client open. -/
def Clients.Safe (c : Clients) (k : List Closing) : Change → Prop
  | .installed _ => c.cacheRedisOwned = true → ∀ h ∈ c.external.join, h ∉ k.map Closing.client
  | .released _ created => created = false → c.cacheRedisOwned = true → c.external ≠ some c.cacheRedis
  | .closed => c.cacheRedisOwned = true → c.authCacheRedis ≠ c.cacheRedis ∧ c.external ≠ some c.cacheRedis
  | .nothing | .recoveryOver | .limiterLost | .gaveUp _ | .notConfigured _ | .rebound => True

instance (c : Clients) (k : List Closing) : DecidablePred (c.Safe k)
  | .installed _ => inferInstanceAs (Decidable (_ → ∀ h ∈ c.external.join, h ∉ k.map Closing.client))
  | .released _ created =>
    inferInstanceAs (Decidable (created = false → c.cacheRedisOwned = true → c.external ≠ some c.cacheRedis))
  | .closed => inferInstanceAs (Decidable (_ → c.authCacheRedis ≠ c.cacheRedis ∧ c.external ≠ some c.cacheRedis))
  | .nothing | .recoveryOver | .limiterLost | .gaveUp _ | .notConfigured _ | .rebound => isTrue trivial

namespace Kept
variable {c : Clients} {d : List RedisHandle} {k : List Closing} {x : RedisHandle}

theorem open_cacheRedis (h : Kept c d k) (hx : c.cacheRedis = some x) (hmatters : x ∈ d ∨ c.limiter.isSome = true) :
    x ∉ k.map Closing.client := by
  cases howned : c.cacheRedisOwned with
  | true =>
    obtain ⟨client, hclient, hcache⟩ := h.owned howned
    obtain rfl := Option.some.inj (hx.symm.trans hcache)
    rw [← List.count_eq_zero, h.once x hclient, if_pos ⟨howned, hcache⟩]
  | false =>
    obtain ⟨hcreated, hlim⟩ := h.borrowed howned x hx
    obtain ⟨lim, hinstalled⟩ := Option.isSome_iff_exists.mp (hmatters.resolve_left hcreated)
    rw [← hlim lim hinstalled]
    exact (h.installed lim hinstalled).2.2

theorem unclosed_iff (h : Kept c d k) (hauth : c.authCacheRedis = none ∨ c.authCacheRedis = c.cacheRedis) :
    Unclosed c d k ↔
      ∀ x, c.external = some (some x) → x ∈ d ∨ c.limiter.isSome = true → x ∉ k.map Closing.client := by
  refine ⟨fun hall x hx => hall x (.inr (.inr hx)), ?_⟩
  rintro hexternal x (hx | hx | hx)
  · exact h.open_cacheRedis hx
  · rcases hauth with hnone | hsame
    · cases hnone.symm.trans hx
    · exact h.open_cacheRedis (hsame.symm.trans hx)
  · exact hexternal x hx

theorem mem_releasing : x ∈ c.releasing.map Closing.client ↔ c.cacheRedisOwned = true ∧ c.cacheRedis = some x := by
  unfold Clients.releasing
  split_ifs with howned <;> simp [howned]

theorem mem_swappedOut : x ∈ c.swappedOut.map Closing.client ↔ c.limiter = some x := by
  simp [Clients.swappedOut]

theorem unclosed_drop (h : Kept c d k) (hunclosed : Unclosed c d k) (closed reconnecting : Bool) :
    Unclosed { c with limiter := none, closed := closed, reconnecting := reconnecting } d (k ++ c.swappedOut) := by
  intro x hx hmatters
  have hcreated : x ∈ d := hmatters.resolve_right Bool.false_ne_true
  rw [List.map_append, List.mem_append, not_or, mem_swappedOut]
  exact ⟨hunclosed x hx (.inl hcreated), fun hlim => (h.installed x hlim).2.1 hcreated⟩

theorem unclosed_giveUp (h : Kept c d k) (hunclosed : Unclosed c d k) (rc : RedisConfig) (reconnecting : Bool) :
    Unclosed { c with reconnecting := reconnecting, allocated := c.allocated + 1 } d
      (k ++ [⟨.recovery, ⟨c.allocated, rc⟩⟩]) := by
  intro x hx hmatters
  rw [List.map_append, List.mem_append, not_or, List.map_singleton, List.mem_singleton]
  refine ⟨hunclosed x hx hmatters, ?_⟩
  rintro rfl
  exact Nat.lt_irrefl _ (h.referred _ hx)

theorem unclosed_released_iff (h : Kept c d k) (hunclosed : Unclosed c d k) (usable : Option RedisConfig) :
    Unclosed (c.release.resolve usable).bindAuth (d ++ c.release.adopted usable) (k ++ c.releasing) ↔
      (c.cacheRedisOwned = true → c.external ≠ some c.cacheRedis) := by
  obtain ⟨hexternal, hlimiter, -, -⟩ := c.release.frame_resolve usable
  rw [(h.release.resolve usable).bindAuth.unclosed_iff (.inr rfl)]
  change (∀ x, (c.release.resolve usable).external = _ → _ ∨ (c.release.resolve usable).limiter.isSome = true → _) ↔ _
  rw [hexternal, hlimiter]
  constructor
  · intro hall howned hexternal
    obtain ⟨client, hclient, hcache⟩ := h.owned howned
    refine hall client (hexternal.trans (congrArg some hcache)) (.inl (List.mem_append_left _ hclient)) ?_
    rw [List.map_append]
    exact List.mem_append_right _ (mem_releasing.mpr ⟨howned, hcache⟩)
  · intro hother x hx hmatters
    rw [List.map_append, List.mem_append, not_or, mem_releasing]
    refine ⟨hunclosed x (.inr (.inr hx)) (hmatters.imp_left fun hcreated => ?_), ?_⟩
    · refine (List.mem_append.mp hcreated).resolve_right fun hadopted => ?_
      have hid := h.referred x (.inr (.inr hx))
      rw [Clients.id_of_adopted hadopted] at hid
      exact Nat.lt_irrefl _ hid
    · rintro ⟨howned, hcache⟩
      exact hother howned (hx.trans (congrArg some hcache.symm))

theorem unclosed_closed_iff (h : Kept c d k) (hunclosed : Unclosed c d k) :
    Unclosed (Clients.release { c with limiter := none, closed := true }) d (k ++ c.swappedOut ++ c.releasing) ↔
      (c.cacheRedisOwned = true → c.authCacheRedis ≠ c.cacheRedis ∧ c.external ≠ some c.cacheRedis) := by
  constructor
  · intro hall howned
    obtain ⟨client, hclient, hcache⟩ := h.owned howned
    have hclosed : client ∈ (k ++ c.swappedOut ++ c.releasing).map Closing.client := by
      rw [List.map_append]
      exact List.mem_append_right _ (mem_releasing.mpr ⟨howned, hcache⟩)
    refine ⟨fun hauth => ?_, fun hexternal => ?_⟩
    · exact hall client (.inr (.inl (hauth.trans hcache))) (.inl hclient) hclosed
    · exact hall client (.inr (.inr (hexternal.trans (congrArg some hcache)))) (.inl hclient) hclosed
  · intro hother x hx hmatters
    have hbefore : x ∉ (k ++ c.swappedOut).map Closing.client := by
      refine h.unclosed_drop hunclosed true c.reconnecting x ?_ hmatters
      rcases hx with hx | hx
      · cases hx
      · exact .inr hx
    rw [List.map_append, List.mem_append, not_or, mem_releasing]
    refine ⟨hbefore, ?_⟩
    rintro ⟨howned, hcache⟩
    obtain ⟨hauth, hexternal⟩ := hother howned
    rcases hx with hx | hx | hx
    · cases hx
    · exact hauth (hx.trans hcache.symm)
    · exact hexternal (hx.trans (congrArg some hcache.symm))

theorem unclosed_install_iff (h : Kept c d k) (rc : RedisConfig) (hclosed : c.closed = false)
    (hauth : c.authCacheRedis = none ∨ c.authCacheRedis = c.cacheRedis) :
    Unclosed (c.install rc) d k ↔
      (c.cacheRedisOwned = true → ∀ x ∈ c.external.join, x ∉ k.map Closing.client) := by
  have hkept := h.install rc hclosed
  unfold Clients.install at hkept ⊢
  simp only at hkept ⊢
  split_ifs at hkept ⊢ with howned
  · rw [hkept.unclosed_iff hauth]
    simp [howned, Option.join_eq_some_iff]
  · rw [hkept.unclosed_iff (.inr rfl)]
    refine iff_of_true ?_ fun htrue => absurd htrue howned
    intro x hx _
    obtain ⟨-, -, hx⟩ := Option.map_eq_some_iff.mp hx
    obtain rfl := Option.some.inj hx
    exact h.fresh_logged rc

end Kept

theorem Custody.unclosed_apply_iff {c : Clients} {d : List RedisHandle} {k : List Closing} {ch : Change}
    (h : Custody c d k) (hunclosed : Unclosed c d k) (hpossible : c.Possible ch) :
    Unclosed (c.apply ch) (d ++ c.creates ch) (k ++ c.closes ch) ↔ c.Safe k ch := by
  cases ch with simp only [Clients.apply, Clients.creates, Clients.closes, List.append_nil, ← List.append_assoc]
  | nothing | recoveryOver => exact iff_of_true hunclosed trivial
  | limiterLost => exact iff_of_true (h.unclosed_drop hunclosed _ _) trivial
  | gaveUp rc => exact iff_of_true (h.unclosed_giveUp hunclosed rc false) trivial
  | notConfigured rc =>
    refine iff_of_true ?_ trivial
    exact (h.drop c.closed false).unclosed_giveUp (h.unclosed_drop hunclosed c.closed false) rc false
  | installed rc =>
    rw [Clients.swappedOut_of_none (h.down (.inr hpossible.1)), List.append_nil]
    refine h.unclosed_install_iff rc hpossible.2 ?_
    exact h.auth.imp_right fun hor => hor.resolve_right (by simp [hpossible.2])
  | rebound =>
    refine iff_of_true ?_ trivial
    exact (h.bindAuth.unclosed_iff (.inr rfl)).mpr fun x hx => hunclosed x (.inr (.inr hx))
  | released usable created =>
    cases created with
    | false => exact (h.unclosed_released_iff hunclosed usable).trans ⟨fun hsafe _ => hsafe, fun hsafe => hsafe rfl⟩
    | true =>
      -- the new external client is bound to the cache client, and that one is open
      refine iff_of_true ?_ (by rintro ⟨⟩)
      have hkept := (h.reloadExternal usable true).bindAuth
      refine (hkept.unclosed_iff (.inr rfl)).mpr fun x hx => ?_
      exact hkept.open_cacheRedis (Option.some.inj hx)
  | closed => exact h.unclosed_closed_iff hunclosed

end EdgeQuota.Middleware
