import EdgeQuota.Cache.Capture

/-! The index from tags to the entries that carry them. An entry and the sets of its tags are
keys of their own in Redis, each with a deadline of its own. -/

namespace EdgeQuota.Cache
open Go Lib

inductive TagOp where
  | set (key : GoString) (s : Stored) (ttl : ℤ)
  | delete (key : GoString)
  | deleteByTag (tag : GoString)
  | advance (ms : ℕ)

structure TimedWorld where
  clock : ℤ
  world : World

namespace TimedWorld

def perform {α : Type} (t : TimedWorld) (p : Program α) : TimedWorld :=
  { t with world := (Prog.run exec p t.world fun _ => { clock := t.clock }).2.1 }

def step (t : TimedWorld) : TagOp → TimedWorld
  | .set key s ttl => t.perform (Store.set key s ttl)
  | .delete key => t.perform (Store.delete key)
  | .deleteByTag tag => t.perform (Store.deleteByTag tag)
  | .advance ms => { t with clock := t.clock + ms }

end TimedWorld

def TagOp.WholeMs : TagOp → Prop
  | .set _ _ ttl => 0 < ttl ∧ 1000000 ∣ ttl
  | .delete _ | .deleteByTag _ | .advance _ => True

def TagOp.tags (key : GoString) (tags : List GoString) : TagOp → List GoString
  | .set k s _ => if k = key then s.entry.tags else tags
  | .delete _ | .deleteByTag _ | .advance _ => tags

def lastTags (ops : List TagOp) (key : GoString) : List GoString := ops.foldl (TagOp.tags key) []

def Indexed (db : Keyspace GoString Value ℤ) (tag key : GoString) (x : ℤ) : Prop :=
  ∃ ks y, db (tagPrefix ++ tag) = some ⟨.members ks, some y⟩ ∧ key ∈ ks ∧ x ≤ y

def SetsExpire (db : Keyspace GoString Value ℤ) : Prop :=
  ∀ tag slot, db (tagPrefix ++ tag) = some slot → ∃ ks y, slot = ⟨.members ks, some y⟩

def indexTag (clock : ℤ) (key : GoString) (ms : ℤ) (db : Keyspace GoString Value ℤ) (tag : GoString) :
    Keyspace GoString Value ℤ :=
  growOnlyExpire (addMember db clock (tagPrefix ++ tag) key) clock (tagPrefix ++ tag) ms

variable {db : Keyspace GoString Value ℤ} {clock ms : ℤ} {key tag : GoString}

theorem indexTag_of_ne {k : GoString} (h : k ≠ tagPrefix ++ tag) : indexTag clock key ms db tag k = db k := by
  rw [indexTag, growOnlyExpire_of_ne h, addMember_of_ne h]

theorem addMember_find {ks : List GoString} (h : members db clock key = some ks) (member : GoString) :
    (addMember db clock key member).find clock key =
      some ⟨.members (if member ∈ ks then ks else ks ++ [member]), (db.find clock key).bind Slot.deadline⟩ := by
  rw [addMember, h]
  exact Keyspace.find_eq_some.mpr ⟨Keyspace.write_self .., Keyspace.live_of_find⟩

theorem growOnlyExpire_self {v : Value} {d : Option ℤ} (hms : 0 < ms) (h : db.find clock key = some ⟨v, d⟩) :
    growOnlyExpire db clock key ms key = some ⟨v, some (d.elim (clock + ms) (max · (clock + ms)))⟩ := by
  have hset : db.expireAt clock key (clock + ms) key = some ⟨v, some (clock + ms)⟩ := by
    rw [Keyspace.expireAt, h]
    exact (Keyspace.write_self ..).trans (if_neg (by omega))
  cases d with
  | none => simpa only [growOnlyExpire, h, Option.elim_none] using hset
  | some y =>
    simp only [growOnlyExpire, h, Option.elim_some]
    split_ifs with hraise
    · rw [hset, max_eq_right (by omega)]
    · rw [(Keyspace.find_eq_some.mp h).1, max_eq_left (by omega)]

theorem indexTag_new (hms : 0 < ms) (h : db.find clock (tagPrefix ++ tag) = none) :
    indexTag clock key ms db tag (tagPrefix ++ tag) = some ⟨.members [key], some (clock + ms)⟩ := by
  have hmembers : members db clock (tagPrefix ++ tag) = some [] := by simp [members, Keyspace.get, h]
  have hfind := addMember_find hmembers key
  rw [h] at hfind
  exact growOnlyExpire_self hms hfind

theorem indexTag_live {ks : List GoString} {y : ℤ} (hms : 0 < ms)
    (h : db.find clock (tagPrefix ++ tag) = some ⟨.members ks, some y⟩) :
    indexTag clock key ms db tag (tagPrefix ++ tag) =
      some ⟨.members (if key ∈ ks then ks else ks ++ [key]), some (max y (clock + ms))⟩ := by
  have hmembers : members db clock (tagPrefix ++ tag) = some ks := by simp [members, Keyspace.get, h]
  have hfind := addMember_find hmembers key
  rw [h] at hfind
  exact growOnlyExpire_self hms hfind

theorem SetsExpire.find (h : SetsExpire db) (clock : ℤ) (tag : GoString) :
    db.find clock (tagPrefix ++ tag) = none ∨
      ∃ ks y, db.find clock (tagPrefix ++ tag) = some ⟨.members ks, some y⟩ := by
  cases hfind : db.find clock (tagPrefix ++ tag) with
  | none => exact Or.inl rfl
  | some slot =>
    obtain ⟨ks, y, rfl⟩ := h tag slot (Keyspace.find_eq_some.mp hfind).1
    exact Or.inr ⟨ks, y, rfl⟩

theorem SetsExpire.indexTag (h : SetsExpire db) (hms : 0 < ms) (clock : ℤ) (key tag : GoString) :
    SetsExpire (indexTag clock key ms db tag) := by
  intro tag' slot hslot
  by_cases htag : tag' = tag
  · subst htag
    rcases h.find clock tag' with hnew | ⟨ks, y, hlive⟩
    · rw [indexTag_new hms hnew] at hslot
      exact ⟨_, _, (Option.some.inj hslot).symm⟩
    · rw [indexTag_live hms hlive] at hslot
      exact ⟨_, _, (Option.some.inj hslot).symm⟩
  · rw [indexTag_of_ne fun heq => htag (List.append_cancel_left heq)] at hslot
    exact h tag' slot hslot

theorem SetsExpire.indexed (h : SetsExpire db) (hms : 0 < ms) :
    Indexed (Cache.indexTag clock key ms db tag) tag key (clock + ms) := by
  rcases h.find clock tag with hnew | ⟨ks, y, hlive⟩
  · exact ⟨_, _, indexTag_new hms hnew, List.mem_singleton_self _, le_rfl⟩
  · refine ⟨_, _, indexTag_live hms hlive, ?_, le_max_right _ _⟩
    split_ifs with hk
    · exact hk
    · exact List.mem_append_right _ (List.mem_singleton_self _)

theorem Indexed.indexTag {tag' key' : GoString} {x : ℤ} (h : Indexed db tag' key' x) (hx : clock < x) (hms : 0 < ms) :
    Indexed (Cache.indexTag clock key ms db tag) tag' key' x := by
  obtain ⟨ks, y, hslot, hkey, hy⟩ := h
  by_cases htag : tag' = tag
  · subst htag
    have hlive : db.find clock (tagPrefix ++ tag') = some ⟨.members ks, some y⟩ :=
      Keyspace.find_eq_some.mpr ⟨hslot, decide_eq_true (by omega)⟩
    refine ⟨_, _, indexTag_live hms hlive, ?_, hy.trans (le_max_left _ _)⟩
    split_ifs
    · exact hkey
    · exact List.mem_append_left _ hkey
  · refine ⟨ks, y, ?_, hkey, hy⟩
    rw [indexTag_of_ne fun heq => htag (List.append_cancel_left heq), hslot]

def indexAll (clock : ℤ) (key : GoString) (ms : ℤ) (tags : List GoString) (db : Keyspace GoString Value ℤ) :
    Keyspace GoString Value ℤ :=
  tags.foldl (indexTag clock key ms) db

structure IndexedAll (clock : ℤ) (key : GoString) (ms : ℤ) (tags : List GoString) (db db' : Keyspace GoString Value ℤ) :
    Prop where
  sets : SetsExpire db'
  entries : ∀ k, db' (keyPrefix ++ k) = db (keyPrefix ++ k)
  added : ∀ tag ∈ tags, Indexed db' tag key (clock + ms)
  kept : ∀ tag' key' x, clock < x → Indexed db tag' key' x → Indexed db' tag' key' x

theorem indexAll_spec (h : SetsExpire db) (hms : 0 < ms) (clock : ℤ) (key : GoString) (tags : List GoString) :
    IndexedAll clock key ms tags db (indexAll clock key ms tags db) := by
  induction tags generalizing db with
  | nil => exact ⟨h, fun _ => rfl, nofun, fun _ _ _ _ hi => hi⟩
  | cons tag tags ih =>
    have hrest := ih (h.indexTag hms clock key tag)
    refine ⟨hrest.sets, fun k => ?_, fun tag' htag => ?_, fun tag' key' x hx hi => ?_⟩
    · exact (hrest.entries k).trans (indexTag_of_ne (cacheKey_ne_tagKey k tag))
    · rcases List.mem_cons.mp htag with rfl | htag
      · exact hrest.kept _ _ _ (by omega) (h.indexed hms)
      · exact hrest.added tag' htag
    · exact hrest.kept _ _ _ hx (hi.indexTag hx hms)

theorem run_indexTags {w : World} (h : SetsExpire w.redis) {ttl : ℤ} (hms : 0 < ttl / 1000000)
    (tags : List GoString) :
    (Prog.run exec (Store.indexTags key ttl tags) w fun _ => { clock := clock }).2.1.redis =
      indexAll clock key (ttl / 1000000) tags w.redis := by
  induction tags generalizing w with
  | nil => rfl
  | cons tag tags ih =>
    have hmembers : (members w.redis clock (tagPrefix ++ tag)).isSome = true := by
      rcases h.find clock tag with hnew | ⟨ks, y, hlive⟩
      · simp [members, Keyspace.get, hnew]
      · simp [members, Keyspace.get, hlive]
    have hsadd : exec w (.sadd (tagPrefix ++ tag) key) { clock := clock } =
        (true, { w with redis := addMember w.redis clock (tagPrefix ++ tag) key }) := by
      simp [exec, hmembers]
    rw [Store.indexTags, Prog.run_bind, run_send, hsadd]
    simp only [if_true, Prog.run_bind]
    exact ih (w := { w with redis := indexTag clock key (ttl / 1000000) w.redis tag }) (h.indexTag hms clock key tag)

structure Covered (tags : GoString → List GoString) (t : TimedWorld) : Prop where
  sets : SetsExpire t.world.redis
  slots : ∀ key slot, entries t.world key = some slot → ∃ s x, slot = ⟨.entry s, some x⟩
  covers : ∀ key s x, entries t.world key = some ⟨.entry s, some x⟩ → t.clock < x →
    s.entry.tags = (tags key).map toValidUTF8 ∧ ∀ tag ∈ tags key, Indexed t.world.redis tag key x

variable {tags : GoString → List GoString} {t : TimedWorld}

theorem covered_empty (tags : GoString → List GoString) (clock : ℤ) : Covered tags ⟨clock, World.empty⟩ := by
  have hempty : ∀ (key : GoString) (slot : Slot Value ℤ), World.empty.redis key ≠ some slot :=
    fun _ slot h => Option.some_ne_none slot h.symm
  refine ⟨?_, ?_, ?_⟩
  · intro tag slot h
    exact absurd h (hempty _ slot)
  · intro key slot h
    exact absurd h (hempty _ slot)
  · intro key s x h
    exact absurd h (hempty _ _)

theorem perform_set (h : SetsExpire t.world.redis) (key : GoString) (s : Stored) {ttl : ℤ} (httl : 0 < ttl)
    (hms : 0 < ttl / 1000000) :
    (t.perform (Store.set key s ttl)).world.redis =
      indexAll t.clock key (ttl / 1000000) s.entry.tags
        (t.world.redis.write (keyPrefix ++ key) (some (slotOf s t.clock ttl))) := by
  have hsets : SetsExpire (t.world.redis.write (keyPrefix ++ key) (some (slotOf s t.clock ttl))) := by
    intro tag slot hslot
    rw [Keyspace.write_of_ne (cacheKey_ne_tagKey key tag).symm] at hslot
    exact h tag slot hslot
  rw [TimedWorld.perform, Store.set, Prog.run_bind, run_write_eq _ httl rfl]
  simp only [if_true, Prog.run_bind]
  exact run_indexTags (w := { t.world with redis := _ }) hsets hms s.entry.tags

theorem Covered.set (h : Covered tags t) (key : GoString) (s : Stored) {ttl : ℤ} (httl : 0 < ttl)
    (hwhole : 1000000 ∣ ttl) :
    Covered (fun k => TagOp.tags k (tags k) (.set key s ttl)) (t.perform (Store.set key s ttl)) := by
  have hms : 0 < ttl / 1000000 := by omega
  have hexpiry : expiryMs ttl = ttl / 1000000 := if_neg (by omega)
  have hredis := perform_set h.sets key s httl hms
  have hsets : SetsExpire (t.world.redis.write (keyPrefix ++ key) (some (slotOf s t.clock ttl))) := by
    intro tag slot hslot
    rw [Keyspace.write_of_ne (cacheKey_ne_tagKey key tag).symm] at hslot
    exact h.sets tag slot hslot
  have hall := indexAll_spec hsets hms t.clock key s.entry.tags
  rw [← hredis] at hall
  have hentries : entries (t.perform (Store.set key s ttl)).world =
      Function.update (entries t.world) key (some (slotOf s t.clock ttl)) := by
    rw [← entries_write]
    funext k
    exact hall.entries k
  refine ⟨hall.sets, fun k slot hslot => ?_, fun k v x hslot hx => ?_⟩
  · rw [hentries] at hslot
    by_cases hk : k = key
    · rw [hk, Function.update_self] at hslot
      exact ⟨_, _, (Option.some.inj hslot).symm⟩
    · rw [Function.update_of_ne hk] at hslot
      exact h.slots k slot hslot
  · rw [hentries] at hslot
    by_cases hk : k = key
    · subst hk
      rw [Function.update_self] at hslot
      cases hslot
      rw [hexpiry, TagOp.tags, if_pos rfl]
      exact ⟨rfl, hall.added⟩
    · rw [Function.update_of_ne hk] at hslot
      obtain ⟨htags, hindexed⟩ := h.covers k v x hslot hx
      rw [TagOp.tags, if_neg (Ne.symm hk)]
      refine ⟨htags, fun tag htag => hall.kept tag k x hx ?_⟩
      obtain ⟨ks, y, hset, hmem, hy⟩ := hindexed tag htag
      exact ⟨ks, y, (Keyspace.write_of_ne (cacheKey_ne_tagKey key tag).symm ..).trans hset, hmem, hy⟩

theorem Covered.of_removed (h : Covered tags t) {t' : TimedWorld} (hclock : t'.clock = t.clock)
    (hsub : ∀ k, t'.world.redis k = none ∨ t'.world.redis k = t.world.redis k)
    (hkeep : ∀ key s x, entries t'.world key = some ⟨.entry s, some x⟩ → t.clock < x → ∀ tag ∈ tags key,
      Indexed t.world.redis tag key x → t'.world.redis (tagPrefix ++ tag) = t.world.redis (tagPrefix ++ tag)) :
    Covered tags t' := by
  have hslot : ∀ {k slot}, t'.world.redis k = some slot → t.world.redis k = some slot := by
    intro k slot hk
    rcases hsub k with hnone | hsame
    · rw [hnone] at hk
      cases hk
    · exact hsame ▸ hk
  refine ⟨fun tag slot ht => h.sets tag slot (hslot ht), fun key slot he => h.slots key slot (hslot he), ?_⟩
  intro key s x he hx
  rw [hclock] at hx
  obtain ⟨htags, hindexed⟩ := h.covers key s x (hslot he) hx
  refine ⟨htags, fun tag htag => ?_⟩
  obtain ⟨ks, y, hset, hmem, hy⟩ := hindexed tag htag
  exact ⟨ks, y, (hkeep key s x he hx tag htag (hindexed tag htag)).trans hset, hmem, hy⟩

theorem perform_delete (key : GoString) :
    (t.perform (Store.delete key)).world.redis = remove t.world.redis [keyPrefix ++ key] := by
  rw [TimedWorld.perform, Store.delete, Prog.run_bind, run_send]
  simp only
  split_ifs <;> rfl

theorem remove_or (db : Keyspace GoString Value ℤ) (keys : List GoString) (k : GoString) :
    remove db keys k = none ∨ remove db keys k = db k := by
  rw [remove_apply]
  split_ifs
  · exact Or.inl rfl
  · exact Or.inr rfl

theorem Covered.delete (h : Covered tags t) (key : GoString) : Covered tags (t.perform (Store.delete key)) := by
  have hredis := perform_delete (t := t) key
  refine h.of_removed rfl (fun k => ?_) fun key' s x _ _ tag _ _ => ?_
  · rw [hredis]
    exact remove_or ..
  · have hne : tagPrefix ++ tag ∉ [keyPrefix ++ key] := by
      rw [List.mem_singleton]
      exact (cacheKey_ne_tagKey key tag).symm
    rw [hredis, remove_apply, if_neg hne]

def purged (db : Keyspace GoString Value ℤ) (clock : ℤ) (tag : GoString) : Keyspace GoString Value ℤ :=
  let ks := (members db clock (tagPrefix ++ tag)).getD []
  if ks = [] then db else remove (remove db (ks.map (keyPrefix ++ ·))) [tagPrefix ++ tag]

theorem run_recordPurges (n : ℕ) (w : World) (env : ℕ → Surroundings) :
    (Prog.run exec (Store.recordPurges n) w env).2.1.redis = w.redis := by
  induction n generalizing w env with
  | zero => rfl
  | succ n ih => exact ih _ _

theorem perform_deleteByTag (tag : GoString) :
    (t.perform (Store.deleteByTag tag)).world.redis = purged t.world.redis t.clock tag := by
  have hlist : exec t.world (.smembers (tagPrefix ++ tag)) { clock := t.clock } =
      (members t.world.redis t.clock (tagPrefix ++ tag), t.world) := rfl
  rw [TimedWorld.perform, Store.deleteByTag, Prog.run_bind, run_send, hlist, purged]
  simp only
  split_ifs
  · rfl
  · simp only [Prog.run_bind, Prog.run_pure, run_recordPurges]
    rfl

theorem purged_or (db : Keyspace GoString Value ℤ) (clock : ℤ) (tag k : GoString) :
    purged db clock tag k = none ∨ purged db clock tag k = db k := by
  unfold purged
  split_ifs
  · exact Or.inr rfl
  · rcases remove_or (remove db _) [tagPrefix ++ tag] k with h | h
    · exact Or.inl h
    · rw [h]
      exact remove_or ..

theorem Indexed.purged {x : ℤ} (h : Indexed db tag key x) (clock : ℤ) (hx : clock < x) :
    purged db clock tag (keyPrefix ++ key) = none := by
  obtain ⟨ks, y, hset, hmem, hy⟩ := h
  have hlive : db.find clock (tagPrefix ++ tag) = some ⟨.members ks, some y⟩ :=
    Keyspace.find_eq_some.mpr ⟨hset, decide_eq_true (by omega)⟩
  have hmembers : (members db clock (tagPrefix ++ tag)).getD [] = ks := by simp [members, Keyspace.get, hlive]
  rw [Cache.purged, hmembers, if_neg (List.ne_nil_of_mem hmem), remove_apply, remove_apply, if_pos (List.mem_map_of_mem hmem), ite_self]

theorem purged_set {tag' : GoString} (h : tag' ≠ tag) :
    purged db clock tag (tagPrefix ++ tag') = db (tagPrefix ++ tag') := by
  have hset : tagPrefix ++ tag' ∉ [tagPrefix ++ tag] := by
    rw [List.mem_singleton]
    exact fun heq => h (List.append_cancel_left heq)
  unfold purged
  split_ifs
  · rfl
  · rw [remove_apply, if_neg hset, remove_apply, if_neg]
    intro hmem
    obtain ⟨k, -, hk⟩ := List.mem_map.mp hmem
    exact cacheKey_ne_tagKey k tag' hk

theorem Covered.deleteByTag (h : Covered tags t) (tag : GoString) :
    Covered tags (t.perform (Store.deleteByTag tag)) := by
  have hredis := perform_deleteByTag (t := t) tag
  refine h.of_removed rfl (fun k => ?_) fun key s x he hx tag' _ hindexed => ?_
  · rw [hredis]
    exact purged_or ..
  · rw [hredis]
    apply purged_set
    rintro rfl
    rw [entries, hredis, hindexed.purged _ hx] at he
    cases he

theorem Covered.advance (h : Covered tags t) (ms : ℕ) : Covered tags { t with clock := t.clock + ms } where
  sets := h.sets
  slots := h.slots
  covers key s x hslot hx := h.covers key s x hslot (by dsimp only at hx; omega)

theorem Covered.step (h : Covered tags t) {op : TagOp} (hop : op.WholeMs) :
    Covered (fun key => op.tags key (tags key)) (t.step op) := by
  cases op with
  | set key s ttl => exact h.set key s hop.1 hop.2
  | delete key => exact h.delete key
  | deleteByTag tag => exact h.deleteByTag tag
  | advance ms => exact h.advance ms

theorem Covered.run (h : Covered tags t) {ops : List TagOp} (hops : ∀ op ∈ ops, op.WholeMs) :
    Covered (fun key => ops.foldl (TagOp.tags key) (tags key)) (ops.foldl TimedWorld.step t) := by
  induction ops generalizing tags t with
  | nil => exact h
  | cons op ops ih =>
    obtain ⟨hop, hrest⟩ := List.forall_mem_cons.mp hops
    exact ih (h.step hop) hrest

theorem lookup_eq_some {s : Stored} (h : lookup db clock key = some s) :
    ∃ d, db.find clock key = some ⟨.entry s, d⟩ := by
  unfold lookup Keyspace.get at h
  cases hfind : db.find clock key with
  | none => simp [hfind] at h
  | some slot =>
    obtain ⟨v, d⟩ := slot
    rw [hfind] at h
    cases v with
    | entry s' =>
      cases h
      exact ⟨d, rfl⟩
    | auth resp => cases h
    | members ks => cases h

theorem Covered.live (h : Covered tags t) {key : GoString} {s : Stored}
    (hs : lookup t.world.redis t.clock (keyPrefix ++ key) = some s) :
    ∃ x, entries t.world key = some ⟨.entry s, some x⟩ ∧ t.clock < x := by
  obtain ⟨d, hfind⟩ := lookup_eq_some hs
  obtain ⟨hslot, hlive⟩ := Keyspace.find_eq_some.mp hfind
  obtain ⟨s', x, heq⟩ := h.slots key _ hslot
  cases heq
  exact ⟨x, hslot, of_decide_eq_true hlive⟩

/-- Every live entry is in the set of each tag it was stored with, and the set does not expire
before the entry does; so a purge of the tag removes it. The tags that the entry itself shows
are these, with U+FFFD for what is not UTF-8. -/
theorem tag_index_covers {ops : List TagOp} (hops : ∀ op ∈ ops, op.WholeMs) (clock : ℤ) :
    let t := ops.foldl TimedWorld.step ⟨clock, World.empty⟩
    (∀ key s, lookup t.world.redis t.clock (keyPrefix ++ key) = some s →
      s.entry.tags = (lastTags ops key).map toValidUTF8 ∧
        ∀ tag ∈ lastTags ops key, ∃ x ks y,
          t.world.redis.find t.clock (keyPrefix ++ key) = some ⟨.entry s, some x⟩ ∧
          t.world.redis.find t.clock (tagPrefix ++ tag) = some ⟨.members ks, some y⟩ ∧ key ∈ ks ∧ x ≤ y) ∧
      ∀ key, ∀ tag ∈ lastTags ops key,
        lookup (t.perform (Store.deleteByTag tag)).world.redis t.clock (keyPrefix ++ key) = none := by
  intro t
  have h : Covered (lastTags ops) t := (covered_empty (fun _ => []) clock).run hops
  refine ⟨fun key s hs => ?_, fun key tag htag => ?_⟩
  · obtain ⟨x, hslot, hx⟩ := h.live hs
    obtain ⟨htags, hindexed⟩ := h.covers key s x hslot hx
    refine ⟨htags, fun tag htag => ?_⟩
    obtain ⟨ks, y, hset, hmem, hy⟩ := hindexed tag htag
    exact ⟨x, ks, y, Keyspace.find_eq_some.mpr ⟨hslot, decide_eq_true hx⟩,
      Keyspace.find_eq_some.mpr ⟨hset, decide_eq_true (by omega)⟩, hmem, hy⟩
  · by_contra hfound
    obtain ⟨s, hs⟩ := Option.ne_none_iff_exists'.mp hfound
    obtain ⟨x, hslot, hx⟩ := (h.deleteByTag tag).live hs
    rw [entries, perform_deleteByTag] at hslot
    have hbefore : entries t.world key = some ⟨.entry s, some x⟩ := by
      rcases purged_or t.world.redis t.clock tag (keyPrefix ++ key) with hnone | hsame
      · rw [hnone] at hslot
        cases hslot
      · exact hsame.symm.trans hslot
    have hindexed : Indexed t.world.redis tag key x := (h.covers key s x hbefore hx).2 tag htag
    rw [hindexed.purged t.clock hx] at hslot
    cases hslot

def sharedTag : List TagOp :=
  let s : Stored :=
    { entry := { statusCode := 200, tags := [str "t"], createdAt := 0 }, storedFor := hintedRequest, pointer := false }
  [.set (str "a") s 1000000, .set (str "b") s 5000000, .advance 1]

theorem tag_index_covers_shared :
    (∀ op ∈ sharedTag, op.WholeMs) ∧ str "t" ∈ lastTags sharedTag (str "b") ∧
      lookup (TimedWorld.perform (sharedTag.foldl TimedWorld.step ⟨0, World.empty⟩)
        (Store.deleteByTag (str "t"))).world.redis 1 (keyPrefix ++ str "b") = none := by
  have hops : ∀ op ∈ sharedTag, op.WholeMs := by
    unfold sharedTag
    simp [TagOp.WholeMs]
  have htag : str "t" ∈ lastTags sharedTag (str "b") := by decide +kernel
  exact ⟨hops, htag, (tag_index_covers hops 0).2 (str "b") (str "t") htag⟩

theorem tag_index_misses :
    let s : Stored :=
      { entry := { statusCode := 200, tags := [[0xff]], createdAt := 0 }, storedFor := hintedRequest, pointer := false }
    let t := TimedWorld.step ⟨0, World.empty⟩ (.set (str "a") s 1000000)
    (lookup t.world.redis t.clock (keyPrefix ++ str "a")).map (fun s => s.entry.tags) = some [runeError] ∧
      members t.world.redis t.clock (tagPrefix ++ runeError) = some [] := by
  decide +kernel

end EdgeQuota.Cache
