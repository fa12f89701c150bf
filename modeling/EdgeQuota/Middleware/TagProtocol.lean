import EdgeQuota.Cache.Tags
import EdgeQuota.Lib.Protocol
import EdgeQuota.Lib.TagIndex
import EdgeQuota.Middleware.AuthCache

/-! Storing and purging by tag, of cached responses and of cached authentication decisions, as one
protocol on two indexes. -/

namespace EdgeQuota.Middleware
open Go Lib Cache Auth

/-- Where the entries of a cache and the sets of its tags are in Redis. Members of the sets are
`valid`; the entry of a member is not a set. -/
structure Scheme where
  entryKey : GoString → GoString
  tagKey : GoString → GoString
  valid : GoString → Prop
  tags : Value → List GoString
  entryKey_inj : Function.Injective entryKey
  tagKey_inj : Function.Injective tagKey
  entryKey_ne : ∀ m t, valid m → entryKey m ≠ tagKey t
  tags_members : ∀ ks, tags (.members ks) = []

inductive Family where
  | responses
  | decisions
  deriving DecidableEq

theorem authKey_ne_tagKey {key : GoString} (h : authCacheKeyPrefix <+: key) (tag : GoString) :
    key ≠ authCacheTagPrefix ++ tag := by
  rintro rfl
  obtain ⟨x, hx⟩ := h
  have h6 := congrArg (List.take 6) hx
  have hlen : authCacheKeyPrefix.length = 11 ∧ authCacheTagPrefix.length = 9 := by decide +kernel
  rw [List.take_append_of_le_length (by omega), List.take_append_of_le_length (by omega)] at h6
  revert h6
  decide +kernel

def Family.scheme : Family → Scheme
  | .responses =>
    { entryKey := (keyPrefix ++ ·)
      tagKey := (tagPrefix ++ ·)
      valid := fun _ => True
      tags := fun v =>
        match v with
        | .entry s => s.entry.tags
        | .auth _ | .members _ => []
      entryKey_inj := List.append_right_injective keyPrefix
      tagKey_inj := List.append_right_injective tagPrefix
      entryKey_ne := fun m t _ => cacheKey_ne_tagKey m t
      tags_members := fun _ => rfl }
  | .decisions =>
    { entryKey := id
      tagKey := (authCacheTagPrefix ++ ·)
      valid := fun m => authCacheKeyPrefix <+: m
      tags := fun v =>
        match v with
        | .auth resp => resp.cacheTags
        | .entry _ | .members _ => []
      entryKey_inj := Function.injective_id
      tagKey_inj := List.append_right_injective authCacheTagPrefix
      entryKey_ne := fun _ t hm => authKey_ne_tagKey hm t
      tags_members := fun _ => rfl }

def valueAt (w : World) (key : GoString) : Option Value := (w.redis key).map Slot.value

def Scheme.catalog (S : Scheme) (w : World) : Catalog GoString GoString where
  carries m t := ∃ v, valueAt w (S.entryKey m) = some v ∧ t ∈ S.tags v
  holds t m := ∃ ks, valueAt w (S.tagKey t) = some (.members ks) ∧ m ∈ ks

def Command.writes : Command → Option (GoString × Value)
  | .set key s _ => some (key, .entry s)
  | .setAuth key resp _ => some (key, .auth resp)
  | _ => none

def Command.Harmless : Command → Prop
  | .record _ => True
  | .growOnlyExpire _ ms => 0 < ms
  | _ => False

def Scheme.may (S : Scheme) : Position GoString GoString → Command → Prop
  | .idle, c => Command.Harmless c
  | .storing k ts, c => S.valid k ∧ ∃ v, Command.writes c = some (S.entryKey k, v) ∧ S.tags v = ts
  | .linking k ts, c => Command.Harmless c ∨ S.valid k ∧ ∃ t rest, ts = t :: rest ∧ c = .sadd (S.tagKey t) k
  | .listing t, c => c = .smembers (S.tagKey t)
  | .dropping _ ks, c => c = .del (ks.map S.entryKey)
  | .clearing t, c => c = .del [S.tagKey t]

def nextPosition : Position GoString GoString → (c : Command) → Reply c → Position GoString GoString
  | .storing k ts, .set _ _ _, stored => if stored then Catalog.link k ts else .idle
  | .storing k ts, .setAuth _ _ _, _ => Catalog.link k ts
  | .linking k ts, .sadd _ _, _ => Catalog.link k ts.tail
  | .listing t, .smembers _, keys => if keys.getD [] = [] then .idle else .dropping t (keys.getD [])
  | .dropping t _, .del _, _ => .clearing t
  | .clearing _, .del _, _ => .idle
  | d, _, _ => d

def Scheme.protocol (S : Scheme) : Protocol Command Reply (Position GoString GoString) := ⟨S.may, nextPosition⟩

theorem nextPosition_harmless {c : Command} (hc : Command.Harmless c) (d : Position GoString GoString) (r : Reply c) :
    nextPosition d c r = d := by
  cases c with
  | record m => cases d <;> rfl
  | growOnlyExpire key ms => cases d <;> rfl
  | _ => cases hc

section Follows
variable {S : Scheme} {α : Type} {Q : α → Position GoString GoString → Prop}

theorem follows_send {c : Command} {d : Position GoString GoString} (h : S.may d c) {k : Reply c → Program α}
    (hk : ∀ r, (k r).Follows S.protocol Q (nextPosition d c r)) : (send c >>= k).Follows S.protocol Q d :=
  (Prog.follows_request (P := S.protocol) h).bind fun r _ hd => hd ▸ hk r

theorem follows_harmless {c : Command} (hc : Command.Harmless c) (key : GoString) (tags : List GoString)
    {k : Reply c → Program α} (hk : ∀ r, (k r).Follows S.protocol Q (Catalog.link key tags)) :
    (send c >>= k).Follows S.protocol Q (Catalog.link key tags) := by
  have hmay : S.may (Catalog.link key tags) c := by
    cases tags with
    | nil => exact hc
    | cons t ts => exact Or.inl hc
  refine follows_send hmay fun r => ?_
  rw [nextPosition_harmless hc]
  exact hk r

theorem follows_sadd {tag key : GoString} (hkey : S.valid key) {tags : List GoString} {k : Bool → Program α}
    (hk : ∀ r, (k r).Follows S.protocol Q (Catalog.link key tags)) :
    Prog.Follows S.protocol Q (send (.sadd (S.tagKey tag) key) >>= k) (Catalog.link key (tag :: tags)) :=
  follows_send (c := .sadd _ _) (d := .linking key (tag :: tags)) (Or.inr ⟨hkey, tag, tags, rfl, rfl⟩) hk

theorem follows_record {m : Metric} {k : Unit → Program α} (hk : ∀ r, (k r).Follows S.protocol Q .idle) :
    (send (.record m) >>= k).Follows S.protocol Q .idle :=
  follows_harmless (c := .record m) trivial [] [] hk

end Follows

abbrev Scheme.Ends (S : Scheme) {α : Type} (p : Program α) (d : Position GoString GoString) : Prop :=
  p.Follows S.protocol (fun _ d => d = .idle) d

theorem purge_ends {S : Scheme} {α : Type} {tag : GoString} (dels : List GoString → List GoString)
    (hdels : ∀ ks, dels ks = ks.map S.entryKey) (a : α) {k : Option ℕ → Option ℕ → Program α}
    (hk : ∀ n r, S.Ends (k n r) .idle) :
    S.Ends (do
      let keys : Option (List GoString) ← send (.smembers (S.tagKey tag))
      if keys.getD [] = [] then pure a
      else
        let n : Option ℕ ← send (.del (dels (keys.getD [])))
        let r : Option ℕ ← send (.del [S.tagKey tag])
        k n r) (.listing tag) := by
  refine follows_send (c := .smembers _) (d := .listing tag) rfl fun keys => ?_
  simp only [nextPosition]
  split_ifs
  · exact Prog.follows_pure rfl
  · rw [hdels]
    exact follows_send (c := .del _) (d := .dropping tag (keys.getD [])) rfl fun n =>
      follows_send (c := .del _) (d := .clearing tag) rfl fun r => hk n r

theorem indexTags_ends (key : GoString) {ttl : ℤ} (hms : 0 < ttl / 1000000) (tags : List GoString) :
    Family.responses.scheme.Ends (Store.indexTags key ttl tags) (Catalog.link key tags) := by
  induction tags with
  | nil => exact Prog.follows_pure rfl
  | cons tag tags ih =>
    refine follows_sadd (S := Family.responses.scheme) trivial fun added => ?_
    split_ifs
    · exact follows_harmless (c := .growOnlyExpire _ _) hms _ _ fun _ => ih
    · exact ih

theorem set_ends (key : GoString) {s : Stored} (htags : ∀ t ∈ s.entry.tags, toValidUTF8 t = t) {ttl : ℤ}
    (hms : 0 < ttl / 1000000) : Family.responses.scheme.Ends (Store.set key s ttl) (.storing key s.entry.tags) := by
  have hmarshal : s.entry.marshal.tags = s.entry.tags :=
    (List.map_congr_left htags).trans (List.map_id' _)
  have hwrite : Prog.Follows Family.responses.scheme.protocol (fun _ d => d = .idle) (Store.write key s ttl)
      (.storing key s.entry.tags) := by
    rw [Store.write, if_neg (by omega)]
    refine follows_send (c := .set _ _ _) (d := .storing key s.entry.tags) ⟨trivial, _, rfl, hmarshal⟩ fun stored => ?_
    cases stored with
    | false => exact Prog.follows_pure rfl
    | true => exact (indexTags_ends key hms s.entry.tags).bind fun _ _ hd => Prog.follows_pure hd
  refine hwrite.bind fun stored d hd => ?_
  subst hd
  split_ifs
  · exact follows_record fun _ => follows_record (k := pure) fun _ => Prog.follows_pure rfl
  · exact Prog.follows_pure rfl

theorem recordPurges_ends (S : Scheme) (n : ℕ) : S.Ends (Store.recordPurges n) .idle := by
  induction n with
  | zero => exact Prog.follows_pure rfl
  | succ n ih => exact follows_record fun _ => ih

theorem deleteByTag_ends (tag : GoString) : Family.responses.scheme.Ends (Store.deleteByTag tag) (.listing tag) :=
  purge_ends (S := Family.responses.scheme) (List.map (keyPrefix ++ ·)) (fun _ => rfl) 0 fun n _ =>
    (recordPurges_ends _ (n.getD 0)).bind fun _ _ hd => Prog.follows_pure hd

theorem indexAuthTags_ends {key : GoString} (hkey : authCacheKeyPrefix <+: key) (tags : List GoString) :
    Family.decisions.scheme.Ends (indexAuthTags key tags) (Catalog.link key tags) := by
  induction tags with
  | nil => exact Prog.follows_pure rfl
  | cons tag tags ih => exact follows_sadd (S := Family.decisions.scheme) hkey fun _ => ih

theorem setAuthInCache_ends {key : GoString} (hkey : authCacheKeyPrefix <+: key) {resp : CheckResponse}
    (htags : ∀ t ∈ resp.cacheTags, toValidUTF8 t = t) {ttl : ℤ} (httl : 0 < ttl) :
    Family.decisions.scheme.Ends (setAuthInCache key resp ttl) (.storing key resp.cacheTags) := by
  have hmarshal : resp.marshal.cacheTags = resp.cacheTags := (List.map_congr_left htags).trans (List.map_id' _)
  rw [setAuthInCache, if_neg (not_le.mpr httl)]
  exact follows_send (c := .setAuth _ _ _) (d := .storing key resp.cacheTags) ⟨hkey, _, rfl, hmarshal⟩ fun _ =>
    indexAuthTags_ends hkey resp.cacheTags

theorem deleteAuthByTag_ends (tag : GoString) : Family.decisions.scheme.Ends (deleteAuthByTag tag) (.listing tag) :=
  purge_ends (S := Family.decisions.scheme) id (fun ks => (List.map_id ks).symm) 0 fun n _ =>
    Prog.follows_pure (a := n.getD 0) rfl

def Unexpired (w : World) (clock : ℤ) (key : GoString) : Prop := ∀ slot ∈ w.redis key, slot.live clock = true

instance (w : World) (clock : ℤ) (key : GoString) : Decidable (Unexpired w clock key) := by
  unfold Unexpired
  infer_instance

section Effects
variable {w : World} {clock : ℤ} {key : GoString}

theorem Unexpired.find (h : Unexpired w clock key) : w.redis.find clock key = w.redis key := by
  cases hslot : w.redis key with
  | none => exact Keyspace.find_of_none hslot clock
  | some slot => exact Keyspace.find_eq_some.mpr ⟨hslot, h slot hslot⟩

theorem Unexpired.members (h : Unexpired w clock key) :
    members w.redis clock key =
      match valueAt w key with
      | some (.members ks) => some ks
      | some (.entry _) | some (.auth _) => none
      | none => some [] := by
  have hget : w.redis.get clock key = valueAt w key := by rw [Keyspace.get, h.find, valueAt]
  cases hv : valueAt w key with
  | none => simp only [Cache.members, hget, hv]
  | some v => cases v <;> simp only [Cache.members, hget, hv]

theorem valueAt_write (w : World) (key : GoString) (v : Value) (e : Option ℤ) :
    valueAt { w with redis := w.redis.write key (some ⟨v, e⟩) } = Function.update (valueAt w) key (some v) := by
  funext k
  by_cases hk : k = key
  · subst hk
    simp [valueAt]
  · simp [valueAt, hk]

theorem valueAt_remove (w : World) (keys : List GoString) (k : GoString) :
    valueAt { w with redis := remove w.redis keys } k = if k ∈ keys then none else valueAt w k := by
  simp only [valueAt, remove_apply]
  split_ifs <;> rfl

theorem valueAt_addMember {ks : List GoString} (h : members w.redis clock key = some ks) (member : GoString) :
    valueAt { w with redis := addMember w.redis clock key member } =
      Function.update (valueAt w) key (some (.members (if member ∈ ks then ks else ks ++ [member]))) := by
  rw [addMember, h]
  exact valueAt_write ..

theorem valueAt_growOnlyExpire {ms : ℤ} (hms : 0 < ms) :
    valueAt { w with redis := growOnlyExpire w.redis clock key ms } = valueAt w := by
  funext k
  unfold valueAt
  dsimp only
  by_cases hk : k = key
  · subst hk
    cases hfind : w.redis.find clock k with
    | none => simp only [growOnlyExpire, hfind]
    | some slot =>
      rw [growOnlyExpire_self hms hfind, (Keyspace.find_eq_some.mp hfind).1]
      rfl
  · rw [growOnlyExpire_of_ne hk]

end Effects

structure Scheme.Kept (S : Scheme) (w : World) (d : ℕ → Position GoString GoString) : Prop where
  sound : (S.catalog w).Sound d
  sets : ∀ t v, valueAt w (S.tagKey t) = some v → ∃ ks, v = .members ks ∧ ∀ m ∈ ks, S.valid m
  listed : ∀ g t ks, d g = .dropping t ks → ∀ m ∈ ks, S.valid m

section Steps
variable {S : Scheme} {w w' : World} {d : ℕ → Position GoString GoString} {g : ℕ} {k t : GoString}
  {ks ts : List GoString}

theorem Scheme.Kept.congr (h : S.Kept w d) (hw : valueAt w' = valueAt w) : S.Kept w' d := by
  refine ⟨?_, hw ▸ h.sets, h.listed⟩
  have hcatalog : S.catalog w' = S.catalog w := by simp only [Scheme.catalog, hw]
  exact hcatalog ▸ h.sound

theorem Scheme.Kept.listed_update (h : S.Kept w d) {x : Position GoString GoString}
    (hx : ∀ t ks, x = .dropping t ks → ∀ m ∈ ks, S.valid m) :
    ∀ g' t ks, Function.update d g x g' = .dropping t ks → ∀ m ∈ ks, S.valid m := by
  intro g' t ks hg'
  by_cases heq : g' = g
  · rw [heq, Function.update_self] at hg'
    exact hx t ks hg'
  · rw [Function.update_of_ne heq] at hg'
    exact h.listed g' t ks hg'

theorem Scheme.Kept.store (h : S.Kept w d) (hg : d g = .storing k ts) (hk : S.valid k) {v : Value} (hv : S.tags v = ts)
    (hw : valueAt w' = Function.update (valueAt w) (S.entryKey k) (some v)) :
    S.Kept w' (Function.update d g (Catalog.link k ts)) := by
  have hsets : ∀ t, valueAt w' (S.tagKey t) = valueAt w (S.tagKey t) :=
    fun t => hw ▸ Function.update_of_ne (S.entryKey_ne k t hk).symm ..
  refine ⟨h.sound.store hg ?_ ?_, fun t v hv => h.sets t v ((hsets t).symm.trans hv), h.listed_update fun t ks hx => ?_⟩
  · rintro m t ⟨v', hv', ht⟩
    rw [hw] at hv'
    by_cases hm : m = k
    · subst hm
      rw [Function.update_self] at hv'
      cases hv'
      exact Or.inr ⟨rfl, hv ▸ ht⟩
    · rw [Function.update_of_ne fun heq => hm (S.entryKey_inj heq)] at hv'
      exact Or.inl ⟨v', hv', ht⟩
  · rintro t m ⟨ks, hset, hm⟩
    exact ⟨ks, (hsets t).trans hset, hm⟩
  · exact absurd hx (Catalog.link_ne_dropping k ts t ks)

theorem Scheme.Kept.members (h : S.Kept w d) {clock : ℤ} {t : GoString} (hlive : Unexpired w clock (S.tagKey t)) :
    ∃ ks, Cache.members w.redis clock (S.tagKey t) = some ks ∧ (∀ m ∈ ks, S.valid m) ∧
      ∀ m, (S.catalog w).holds t m → m ∈ ks := by
  rw [hlive.members]
  cases hv : valueAt w (S.tagKey t) with
  | none =>
    refine ⟨[], rfl, nofun, ?_⟩
    rintro m ⟨ks, hset, -⟩
    rw [hv] at hset
    cases hset
  | some v =>
    obtain ⟨ks, rfl, hvalid⟩ := h.sets t v hv
    refine ⟨ks, rfl, hvalid, ?_⟩
    rintro m ⟨ks', hset, hm⟩
    rw [hv] at hset
    cases hset
    exact hm

theorem Scheme.Kept.link (h : S.Kept w d) (hg : d g = .linking k (t :: ts)) (hk : S.valid k) {clock : ℤ}
    (hlive : Unexpired w clock (S.tagKey t)) (hdisturbed : Catalog.Undisturbed d t k) :
    S.Kept { w with redis := addMember w.redis clock (S.tagKey t) k } (Function.update d g (Catalog.link k ts)) := by
  obtain ⟨ks, hmembers, hvalid, hholds⟩ := h.members hlive
  have hw := valueAt_addMember hmembers k
  have hmem : ∀ m, (m ∈ if k ∈ ks then ks else ks ++ [k]) ↔ m ∈ ks ∨ m = k := by
    intro m
    split_ifs with hin
    · exact ⟨Or.inl, fun hm => hm.elim id fun hm => hm ▸ hin⟩
    · simp
  refine ⟨h.sound.linkOne hg hdisturbed ?_ ?_ ?_, ?_, h.listed_update fun t ks hx => ?_⟩
  · rintro m t' ⟨v, hv, ht⟩
    rw [hw] at hv
    by_cases heq : S.entryKey m = S.tagKey t
    · rw [heq, Function.update_self] at hv
      cases hv
      rw [S.tags_members] at ht
      cases ht
    · rw [Function.update_of_ne heq] at hv
      exact ⟨v, hv, ht⟩
  · rintro t' m hset
    by_cases heq : t' = t
    · subst heq
      exact ⟨_, by rw [hw, Function.update_self], (hmem m).mpr (Or.inl (hholds m hset))⟩
    · obtain ⟨ks', hv, hm⟩ := hset
      refine ⟨ks', ?_, hm⟩
      rw [hw, Function.update_of_ne fun h => heq (S.tagKey_inj h), hv]
  · exact ⟨_, by rw [hw, Function.update_self], (hmem k).mpr (Or.inr rfl)⟩
  · intro t' v hv
    rw [hw] at hv
    by_cases heq : t' = t
    · subst heq
      rw [Function.update_self] at hv
      refine ⟨_, (Option.some.inj hv).symm, fun m hm => ?_⟩
      rcases (hmem m).mp hm with hm | rfl
      · exact hvalid m hm
      · exact hk
    · rw [Function.update_of_ne fun h => heq (S.tagKey_inj h)] at hv
      exact h.sets t' v hv
  · exact absurd hx (Catalog.link_ne_dropping k ts t ks)

theorem Scheme.Kept.list (h : S.Kept w d) (hg : d g = .listing t) {clock : ℤ} (hlive : Unexpired w clock (S.tagKey t)) :
    S.Kept w (Function.update d g
      (if (Cache.members w.redis clock (S.tagKey t)).getD [] = [] then .idle
      else .dropping t ((Cache.members w.redis clock (S.tagKey t)).getD []))) := by
  obtain ⟨ks, hmembers, hvalid, hholds⟩ := h.members hlive
  rw [hmembers, Option.getD_some]
  split_ifs
  · exact ⟨h.sound.move (by simp [hg]) nofun nofun, h.sets, h.listed_update nofun⟩
  · refine ⟨h.sound.list hg hholds, h.sets, h.listed_update ?_⟩
    rintro _ _ ⟨⟩
    exact hvalid

theorem Scheme.Kept.sets_remove (h : S.Kept w d) (keys : List GoString) :
    ∀ t v, valueAt { w with redis := remove w.redis keys } (S.tagKey t) = some v →
      ∃ ks, v = .members ks ∧ ∀ m ∈ ks, S.valid m := by
  intro t v hv
  rw [valueAt_remove] at hv
  split_ifs at hv
  exact h.sets t v hv

theorem carries_remove {keys : List GoString} {m : GoString}
    (h : (S.catalog { w with redis := remove w.redis keys }).carries m t) :
    S.entryKey m ∉ keys ∧ (S.catalog w).carries m t := by
  obtain ⟨v, hv, ht⟩ := h
  rw [valueAt_remove] at hv
  split_ifs at hv with hmem
  exact ⟨hmem, v, hv, ht⟩

theorem holds_remove {keys : List GoString} {m : GoString} (ht : S.tagKey t ∉ keys) (h : (S.catalog w).holds t m) :
    (S.catalog { w with redis := remove w.redis keys }).holds t m := by
  obtain ⟨ks, hset, hm⟩ := h
  exact ⟨ks, by rw [valueAt_remove, if_neg ht, hset], hm⟩

theorem Scheme.Kept.drop (h : S.Kept w d) (hg : d g = .dropping t ks) :
    S.Kept { w with redis := remove w.redis (ks.map S.entryKey) } (Function.update d g (.clearing t)) := by
  refine ⟨h.sound.drop hg (fun m t hm => (carries_remove hm).2) ?_ ?_, h.sets_remove _, h.listed_update nofun⟩
  · intro m hm hcarries
    exact (carries_remove hcarries).1 (List.mem_map_of_mem hm)
  · intro t' m hset
    refine holds_remove (fun hmem => ?_) hset
    obtain ⟨m', hm', heq⟩ := List.mem_map.mp hmem
    exact S.entryKey_ne m' t' (h.listed g t ks hg m' hm') heq

theorem Scheme.Kept.clear (h : S.Kept w d) (hg : d g = .clearing t) :
    S.Kept { w with redis := remove w.redis [S.tagKey t] } (Function.update d g .idle) := by
  refine ⟨h.sound.clear hg (fun m t hm => (carries_remove hm).2) ?_, h.sets_remove _, h.listed_update nofun⟩
  intro t' m hne hset
  refine holds_remove (fun hmem => hne ?_) hset
  exact S.tagKey_inj (List.mem_singleton.mp hmem)

theorem Scheme.Kept.harmless (h : S.Kept w d) {c : Command} (hc : Command.Harmless c) {env : Surroundings}
    (hok : env.fault = .ok) : S.Kept (exec w c env).2 d := by
  cases c with
  | record m => exact h.congr rfl
  | growOnlyExpire key ms =>
    apply h.congr
    simp only [exec, hok, reduceCtorEq, if_false]
    exact valueAt_growOnlyExpire hc
  | _ => cases hc

end Steps

structure Family.Covered (f : Family) (w : World) : Prop where
  sets : ∀ t v, valueAt w (f.scheme.tagKey t) = some v → ∃ ks, v = .members ks ∧ ∀ m ∈ ks, f.scheme.valid m
  covers : ∀ m t, (f.scheme.catalog w).carries m t → (f.scheme.catalog w).holds t m

theorem Family.Covered.kept {f : Family} {w : World} (h : f.Covered w) : f.scheme.Kept w fun _ => .idle :=
  ⟨⟨fun m t hm => Or.inl (h.covers m t hm), nofun, nofun⟩, h.sets, nofun⟩

end EdgeQuota.Middleware
