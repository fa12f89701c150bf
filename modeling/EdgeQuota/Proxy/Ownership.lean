import EdgeQuota.Proxy.ResponseCache

/-! A rule for runs of the proxy: if every response is stored where it belongs, and a request may be
answered with whatever belongs under the keys that it looks up, then no interleaving of requests and
purges answers a request otherwise. What belongs where is a parameter. -/

namespace EdgeQuota.Proxy
open Go Lib Cache

variable {E : Command → Surroundings → Prop} {O : GoString → Stored → Prop} {P : Outcome → Prop}

def Holds (O : GoString → Stored → Prop) (w : World) : Prop :=
  ∀ key s d, w.redis (keyPrefix ++ key) = some ⟨.entry s, d⟩ → O key s

abbrev Guards (E : Command → Surroundings → Prop) (O : GoString → Stored → Prop) {α : Type} (Q : α → Prop)
    (p : Program α) : Prop := Prog.Sound exec E (Holds O) Q p

theorem holds_empty : Holds O World.empty := by
  intro key s d h
  cases h

theorem Holds.of_slots {w w' : World} (h : Holds O w)
    (hslot : ∀ key x, w'.redis (keyPrefix ++ key) = some x → w.redis (keyPrefix ++ key) = some x) : Holds O w' :=
  fun key s d hs => h key s d (hslot key _ hs)

theorem holds_set {w : World} (h : Holds O w) {key : GoString} {s : Stored} (hs : O key s) (ttl : ℤ)
    (env : Surroundings) : Holds O (exec w (.set (keyPrefix ++ key) s ttl) env).2 := by
  simp only [exec]
  split_ifs
  · exact h
  · intro key' s' d hslot
    by_cases hk : key' = key
    · subst hk
      cases (Keyspace.write_self ..).symm.trans hslot
      exact hs
    · have hne : keyPrefix ++ key' ≠ keyPrefix ++ key := fun heq => hk (List.append_cancel_left heq)
      exact h key' s' d ((Keyspace.write_of_ne hne ..).symm.trans hslot)

theorem holds_sadd {w : World} (h : Holds O w) (tag key : GoString) (env : Surroundings) :
    Holds O (exec w (.sadd (tagPrefix ++ tag) key) env).2 := by
  refine h.of_slots fun k x hx => ?_
  simp only [exec] at hx
  split_ifs at hx
  · exact hx
  · exact (addMember_of_ne (cacheKey_ne_tagKey k tag) ..).symm.trans hx

theorem holds_growOnlyExpire {w : World} (h : Holds O w) (tag : GoString) (ms : ℤ) (env : Surroundings) :
    Holds O (exec w (.growOnlyExpire (tagPrefix ++ tag) ms) env).2 := by
  refine h.of_slots fun k x hx => ?_
  simp only [exec] at hx
  split_ifs at hx
  · exact hx
  · exact (growOnlyExpire_of_ne (cacheKey_ne_tagKey k tag) ..).symm.trans hx

theorem holds_del {w : World} (h : Holds O w) (keys : List GoString) (env : Surroundings) :
    Holds O (exec w (.del keys) env).2 := by
  refine h.of_slots fun k x hx => ?_
  simp only [exec] at hx
  split_ifs at hx
  · exact hx
  · have hx := (remove_apply ..).symm.trans hx
    split_ifs at hx
    exact hx

theorem guards_get (key : GoString) : Guards E O (fun o => ∀ s, o = some s → O key s) (Store.get key) := by
  refine Prog.sound_request fun w env hw _ => ⟨hw, fun s hs => ?_⟩
  simp only [exec] at hs
  split_ifs at hs
  unfold lookup at hs
  split at hs
  · rename_i v hget
    obtain rfl := Option.some.inj hs
    obtain ⟨slot, hfind, hvalue⟩ := Option.map_eq_some_iff.mp hget
    obtain ⟨hslot, -⟩ := Keyspace.find_eq_some.mp hfind
    exact hw key v slot.deadline (by rw [hslot, ← hvalue])
  · cases hs

theorem guards_send {c : Command} (h : ∀ w env, Holds O w → Holds O (exec w c env).2) :
    Guards E O (fun _ => True) (send c) :=
  Prog.sound_request fun w env hw _ => ⟨h w env hw, trivial⟩

theorem guards_record (m : Metric) : Guards E O (fun _ => True) (send (.record m)) := guards_send fun _ _ hw => hw

theorem guards_now : Guards E O (fun _ => True) (send .now) := guards_send fun _ _ hw => hw

theorem guards_del (keys : List GoString) : Guards E O (fun _ => True) (send (.del keys)) :=
  guards_send fun _ env hw => holds_del hw keys env

theorem guards_indexTags (key : GoString) (ttl : ℤ) (tags : List GoString) :
    Guards E O (fun _ => True) (Store.indexTags key ttl tags) := by
  induction tags with
  | nil => exact trivial
  | cons tag tags ih =>
    refine (guards_send fun _ env hw => holds_sadd hw tag key env).bind fun added _ => ?_
    split_ifs
    · exact (guards_send fun _ env hw => holds_growOnlyExpire hw tag _ env).bind fun _ _ => ih
    · exact ih

theorem guards_write {key : GoString} {s : Stored} (hs : O key { s with entry := s.entry.marshal }) (ttl : ℤ) :
    Guards E O (fun _ => True) (Store.write key s ttl) := by
  unfold Store.write
  split_ifs
  · exact trivial
  · refine (guards_send fun _ env hw => holds_set hw hs ttl env).bind fun stored _ => ?_
    split_ifs
    · exact (guards_indexTags key ttl s.entry.tags).bind fun _ _ => trivial
    · exact trivial

theorem guards_set {key : GoString} {s : Stored} (hs : O key { s with entry := s.entry.marshal }) (ttl : ℤ) :
    Guards E O (fun _ => True) (Store.set key s ttl) := by
  refine (guards_write hs ttl).bind fun stored _ => ?_
  split_ifs
  · exact (guards_record _).bind fun _ _ => guards_record _
  · exact trivial

theorem guards_setIndex {key : GoString} {s : Stored} (hs : O key { s with entry := s.entry.marshal }) (ttl : ℤ) :
    Guards E O (fun _ => True) (Store.setIndex key s ttl) := (guards_write hs ttl).bind fun _ _ => trivial

theorem guards_delete (key : GoString) : Guards E O (fun _ => True) (Store.delete key) := by
  refine (guards_del _).bind fun n _ => ?_
  split_ifs
  · exact trivial
  · exact (guards_record _).bind fun _ _ => trivial

theorem guards_recordPurges (n : ℕ) : Guards E O (fun _ => True) (Store.recordPurges n) := by
  induction n with
  | zero => exact trivial
  | succ n ih => exact (guards_record _).bind fun _ _ => ih

theorem guards_deleteByTag (tag : GoString) : Guards E O (fun _ => True) (Store.deleteByTag tag) := by
  refine (guards_send (c := .smembers _) fun _ _ hw => hw).bind fun keys _ => ?_
  split_ifs
  · exact trivial
  · refine (guards_del _).bind fun n _ => (guards_del _).bind fun _ _ => ?_
    exact (guards_recordPurges _).bind fun _ _ => trivial

/-- The entries of a response, as they are read back, belong under the keys they are stored under. -/
structure Stores (O : GoString → Stored → Prop) (cw : CachingResponseWriter) : Prop where
  response : ∀ body now,
    O (keyFromRequest cw.req cw.vary)
      { cw.responseEntry body now with entry := (cw.responseEntry body now).entry.marshal }
  pointer : keyFromRequest cw.req cw.vary ≠ keyFromRequest cw.req [] → ∀ now,
    O (keyFromRequest cw.req []) { cw.pointerEntry now with entry := (cw.pointerEntry now).entry.marshal }

theorem guards_storeResponse {cw : CachingResponseWriter} (h : Stores O cw) (body : GoString) :
    Guards E O (fun _ => True) (cw.storeResponse (keyFromRequest cw.req []) body) := by
  have hkey : (if cw.vary ≠ [] then keyFromRequest cw.req cw.vary else keyFromRequest cw.req []) =
      keyFromRequest cw.req cw.vary := by
    split_ifs with hv
    · rfl
    · rw [not_not.mp hv]
  unfold CachingResponseWriter.storeResponse
  simp only [hkey]
  split_ifs with hne
  · exact guards_now.bind fun now _ => (guards_setIndex (h.pointer hne now) _).bind fun _ _ =>
      guards_now.bind fun now _ => guards_set (h.response body now) _
  · exact guards_now.bind fun now _ => guards_set (h.response body now) _

theorem guards_finish {cw : CachingResponseWriter} (h : cw.cacheable = true → Stores O cw) :
    Guards E O (fun _ => True) (cw.finish (keyFromRequest cw.req [])) := by
  unfold CachingResponseWriter.finish
  split
  · exact trivial
  split
  · exact guards_record _
  rename_i hcacheable
  refine (guards_record _).bind fun _ _ => ?_
  split
  · exact trivial
  split
  · exact guards_record _
  · exact trivial
  · split
    · exact trivial
    · exact guards_storeResponse (h (by simpa using hcacheable)) _

structure Answers (O : GoString → Stored → Prop) (P : Outcome → Prop) (r : Request) (w : ResponseWriter) : Prop where
  plain : ∀ s, O (keyFromRequest r []) s →
    (s.entry.vary ≠ [] → keyFromRequest r s.entry.vary = keyFromRequest r []) →
      ∀ now, P (.hit r s now (replay w s.entry now))
  variant : ∀ s s', O (keyFromRequest r []) s → s.entry.vary ≠ [] → O (keyFromRequest r s.entry.vary) s' →
    ∀ now, P (.hit r s' now (replay w s'.entry now))
  miss : ∀ w, P (.miss r w)

theorem guards_serveEntry {r : Request} {w : ResponseWriter} {s : Stored}
    (h : ∀ now, P (.hit r s now (replay w s.entry now))) :
    Guards E O (fun o => ∀ a, o = some a → P a) (serveEntry r w s) := by
  refine (guards_record _).bind fun _ _ => guards_now.bind fun now _ => Prog.sound_pure ?_
  rintro _ ⟨⟩
  exact h now

theorem guards_serveCached {r : Request} {w : ResponseWriter} (h : Answers O P r w) :
    Guards E O (fun o => ∀ a, o = some a → P a) (serveCached r w) := by
  have hnone : Guards E O (fun o => ∀ a, o = some a → P a) (pure none) := Prog.sound_pure (by rintro a ⟨⟩)
  refine (guards_get _).bind fun o ho => ?_
  cases o with
  | none => exact hnone
  | some s =>
    have hs := ho s rfl
    simp only
    -- the names come from the entry under the base key, whatever is found under the variant's key
    split_ifs with hvary
    · refine (guards_get _).bind fun o ho => ?_
      cases o with
      | none => exact hnone
      | some s' => exact guards_serveEntry (h.variant s s' hs hvary.1 (ho s' rfl))
    · refine guards_serveEntry (h.plain s hs fun hv => ?_)
      by_contra hne
      exact hvary ⟨hv, hne⟩

theorem guards_proxyWithCache {maxBodySize : ℕ} {r : Request} {w : ResponseWriter}
    (hstores : ∀ env, E (.upstream r w) env →
      let cw := (CachingResponseWriter.new w r).relay maxBodySize env.handling
      cw.cacheable = true → Stores O cw)
    (hmiss : ∀ w, P (.miss r w)) : Guards E O P (proxyWithCache maxBodySize r w) := by
  refine Prog.Sound.bind
    (P := fun h : Handling => ((CachingResponseWriter.new w r).relay maxBodySize h).cacheable = true →
      Stores O ((CachingResponseWriter.new w r).relay maxBodySize h))
    (Prog.sound_request fun _ env hw he => ⟨hw, hstores env he⟩) fun h hs => ?_
  have hfinish : Guards E O _ _ := guards_finish hs
  rw [CachingResponseWriter.req_relay] at hfinish
  exact hfinish.bind fun _ _ => hmiss _

theorem guards_serveHTTP {maxBodySize : ℕ} {r : Request} {w : ResponseWriter}
    (hanswers : r.method = str "GET" → Answers O P r w) (hbypass : P (.bypass r))
    (hstores : r.method = str "GET" → ∀ env, E (.upstream r w) env →
      let cw := (CachingResponseWriter.new w r).relay maxBodySize env.handling
      cw.cacheable = true → Stores O cw) :
    Guards E O P (serveHTTP maxBodySize r w) := by
  unfold serveHTTP
  split_ifs with _ _ hget
  · exact hbypass
  · exact hbypass
  · refine (guards_serveCached (hanswers hget.1)).bind fun o ho => ?_
    cases o with
    | none => exact guards_proxyWithCache (hstores hget.1) (hanswers hget.1).miss
    | some a => exact Prog.sound_pure (ho a rfl)
  · exact hbypass

theorem guards_perform (maxBodySize : ℕ) {t : Task}
    (hrequest : ∀ r w, t = .request r w → Guards E O P (serveHTTP maxBodySize r w)) (hpurged : ∀ n, P (.purged n)) :
    Guards E O P (perform maxBodySize t) := by
  cases t with
  | request r w => exact hrequest r w rfl
  | delete key => exact (guards_delete key).bind fun _ _ => hpurged _
  | deleteByTag tag => exact (guards_deleteByTag tag).bind fun _ _ => hpurged _

end EdgeQuota.Proxy
