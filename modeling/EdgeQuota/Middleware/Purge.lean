import EdgeQuota.Middleware.TagProtocol

/-! Purges by tag while entries are being stored, and purges some of whose commands fail. Storing
and purging are sequences of commands, and nothing keeps those of one call together. -/

namespace EdgeQuota.Middleware
open Go Lib Cache Auth

inductive PurgeTask where
  | set (key : GoString) (s : Stored) (ttl : ℤ)
  | deleteByTag (tag : GoString)
  | setAuth (key : GoString) (resp : CheckResponse) (ttl : ℤ)
  | deleteAuthByTag (tag : GoString)

def PurgeTask.perform : PurgeTask → Program ℕ
  | .set key s ttl => do
    Store.set key s ttl
    pure 0
  | .deleteByTag tag => Store.deleteByTag tag
  | .setAuth key resp ttl => do
    setAuthInCache key resp ttl
    pure 0
  | .deleteAuthByTag tag => Middleware.deleteAuthByTag tag

/-- Calls on one of the caches, with tags that survive the JSON encoding and lifetimes of at least
a millisecond. -/
def PurgeTask.On : Family → PurgeTask → Prop
  | .responses, .set _ s ttl => 1000000 ≤ ttl ∧ ∀ t ∈ s.entry.tags, toValidUTF8 t = t
  | .responses, .deleteByTag _ => True
  | .decisions, .setAuth key resp ttl =>
    0 < ttl ∧ authCacheKeyPrefix <+: key ∧ ∀ t ∈ resp.cacheTags, toValidUTF8 t = t
  | .decisions, .deleteAuthByTag _ => True
  | _, _ => False

def purging {α : Type} (p : Program α) (tagKey : GoString) : Option (List GoString) :=
  match p with
  | .call (.del keys) k =>
    if keys = [tagKey] then some []
    else
      match (k none).command with
      | some (.del [key]) => if key = tagKey then some keys else none
      | _ => none
  | _ => none

def Command.reads : Command → Option GoString
  | .sadd key _ | .growOnlyExpire key _ | .smembers key => some key
  | _ => none

/-- Every command succeeds and finds nothing expired, and a key is added to a set only if no purge
of that set is under way that has not listed the key. -/
def Orderly (f : Family) (s : Pool World Command Reply ℕ) : Sched PurgeTask Surroundings → Prop
  | .start _ t => t.On f
  | .step g env =>
    env.fault = .ok ∧ (∀ c ∈ s.command g, ∀ key ∈ Command.reads c, Unexpired s.shared env.clock key) ∧
      ∀ tagKey member, s.command g = some (.sadd tagKey member) →
        ∀ g' p keys, s.running g' = some p → purging p tagKey = some keys → f.scheme.entryKey member ∈ keys

def purges : Machine (Pool World Command Reply ℕ) (Sched PurgeTask Surroundings) (Option ℕ) :=
  Pool.interleave exec PurgeTask.perform

theorem Family.start (f : Family) {t : PurgeTask} (ht : t.On f) :
    ∃ x, f.scheme.Ends t.perform x ∧ (∀ t ks, x ≠ .dropping t ks) ∧ ∀ t, x ≠ .clearing t := by
  cases f with
  | responses =>
    cases t with
    | set key s ttl =>
      refine ⟨_, (set_ends key ht.2 ?_).bind fun _ _ hd => Prog.follows_pure hd, nofun, nofun⟩
      have := ht.1
      omega
    | deleteByTag tag => exact ⟨_, deleteByTag_ends tag, nofun, nofun⟩
    | setAuth key resp ttl => cases ht
    | deleteAuthByTag tag => cases ht
  | decisions =>
    cases t with
    | set key s ttl => cases ht
    | deleteByTag tag => cases ht
    | setAuth key resp ttl =>
      exact ⟨_, (setAuthInCache_ends ht.2.1 ht.2.2 ht.1).bind fun _ _ hd => Prog.follows_pure hd, nofun, nofun⟩
    | deleteAuthByTag tag => exact ⟨_, deleteAuthByTag_ends tag, nofun, nofun⟩

section Calls
variable {S : Scheme} {α : Type} {p : Program α} {t : GoString} {ks : List GoString}

theorem purging_of_clearing (h : S.Ends p (.clearing t)) : p.command = some (.del [S.tagKey t]) := by
  cases p with
  | done a => cases h
  | call c k =>
    cases h.1
    rfl

theorem purging_clearing (h : S.Ends p (.clearing t)) : purging p (S.tagKey t) = some [] := by
  cases p with
  | done a => cases h
  | call c k =>
    cases h.1
    exact if_pos rfl

theorem purging_dropping (h : S.Ends p (.dropping t ks)) :
    purging p (S.tagKey t) = some [] ∨ purging p (S.tagKey t) = some (ks.map S.entryKey) := by
  cases p with
  | done a => cases h
  | call c k =>
    obtain ⟨hmay, hk⟩ := h
    cases hmay
    have hnext := purging_of_clearing (hk none)
    simp only [purging, hnext, if_true]
    split_ifs
    · exact Or.inl rfl
    · exact Or.inr rfl

end Calls

theorem undisturbed_of_orderly {S : Scheme} {s : Pool World Command Reply ℕ} {d : ℕ → Position GoString GoString}
    {t k : GoString} (hd : s.At S.protocol .idle d)
    (h : ∀ g p keys, s.running g = some p → purging p (S.tagKey t) = some keys → S.entryKey k ∈ keys) :
    Catalog.Undisturbed d t k := by
  intro g
  cases hg : s.running g with
  | none =>
    rw [hd.rest g hg]
    exact ⟨nofun, nofun⟩
  | some p =>
    have hends := hd.follows g p hg
    refine ⟨fun hclear => ?_, fun ks hdrop => ?_⟩
    · rw [hclear] at hends
      cases h g p _ hg (purging_clearing hends)
    · rw [hdrop] at hends
      rcases purging_dropping hends with hnone | hkeys
      · cases h g p _ hg hnone
      · obtain ⟨m, hm, heq⟩ := List.mem_map.mp (h g p _ hg hkeys)
        exact S.entryKey_inj heq ▸ hm

theorem keeps (f : Family) : Pool.Keeps f.scheme.protocol .idle exec PurgeTask.perform f.scheme.Kept (Orderly f) where
  start s g t ht := by
    obtain ⟨x, hx, hdropping, hclearing⟩ := f.start ht
    refine ⟨x, hx, fun d hkept hg => ⟨hkept.sound.move (by simp [hg]) hdropping hclearing, hkept.sets, ?_⟩⟩
    exact hkept.listed_update fun t ks hx => absurd hx (hdropping t ks)
  command s g env c k d horderly hg hd hmay hkept := by
    obtain ⟨hok, hlive, hsadd⟩ := horderly
    have hcommand : s.command g = some c := by rw [Pool.command, hg]; rfl
    have hharmless : Command.Harmless c → f.scheme.Kept (exec s.shared c env).2
        (Function.update d g (nextPosition (d g) c (exec s.shared c env).1)) :=
      fun hc => by
        rw [nextPosition_harmless hc, Function.update_eq_self]
        exact hkept.harmless hc hok
    show f.scheme.Kept (exec s.shared c env).2 (Function.update d g (nextPosition (d g) c (exec s.shared c env).1))
    cases hx : d g with
    | idle =>
      rw [hx] at hmay hharmless
      exact hharmless hmay
    | storing key ts =>
      rw [hx] at hmay
      obtain ⟨hkey, v, hwrites, htags⟩ := hmay
      cases c with
      | set key' data ttl =>
        cases hwrites
        simp only [exec, hok, nextPosition, reduceCtorEq, if_false, decide_true, if_true]
        exact hkept.store hx hkey htags (valueAt_write ..)
      | setAuth key' data ttl =>
        cases hwrites
        simp only [exec, hok, nextPosition, reduceCtorEq, if_false]
        exact hkept.store hx hkey htags (valueAt_write ..)
      | _ => cases hwrites
    | linking key ts =>
      rw [hx] at hmay hharmless
      rcases hmay with hc | ⟨hkey, t, rest, rfl, rfl⟩
      · exact hharmless hc
      · simp only [exec, hok, nextPosition, reduceCtorEq, if_false, List.tail_cons]
        exact hkept.link hx hkey (hlive _ hcommand _ rfl) (undisturbed_of_orderly hd (hsadd _ _ hcommand))
    | listing t =>
      rw [hx] at hmay
      cases hmay
      simp only [exec, hok, nextPosition, if_true]
      exact hkept.list hx (hlive _ hcommand _ rfl)
    | dropping t ks =>
      rw [hx] at hmay
      cases hmay
      simp only [exec, hok, nextPosition, reduceCtorEq, if_false]
      exact hkept.drop hx
    | clearing t =>
      rw [hx] at hmay
      cases hmay
      simp only [exec, hok, nextPosition, reduceCtorEq, if_false]
      exact hkept.clear hx

/-- In every interleaving of calls that store and calls that purge, if no key is added to a set
while a purge that has not listed it is about to delete the set, then every entry that is still
cached once all calls are done is in the set of each of its tags. -/
theorem purge_keeps_index (f : Family) {w : World} (hw : f.Covered w) {es : List (Sched PurgeTask Surroundings)}
    (hes : purges.Along (Orderly f) (Pool.init w) es) (hdone : ∀ g, (purges.run (Pool.init w) es).running g = none) :
    f.Covered (purges.run (Pool.init w) es).shared := by
  obtain ⟨d, hd, hkept⟩ := (keeps f).run (Pool.at_init f.scheme.protocol .idle w) hw.kept hes
  exact ⟨hkept.sets, fun m t hm => hkept.sound.covered (fun g => hd.rest g (hdone g)) hm⟩

def tagged : Stored where
  entry := { statusCode := 200, tags := [str "t"], createdAt := 0 }
  storedFor := hintedRequest
  pointer := false

def steps (g n : ℕ) : List (Sched PurgeTask Surroundings) := List.replicate n (.step g {})

/-- An entry is stored; another one is while the purge of the first is under way, and added to the set of the tag
when the purge has deleted it. -/
def storeAroundPurge : List (Sched PurgeTask Surroundings) :=
  .start 0 (.set (str "a") tagged 1000000000) :: steps 0 5 ++ .start 1 (.deleteByTag (str "t")) :: steps 1 1 ++
    .start 0 (.set (str "b") tagged 1000000000) :: steps 0 1 ++ steps 1 2 ++ steps 0 4 ++ steps 1 1

theorem covered_empty (f : Family) : f.Covered World.empty := by
  refine ⟨nofun, ?_⟩
  rintro m t ⟨v, hv, -⟩
  cases hv

def Command.adds : Command → Option GoString
  | .sadd key _ => some key
  | _ => none

/-- A command of one of the first `n` calls succeeds and finds nothing expired, and none of them is about to delete the
set to which it adds a key. -/
def Undisturbed (n : ℕ) (s : Pool World Command Reply ℕ) : Sched PurgeTask Surroundings → Prop
  | .start g _ => g < n
  | .step g env => env.fault = .ok ∧ ∀ c ∈ s.command g, (∀ key ∈ Command.reads c, Unexpired s.shared env.clock key) ∧
      ∀ tagKey ∈ Command.adds c, ∀ g' < n, (s.running g').bind (purging · tagKey) = none

instance (n : ℕ) (s : Pool World Command Reply ℕ) : DecidablePred (Undisturbed n s)
  | .start g _ => inferInstanceAs (Decidable (g < n))
  | .step _ _ => inferInstanceAs (Decidable (_ ∧ _))

theorem orderly_of_undisturbed {f : Family} {n : ℕ} {es : List (Sched PurgeTask Surroundings)}
    {s : Pool World Command Reply ℕ} (hidle : ∀ g, n ≤ g → s.running g = none)
    (hon : ∀ g t, .start g t ∈ es → t.On f) (h : purges.Along (Undisturbed n) s es) : purges.Along (Orderly f) s es := by
  induction es generalizing s with
  | nil => trivial
  | cons e es ih =>
    obtain ⟨hfirst, hrest⟩ := h
    refine ⟨?_, ih (fun g hg => ?_) (fun g t ht => hon g t (List.mem_cons_of_mem _ ht)) hrest⟩
    · cases e with
      | start g t => exact hon g t (List.mem_cons_self ..)
      | step g env =>
        obtain ⟨hok, hcommand⟩ := hfirst
        refine ⟨hok, fun c hc => (hcommand c hc).1, fun tagKey member hc g' p keys hg' hp => ?_⟩
        by_cases hg : g' < n
        · have hnone := (hcommand _ hc).2 tagKey rfl g' hg
          rw [hg', Option.bind_some, hp] at hnone
          cases hnone
        · rw [hidle g' (not_lt.mp hg)] at hg'
          cases hg'
    · have hnew : ∀ t, .start g t ∉ [e] := by
        intro t ht
        rw [← List.mem_singleton.mp ht] at hfirst
        exact not_lt.mpr hg hfirst
      exact Pool.run_idle hnew (hidle g hg)

theorem purge_keeps_index_in_turn :
    let w := (purges.run (Pool.init World.empty) storeAroundPurge).shared
    Family.responses.Covered w ∧
      (lookup w.redis 0 (keyPrefix ++ str "a")).isNone ∧ (lookup w.redis 0 (keyPrefix ++ str "b")).isSome := by
  have hstart : ∀ g t, .start g t ∈ storeAroundPurge → g < 2 ∧ t.On .responses := by
    intro g t ht
    simp only [storeAroundPurge, steps, List.cons_append, List.mem_cons, List.mem_append, List.mem_replicate,
      reduceCtorEq, and_false, false_or, or_false, Sched.start.injEq] at ht
    have hset : ∀ key, PurgeTask.On .responses (.set key tagged 1000000000) := fun _ => ⟨by decide, by decide +kernel⟩
    rcases ht with ⟨rfl, rfl⟩ | ⟨rfl, rfl⟩ | ⟨rfl, rfl⟩
    · exact ⟨by decide, hset _⟩
    · exact ⟨by decide, trivial⟩
    · exact ⟨by decide, hset _⟩
  have horderly : purges.Along (Orderly .responses) (Pool.init World.empty) storeAroundPurge :=
    orderly_of_undisturbed (n := 2) (fun _ _ => rfl) (fun g t ht => (hstart g t ht).2) (by decide +kernel)
  have hdone : ∀ g, (purges.run (Pool.init World.empty) storeAroundPurge).running g = none := by
    intro g
    by_cases hg : g < 2
    · have hsmall : ∀ g < 2, ((purges.run (Pool.init World.empty) storeAroundPurge).running g).isNone := by
        decide +kernel
      exact Option.isNone_iff_eq_none.mp (hsmall g hg)
    · exact Pool.run_idle (fun t ht => hg (hstart g t ht).1) rfl
  exact ⟨purge_keeps_index .responses (covered_empty .responses) horderly hdone, by decide +kernel, by decide +kernel⟩

def storeDuringPurge : List (Sched PurgeTask Surroundings) :=
  .start 0 (.set (str "a") tagged 1000000000) :: steps 0 5 ++ .start 1 (.deleteByTag (str "t")) :: steps 1 1 ++
    .start 0 (.set (str "b") tagged 1000000000) :: steps 0 5 ++ steps 1 3

def decideDuringPurge : List (Sched PurgeTask Surroundings) :=
  let resp : CheckResponse := { allowed := true, cacheTags := [str "t"] }
  .start 0 (.setAuth (authCacheKeyPrefix ++ str "a") resp 1000000000) :: steps 0 2 ++
    .start 1 (.deleteAuthByTag (str "t")) :: steps 1 1 ++
    .start 0 (.setAuth (authCacheKeyPrefix ++ str "b") resp 1000000000) :: steps 0 2 ++ steps 1 2

theorem purge_loses_entry :
    (((purges.run (Pool.init World.empty) storeDuringPurge).running 0).isNone ∧
      ((purges.run (Pool.init World.empty) storeDuringPurge).running 1).isNone ∧
      (lookup (purges.run (Pool.init World.empty) storeDuringPurge).shared.redis 0 (keyPrefix ++ str "b")).map
        (fun s => s.entry.tags) = some [str "t"] ∧
      members (purges.run (Pool.init World.empty) storeDuringPurge).shared.redis 0 (tagPrefix ++ str "t") = some []) ∧
    ((purges.run (Pool.init World.empty) decideDuringPurge).running 0).isNone ∧
      ((purges.run (Pool.init World.empty) decideDuringPurge).running 1).isNone ∧
      (lookupAuth (purges.run (Pool.init World.empty) decideDuringPurge).shared.redis 0
        (authCacheKeyPrefix ++ str "b")).map (fun r => r.cacheTags) = some [str "t"] ∧
      members (purges.run (Pool.init World.empty) decideDuringPurge).shared.redis 0
        (authCacheTagPrefix ++ str "t") = some [] := by
  decide +kernel

def Family.purge (tag : GoString) : Family → Program ℕ
  | .responses => Store.deleteByTag tag
  | .decisions => deleteAuthByTag tag

def tryRemove (env : Surroundings) (db : Keyspace GoString Value ℤ) (keys : List GoString) :
    Keyspace GoString Value ℤ :=
  if env.fault = .refused then db else remove db keys

theorem redis_del (w : World) (keys : List GoString) (env : Surroundings) :
    (exec w (.del keys) env).2.redis = tryRemove env w.redis keys := by
  simp only [exec, tryRemove]
  split_ifs <;> rfl

/-- What a purge leaves, some of whose commands may fail: the listing, the removal of the listed
entries, and the removal of the set. -/
def Scheme.afterPurge (S : Scheme) (w : World) (tag : GoString) (env : ℕ → Surroundings) : World :=
  let keys := if (env 0).fault = .ok then members w.redis (env 0).clock (S.tagKey tag) else none
  if keys.getD [] = [] then w
  else
    { w with
      redis := tryRemove (env 2) (tryRemove (env 1) w.redis ((keys.getD []).map S.entryKey)) [S.tagKey tag] }

theorem run_purge_commands {S : Scheme} {α : Type} {tag : GoString} (dels : List GoString → List GoString)
    (hdels : ∀ ks, dels ks = ks.map S.entryKey) (a : α) {k : Option ℕ → Option ℕ → Program α}
    (hk : ∀ n r w env, (Prog.run exec (k n r) w env).2.1.redis = w.redis) (w : World) (env : ℕ → Surroundings) :
    (Prog.run exec (do
      let keys : Option (List GoString) ← send (.smembers (S.tagKey tag))
      if keys.getD [] = [] then pure a
      else
        let n : Option ℕ ← send (.del (dels (keys.getD [])))
        let r : Option ℕ ← send (.del [S.tagKey tag])
        k n r) w env).2.1.redis = (S.afterPurge w tag env).redis := by
  have hlist : exec w (.smembers (S.tagKey tag)) (env 0) =
      (if (env 0).fault = .ok then members w.redis (env 0).clock (S.tagKey tag) else none, w) := rfl
  rw [Prog.run_bind, run_send, hlist, Scheme.afterPurge]
  generalize (if (env 0).fault = .ok then members w.redis (env 0).clock (S.tagKey tag) else none) = keys
  dsimp only
  split_ifs
  · rfl
  · rw [Prog.run_bind, run_send, Prog.run_bind, run_send, hk, redis_del, redis_del, hdels]

theorem run_purge (f : Family) (tag : GoString) (w : World) (env : ℕ → Surroundings) :
    (Prog.run exec (f.purge tag) w env).2.1.redis = (f.scheme.afterPurge w tag env).redis := by
  cases f with
  | responses =>
    refine run_purge_commands (S := Family.responses.scheme) (List.map (keyPrefix ++ ·)) (fun _ => rfl) 0 (fun n _ w env => ?_) w env
    rw [Prog.run_bind, Prog.run_pure]
    exact run_recordPurges (n.getD 0) w env
  | decisions =>
    exact run_purge_commands (S := Family.decisions.scheme) id (fun ks => (List.map_id ks).symm) 0
      (fun n _ w env => rfl) w env

section Failing
variable {S : Scheme} {w : World} {tag : GoString}

theorem not_carries_removed {ks : List GoString} (hks : ∀ m, (S.catalog w).carries m tag → m ∈ ks)
    (env : Surroundings) (m : GoString) :
    ¬(S.catalog { w with redis := tryRemove env (remove w.redis (ks.map S.entryKey)) [S.tagKey tag] }).carries m tag := by
  intro h
  have hremoved : (S.catalog { w with redis := remove w.redis (ks.map S.entryKey) }).carries m tag := by
    unfold tryRemove at h
    split_ifs at h
    · exact h
    · exact (carries_remove (w := { w with redis := remove w.redis (ks.map S.entryKey) }) h).2
  obtain ⟨hkey, hcarries⟩ := carries_remove hremoved
  exact hkey (List.mem_map_of_mem (hks m hcarries))

theorem covers_cleared_iff (hsets : ∀ v, valueAt w (S.tagKey tag) = some v → ∃ ks, v = .members ks) :
    (∀ m, (S.catalog { w with redis := remove w.redis [S.tagKey tag] }).carries m tag →
      (S.catalog { w with redis := remove w.redis [S.tagKey tag] }).holds tag m) ↔
    ∀ m, ¬(S.catalog w).carries m tag := by
  constructor
  · rintro h m ⟨v, hv, ht⟩
    have hne : S.entryKey m ∉ [S.tagKey tag] := by
      rw [List.mem_singleton]
      intro heq
      obtain ⟨ks, rfl⟩ := hsets v (heq ▸ hv)
      rw [S.tags_members] at ht
      cases ht
    obtain ⟨ks, hset, -⟩ := h m ⟨v, by rw [valueAt_remove, if_neg hne, hv], ht⟩
    rw [valueAt_remove, if_pos (List.mem_singleton_self _)] at hset
    cases hset
  · intro h m hm
    exact absurd (carries_remove hm).2 (h m)

end Failing

/-- A purge that may fail half-way leaves every remaining entry of the tag in its set, for the next
purge to find, unless it could not delete the entries and went on to delete the set. -/
theorem purge_repeatable_iff (f : Family) (tag : GoString) {w : World} (hw : f.Covered w) (env : ℕ → Surroundings)
    (hlive : Unexpired w (env 0).clock (f.scheme.tagKey tag)) :
    (∀ m, (f.scheme.catalog (Prog.run exec (f.purge tag) w env).2.1).carries m tag →
      (f.scheme.catalog (Prog.run exec (f.purge tag) w env).2.1).holds tag m) ↔
    (env 0).fault ≠ .ok ∨ (env 1).fault ≠ .refused ∨ (env 2).fault = .refused ∨
      ∀ m, ¬(f.scheme.catalog w).carries m tag := by
  have hcatalog : f.scheme.catalog (Prog.run exec (f.purge tag) w env).2.1 =
      f.scheme.catalog (f.scheme.afterPurge w tag env) := by
    simp only [Scheme.catalog, valueAt, run_purge]
  have hbefore := fun m => hw.covers m tag
  obtain ⟨ks, hmembers, -, hholds⟩ := hw.kept.members hlive
  rw [hcatalog, Scheme.afterPurge, hmembers]
  by_cases hlist : (env 0).fault = .ok
  · simp only [hlist, if_true, Option.getD_some]
    split_ifs with hempty
    · have hnone : ∀ m, ¬(f.scheme.catalog w).carries m tag := by
        intro m hm
        have := hholds m (hbefore m hm)
        rw [hempty] at this
        cases this
      exact iff_of_true hbefore (Or.inr (Or.inr (Or.inr hnone)))
    · by_cases hdel : (env 1).fault = .refused
      · rw [tryRemove.eq_def (env 1), if_pos hdel]
        by_cases hclear : (env 2).fault = .refused
        · rw [tryRemove, if_pos hclear]
          exact iff_of_true hbefore (Or.inr (Or.inr (Or.inl hclear)))
        · rw [tryRemove, if_neg hclear, covers_cleared_iff fun v hv => (hw.sets tag v hv).imp fun ks h => h.1]
          simp only [hdel, hclear, ne_eq, not_true_eq_false, false_or]
      · rw [tryRemove.eq_def (env 1), if_neg hdel]
        refine iff_of_true (fun m hm => absurd hm (not_carries_removed (fun m hm => ?_) (env 2) m))
          (Or.inr (Or.inl hdel))
        exact hholds m (hbefore m hm)
  · simp only [hlist, if_false, Option.getD_none, if_true]
    exact iff_of_true hbefore (Or.inl hlist)

def oneResponse : World where
  redis :=
    (Keyspace.empty.write (keyPrefix ++ str "a") (some ⟨.entry tagged, none⟩)).write (tagPrefix ++ str "t")
      (some ⟨.members [str "a"], none⟩)
  metrics := []

def secondFails (fault : Fault) (i : ℕ) : Surroundings := if i = 1 then { fault := fault } else {}

theorem covered_oneResponse : Family.responses.Covered oneResponse := by
  have hvalue : valueAt oneResponse =
      Function.update (Function.update (fun _ => none) (keyPrefix ++ str "a") (some (.entry tagged)))
        (tagPrefix ++ str "t") (some (.members [str "a"])) := by
    have hone := valueAt_write World.empty (keyPrefix ++ str "a") (.entry tagged) none
    exact (valueAt_write { World.empty with redis := _ } _ _ _).trans (congrArg (Function.update · _ _) hone)
  refine ⟨fun t v hv => ?_, ?_⟩
  · have hv : valueAt oneResponse (tagPrefix ++ t) = some v := hv
    rw [hvalue] at hv
    by_cases ht : tagPrefix ++ t = tagPrefix ++ str "t"
    · rw [ht, Function.update_self] at hv
      exact ⟨_, (Option.some.inj hv).symm, fun _ _ => trivial⟩
    · rw [Function.update_of_ne ht, Function.update_of_ne (cacheKey_ne_tagKey _ t).symm] at hv
      cases hv
  · rintro m t ⟨v, hv, ht⟩
    have hv : valueAt oneResponse (keyPrefix ++ m) = some v := hv
    rw [hvalue, Function.update_of_ne (cacheKey_ne_tagKey m _)] at hv
    by_cases hm : m = str "a"
    · subst hm
      rw [Function.update_self] at hv
      cases hv
      obtain rfl := List.mem_singleton.mp ht
      exact ⟨[str "a"], hvalue ▸ Function.update_self .., List.mem_singleton_self _⟩
    · rw [Function.update_of_ne fun heq => hm (List.append_cancel_left heq)] at hv
      cases hv

theorem purge_repeatable_unanswered :
    Family.responses.Covered oneResponse ∧
      ∀ m, (Family.responses.scheme.catalog
          (Prog.run exec (Family.responses.purge (str "t")) oneResponse (secondFails .unanswered)).2.1).carries m
            (str "t") →
        (Family.responses.scheme.catalog
          (Prog.run exec (Family.responses.purge (str "t")) oneResponse (secondFails .unanswered)).2.1).holds (str "t") m :=
  ⟨covered_oneResponse,
    (purge_repeatable_iff .responses (str "t") covered_oneResponse (secondFails .unanswered) (by decide +kernel)).mpr
      (Or.inr (Or.inl (by decide)))⟩

def oneDecision : World where
  redis :=
    (Keyspace.empty.write (authCacheKeyPrefix ++ str "a")
      (some ⟨.auth { allowed := true, cacheTags := [str "t"] }, none⟩)).write (authCacheTagPrefix ++ str "t")
      (some ⟨.members [authCacheKeyPrefix ++ str "a"], none⟩)
  metrics := []

/-- The DEL of the entries is rejected and the DEL of the set is not: the entry is still there and
its tag does not lead to it any more. -/
theorem purge_not_repeatable :
    ((lookup (Prog.run exec (Store.deleteByTag (str "t")) oneResponse (secondFails .refused)).2.1.redis 0
        (keyPrefix ++ str "a")).map (fun s => s.entry.tags) = some [str "t"] ∧
      members (Prog.run exec (Store.deleteByTag (str "t")) oneResponse (secondFails .refused)).2.1.redis 0
        (tagPrefix ++ str "t") = some []) ∧
    (lookupAuth (Prog.run exec (deleteAuthByTag (str "t")) oneDecision (secondFails .refused)).2.1.redis 0
        (authCacheKeyPrefix ++ str "a")).map (fun r => r.cacheTags) = some [str "t"] ∧
      members (Prog.run exec (deleteAuthByTag (str "t")) oneDecision (secondFails .refused)).2.1.redis 0
        (authCacheTagPrefix ++ str "t") = some [] := by
  decide +kernel

end EdgeQuota.Middleware
