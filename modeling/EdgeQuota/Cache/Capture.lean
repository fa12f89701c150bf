import EdgeQuota.Cache.Writer

/-! The caching writer as the client and Redis see it: its state is a function of what a writer
without it would have been told, and what it stores is what the client got. -/

namespace EdgeQuota.Cache
open Go Lib

def final (w : ResponseWriter) : Option (ℤ × Header) := if w.wroteHeader then w.sent.getLast? else none

structure Fresh (w : ResponseWriter) : Prop where
  wroteHeader : w.wroteHeader = false
  body : w.body = []

instance (w : ResponseWriter) : Decidable (Fresh w) :=
  decidable_of_iff (w.wroteHeader = false ∧ w.body = []) ⟨fun h => ⟨h.1, h.2⟩, fun h => ⟨h.1, h.2⟩⟩

def withoutXCache (w : ResponseWriter) : ResponseWriter :=
  { w with
    header := w.header.del (str "X-Cache")
    sent := w.sent.map fun p => (p.1, p.2.del (str "X-Cache")) }

theorem final_of_open {w : ResponseWriter} (h : w.wroteHeader = false) : final w = none := by simp [final, h]

def eligible (r : Request) (code : ℤ) (header : Header) : Option (ℤ × List GoString) :=
  match isCacheable r code header, parseVary header with
  | some ttl, some vary => some (ttl, vary)
  | _, _ => none

theorem eligible_some {r : Request} {code ttl : ℤ} {header : Header} {vary : List GoString}
    (h : eligible r code header = some (ttl, vary)) :
    isCacheable r code header = some ttl ∧ parseVary header = some vary := by
  unfold eligible at h
  split at h
  · rename_i httl hvary
    cases h
    exact ⟨httl, hvary⟩
  · cases h

def captured (maxBodySize : ℕ) (r : Request) (w : ResponseWriter) : CachingResponseWriter :=
  match final w with
  | none => { w := w, req := r }
  | some (code, header) =>
    match eligible r code header with
    | none => { w := w, req := r, statusCode := code, headerSent := true }
    | some (ttl, vary) =>
      { w := w
        req := r
        statusCode := code
        headerSent := true
        cacheable := true
        ttl := ttl
        vary := vary
        tags := parseSurrogateKey header
        overflow := maxBodySize < w.body.length
        buf := if maxBodySize < w.body.length then none else some w.body }

structure Tracks (maxBodySize : ℕ) (r : Request) (cw : CachingResponseWriter) (w : ResponseWriter) : Prop where
  state : cw = { captured maxBodySize r w with w := cw.w }
  same : withoutXCache cw.w = withoutXCache w
  untouched : w.wroteHeader = false → cw.w = w ∧ w.body = []
  sent : w.wroteHeader = true → (final w).isSome

variable {maxBodySize : ℕ} {r : Request} {cw : CachingResponseWriter} {w : ResponseWriter}

theorem Tracks.new (maxBodySize : ℕ) (r : Request) (h : Fresh w) : Tracks maxBodySize r (.new w r) w where
  state := by simp [captured, final_of_open h.wroteHeader, CachingResponseWriter.new]
  same := rfl
  untouched _ := ⟨rfl, h.body⟩
  sent hw := by rw [h.wroteHeader] at hw; cases hw

theorem Tracks.wroteHeader (h : Tracks maxBodySize r cw w) : cw.w.wroteHeader = w.wroteHeader := by
  show (withoutXCache cw.w).wroteHeader = (withoutXCache w).wroteHeader
  rw [h.same]

theorem Tracks.body (h : Tracks maxBodySize r cw w) : cw.w.body = w.body := by
  show (withoutXCache cw.w).body = (withoutXCache w).body
  rw [h.same]

theorem Tracks.headerSent (h : Tracks maxBodySize r cw w) : cw.headerSent = w.wroteHeader := by
  rw [h.state]
  cases hw : w.wroteHeader with
  | false => simp [captured, final_of_open hw]
  | true =>
    obtain ⟨⟨code, header⟩, hf⟩ := Option.isSome_iff_exists.mp (h.sent hw)
    simp only [captured, hf]
    cases eligible r code header <;> rfl

theorem Tracks.mapHeader (h : Tracks maxBodySize r cw w) {f : Header → Header}
    (hf : ∀ h₁ h₂ : Header, h₁.del (str "X-Cache") = h₂.del (str "X-Cache") →
      (f h₁).del (str "X-Cache") = (f h₂).del (str "X-Cache")) :
    Tracks maxBodySize r (cw.mapHeader f) { w with header := f w.header } where
  state := by
    have hc : captured maxBodySize r { w with header := f w.header } =
        { captured maxBodySize r w with w := { w with header := f w.header } } := by
      simp only [captured, final]
      split
      · rfl
      · split <;> rfl
    rw [hc, CachingResponseWriter.mapHeader, h.state]
  same := by
    have hheader := congrArg ResponseWriter.header h.same
    have hsent := congrArg ResponseWriter.sent h.same
    simp only [withoutXCache] at hheader hsent
    simp only [withoutXCache, CachingResponseWriter.mapHeader, hf _ _ hheader, hsent, h.wroteHeader, h.body]
  untouched hw := by
    obtain ⟨hsame, hbody⟩ := h.untouched hw
    simp only [CachingResponseWriter.mapHeader, hsame, hbody, and_self]
  sent hw := h.sent hw

theorem writeHeader_of_sent {code : ℤ} (h : w.wroteHeader = true) : w.writeHeader code = w := if_pos h

theorem writeHeader_interim {code : ℤ} (h : w.wroteHeader = false) (hcode : 100 ≤ code ∧ code < 200) (h101 : code ≠ 101) :
    w.writeHeader code = { w with sent := w.sent ++ [(code, w.header)] } := by
  have hopen : 100 ≤ code ∧ code ≤ 199 ∧ code ≠ 101 := ⟨hcode.1, by omega, h101⟩
  simp [ResponseWriter.writeHeader, h, hopen]

theorem writeHeader_final {code : ℤ} (h : w.wroteHeader = false) (hcode : ¬(100 ≤ code ∧ code < 200)) :
    w.writeHeader code = { w with sent := w.sent ++ [(code, w.header)], wroteHeader := true } := by
  have hclosed : ¬(100 ≤ code ∧ code ≤ 199 ∧ code ≠ 101) := fun hc => hcode ⟨hc.1, by omega⟩
  simp [ResponseWriter.writeHeader, h, hclosed]

theorem final_commit (w : ResponseWriter) (code : ℤ) :
    final { w with sent := w.sent ++ [(code, w.header)], wroteHeader := true } = some (code, w.header) := by
  simp [final]

theorem writeHeader_new {code : ℤ} (hw : w.wroteHeader = false) (hbody : w.body = [])
    (hcode : ¬(100 ≤ code ∧ code < 200)) :
    (CachingResponseWriter.new w r).writeHeader code =
      { captured maxBodySize r (w.writeHeader code) with
        w := ResponseWriter.writeHeader { w with header := w.header.set (str "X-Cache") (str "MISS") } code } := by
  rw [writeHeader_final hw hcode, captured, final_commit]
  simp only [CachingResponseWriter.writeHeader, CachingResponseWriter.new, if_neg hcode, Bool.false_eq_true, if_false,
    eligible]
  cases isCacheable r code w.header with
  | none => rfl
  | some ttl =>
    cases parseVary w.header with
    | none => rfl
    | some vary => simp [CachingResponseWriter.mapHeader, hbody]

theorem Tracks.commit (h : Tracks maxBodySize r cw w) (code : ℤ) (hw : w.wroteHeader = false)
    (hcode : ¬(100 ≤ code ∧ code < 200)) : Tracks maxBodySize r (cw.writeHeader code) (w.writeHeader code) := by
  obtain ⟨hsame, hbody⟩ := h.untouched hw
  obtain rfl : cw = .new w r := by
    rw [h.state, hsame, captured, final_of_open hw]
    rfl
  rw [writeHeader_new hw hbody hcode]
  refine ⟨rfl, ?_, ?_, ?_⟩
  · have hset : (w.header.set (str "X-Cache") (str "MISS")).del (str "X-Cache") = w.header.del (str "X-Cache") :=
      (Header.del_set ..).trans (if_pos rfl)
    show withoutXCache (ResponseWriter.writeHeader { w with header := _ } code) = _
    rw [writeHeader_final hw hcode, writeHeader_final (by exact hw) hcode]
    simp only [withoutXCache, List.map_append, List.map_cons, List.map_nil, hset]
  · intro hopen
    rw [writeHeader_final hw hcode] at hopen
    cases hopen
  · intro _
    rw [writeHeader_final hw hcode, final_commit]
    rfl

theorem Tracks.writeHeader (h : Tracks maxBodySize r cw w) {code : ℤ} (h101 : code ≠ 101) :
    Tracks maxBodySize r (cw.writeHeader code) (w.writeHeader code) := by
  by_cases hcode : 100 ≤ code ∧ code < 200
  · -- an interim status goes to the writer underneath, which may have sent its headers already
    rw [CachingResponseWriter.writeHeader, if_pos hcode]
    cases hw : w.wroteHeader with
    | true =>
      rw [writeHeader_of_sent hw, writeHeader_of_sent (h.wroteHeader.trans hw)]
      exact h
    | false =>
      obtain ⟨hsame, hbody⟩ := h.untouched hw
      rw [hsame, writeHeader_interim hw hcode h101]
      refine ⟨?_, rfl, fun _ => ⟨rfl, hbody⟩, fun h => ?_⟩
      · rw [h.state]
        simp [captured, final, hw]
      · rw [hw] at h
        cases h
  · cases hw : w.wroteHeader with
    | true =>
      rw [CachingResponseWriter.writeHeader, if_neg hcode, h.headerSent, if_pos hw, writeHeader_of_sent hw]
      exact h
    | false => exact h.commit code hw hcode

theorem capture_captured (u w : ResponseWriter) (b : GoString) :
    CachingResponseWriter.capture maxBodySize { captured maxBodySize r w with w := u } b =
      { captured maxBodySize r { w with body := w.body ++ b } with w := u } := by
  unfold captured
  rw [show final { w with body := w.body ++ b } = final w from rfl]
  cases final w with
  | none => rfl
  | some p =>
    dsimp only
    cases eligible r p.1 p.2 with
    | none => rfl
    | some q =>
      by_cases hlong : maxBodySize < w.body.length
      · have hlonger : maxBodySize < w.body.length + b.length := by omega
        simp [CachingResponseWriter.capture, hlong, hlonger]
      · by_cases hlonger : maxBodySize < w.body.length + b.length <;>
          simp [CachingResponseWriter.capture, hlong, hlonger]

theorem Tracks.capture (h : Tracks maxBodySize r cw w) (hw : w.wroteHeader = true) (b : GoString) :
    Tracks maxBodySize r
      (CachingResponseWriter.capture maxBodySize { cw with w := { cw.w with body := cw.w.body ++ b } } b)
      { w with body := w.body ++ b } := by
  have hstate : ({ cw with w := { cw.w with body := cw.w.body ++ b } } : CachingResponseWriter) =
      { captured maxBodySize r w with w := { cw.w with body := cw.w.body ++ b } } := by
    conv_lhs => rw [h.state]
  have hsent := congrArg ResponseWriter.sent h.same
  have hheader := congrArg ResponseWriter.header h.same
  simp only [withoutXCache] at hheader hsent
  rw [hstate, capture_captured]
  refine ⟨rfl, ?_, fun hopen => ?_, fun _ => h.sent hw⟩
  · simp only [withoutXCache, hheader, hsent, h.wroteHeader, h.body]
  · rw [show w.wroteHeader = false from hopen] at hw
    cases hw

theorem write_of_sent (hw : w.wroteHeader = true) (b : GoString) (n : ℕ) :
    w.write b n = { w with body := w.body ++ b.take n } := by
  rw [ResponseWriter.write, if_pos hw]

theorem write_of_open (hw : w.wroteHeader = false) (b : GoString) (n : ℕ) :
    w.write b n = { w.writeHeader 200 with body := (w.writeHeader 200).body ++ b.take n } := by
  rw [ResponseWriter.write, hw, if_neg Bool.false_ne_true]

theorem Tracks.write_sent (h : Tracks maxBodySize r cw w) (hw : w.wroteHeader = true) (b : GoString) (n : ℕ) :
    Tracks maxBodySize r (CachingResponseWriter.capture maxBodySize { cw with w := cw.w.write b n } (b.take n))
      { w with body := w.body ++ b.take n } := by
  rw [write_of_sent (h.wroteHeader.trans hw)]
  exact h.capture hw (b.take n)

theorem Tracks.write (h : Tracks maxBodySize r cw w) (b : GoString) (n : ℕ) :
    Tracks maxBodySize r (cw.write maxBodySize b n) (w.write b n) := by
  cases hw : w.wroteHeader with
  | true =>
    rw [CachingResponseWriter.write, if_pos (h.headerSent.trans hw), write_of_sent hw]
    exact h.write_sent hw b n
  | false =>
    -- the first byte commits an implicit 200
    have hcommit := h.commit 200 hw (by decide)
    have hsent : (w.writeHeader 200).wroteHeader = true := by rw [writeHeader_final hw (by decide)]
    rw [CachingResponseWriter.write, h.headerSent, hw, if_neg Bool.false_ne_true, write_of_open hw]
    exact hcommit.write_sent hsent b n

theorem Tracks.handle (h : Tracks maxBodySize r cw w) {op : HandlerOp} (hop : op ≠ .writeHeader 101) :
    Tracks maxBodySize r (cw.handle maxBodySize op) (w.handle op) := by
  cases op with
  | setHeader key value =>
    apply h.mapHeader (f := fun header => header.set key value)
    intro h₁ h₂ heq
    rw [Header.del_set, Header.del_set, heq]
  | addHeader key value =>
    apply h.mapHeader (f := fun header => header.add key value)
    intro h₁ h₂ heq
    rw [Header.del_add, Header.del_add, heq]
  | delHeader key =>
    apply h.mapHeader (f := fun header => header.del key)
    intro h₁ h₂ heq
    rw [Header.del_del, heq, Header.del_del]
  | clearHeader => exact h.mapHeader (f := fun _ => []) fun _ _ _ => rfl
  | writeHeader code => exact h.writeHeader fun hcode => hop (hcode ▸ rfl)
  | write b n => exact h.write b n

theorem Tracks.foldl (h : Tracks maxBodySize r cw w) {ops : List HandlerOp} (hops : .writeHeader 101 ∉ ops) :
    Tracks maxBodySize r (ops.foldl (CachingResponseWriter.handle maxBodySize) cw)
      (ops.foldl ResponseWriter.handle w) := by
  induction ops generalizing cw w with
  | nil => exact h
  | cons op ops ih =>
    obtain ⟨hop, hrest⟩ := List.ne_and_not_mem_of_not_mem_cons hops
    exact ih (h.handle (Ne.symm hop)) hrest

def entries (w : World) (key : GoString) : Option (Slot Value ℤ) := w.redis (keyPrefix ++ key)

def slotOf (s : Stored) (clock ttl : ℤ) : Slot Value ℤ :=
  ⟨.entry { s with entry := s.entry.marshal }, some (clock + expiryMs ttl)⟩

theorem entries_sadd (w : World) (tag member : GoString) (env : Surroundings) :
    entries (exec w (.sadd (tagPrefix ++ tag) member) env).2 = entries w := by
  simp only [exec]
  split_ifs
  · rfl
  · funext k
    exact addMember_of_ne (cacheKey_ne_tagKey k tag) ..

theorem entries_growOnlyExpire (w : World) (tag : GoString) (ms : ℤ) (env : Surroundings) :
    entries (exec w (.growOnlyExpire (tagPrefix ++ tag) ms) env).2 = entries w := by
  simp only [exec]
  split_ifs
  · rfl
  · funext k
    exact growOnlyExpire_of_ne (cacheKey_ne_tagKey k tag) ..

theorem metrics_exec (w : World) (c : Command) (env : Surroundings) :
    (exec w c env).2.metrics = match c with
      | .record m => w.metrics ++ [m]
      | _ => w.metrics := by
  cases c <;> simp only [exec] <;> split_ifs <;> rfl

theorem indexTags_frame (e : GoString → Option (Slot Value ℤ)) (m : List Metric) (key : GoString) (ttl : ℤ)
    (tags : List GoString) :
    Prog.Sound exec (fun _ _ => True) (fun w => entries w = e ∧ w.metrics = m) (fun _ => True)
      (Store.indexTags key ttl tags) := by
  induction tags with
  | nil => exact trivial
  | cons tag tags ih =>
    refine (sound_send fun w env hw _ => ?_).bind fun added _ => ?_
    · rw [entries_sadd, metrics_exec]
      exact hw
    · split_ifs
      · refine (sound_send fun w env hw _ => ?_).bind fun _ _ => ih
        rw [entries_growOnlyExpire, metrics_exec]
        exact hw
      · exact ih

section Runs
variable {key : GoString} {s : Stored} {ttl : ℤ} {env : ℕ → Surroundings}

theorem run_write_eq (world : World) (httl : 0 < ttl) (henv : (env 0).fault = .ok) :
    Prog.run exec (Store.write key s ttl) world env =
      (true, (Prog.run exec (Store.indexTags key ttl s.entry.tags)
        { world with redis := world.redis.write (keyPrefix ++ key) (some (slotOf s (env 0).clock ttl)) }
        fun i => env (i + 1)).2) := by
  have hset : exec world (.set (keyPrefix ++ key) { s with entry := s.entry.marshal } ttl) (env 0) =
      (true, { world with redis := world.redis.write (keyPrefix ++ key) (some (slotOf s (env 0).clock ttl)) }) := by
    simp [exec, henv, slotOf]
  rw [Store.write, if_neg (not_le.mpr httl), Prog.run_bind, run_send, hset]
  simp only [if_true, Prog.run_bind, Prog.run_pure]

theorem entries_write (world : World) (key : GoString) (slot : Option (Slot Value ℤ)) :
    entries { world with redis := world.redis.write (keyPrefix ++ key) slot } =
      Function.update (entries world) key slot := by
  funext k
  by_cases hk : k = key
  · subst hk
    simp [entries]
  · have hne : keyPrefix ++ k ≠ keyPrefix ++ key := fun h => hk (List.append_cancel_left h)
    simp [entries, hk, hne]

theorem run_write (key : GoString) (s : Stored) (world : World) (httl : 0 < ttl) (henv : (env 0).fault = .ok) :
    (Prog.run exec (Store.write key s ttl) world env).1 = true ∧
      entries (Prog.run exec (Store.write key s ttl) world env).2.1 =
        Function.update (entries world) key (some (slotOf s (env 0).clock ttl)) ∧
      (Prog.run exec (Store.write key s ttl) world env).2.1.metrics = world.metrics := by
  obtain ⟨⟨he, hm⟩, -⟩ := (indexTags_frame _ world.metrics key ttl s.entry.tags).run
    ⟨entries_write world key (some (slotOf s (env 0).clock ttl)), rfl⟩ (fun i => env (i + 1)) fun _ _ => trivial
  rw [run_write_eq world httl henv]
  exact ⟨rfl, he, hm⟩

theorem run_set (key : GoString) (s : Stored) (world : World) (httl : 0 < ttl) (env : ℕ → Surroundings)
    (henv : (env 0).fault = .ok) :
    entries (Prog.run exec (Store.set key s ttl) world env).2.1 =
        Function.update (entries world) key (some (slotOf s (env 0).clock ttl)) ∧
      (Prog.run exec (Store.set key s ttl) world env).2.1.metrics =
        world.metrics ++ [.store, .bodySize s.entry.body.length] := by
  obtain ⟨hdone, he, hm⟩ := run_write key s world httl henv
  rw [Store.set, Prog.run_bind, hdone, if_pos rfl, Prog.run_bind, run_send, run_send]
  refine ⟨he, ?_⟩
  rw [metrics_exec, metrics_exec, hm]
  exact List.append_assoc ..

theorem run_setIndex (key : GoString) (s : Stored) (world : World) (httl : 0 < ttl) (env : ℕ → Surroundings)
    (henv : (env 0).fault = .ok) :
    entries (Prog.run exec (Store.setIndex key s ttl) world env).2.1 =
        Function.update (entries world) key (some (slotOf s (env 0).clock ttl)) ∧
      (Prog.run exec (Store.setIndex key s ttl) world env).2.1.metrics = world.metrics := by
  rw [Store.setIndex, Prog.run_bind, Prog.run_pure]
  exact (run_write key s world httl henv).2

theorem run_setIndex_env (world : World) (httl : 0 < ttl) (htags : s.entry.tags = []) :
    (Prog.run exec (Store.setIndex key s ttl) world env).2.2 = fun i => env (i + 1) := by
  simp only [Store.setIndex, Store.write, if_neg (not_le.mpr httl), Prog.run_bind, htags, Store.indexTags]
  split_ifs <;> rfl

end Runs

namespace CachingResponseWriter

def storeKey (cw : CachingResponseWriter) (cacheKey : GoString) : GoString :=
  if cw.vary ≠ [] then keyFromRequest cw.req cw.vary else cacheKey

/-- Which commands of a run of Finish read the creation time and write the entry: the pointer of
a response that varies comes first. -/
def nowIndex (cw : CachingResponseWriter) (cacheKey : GoString) : ℕ :=
  if cw.storeKey cacheKey ≠ cacheKey then 3 else 1

end CachingResponseWriter

theorem storeResponse_vary {cw : CachingResponseWriter} {cacheKey : GoString} (h : cw.storeKey cacheKey ≠ cacheKey)
    (body : GoString) : cw.storeResponse cacheKey body = (do
      let now : ℤ ← send .now
      Store.setIndex cacheKey (cw.pointerEntry now) cw.ttl
      let now : ℤ ← send .now
      Store.set (cw.storeKey cacheKey) (cw.responseEntry body now) cw.ttl) := if_pos h

theorem storeResponse_plain {cw : CachingResponseWriter} {cacheKey : GoString} (h : cw.storeKey cacheKey = cacheKey)
    (body : GoString) : cw.storeResponse cacheKey body = (do
      let now : ℤ ← send .now
      Store.set (cw.storeKey cacheKey) (cw.responseEntry body now) cw.ttl) := if_neg (not_not.mpr h)

theorem run_storeResponse (cw : CachingResponseWriter) (cacheKey body : GoString) (world : World)
    {env : ℕ → Surroundings} (httl : 0 < cw.ttl) (henv : ∀ i, (env i).fault = .ok) :
    entries (Prog.run exec (cw.storeResponse cacheKey body) world fun i => env (i + 1)).2.1 (cw.storeKey cacheKey) =
        some (slotOf (cw.responseEntry body (env (cw.nowIndex cacheKey)).time)
          (env (cw.nowIndex cacheKey + 1)).clock cw.ttl) ∧
      (Prog.run exec (cw.storeResponse cacheKey body) world fun i => env (i + 1)).2.1.metrics =
        world.metrics ++ [.store, .bodySize body.length] := by
  unfold CachingResponseWriter.nowIndex
  by_cases hkey : cw.storeKey cacheKey = cacheKey
  · rw [storeResponse_plain hkey, if_neg (not_not.mpr hkey), Prog.run_bind, run_send]
    obtain ⟨he, hm⟩ := run_set (cw.storeKey cacheKey) (cw.responseEntry body (env 1).time) world httl
      (fun i => env (i + 2)) (henv 2)
    refine ⟨?_, hm⟩
    exact (congrFun he _).trans (Function.update_self ..)
  · rw [storeResponse_vary hkey, if_pos hkey, Prog.run_bind, run_send, Prog.run_bind, Prog.run_bind, run_send,
      run_setIndex_env _ httl rfl]
    have hpointer := run_setIndex cacheKey (cw.pointerEntry (env 1).time) world httl (fun i => env (i + 2)) (henv 2)
    obtain ⟨he, hm⟩ := run_set (cw.storeKey cacheKey) (cw.responseEntry body (env 3).time)
      (Prog.run exec (Store.setIndex cacheKey (cw.pointerEntry (env 1).time) cw.ttl) world fun i => env (i + 2)).2.1
      httl (fun i => env (i + 4)) (henv 4)
    refine ⟨?_, hm.trans ?_⟩
    · exact (congrFun he _).trans (Function.update_self ..)
    · rw [hpointer.2]
      rfl

def CacheControl.ttl (c : CacheControl) : ℤ := if c.hasSMaxAge then c.sMaxAge else c.maxAge

theorem isCacheable_some {code ttl : ℤ} {header : Header} (h : isCacheable r code header = some ttl) :
    (code = 200 ∨ code = 301) ∧ 0 < ttl ∧
      ttl = (parseCacheControl (join (byte ',') (header.values (str "Cache-Control")))).ttl := by
  unfold isCacheable at h
  dsimp only at h
  rw [← CacheControl.ttl] at h
  split_ifs at h with hcode _ _ _ _ httl
  cases h
  exact ⟨by omega, not_le.mp httl, rfl⟩

theorem responseHasSetCookie_del (header : Header) :
    responseHasSetCookie (header.del (str "X-Cache")) = responseHasSetCookie header := by
  have hcanon : canonicalHeaderKey (str "X-Cache") = str "X-Cache" := by decide +kernel
  have hname : canonicalHeaderKey (cutTrailer (str "X-Cache")) ≠ str "Set-Cookie" := by decide +kernel
  unfold responseHasSetCookie Header.del
  rw [List.any_filter, hcanon]
  congr 1
  funext l
  by_cases hl : l.1 = str "X-Cache"
  · simp [hl, hname]
  · simp [hl]

theorem responseHasSetCookie_same {u w : ResponseWriter} (h : withoutXCache u = withoutXCache w) :
    responseHasSetCookie u.header = responseHasSetCookie w.header := by
  have hheader : u.header.del (str "X-Cache") = w.header.del (str "X-Cache") := congrArg ResponseWriter.header h
  rw [← responseHasSetCookie_del, hheader, responseHasSetCookie_del]

theorem final_same {u w : ResponseWriter} (h : withoutXCache u = withoutXCache w) :
    (final u).map Prod.fst = (final w).map Prod.fst := by
  have hstrip : ∀ v : ResponseWriter, (final v).map Prod.fst = (final (withoutXCache v)).map Prod.fst := by
    intro v
    cases hv : v.wroteHeader <;> simp [final, withoutXCache, hv, Function.comp_def]
  rw [hstrip, h, ← hstrip]

theorem relay_eq (maxBodySize : ℕ) (r : Request) (hw : Fresh w) (h : Handling) (hops : .writeHeader 101 ∉ h.ops) :
    ∃ u, withoutXCache u = withoutXCache (h.ops.foldl ResponseWriter.handle w) ∧
      (CachingResponseWriter.new w r).relay maxBodySize h =
        { captured maxBodySize r (h.ops.foldl ResponseWriter.handle w) with w := u, complete := h.returned } := by
  have htracks := (Tracks.new maxBodySize r hw).foldl hops
  refine ⟨_, htracks.same, ?_⟩
  have hcomplete : ∀ w, (captured maxBodySize r w).complete = false := by
    intro w
    unfold captured
    split
    · rfl
    · split <;> rfl
  unfold CachingResponseWriter.relay
  rw [htracks.state]
  cases h.returned with
  | true => rfl
  | false =>
    have := hcomplete (h.ops.foldl ResponseWriter.handle w)
    simp [this]

/-- What has to come together for a response to be stored; `w` is the writer as it would be
without the cache. -/
structure Storable (maxBodySize : ℕ) (r : Request) (complete : Bool) (w : ResponseWriter) (code : ℤ)
    (header : Header) : Prop where
  complete : complete = true
  final : final w = some (code, header)
  status : code = 200 ∨ code = 301
  cacheable : (isCacheable r code header).isSome
  vary : (parseVary header).isSome
  size : w.body.length ≤ maxBodySize
  cookie : responseHasSetCookie w.header = false

def Metric.isLookup (m : Metric) : Bool := m = .miss || m = .uncacheable

section Finish
variable {u : ResponseWriter} {complete : Bool} {code ttl : ℤ} {header : Header} {vary : List GoString}

theorem Storable.captured_eq (h : Storable maxBodySize r complete w code header)
    (httl : isCacheable r code header = some ttl) (hvary : parseVary header = some vary) :
    captured maxBodySize r w =
      { w := w, req := r, statusCode := code, headerSent := true, cacheable := true, ttl := ttl, vary := vary,
        tags := parseSurrogateKey header, overflow := false, buf := some w.body } := by
  have hsize : ¬maxBodySize < w.body.length := not_lt.mpr h.size
  simp [captured, h.final, eligible, httl, hvary, hsize]

theorem Storable.finish (h : Storable maxBodySize r complete w code header) (hu : withoutXCache u = withoutXCache w)
    (cacheKey : GoString) (world : World) (env : ℕ → Surroundings) (henv : ∀ i, (env i).fault = .ok) :
    let cw := { captured maxBodySize r w with w := u, complete := complete }
    entries (Prog.run exec (cw.finish cacheKey) world env).2.1 (cw.storeKey cacheKey) =
        some (slotOf (cw.responseEntry w.body (env (cw.nowIndex cacheKey)).time)
          (env (cw.nowIndex cacheKey + 1)).clock cw.ttl) ∧
      (Prog.run exec (cw.finish cacheKey) world env).2.1.metrics =
        world.metrics ++ [.miss, .store, .bodySize w.body.length] := by
  obtain ⟨ttl, httl⟩ := Option.isSome_iff_exists.mp h.cacheable
  obtain ⟨vary, hvary⟩ := Option.isSome_iff_exists.mp h.vary
  have hcookie : responseHasSetCookie u.header = false := (responseHasSetCookie_same hu).trans h.cookie
  rw [h.captured_eq httl hvary]
  intro cw
  have hfinish : cw.finish cacheKey = (do
      send (.record .miss)
      cw.storeResponse cacheKey w.body) := by
    simp [cw, CachingResponseWriter.finish, h.complete, hcookie]
  rw [hfinish, Prog.run_bind, run_send]
  obtain ⟨he, hm⟩ := run_storeResponse cw cacheKey w.body { world with metrics := world.metrics ++ [.miss] }
    (isCacheable_some httl).2.1 henv
  refine ⟨he, hm.trans ?_⟩
  simp

def Records (p : Program Unit) (ms : List Metric) : Prop :=
  ∀ world env, (Prog.run exec p world env).2.1 = { world with metrics := world.metrics ++ ms }

theorem records_pure : Records (pure ()) [] := by
  intro world env
  rw [Prog.run_pure, List.append_nil]

theorem records_send (m : Metric) : Records (send (.record m)) [m] := fun _ _ => rfl

theorem records_miss {p : Program Unit} {ms : List Metric} (h : Records p ms) :
    Records (do send (.record .miss); p) (.miss :: ms) := by
  intro world env
  rw [Prog.run_bind, h, records_send .miss]
  simp

theorem finish_records (h : ∀ code header, ¬Storable maxBodySize r complete w code header)
    (hu : withoutXCache u = withoutXCache w) (cacheKey : GoString) :
    ∃ ms, Records (CachingResponseWriter.finish { captured maxBodySize r w with w := u, complete := complete } cacheKey)
        ms ∧ ms.countP Metric.isLookup = if (final w).isSome then 1 else 0 := by
  unfold CachingResponseWriter.finish
  cases hfinal : final w with
  | none =>
    simp only [captured, hfinal]
    exact ⟨[], records_pure, rfl⟩
  | some p =>
    obtain ⟨code, header⟩ := p
    cases heligible : eligible r code header with
    | none =>
      simp only [captured, hfinal, heligible]
      exact ⟨[.uncacheable], records_send _, rfl⟩
    | some q =>
      simp only [captured, hfinal, heligible]
      cases complete with
      | false => exact ⟨[.miss], records_miss records_pure, rfl⟩
      | true =>
        by_cases hsize : maxBodySize < w.body.length
        · simp only [hsize, decide_true]
          exact ⟨[.miss, .skip], records_miss (records_send _), rfl⟩
        · simp only [hsize, decide_false, if_false]
          refine ⟨[.miss], records_miss ?_, rfl⟩
          -- only a cookie can have kept the response out
          have hcookie : responseHasSetCookie u.header = true := by
            rw [responseHasSetCookie_same hu]
            by_contra hno
            apply h code header
            obtain ⟨httl, hvary⟩ := eligible_some heligible
            exact ⟨rfl, hfinal, (isCacheable_some httl).1, by rw [httl]; rfl, by rw [hvary]; rfl, not_lt.mp hsize,
              Bool.eq_false_of_not_eq_true hno⟩
          rw [if_pos hcookie]
          exact records_pure

end Finish

/-- The caching writer passes on what it is told, apart from X-Cache, and stores exactly the
complete responses that may be stored, as they were delivered. -/
theorem caching_writer (maxBodySize : ℕ) (r : Request) {w : ResponseWriter} (hw : Fresh w) (h : Handling)
    (hops : ∀ code, .writeHeader code ∈ h.ops → validStatus code = true ∧ code ≠ 101) (cacheKey : GoString)
    (world : World) (env : ℕ → Surroundings) (henv : ∀ i, (env i).fault = .ok) :
    let plain := h.ops.foldl ResponseWriter.handle w
    let cw := (CachingResponseWriter.new w r).relay maxBodySize h
    let after := (Prog.run exec (cw.finish cacheKey) world env).2.1
    withoutXCache cw.w = withoutXCache plain ∧
      (∃ ms, after.metrics = world.metrics ++ ms ∧
        ms.countP Metric.isLookup = if (final plain).isSome then 1 else 0) ∧
      (∀ code header, Storable maxBodySize r h.returned plain code header →
        ∃ s, entries after (cw.storeKey cacheKey) =
            some (slotOf s (env (cw.nowIndex cacheKey + 1)).clock cw.ttl) ∧
          (final cw.w).map Prod.fst = some s.entry.statusCode ∧ cw.w.body = s.entry.body) ∧
      ((∀ code header, ¬Storable maxBodySize r h.returned plain code header) → after.redis = world.redis) := by
  intro plain cw after
  obtain ⟨u, hu, hcw⟩ := relay_eq maxBodySize r hw h fun h101 => (hops 101 h101).2 rfl
  have hbody : u.body = plain.body := by
    show (withoutXCache u).body = (withoutXCache plain).body
    rw [hu]
  have hw' : cw.w = u := congrArg CachingResponseWriter.w hcw
  refine ⟨hw' ▸ hu, ?_, fun code header hs => ?_, fun hno => ?_⟩
  · by_cases hstorable : ∃ code header, Storable maxBodySize r h.returned plain code header
    · obtain ⟨code, header, hs⟩ := hstorable
      obtain ⟨-, hm⟩ := hs.finish hu cacheKey world env henv
      rw [← hcw] at hm
      exact ⟨_, hm, by rw [hs.final]; rfl⟩
    · have hno : ∀ code header, ¬Storable maxBodySize r h.returned plain code header :=
        fun code header hs => hstorable ⟨code, header, hs⟩
      obtain ⟨ms, hrecords, hcount⟩ := finish_records hno hu cacheKey
      rw [← hcw] at hrecords
      exact ⟨ms, congrArg World.metrics (hrecords world env), hcount⟩
  · obtain ⟨he, -⟩ := hs.finish hu cacheKey world env henv
    rw [← hcw] at he
    refine ⟨_, he, ?_, hw' ▸ hbody⟩
    obtain ⟨ttl, httl⟩ := Option.isSome_iff_exists.mp hs.cacheable
    obtain ⟨vary, hvary⟩ := Option.isSome_iff_exists.mp hs.vary
    have hstatus : cw.statusCode = code := by
      rw [show cw = _ from hcw, hs.captured_eq httl hvary]
    show _ = some cw.statusCode
    rw [hw', final_same hu, hs.final, hstatus]
    rfl
  · obtain ⟨ms, hrecords, -⟩ := finish_records hno hu cacheKey
    rw [← hcw] at hrecords
    rw [show after = _ from hrecords world env]

def hintedRequest : Request := { method := str "GET", url := ⟨str "/", [], []⟩, header := [] }

def hinted : Handling where
  ops :=
    [.addHeader (str "Link") (str "</a.css>"), .writeHeader 103, .delHeader (str "Link"),
      .setHeader (str "Cache-Control") (str "max-age=60"), .write (str "hello") 4, .writeHeader 500, .write (str "o") 1]

theorem caching_writer_hinted :
    Storable 5 hintedRequest true (hinted.ops.foldl ResponseWriter.handle {}) 200
        [(str "Cache-Control", str "max-age=60")] ∧
      ∃ s, entries
          (Prog.run exec (((CachingResponseWriter.new {} hintedRequest).relay 5 hinted).finish (str "k")) World.empty
            fun _ => {}).2.1
          (((CachingResponseWriter.new {} hintedRequest).relay 5 hinted).storeKey (str "k")) =
            some (slotOf s 0 ((CachingResponseWriter.new {} hintedRequest).relay 5 hinted).ttl) ∧
        (final ((CachingResponseWriter.new {} hintedRequest).relay 5 hinted).w).map Prod.fst =
          some s.entry.statusCode ∧
        ((CachingResponseWriter.new {} hintedRequest).relay 5 hinted).w.body = s.entry.body := by
  have hs : Storable 5 hintedRequest true (hinted.ops.foldl ResponseWriter.handle {}) 200
      [(str "Cache-Control", str "max-age=60")] :=
    ⟨rfl, by decide +kernel, Or.inl rfl, by decide +kernel, by decide +kernel, by decide +kernel, by decide +kernel⟩
  have hops : ∀ code, .writeHeader code ∈ hinted.ops → validStatus code = true ∧ code ≠ 101 := by
    intro code hcode
    simp only [hinted, List.mem_cons, reduceCtorEq, HandlerOp.writeHeader.injEq, false_or, List.not_mem_nil, or_false] at hcode
    rcases hcode with rfl | rfl <;> decide
  have hwriter := caching_writer 5 hintedRequest (w := {}) (by decide) hinted hops (str "k") World.empty
    (fun _ => {}) fun _ => rfl
  exact ⟨hs, hwriter.2.2.1 _ _ hs⟩

end EdgeQuota.Cache
