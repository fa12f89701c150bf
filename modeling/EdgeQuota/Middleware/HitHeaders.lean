import EdgeQuota.Middleware.Edge
import EdgeQuota.Middleware.Pipeline
import EdgeQuota.Proxy.ReverseProxy

/-! The headers of a cache hit. The chain writes the id and the rate-limit headers of a request into
the header map that the proxy hands to the backend's response; what is stored of the response is that
map, and a hit adds it to the headers of its own. -/

namespace EdgeQuota.Middleware
open Go Lib RateLimit Cache Proxy

def perRequestHeaders : List GoString :=
  [requestIDHeader, str "X-RateLimit-Limit", str "X-RateLimit-Remaining", str "X-RateLimit-Reset"]

structure OwnHeaders (o : Outcomes) (r : Request) (result : Option Result) (h : Header) : Prop where
  requestID : h.values requestIDHeader = [(ensureRequestID o r).1]
  limit : h.values (str "X-RateLimit-Limit") = (result.map fun res => formatInt res.limit).toList
  remaining : h.values (str "X-RateLimit-Remaining") = (result.map fun res => formatInt res.remaining).toList
  reset : h.values (str "X-RateLimit-Reset") = (result.map fun res => formatInt (ceilSecondsIn .binary64 res.resetAfter)).toList

theorem OwnHeaders.of_values {o : Outcomes} {r : Request} {result : Option Result} {h h' : Header}
    (hh : OwnHeaders o r result h) (heq : ∀ name ∈ perRequestHeaders, h'.values name = h.values name) :
    OwnHeaders o r result h' := by
  simp only [perRequestHeaders, List.forall_mem_cons] at heq
  obtain ⟨hid, hlimit, hremaining, hreset, -⟩ := heq
  exact ⟨hid.trans hh.requestID, hlimit.trans hh.limit, hremaining.trans hh.remaining, hreset.trans hh.reset⟩

theorem ownHeaders_limited (o : Outcomes) (r : Request) (result : Option Result) :
    OwnHeaders o r result ((prepareRequest o r {}).2.limited result).header := by
  cases result with
  | none => exact ⟨rfl, rfl, rfl, rfl⟩
  | some res => exact ⟨rfl, rfl, rfl, rfl⟩

theorem forwarded_limited {c : Chain} {o : Outcomes} {r r' : Request} {w : ResponseWriter}
    (h : (c.serveHTTP o r {}).forwarded = some (r', w)) :
    ∃ result, c.decision o r = .forward result ∧ w = (prepareRequest o r {}).2.limited result := by
  obtain ⟨calls, hrenders, htrace⟩ := serveHTTP_renders c o r
  have hcalls : calls.findSome? Effect.call = some (r', w) := by
    rw [Serving.forwarded, htrace] at h
    split_ifs at h
    · rw [List.cons_append, List.findSome?_cons, List.findSome?_append] at h
      simpa [Effect.call] using h
    · exact h
  cases hd : c.decision o r with
  | forward result =>
    rw [hd] at hrenders
    obtain ⟨r'', rfl⟩ := hrenders
    cases hcalls
    exact ⟨result, rfl, rfl⟩
  | refuse why =>
    rw [hd] at hrenders
    obtain ⟨rfl, -⟩ := hrenders
    cases hcalls
  | ignore =>
    rw [hd] at hrenders
    obtain rfl : calls = [] := hrenders
    cases hcalls

/-- Nothing that the chain wrote for a request, or the backend under the same names, is stored with
the response. -/
def Clean (resp : BackendResponse) : Prop := ∀ name ∈ perRequestHeaders, resp.Sheds name

def StoredFrom (resp : BackendResponse) (s : Stored) : Prop :=
  ∃ maxBodySize w r body now,
    let cw := (CachingResponseWriter.new w r).relay maxBodySize resp.handling
    s = { cw.responseEntry body now with entry := (cw.responseEntry body now).entry.marshal }

def CleanEntry (s : Stored) : Prop := s.entry.headers = [] ∨ ∃ resp, Clean resp ∧ StoredFrom resp s

theorem foreign_perRequestHeaders {name : GoString} (hname : name ∈ perRequestHeaders) : Foreign name := by
  have hvalid : ∀ name ∈ perRequestHeaders, name.all validHeaderFieldByte = true := by decide +kernel
  have hapart : ∀ name ∈ perRequestHeaders, ∀ other ∈ [str "Trailer", str "X-Cache", str "Age"],
      canonicalHeaderKey other ≠ canonicalHeaderKey name := by decide +kernel
  exact ⟨hvalid name hname, hapart name hname _ (by simp), hapart name hname _ (by simp), hapart name hname _ (by simp)⟩

theorem CleanEntry.unnamed {s : Stored} (h : CleanEntry s) : ∀ name ∈ perRequestHeaders, Unnamed name s.entry.headers := by
  intro name hname
  have hforeign := foreign_perRequestHeaders hname
  rcases h with hnil | ⟨resp, hclean, maxBodySize, w, r, body, now, rfl⟩
  · rw [hnil]
    exact List.forall_mem_nil _
  · have hrelay := unnamed_relay hforeign (hclean name hname) maxBodySize w r
    exact ((hrelay.del _).del _).marshal hforeign (e := (CachingResponseWriter.responseEntry _ body now).entry)

theorem StoredFrom.headers_eq {resp : BackendResponse} (hinterim : resp.interim ≠ []) {s s' : Stored}
    (h : StoredFrom resp s) (h' : StoredFrom resp s') : s.entry.headers = s'.entry.headers := by
  obtain ⟨maxBodySize, w, r, body, now, rfl⟩ := h
  obtain ⟨maxBodySize', w', r', body', now', rfl⟩ := h'
  simp only [CachingResponseWriter.responseEntry, Entry.marshal, header_relay_interim hinterim]

theorem header_replay_congr {e e' : Entry} (hheaders : e.headers = e'.headers) (hcreated : e.createdAt = e'.createdAt)
    (w : ResponseWriter) (now : ℤ) : (replay w e now).header = (replay w e' now).header := by
  simp only [replay, header_write, header_writeHeader, age, hheaders, hcreated]

theorem values_replay_congr {e e' : Entry} (hheaders : e.headers = e'.headers) (w : ResponseWriter) (now now' : ℤ)
    {key : GoString} (hkey : canonicalHeaderKey key ≠ str "Age") :
    (replay w e now).header.values key = (replay w e' now').header.values key := by
  have hage : canonicalHeaderKey (str "Age") ≠ canonicalHeaderKey key := by
    rw [show canonicalHeaderKey (str "Age") = str "Age" by decide +kernel]
    exact hkey.symm
  simp only [replay, header_write, header_writeHeader, Header.values_set, if_neg hage, hheaders]

def served (maxBodySize : ℕ) :
    Machine (Pool World Command Reply (EdgeTask × Outcome)) (Sched EdgeTask Surroundings)
      (Option (EdgeTask × Outcome)) :=
  Pool.interleave exec fun t => do
    let o ← t.perform maxBodySize
    pure (t, o)

def AnsweredClean (maxBodySize : ℕ) : Command → Surroundings → Prop
  | .upstream r w, env =>
    ((CachingResponseWriter.new w r).relay maxBodySize env.handling).cacheable = true →
      ∃ resp : BackendResponse, env.handling = resp.handling ∧ Clean resp
  | _, _ => True

def Replays : EdgeTask × Outcome → Prop
  | (.request c o r, .hit r' s now w) =>
    CleanEntry s ∧ ∃ w₂, (c.serveHTTP o r {}).forwarded = some (r', w₂) ∧ w = replay w₂ s.entry now
  | _ => True

theorem stores_clean {resp : BackendResponse} (h : Clean resp) (maxBodySize : ℕ) (w : ResponseWriter) (r : Request) :
    Stores (fun _ s => CleanEntry s) ((CachingResponseWriter.new w r).relay maxBodySize resp.handling) where
  response body now := Or.inr ⟨resp, h, maxBodySize, w, r, body, now, rfl⟩
  pointer _ _ := Or.inl rfl

theorem guards_replays (maxBodySize : ℕ) (t : EdgeTask) :
    Guards (AnsweredClean maxBodySize) (fun _ s => CleanEntry s) (fun o => Replays (t, o)) (t.perform maxBodySize) := by
  cases t with
  | delete key => exact guards_perform maxBodySize (t := .delete key) nofun fun _ => trivial
  | deleteByTag tag => exact guards_perform maxBodySize (t := .deleteByTag tag) nofun fun _ => trivial
  | request c o r =>
    cases hforwarded : (c.serveHTTP o r {}).forwarded with
    | none =>
      simp only [EdgeTask.perform, hforwarded]
      exact Prog.sound_pure trivial
    | some p =>
      simp only [EdgeTask.perform, hforwarded]
      refine guards_serveHTTP (fun _ => ⟨?_, ?_, fun _ => trivial⟩) trivial fun _ env hclean hcacheable => ?_
      · exact fun s hs _ _ => ⟨hs, p.2, hforwarded, rfl⟩
      · exact fun _ s' _ _ hs' _ => ⟨hs', p.2, hforwarded, rfl⟩
      · obtain ⟨resp, hresp, hclean⟩ := hclean hcacheable
        rw [hresp]
        exact stores_clean hclean maxBodySize p.2 p.1

theorem served_replays {maxBodySize : ℕ} {es : List (Sched EdgeTask Surroundings)}
    (hes : (served maxBodySize).Along (Pool.Within (fun _ => True) (AnsweredClean maxBodySize))
      (Pool.init World.empty) es) :
    ∀ p, some p ∈ (served maxBodySize).outputs (Pool.init World.empty) es → Replays p :=
  Pool.interleave_sound (fun t _ => (guards_replays maxBodySize t).bind fun _ ho => Prog.sound_pure ho)
    holds_empty hes

/-- **Headers of a hit.** Take two runs in which every cacheable response follows a 1xx response and
carries none of the headers that the chain writes for each request, and a request that is answered from
the cache in both. It gets one request id and one value of each rate-limit header, its own; and where
both entries are of the same response, it gets the same headers but for their age, whosever request the
response was for, and the same age too if they were created and served at the same times. -/
theorem hit_headers_own {maxBodySize : ℕ} {es es' : List (Sched EdgeTask Surroundings)}
    (hes : (served maxBodySize).Along (Pool.Within (fun _ => True) (AnsweredClean maxBodySize))
      (Pool.init World.empty) es)
    (hes' : (served maxBodySize).Along (Pool.Within (fun _ => True) (AnsweredClean maxBodySize))
      (Pool.init World.empty) es')
    {c : Chain} {o : Outcomes} {r r₂ r₂' : Request} {s s' : Stored} {now now' : ℤ} {w w' : ResponseWriter}
    (hhit : some (.request c o r, .hit r₂ s now w) ∈ (served maxBodySize).outputs (Pool.init World.empty) es)
    (hhit' : some (.request c o r, .hit r₂' s' now' w') ∈ (served maxBodySize).outputs (Pool.init World.empty) es') :
    (∃ result, c.decision o r = .forward result ∧ OwnHeaders o r result w.header) ∧
      ((∃ resp, Clean resp ∧ StoredFrom resp s ∧ StoredFrom resp s') →
        (∀ key, canonicalHeaderKey key ≠ str "Age" → w.header.values key = w'.header.values key) ∧
          (s.entry.createdAt = s'.entry.createdAt → now = now' →
            ∀ key, w.header.values key = w'.header.values key)) := by
  obtain ⟨hclean, w₂, hforwarded, rfl⟩ := served_replays hes _ hhit
  obtain ⟨-, w₂', hforwarded', rfl⟩ := served_replays hes' _ hhit'
  obtain ⟨rfl, rfl⟩ : r₂ = r₂' ∧ w₂ = w₂' := by
    rw [hforwarded] at hforwarded'
    cases hforwarded'
    exact ⟨rfl, rfl⟩
  constructor
  · obtain ⟨result, hdecision, rfl⟩ := forwarded_limited hforwarded
    refine ⟨result, hdecision, (ownHeaders_limited o r result).of_values fun name hname => ?_⟩
    exact values_replay (foreign_perRequestHeaders hname) (hclean.unnamed name hname) _ now
  · rintro ⟨resp, hresp, hs, hs'⟩
    have hinterim : resp.interim ≠ [] := (hresp requestIDHeader (by decide +kernel)).interim
    have hheaders := hs.headers_eq hinterim hs'
    refine ⟨fun key hkey => values_replay_congr hheaders w₂ now now' hkey, ?_⟩
    rintro hcreated rfl key
    rw [header_replay_congr hheaders hcreated]

def metered : Chain where
  staticRL :=
    { ratePerSecond := 1, burst := 5, ttl := 10, period := 1000000000, failurePolicy := .passThrough,
      failureCode := 429, average := 1 }
  limiter := some ⟨1 / 1000000, 5, 10, [], false⟩

def arrival (id : String) (db : Redis GoString) : EdgeTask :=
  .request metered { generatedID := str id, extract := some (str "k"), db := db } plainRequest

def usedOnce : Redis GoString := (tryRedisLimit metered.limiter (str "k") none ⟨0, 0, none⟩ Keyspace.empty).2

def forAMinute (interim : List InterimResponse) : BackendResponse where
  interim := interim
  statusCode := 200
  header := [(str "Cache-Control", str "max-age=60")]
  pieces := [(str "x", 1)]

def earlyHints : InterimResponse := ⟨103, [(str "Link", str "</style.css>")], by decide⟩

def populated (resp : BackendResponse) (first second : EdgeTask) : List (Sched EdgeTask Surroundings) :=
  let env : Surroundings := { handling := resp.handling }
  .start 0 first :: List.replicate 8 (.step 0 env) ++ .start 0 second :: List.replicate 8 (.step 0 env)

def hitValues (os : List (Option (EdgeTask × Outcome))) : List (List (List GoString)) :=
  os.filterMap fun
    | some (.request _ _ _, .hit _ _ _ w) => some (perRequestHeaders.map w.header.values)
    | _ => none

def hitEntries (os : List (Option (EdgeTask × Outcome))) : List (GoString × Stored × ℤ) :=
  os.filterMap fun
    | some (.request _ o _, .hit _ s now _) => some (o.generatedID, s, now)
    | _ => none

theorem exists_hit {os : List (Option (EdgeTask × Outcome))} {id : GoString} {s : Stored} {now : ℤ}
    (h : hitEntries os = [(id, s, now)]) :
    ∃ c o r r₂ w, o.generatedID = id ∧ some (.request c o r, .hit r₂ s now w) ∈ os := by
  obtain ⟨p, hp, hvalue⟩ := List.mem_filterMap.mp (h ▸ List.mem_singleton_self (id, s, now))
  split at hvalue
  · cases hvalue
    exact ⟨_, _, _, _, _, rfl, hp⟩
  · cases hvalue

theorem served_started {maxBodySize : ℕ} {es : List (Sched EdgeTask Surroundings)} {tasks : List EdgeTask}
    (hes : ∀ g t, .start g t ∈ es → t ∈ tasks) :
    ∀ p, some p ∈ (served maxBodySize).outputs (Pool.init World.empty) es → p.1 ∈ tasks := by
  refine Pool.interleave_sound (A := (· ∈ tasks)) (E := fun _ _ => True) (I := fun _ => True) (fun t ht => ?_) trivial
    (Machine.along_of_forall fun e he pool => ?_)
  · exact (Prog.sound_true (t.perform maxBodySize)).bind fun _ _ => Prog.sound_pure ht
  · cases e with
    | start g t => exact hes g t he
    | step g f => exact fun _ _ => trivial

theorem clean_earlyHints : Clean (forAMinute [earlyHints]) := by
  have hheader : ∀ name ∈ perRequestHeaders, ∀ l ∈ (forAMinute [earlyHints]).passedOn,
      canonicalHeaderKey l.1 ≠ canonicalHeaderKey name := by decide +kernel
  exact fun name hname => ⟨List.cons_ne_nil _ _, hheader name hname, fun _ => List.forall_mem_nil _⟩

def hinted (first : EdgeTask) : List (Sched EdgeTask Surroundings) :=
  populated (forAMinute [earlyHints]) first (arrival "c" Keyspace.empty)

def minuteEntry (c : Chain) (o : Outcomes) (r : Request) : Option Stored :=
  (c.serveHTTP o r {}).forwarded.map fun p =>
    let cw := (CachingResponseWriter.new p.2 p.1).relay 1024 (forAMinute [earlyHints]).handling
    { cw.responseEntry (str "x") 0 with entry := (cw.responseEntry (str "x") 0).entry.marshal }

theorem along_hinted (first : EdgeTask) :
    (served 1024).Along (Pool.Within (fun _ => True) (AnsweredClean 1024)) (Pool.init World.empty) (hinted first) := by
  have hanswered : ∀ cmd, AnsweredClean 1024 cmd { handling := (forAMinute [earlyHints]).handling } := by
    intro cmd
    cases cmd with
    | upstream r w => exact fun _ => ⟨forAMinute [earlyHints], rfl, clean_earlyHints⟩
    | _ => exact trivial
  refine Machine.along_of_forall fun e he pool => ?_
  simp only [hinted, populated, List.mem_cons, List.mem_append, List.mem_replicate] at he
  rcases he with (rfl | ⟨-, rfl⟩) | rfl | ⟨-, rfl⟩
  · exact trivial
  · exact fun cmd _ => hanswered cmd
  · exact trivial
  · exact fun cmd _ => hanswered cmd

theorem exists_hit_hinted (id : String) (db : Redis GoString) (hid : str id ≠ str "c")
    (h : hitEntries ((served 1024).outputs (Pool.init World.empty) (hinted (arrival id db))) =
      (minuteEntry metered { generatedID := str id, extract := some (str "k"), db := db } plainRequest).toList.map
        fun s => (str "c", s, 0))
    (hone : (minuteEntry metered { generatedID := str id, extract := some (str "k"), db := db } plainRequest).isSome) :
    ∃ r₂ s w, StoredFrom (forAMinute [earlyHints]) s ∧ s.entry.createdAt = 0 ∧
      some (arrival "c" Keyspace.empty, .hit r₂ s 0 w) ∈
        (served 1024).outputs (Pool.init World.empty) (hinted (arrival id db)) := by
  obtain ⟨s, hs⟩ := Option.isSome_iff_exists.mp hone
  rw [hs] at h
  obtain ⟨c, o, r, r₂, w, hgenerated, hmem⟩ := exists_hit h
  obtain ⟨p, -, hp⟩ := Option.map_eq_some_iff.mp hs
  have htask : EdgeTask.request c o r ∈ [arrival id db, arrival "c" Keyspace.empty] := by
    refine served_started (fun g t ht => ?_) _ hmem
    simp only [hinted, populated, List.mem_cons, List.mem_append, List.mem_replicate, Sched.start.injEq,
      reduceCtorEq, and_false, or_false] at ht
    rcases ht with ⟨-, rfl⟩ | ⟨-, rfl⟩ <;> simp
  refine ⟨r₂, s, w, ⟨1024, p.2, p.1, str "x", 0, hp.symm⟩, by rw [← hp]; rfl, ?_⟩
  rcases List.mem_pair.mp htask with hfirst | hsecond
  · cases hfirst
    exact absurd hgenerated hid
  · rwa [hsecond] at hmem

/-- After early hints the second request gets its own id and its own remaining tokens, and the same
headers whether the first was given the id `a` or `b`. -/
theorem hit_headers_own_after_hints :
    let after (first : EdgeTask) := (served 1024).outputs (Pool.init World.empty) (hinted first)
    hitValues (after (arrival "a" Keyspace.empty)) = [[[str "c"], [str "5"], [str "4"], [str "0"]]] ∧
      ∃ r₂ r₂' s s' w w', some (arrival "c" Keyspace.empty, .hit r₂ s 0 w) ∈ after (arrival "a" Keyspace.empty) ∧
        some (arrival "c" Keyspace.empty, .hit r₂' s' 0 w') ∈ after (arrival "b" usedOnce) ∧
        w.header.values requestIDHeader = [str "c"] ∧ ∀ key, w.header.values key = w'.header.values key := by
  intro after
  obtain ⟨r₂, s, w, hs, hcreated, hhit⟩ := exists_hit_hinted "a" Keyspace.empty (by decide +kernel)
    (by decide +kernel) (by decide +kernel)
  obtain ⟨r₂', s', w', hs', hcreated', hhit'⟩ := exists_hit_hinted "b" usedOnce (by decide +kernel)
    (by decide +kernel) (by decide +kernel)
  obtain ⟨⟨result, -, hown⟩, hsame⟩ := hit_headers_own (along_hinted _) (along_hinted _) hhit hhit'
  refine ⟨by decide +kernel, r₂, r₂', s, s', w, w', hhit, hhit', hown.requestID, ?_⟩
  exact (hsame ⟨_, clean_earlyHints, hs, hs'⟩).2 (hcreated.trans hcreated'.symm) rfl

theorem hit_headers_of_another :
    let after (first : EdgeTask) := (served 1024).outputs (Pool.init World.empty)
      (populated (forAMinute []) first (arrival "c" Keyspace.empty))
    hitValues (after (arrival "a" Keyspace.empty)) =
        [[[str "c", str "a"], [str "5", str "5"], [str "4", str "4"], [str "0", str "0"]]] ∧
      hitValues (after (arrival "b" usedOnce)) =
        [[[str "c", str "b"], [str "5", str "5"], [str "4", str "3"], [str "0", str "1"]]] := by
  decide +kernel

end EdgeQuota.Middleware
