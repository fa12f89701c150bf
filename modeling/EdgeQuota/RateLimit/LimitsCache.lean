import EdgeQuota.Cache.Control
import EdgeQuota.Cache.Store
import EdgeQuota.RateLimit.External
import EdgeQuota.RateLimit.Flights

/-! The answers of the external rate-limit service, how long they may be cached, and the two copies of them that
`GetLimits` keeps in Redis: one for the time the answer allows, and one for five minutes to fall back on. -/

namespace EdgeQuota.RateLimit
open Go Lib

structure ExternalLimits where
  average : ℤ
  burst : ℤ
  period : GoString
  tenantKey : GoString := []
  failurePolicy : GoString := []
  failureCode : ℤ := 0
  backendURL : GoString := []
  backendProtocol : GoString := []
  requestTimeout : GoString := []
  cacheMaxAgeSec : Option ℤ := none
  cacheNoStore : Bool := false
  deriving DecidableEq

def ExternalLimits.marshal (l : ExternalLimits) : ExternalLimits :=
  { l with
    period := toValidUTF8 l.period
    tenantKey := toValidUTF8 l.tenantKey
    failurePolicy := toValidUTF8 l.failurePolicy
    backendURL := toValidUTF8 l.backendURL
    backendProtocol := toValidUTF8 l.backendProtocol
    requestTimeout := toValidUTF8 l.requestTimeout }

structure GetLimitsResponse where
  average : ℤ
  burst : ℤ
  period : GoString
  tenantKey : Option GoString := none
  failurePolicy : Option GoString := none
  failureCode : Option ℤ := none
  backendUrl : GoString := []
  backendProtocol : Option GoString := none
  requestTimeout : Option GoString := none
  cacheMaxAgeSeconds : Option ℤ := none
  cacheNoStore : Option Bool := none

def limitsFromHTTPResponse (r : GetLimitsResponse) : ExternalLimits where
  average := r.average
  burst := r.burst
  period := r.period
  tenantKey := r.tenantKey.getD []
  failurePolicy := r.failurePolicy.getD []
  failureCode := r.failureCode.getD 0
  backendURL := r.backendUrl
  backendProtocol := r.backendProtocol.getD []
  requestTimeout := r.requestTimeout.getD []
  cacheMaxAgeSec := r.cacheMaxAgeSeconds
  cacheNoStore := r.cacheNoStore.getD false

structure PbLimitsResponse where
  average : ℤ := 0
  burst : ℤ := 0
  period : GoString := []
  cacheMaxAgeSeconds : Option ℤ := none
  cacheNoStore : Bool := false
  tenantKey : GoString := []
  failurePolicy : ℤ := 0
  failureCode : ℤ := 0
  backendUrl : GoString := []
  backendProtocol : ℤ := 0
  requestTimeout : GoString := []

def failurePolicyFromProto (v : ℤ) : GoString :=
  if v = 1 then str "passthrough" else if v = 2 then str "failclosed" else if v = 3 then str "inmemoryfallback" else []

def backendProtocolFromProto (v : ℤ) : GoString :=
  if v = 1 then str "h1" else if v = 2 then str "h2" else if v = 3 then str "h3" else []

def limitsFromProto (r : PbLimitsResponse) : ExternalLimits where
  average := r.average
  burst := r.burst
  period := r.period
  tenantKey := r.tenantKey
  failurePolicy := failurePolicyFromProto r.failurePolicy
  failureCode := r.failureCode
  backendURL := r.backendUrl
  backendProtocol := backendProtocolFromProto r.backendProtocol
  requestTimeout := r.requestTimeout
  cacheMaxAgeSec := r.cacheMaxAgeSeconds
  cacheNoStore := r.cacheNoStore

inductive ServiceReply where
  | http (header : Header) (body : GetLimitsResponse)
  | grpc (body : PbLimitsResponse)

def ServiceReply.limits : ServiceReply → ExternalLimits
  | .http _ body => limitsFromHTTPResponse body
  | .grpc body => limitsFromProto body

namespace ExternalClient

def parseMaxAge (cc : GoString) : ℤ :=
  let ages := (cc.splitOn (byte ',')).filterMap fun directive =>
    let lower := toLower (trimSpace directive)
    if (str "max-age=").isPrefixOf lower then
      (atoi (lower.drop (str "max-age=").length)).filter fun seconds => decide (0 < seconds)
    else none
  match ages with
  | seconds :: _ => int64 (seconds * 1000000000)
  | [] => 0

def resolveBodyCacheTTL (limits : ExternalLimits) : ℤ :=
  if limits.cacheNoStore then 0
  else
    match limits.cacheMaxAgeSec with
    | some n => if 0 < n then int64 (n * 1000000000) else 0
    | none => 0

def resolveHTTPCacheTTL (parseTime : GoString → Option ℤ) (now : ℤ) (h : Header) (limits : ExternalLimits) : ℤ :=
  let cc := h.get (str "Cache-Control")
  let lower := toLower cc
  if cc ≠ [] ∧ 0 < parseMaxAge cc then parseMaxAge cc
  else if cc ≠ [] ∧ (contains lower (str "no-cache") ∨ contains lower (str "no-store")) then 0
  else
    let expires := h.get (str "Expires")
    match if expires = [] then none else parseTime expires with
    | some expTime =>
      let ttl := min (expTime - now) (2 ^ 63 - 1)
      if 0 < ttl then ttl else 0
    | none => resolveBodyCacheTTL limits

def cacheTTL (parseTime : GoString → Option ℤ) (now : ℤ) : ServiceReply → ℤ
  | .http header body => resolveHTTPCacheTTL parseTime now header (limitsFromHTTPResponse body)
  | .grpc body => resolveBodyCacheTTL (limitsFromProto body)

end ExternalClient

def HeadersSilent (parseTime : GoString → Option ℤ) (h : Header) : Prop :=
  let cc := h.get (str "Cache-Control")
  let expires := h.get (str "Expires")
  ¬0 < ExternalClient.parseMaxAge cc ∧ contains (toLower cc) (str "no-cache") = false ∧
    contains (toLower cc) (str "no-store") = false ∧ (expires = [] ∨ parseTime expires = none)

instance (parseTime : GoString → Option ℤ) (h : Header) : Decidable (HeadersSilent parseTime h) :=
  inferInstanceAs (Decidable (_ ∧ _ ∧ _ ∧ (_ ∨ _)))

/-- The answer must not be stored: a `Cache-Control` says so, or the document does and no `Expires` overrides it, and no
`Cache-Control` gives an age. -/
def ServiceReply.noStore (parseTime : GoString → Option ℤ) : ServiceReply → Bool
  | .http header body =>
    ((Cache.numbers (str "max-age") (Cache.cacheDirectives header)).all fun n => decide (n ≤ 0)) &&
      (Cache.forbidsStorage header || decide (body.cacheNoStore = some true) &&
        (header.values (str "Expires")).all fun expires => (parseTime expires).isNone)
  | .grpc body => body.cacheNoStore

/-- The client notices that it must not store the answer. It reads the first `Cache-Control` line only, and splits it at
every comma. -/
def ServiceReply.noticed (parseTime : GoString → Option ℤ) : ServiceReply → Bool
  | .http header body =>
    let cc := header.get (str "Cache-Control")
    decide (¬0 < ExternalClient.parseMaxAge cc ∧ contains (toLower cc) (str "no-store") = true) ||
      decide (HeadersSilent parseTime header ∧ body.cacheNoStore = some true)
  | .grpc body => body.cacheNoStore

inductive Storage where
  | allowed
  | forbidden
  | overlooked
  deriving DecidableEq

def ServiceReply.storage (parseTime : GoString → Option ℤ) (reply : ServiceReply) : Storage :=
  if reply.noStore parseTime then if reply.noticed parseTime then .forbidden else .overlooked else .allowed

theorem cacheTTL_of_noticed {parseTime : GoString → Option ℤ} {reply : ServiceReply}
    (h : reply.noticed parseTime = true) (now : ℤ) : ExternalClient.cacheTTL parseTime now reply = 0 := by
  cases reply with
  | grpc body =>
    have hbody : body.cacheNoStore = true := h
    exact if_pos hbody
  | http header body =>
    simp only [ServiceReply.noticed, Bool.or_eq_true, decide_eq_true_eq] at h
    unfold ExternalClient.cacheTTL ExternalClient.resolveHTTPCacheTTL
    dsimp only
    rcases h with ⟨hage, hcc⟩ | ⟨⟨hage, hcache, hstore, hexpires⟩, hbody⟩
    · have hne : header.get (str "Cache-Control") ≠ [] := by
        intro hnil
        rw [hnil] at hcc
        revert hcc
        decide
      rw [if_neg fun h => hage h.2, if_pos ⟨hne, .inr hcc⟩]
    · rw [if_neg fun h => hage h.2, if_neg (by simp [hcache, hstore])]
      have hnone : (if header.get (str "Expires") = [] then none else parseTime (header.get (str "Expires"))) = none := by
        split_ifs with hnil
        · rfl
        · exact hexpires.resolve_left hnil
      rw [hnone]
      simp [ExternalClient.resolveBodyCacheTTL, limitsFromHTTPResponse, hbody]

theorem noticed_of_forbidden {parseTime : GoString → Option ℤ} {reply : ServiceReply}
    (h : reply.storage parseTime = .forbidden) : reply.noticed parseTime = true := by
  unfold ServiceReply.storage at h
  split_ifs at h with hstore hnoticed
  exact hnoticed

def cacheKeyPrefix : GoString := str "rl:extcache:"

def staleCachePrefix : GoString := str "rl:extcache:stale:"

def staleCacheTTL : ℤ := 5 * 60 * 1000000000

/-- A copy of an answer in Redis. Whether the answer was one that must not be stored is not in the copy; no function
reads it. -/
structure StoredLimits where
  limits : ExternalLimits
  storage : Storage := .allowed
  deriving DecidableEq

structure LimitsClient where
  client : ExternalClient
  breakers : TenantBreakers
  redis : Keyspace GoString StoredLimits ℤ

structure RedisCommand where
  clock : ℤ := 0
  ok : Bool := true

structure LimitsCall where
  req : ExternalRequest
  now : ℤ := 0
  room : Bool := true
  reply : Except FetchError ServiceReply := .error .canceled
  replied : ℤ := 0
  parseTime : GoString → Option ℤ := fun _ => none
  get : RedisCommand := {}
  recheck : RedisCommand := {}
  getStale : RedisCommand := {}
  set : RedisCommand := {}
  setStale : RedisCommand := {}

inductive LimitsAnswer where
  | stored (copy : StoredLimits)
  | fetched (limits : ExternalLimits)
  deriving DecidableEq

namespace LimitsClient

def read (s : LimitsClient) (cmd : RedisCommand) (key : GoString) : Option StoredLimits :=
  if cmd.ok then s.redis.get cmd.clock key else none

def getFromCache (s : LimitsClient) (cmd : RedisCommand) (key : GoString) : Option StoredLimits :=
  s.read cmd (cacheKeyPrefix ++ key)

def getStaleFromCache (s : LimitsClient) (cmd : RedisCommand) (key : GoString) : Option StoredLimits :=
  s.read cmd (staleCachePrefix ++ key)

def write (s : LimitsClient) (cmd : RedisCommand) (key : GoString) (copy : StoredLimits) (ttl : ℤ) : LimitsClient :=
  if cmd.ok then { s with redis := s.redis.write key (some ⟨copy, some (cmd.clock + Cache.expiryMs ttl)⟩) } else s

def setInCache (s : LimitsClient) (cmd : RedisCommand) (key : GoString) (copy : StoredLimits) (ttl : ℤ) : LimitsClient :=
  if ttl ≤ 0 then s else s.write cmd (cacheKeyPrefix ++ key) copy ttl

def setStaleInCache (s : LimitsClient) (cmd : RedisCommand) (key : GoString) (copy : StoredLimits) : LimitsClient :=
  s.write cmd (staleCachePrefix ++ key) copy staleCacheTTL

def tryStaleCache (s : LimitsClient) (c : LimitsCall) (key : GoString) (e : LimitsError) :
    Except LimitsError LimitsAnswer :=
  match s.getStaleFromCache c.getStale key with
  | some copy => .ok (.stored copy)
  | none => .error e

def fetch (s : LimitsClient) (c : LimitsCall) (key : GoString) : Except LimitsError LimitsAnswer × LimitsClient :=
  match s.getFromCache c.recheck key with
  | some copy => (.ok (.stored copy), s)
  | none =>
    match c.reply with
    | .error e => (s.tryStaleCache c key (.fetch e), { s with breakers := s.breakers.recordFailure key c.replied })
    | .ok reply =>
      let ttl := ExternalClient.cacheTTL c.parseTime c.replied reply
      let copy := ⟨reply.limits.marshal, reply.storage c.parseTime⟩
      let s := { s with breakers := s.breakers.recordSuccess key c.replied }
      (.ok (.fetched reply.limits), (s.setInCache c.set key copy ttl).setStaleInCache c.setStale key copy)

def getLimits (s : LimitsClient) (c : LimitsCall) : Except LimitsError LimitsAnswer × LimitsClient :=
  let lk := s.client.lookupKey c.req
  match s.getFromCache c.get lk with
  | some copy => (.ok (.stored copy), s)
  | none =>
    let (isOpen, breakers) := s.breakers.isCircuitOpen lk c.now
    let s := { s with breakers }
    if isOpen then (s.tryStaleCache c lk (.refused .circuitOpen), s)
    else if c.room then s.fetch c lk
    else (s.tryStaleCache c lk (.refused .semaphoreFull), s)

def calls : Machine LimitsClient LimitsCall (Except LimitsError LimitsAnswer) where
  step := getLimits

def starting (headerFilter : Config.HeaderFilterConfig) (cfg : CircuitBreakerConfig)
    (db : Keyspace GoString ExternalLimits ℤ) : LimitsClient where
  client := newExternalClient headerFilter
  breakers := newTenantBreakers cfg
  redis key := (db key).map fun slot => ⟨{ limits := slot.value }, slot.deadline⟩

section Copies
variable {s : LimitsClient} {c : LimitsCall} {copy : StoredLimits} {key : GoString}

def Confined (s : LimitsClient) : Prop :=
  ∀ key slot, s.redis key = some slot → slot.value.storage = .forbidden → staleCachePrefix <+: key

theorem read_eq_some {cmd : RedisCommand} (h : s.read cmd key = some copy) :
    ∃ slot, s.redis key = some slot ∧ slot.value = copy := by
  unfold read at h
  split_ifs at h
  obtain ⟨slot, hfind, hvalue⟩ := Option.map_eq_some_iff.mp h
  exact ⟨slot, (Keyspace.find_eq_some.mp hfind).1, hvalue⟩

theorem confined_write {cmd : RedisCommand} {ttl : ℤ} (h : s.Confined)
    (hcopy : copy.storage = .forbidden → staleCachePrefix <+: key) : (s.write cmd key copy ttl).Confined := by
  unfold write
  split_ifs
  · intro key' slot hslot hstore
    by_cases hkey : key' = key
    · subst hkey
      obtain rfl := Option.some.inj ((Keyspace.write_self ..).symm.trans hslot)
      exact hcopy hstore
    · exact h key' slot ((Keyspace.write_of_ne hkey ..).symm.trans hslot) hstore
  · exact h

theorem confined_fetch (h : s.Confined) : (s.fetch c key).2.Confined := by
  unfold fetch
  cases s.getFromCache c.recheck key with
  | some copy => exact h
  | none =>
    cases c.reply with
    | error e => exact h
    | ok reply =>
      refine confined_write ?_ fun _ => List.prefix_append _ _
      unfold setInCache
      split_ifs with httl
      · exact h
      · refine confined_write h fun hstore => absurd ?_ httl
        exact (cacheTTL_of_noticed (noticed_of_forbidden hstore) _).le

theorem getLimits_hit (h : s.getFromCache c.get (s.client.lookupKey c.req) = some copy) :
    s.getLimits c = (.ok (.stored copy), s) := by
  simp only [getLimits, h]

theorem getLimits_miss (h : s.getFromCache c.get (s.client.lookupKey c.req) = none) :
    s.getLimits c =
      let lk := s.client.lookupKey c.req
      let s' : LimitsClient := { s with breakers := (s.breakers.isCircuitOpen lk c.now).2 }
      if (s.breakers.isCircuitOpen lk c.now).1 then (s'.tryStaleCache c lk (.refused .circuitOpen), s')
      else if c.room then s'.fetch c lk
      else (s'.tryStaleCache c lk (.refused .semaphoreFull), s') := by
  simp only [getLimits, h]

theorem confined_getLimits (h : s.Confined) : (s.getLimits c).2.Confined := by
  cases hget : s.getFromCache c.get (s.client.lookupKey c.req) with
  | some copy =>
    rw [getLimits_hit hget]
    exact h
  | none =>
    rw [getLimits_miss hget]
    dsimp only
    split_ifs
    · exact h
    · exact confined_fetch (s := { s with breakers := _ }) h
    · exact h

def Reaches (s : LimitsClient) (c : LimitsCall) : Prop :=
  s.getFromCache c.get (s.client.lookupKey c.req) = none ∧
    (s.breakers.isCircuitOpen (s.client.lookupKey c.req) c.now).1 = false ∧ c.room = true

def FallsBack (s : LimitsClient) (c : LimitsCall) : Prop :=
  s.getFromCache c.get (s.client.lookupKey c.req) = none ∧
    ((s.breakers.isCircuitOpen (s.client.lookupKey c.req) c.now).1 = true ∨ c.room = false ∨
      s.getFromCache c.recheck (s.client.lookupKey c.req) = none ∧ ∃ e, c.reply = .error e)

theorem tryStaleCache_stored_iff {e : LimitsError} :
    s.tryStaleCache c key e = .ok (.stored copy) ↔ s.getStaleFromCache c.getStale key = some copy := by
  unfold tryStaleCache
  cases s.getStaleFromCache c.getStale key <;> simp

theorem fetch_stored_iff :
    (s.fetch c key).1 = .ok (.stored copy) ↔
      s.getFromCache c.recheck key = some copy ∨
        (s.getFromCache c.recheck key = none ∧ ∃ e, c.reply = .error e) ∧
          s.getStaleFromCache c.getStale key = some copy := by
  unfold fetch
  cases s.getFromCache c.recheck key with
  | some copy' => simp
  | none =>
    cases c.reply with
    | error e => simp [tryStaleCache_stored_iff]
    | ok reply => simp

theorem getLimits_stored_iff :
    (s.getLimits c).1 = .ok (.stored copy) ↔
      s.getFromCache c.get (s.client.lookupKey c.req) = some copy ∨
        s.Reaches c ∧ s.getFromCache c.recheck (s.client.lookupKey c.req) = some copy ∨
        s.FallsBack c ∧ s.getStaleFromCache c.getStale (s.client.lookupKey c.req) = some copy := by
  cases hget : s.getFromCache c.get (s.client.lookupKey c.req) with
  | some copy' =>
    rw [getLimits_hit hget]
    simp [Reaches, FallsBack, hget]
  | none =>
    rw [getLimits_miss hget]
    unfold Reaches FallsBack
    simp only [hget, true_and, reduceCtorEq, false_or]
    cases hopen : (s.breakers.isCircuitOpen (s.client.lookupKey c.req) c.now).1 with
    | true => simp [tryStaleCache_stored_iff, getStaleFromCache, read]
    | false =>
      cases hroom : c.room with
      | false => simp [tryStaleCache_stored_iff, getStaleFromCache, read]
      | true =>
        simp only [Bool.false_eq_true, if_false, if_true, false_or, true_and, reduceCtorEq]
        exact fetch_stored_iff

/-- No call that falls back finds a copy of an answer that must not be stored, and no call finds in its cache one of an
answer where the client has overlooked that. A lookup key that begins with `stale:` has its cache where others fall back:
there, no read of the cache finds any such copy. -/
def Guarded (s : LimitsClient) (c : LimitsCall) : Prop :=
  let spared (copy : StoredLimits) :=
    copy.storage ≠ .overlooked ∧ (str "stale:" <+: s.client.lookupKey c.req → copy.storage ≠ .forbidden)
  (s.FallsBack c → ∀ copy ∈ s.getStaleFromCache c.getStale (s.client.lookupKey c.req), copy.storage = .allowed) ∧
    (∀ copy ∈ s.getFromCache c.get (s.client.lookupKey c.req), spared copy) ∧
    (s.Reaches c → ∀ copy ∈ s.getFromCache c.recheck (s.client.lookupKey c.req), spared copy)

theorem storage_getFromCache_iff {cmd : RedisCommand} (h : s.Confined) (hcopy : s.getFromCache cmd key = some copy) :
    copy.storage = .allowed ↔
      copy.storage ≠ .overlooked ∧ (str "stale:" <+: key → copy.storage ≠ .forbidden) := by
  obtain ⟨slot, hslot, rfl⟩ := read_eq_some hcopy
  cases hstorage : slot.value.storage with
  | allowed => simp
  | overlooked => simp
  | forbidden =>
    -- such a copy lies under the prefix of the others, which only a key with `stale:` brings together with its own
    have hlies : staleCachePrefix <+: cacheKeyPrefix ++ key := h _ slot hslot hstorage
    have hsplit : staleCachePrefix = cacheKeyPrefix ++ str "stale:" := by decide
    rw [hsplit, List.prefix_append_right_inj] at hlies
    simp [hlies]

theorem answer_guarded_iff (h : s.Confined) :
    (∀ copy, (s.getLimits c).1 = .ok (.stored copy) → copy.storage = .allowed) ↔ s.Guarded c := by
  simp only [getLimits_stored_iff]
  constructor
  · intro hall
    refine ⟨fun hfalls copy hcopy => hall copy (.inr (.inr ⟨hfalls, hcopy⟩)), fun copy hcopy => ?_,
      fun hreaches copy hcopy => ?_⟩
    · exact (storage_getFromCache_iff h hcopy).mp (hall copy (.inl hcopy))
    · exact (storage_getFromCache_iff h hcopy).mp (hall copy (.inr (.inl ⟨hreaches, hcopy⟩)))
  · rintro ⟨hstale, hget, hrecheck⟩ copy hcopy
    rcases hcopy with hcopy | ⟨hreaches, hcopy⟩ | ⟨hfalls, hcopy⟩
    · exact (storage_getFromCache_iff h hcopy).mpr (hget copy hcopy)
    · exact (storage_getFromCache_iff h hcopy).mpr (hrecheck hreaches copy hcopy)
    · exact hstale hfalls copy hcopy

end Copies

theorem confined_starting (headerFilter : Config.HeaderFilterConfig) (cfg : CircuitBreakerConfig)
    (db : Keyspace GoString ExternalLimits ℤ) : (starting headerFilter cfg db).Confined := by
  intro key slot hslot hstore
  obtain ⟨slot', -, rfl⟩ := Option.map_eq_some_iff.mp hslot
  cases hstore

/-- **Answers that must not be stored.** Over any calls, whatever the service, the semaphore and Redis do: copies of
such answers lie only where clients fall back, unless the client has overlooked that it must not store them; and no call
is answered from one, exactly as long as no call that falls back finds one there, none finds one of the others in its
cache, and no lookup key begins with `stale:` and reads one as its own. -/
theorem no_store_answers_iff (headerFilter : Config.HeaderFilterConfig) (cfg : CircuitBreakerConfig)
    (db : Keyspace GoString ExternalLimits ℤ) (cs : List LimitsCall) :
    (∀ done, done <+: cs → (calls.run (starting headerFilter cfg db) done).Confined) ∧
      ((∀ answer ∈ calls.outputs (starting headerFilter cfg db) cs, ∀ copy,
          answer = .ok (.stored copy) → copy.storage = .allowed) ↔
        calls.Along Guarded (starting headerFilter cfg db) cs) := by
  have hstart := confined_starting headerFilter cfg db
  constructor
  · intro done _
    exact Machine.run_of_invariant (M := calls) (I := Confined) (P := fun _ _ => True)
      (fun s c h _ => confined_getLimits h) hstart (Machine.along_of_forall fun _ _ _ => trivial)
  · exact Machine.forall_outputs_iff_along (I := Confined) (fun s c h => confined_getLimits h)
      (fun s c h => answer_guarded_iff h) hstart

/-- An answer with `Cache-Control: no-store` and one with `cache_no_store` are served again when the service fails and
when the semaphore is full, and to a method that begins with `stale:` without any failure; one with `no-store` on the
second line is cached like any other. -/
theorem no_store_served_again :
    let req : ExternalRequest := ⟨.empty, str "GET", str "/"⟩
    let body : GetLimitsResponse := { average := 5, burst := 5, period := str "1s" }
    let limits : ExternalLimits := { average := 5, burst := 5, period := str "1s" }
    let unstored : ServiceReply := .http [(str "Cache-Control", str "no-store")] body
    let unstored' : ServiceReply := .http [] { body with cacheNoStore := some true }
    let second : ServiceReply := .http [(str "Cache-Control", str "private"), (str "Cache-Control", str "no-store")]
      { body with cacheMaxAgeSeconds := some 60 }
    let answers (cs : List LimitsCall) := (calls.outputs (starting {} {} Keyspace.empty) cs).map Except.toOption
    answers [{ req, reply := .ok unstored }, { req, reply := .error (.service []) }] =
      [some (.fetched limits), some (.stored ⟨limits, .forbidden⟩)] ∧
    answers [{ req, reply := .ok unstored' }, { req, room := false },
        { req := { req with method := str "stale:GET" }, reply := .ok unstored }] =
      [some (.fetched { limits with cacheNoStore := true }),
        some (.stored ⟨{ limits with cacheNoStore := true }, .forbidden⟩),
        some (.stored ⟨{ limits with cacheNoStore := true }, .forbidden⟩)] ∧
    answers [{ req, reply := .ok second }, { req }] =
      [some (.fetched { limits with cacheMaxAgeSec := some 60 }),
        some (.stored ⟨{ limits with cacheMaxAgeSec := some 60 }, .overlooked⟩)] := by
  decide +kernel

end LimitsClient
end EdgeQuota.RateLimit
