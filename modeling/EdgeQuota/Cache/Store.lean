import EdgeQuota.Auth.Check
import EdgeQuota.Cache.Key
import EdgeQuota.Lib.Keyspace
import EdgeQuota.Lib.Prog

/-! The response store: the commands it sends to Redis, one at a time, and what it makes of the
answers. A command may be refused, or be carried out while its answer is lost. Redis may also
hold the decisions of the authentication service, under keys of their own. -/

namespace EdgeQuota.Cache
open Go Lib

def keyPrefix : GoString := str "eq:cache:"

def tagPrefix : GoString := str "eq:tags:"

structure Entry where
  statusCode : ℤ
  headers : Header := []
  body : GoString := []
  vary : List GoString := []
  tags : List GoString := []
  createdAt : ℤ
  deriving DecidableEq

/-- The entry that is read back from its JSON encoding: strings come back as valid UTF-8, the
body is encoded in base64. -/
def Entry.marshal (e : Entry) : Entry :=
  { e with
    headers := e.headers.map fun l => (toValidUTF8 l.1, toValidUTF8 l.2)
    vary := e.vary.map toValidUTF8
    tags := e.tags.map toValidUTF8 }

/-- An entry together with its origin, which Redis does not keep and no command reads: the request
whose response it is, and whether it only points to the variants of that response. -/
structure Stored where
  entry : Entry
  storedFor : Request
  pointer : Bool
  deriving DecidableEq

inductive Value where
  | entry (s : Stored)
  | auth (resp : Auth.CheckResponse)
  | members (keys : List GoString)

inductive Metric where
  | hit
  | miss
  | uncacheable
  | store
  | skip
  | purge
  | bodySize (n : ℕ)
  deriving DecidableEq

structure World where
  redis : Keyspace GoString Value ℤ
  metrics : List Metric

def World.empty : World := ⟨Keyspace.empty, []⟩

inductive Command where
  | get (key : GoString)
  | set (key : GoString) (data : Stored) (ttl : ℤ)
  | getAuth (key : GoString)
  | setAuth (key : GoString) (data : Auth.CheckResponse) (ttl : ℤ)
  | sadd (key member : GoString)
  | growOnlyExpire (key : GoString) (ms : ℤ)
  | del (keys : List GoString)
  | smembers (key : GoString)
  | upstream (r : Request) (w : ResponseWriter)
  | now
  | record (m : Metric)

@[reducible] def Reply : Command → Type
  | .get _ => Option Stored
  | .set _ _ _ => Bool
  | .getAuth _ => Option Auth.CheckResponse
  | .setAuth _ _ _ => Bool
  | .sadd _ _ => Bool
  | .growOnlyExpire _ _ => Bool
  | .del _ => Option ℕ
  | .smembers _ => Option (List GoString)
  | .upstream _ _ => Handling
  | .now => ℤ
  | .record _ => Unit

inductive Fault where
  | ok
  | refused
  | unanswered
  deriving DecidableEq

/-- What the surroundings contribute to a command: Redis's clock, the process's clock in
nanoseconds, whether the command gets through, and how the backend answers. -/
structure Surroundings where
  clock : ℤ := 0
  time : ℤ := 0
  fault : Fault := .ok
  handling : Handling := {}

def expiryMs (ttl : ℤ) : ℤ := if ttl < 1000000 then 1 else ttl / 1000000

def lookup (db : Keyspace GoString Value ℤ) (clock : ℤ) (key : GoString) : Option Stored :=
  match db.get clock key with
  | some (.entry s) => some s
  | _ => none

def lookupAuth (db : Keyspace GoString Value ℤ) (clock : ℤ) (key : GoString) : Option Auth.CheckResponse :=
  match db.get clock key with
  | some (.auth resp) => some resp
  | _ => none

def members (db : Keyspace GoString Value ℤ) (clock : ℤ) (key : GoString) : Option (List GoString) :=
  match db.get clock key with
  | some (.members ks) => some ks
  | some (.entry _) | some (.auth _) => none
  | none => some []

def addMember (db : Keyspace GoString Value ℤ) (clock : ℤ) (key member : GoString) : Keyspace GoString Value ℤ :=
  match members db clock key with
  | some ks => db.modify clock key fun _ => .members (if member ∈ ks then ks else ks ++ [member])
  | none => db

/-- `growOnlyExpireLua`: PTTL, then PEXPIRE if there is no deadline yet or the new one is later. -/
def growOnlyExpire (db : Keyspace GoString Value ℤ) (clock : ℤ) (key : GoString) (ms : ℤ) :
    Keyspace GoString Value ℤ :=
  match db.find clock key with
  | none => db
  | some s =>
    match s.deadline with
    | some d => if d - clock < ms then db.expireAt clock key (clock + ms) else db
    | none => db.expireAt clock key (clock + ms)

def remove (db : Keyspace GoString Value ℤ) (keys : List GoString) : Keyspace GoString Value ℤ :=
  keys.foldl (fun db key => db.write key none) db

theorem addMember_of_ne {k key : GoString} (h : k ≠ key) (db : Keyspace GoString Value ℤ) (clock : ℤ)
    (member : GoString) : addMember db clock key member k = db k := by
  cases hm : members db clock key with
  | none => simp only [addMember, hm]
  | some ks => simp only [addMember, hm, Keyspace.modify_of_ne h]

theorem growOnlyExpire_of_ne {k key : GoString} (h : k ≠ key) (db : Keyspace GoString Value ℤ) (clock ms : ℤ) :
    growOnlyExpire db clock key ms k = db k := by
  cases hf : db.find clock key with
  | none => simp only [growOnlyExpire, hf]
  | some s =>
    cases hd : s.deadline with
    | none => simp only [growOnlyExpire, hf, hd, Keyspace.expireAt_of_ne h]
    | some d =>
      simp only [growOnlyExpire, hf, hd]
      split_ifs
      · exact Keyspace.expireAt_of_ne h ..
      · rfl

theorem remove_apply (db : Keyspace GoString Value ℤ) (keys : List GoString) (k : GoString) :
    remove db keys k = if k ∈ keys then none else db k := by
  unfold remove
  induction keys generalizing db with
  | nil => rfl
  | cons key keys ih =>
    rw [List.foldl_cons, ih]
    by_cases hk : k = key
    · subst hk
      simp
    · simp [hk]

def exec (w : World) : (c : Command) → Surroundings → Reply c × World
  | .get key, env => (if env.fault = .ok then lookup w.redis env.clock key else none, w)
  | .set key data ttl, env =>
    (decide (env.fault = .ok),
      if env.fault = .refused then w
      else { w with redis := w.redis.write key (some ⟨.entry data, some (env.clock + expiryMs ttl)⟩) })
  | .getAuth key, env => (if env.fault = .ok then lookupAuth w.redis env.clock key else none, w)
  | .setAuth key data ttl, env =>
    (decide (env.fault = .ok),
      if env.fault = .refused then w
      else { w with redis := w.redis.write key (some ⟨.auth data, some (env.clock + expiryMs ttl)⟩) })
  | .sadd key member, env =>
    (decide (env.fault = .ok) && (members w.redis env.clock key).isSome,
      if env.fault = .refused then w else { w with redis := addMember w.redis env.clock key member })
  | .growOnlyExpire key ms, env =>
    (decide (env.fault = .ok),
      if env.fault = .refused then w else { w with redis := growOnlyExpire w.redis env.clock key ms })
  | .del keys, env =>
    (if env.fault = .ok then some (keys.dedup.countP fun k => (w.redis.find env.clock k).isSome) else none,
      if env.fault = .refused then w else { w with redis := remove w.redis keys })
  | .smembers key, env => (if env.fault = .ok then members w.redis env.clock key else none, w)
  | .upstream _ _, env => (env.handling, w)
  | .now, env => (env.time, w)
  | .record m, _ => ((), { w with metrics := w.metrics ++ [m] })

theorem cacheKey_ne_tagKey (key tag : GoString) : keyPrefix ++ key ≠ tagPrefix ++ tag := by
  intro h
  have hlen : keyPrefix.length = 9 ∧ tagPrefix.length = 8 := by decide +kernel
  have h4 := congrArg (List.take 4) h
  rw [List.take_append_of_le_length (by omega), List.take_append_of_le_length (by omega)] at h4
  revert h4
  decide +kernel

abbrev Program := Prog Command Reply

def send (c : Command) : Program (Reply c) := Prog.request c

theorem sound_send {E : Command → Surroundings → Prop} {I : World → Prop} {c : Command}
    (h : ∀ w env, I w → E c env → I (exec w c env).2) : Prog.Sound exec E I (fun _ => True) (send c) :=
  Prog.sound_request fun w env hw he => ⟨h w env hw he, trivial⟩

theorem run_send (c : Command) (w : World) (env : ℕ → Surroundings) :
    Prog.run exec (send c) w env = ((exec w c (env 0)).1, (exec w c (env 0)).2, fun i => env (i + 1)) := rfl

namespace Store

def get (key : GoString) : Program (Option Stored) := send (.get (keyPrefix ++ key))

def indexTags (key : GoString) (ttl : ℤ) : List GoString → Program Unit
  | [] => pure ()
  | tag :: tags => do
    let added : Bool ← send (.sadd (tagPrefix ++ tag) key)
    if added then
      let _ : Bool ← send (.growOnlyExpire (tagPrefix ++ tag) (ttl / 1000000))
      indexTags key ttl tags
    else indexTags key ttl tags

def write (key : GoString) (s : Stored) (ttl : ℤ) : Program Bool :=
  if ttl ≤ 0 then pure false
  else do
    let stored : Bool ← send (.set (keyPrefix ++ key) { s with entry := s.entry.marshal } ttl)
    if stored then
      indexTags key ttl s.entry.tags
      pure true
    else pure false

def set (key : GoString) (s : Stored) (ttl : ℤ) : Program Unit := do
  let stored ← write key s ttl
  if stored then
    send (.record .store)
    send (.record (.bodySize s.entry.body.length))
  else pure ()

def setIndex (key : GoString) (s : Stored) (ttl : ℤ) : Program Unit := do
  let _ ← write key s ttl
  pure ()

def delete (key : GoString) : Program Bool := do
  let n : Option ℕ ← send (.del [keyPrefix ++ key])
  if n.getD 0 = 0 then pure false
  else
    send (.record .purge)
    pure true

def recordPurges : ℕ → Program Unit
  | 0 => pure ()
  | n + 1 => do
    send (.record .purge)
    recordPurges n

def deleteByTag (tag : GoString) : Program ℕ := do
  let keys : Option (List GoString) ← send (.smembers (tagPrefix ++ tag))
  if keys.getD [] = [] then pure 0
  else
    let n : Option ℕ ← send (.del ((keys.getD []).map (keyPrefix ++ ·)))
    let _ : Option ℕ ← send (.del [tagPrefix ++ tag])
    recordPurges (n.getD 0)
    pure (n.getD 0)

end Store
end EdgeQuota.Cache
