import EdgeQuota.Lib.Ledger
import EdgeQuota.RateLimit.Limiter
import EdgeQuota.Redis.Replication

/-! How the script gets to run. `evalScript` sends EVALSHA, and EVAL if the server does not know the script; below it, the
replication client tries a command again if the server it took for the master refuses to write. Commands may be lost on
their way to the server or back, servers change their roles, catch up with the master and forget the script, all between
any two turns of any number of calls. go-redis itself tries nothing again: it takes `MaxRetries: -1` for none. -/

namespace EdgeQuota.RateLimit.Scripts
open Go Lib RedisClient

inductive Command where
  | evalSha
  | eval
  deriving DecidableEq

/-- What a call may come back with. After `connection` nobody knows whether the script has run. -/
inductive ScriptError where
  | noScript
  | readOnly
  | noMaster
  | connection
  deriving DecidableEq

structure Call where
  id : ℕ
  key : GoString
  args : Args

structure Server where
  db : Redis GoString
  loaded : Bool

namespace Server
variable (v : Server)

def runScript (writable : Bool) (c : Call) (clock : ℤ) : Except ScriptError Reply × Server :=
  if 0 < c.args.rate ∧ writable = false then (.error .readOnly, v)
  else (.ok (rateLimitLua c.key c.args clock v.db).1, { v with db := (rateLimitLua c.key c.args clock v.db).2 })

def execute (writable : Bool) (c : Call) (clock : ℤ) : Command → Except ScriptError Reply × Server
  | .evalSha => if v.loaded then v.runScript writable c clock else (.error .noScript, v)
  -- EVAL leaves the script behind, also where it is stopped
  | .eval => { v with loaded := true }.runScript writable c clock

end Server

structure Shared where
  single : Option GoString
  client : Replication.Shared
  servers : GoString → Server

inductive Thread where
  | allow (c : Call)
  | command (c : Call) (cmd : Command) (retry : Option ℕ) (stage : Replication.Stage)
  | failover (addr : GoString)
  | replicate (addr : GoString)
  | flush (addr : GoString)

inductive Fate where
  | answered
  | replyLost
  | unsent

structure Turn where
  time : ℤ := 0
  clock : ℤ := 0
  answers : Bool := true
  fate : Fate := .answered

inductive Event where
  | ran (c : Call) (addr : GoString) (clock : ℤ) (reply : Reply)
  | returned (c : Call) (result : Except ScriptError Reply)
  | replicated (source addr : GoString)

namespace Shared
variable (s : Shared)

def begin (c : Call) (cmd : Command) : Thread :=
  match s.single with
  | some addr => .command c cmd (some 0) (.execute addr ⟨0, 0⟩)
  | none => .command c cmd none .lookup

def conclude (c : Call) : Command → Except ScriptError Reply → List Event × List Thread
  | .evalSha, .error .noScript => ([], [s.begin c .eval])
  | .evalSha, .error e => ([.returned c (.error e)], [])
  | .evalSha, .ok reply => ([.returned c (.ok reply)], [])
  | .eval, result => ([.returned c result], [])

def access (f : Turn) (c : Call) (cmd : Command) (addr : GoString) :
    Option Reply × Server × Except ScriptError Reply :=
  match f.fate with
  | .unsent => (none, s.servers addr, .error .connection)
  | .replyLost =>
    let (result, v) := (s.servers addr).execute (addr = s.client.primary) c f.clock cmd
    (result.toOption, v, .error .connection)
  | .answered =>
    let (result, v) := (s.servers addr).execute (addr = s.client.primary) c f.clock cmd
    (result.toOption, v, result)

end Shared

def clientReply : Except ScriptError Reply → Replication.Reply
  | .ok _ => .ok
  | .error .readOnly => .readOnly
  | .error _ => .failed

def Shared.proceed (s : Shared) (c : Call) (cmd : Command) (ran : List Event) (result : Except ScriptError Reply) :
    List Replication.Thread → List Event × Shared × List Thread
  | .command retry stage :: _ => (ran, s, [.command c cmd retry stage])
  | _ => (ran ++ (s.conclude c cmd result).1, s, (s.conclude c cmd result).2)

/-- Without a master there is an error, or else the refusal of the first attempt, which `Eval` and `EvalSha` have kept. -/
def step (s : Shared) : Thread → Turn → List Event × Shared × List Thread
  | .allow c, _ => ([], s, [s.begin c .evalSha])
  | .command c cmd retry (.execute addr found), f =>
    let (run, v, result) := s.access f c cmd addr
    let (_, client, next) :=
      Replication.step s.client (.command retry (.execute addr found)) ⟨f.time, f.answers, clientReply result⟩
    Shared.proceed { s with client := client, servers := Function.update s.servers addr v } c cmd
      (run.map fun reply => Event.ran c addr f.clock reply).toList result next
  | .command c cmd retry stage, f =>
    let (_, client, next) := Replication.step s.client (.command retry stage) ⟨f.time, f.answers, .ok⟩
    Shared.proceed { s with client := client } c cmd [] (.error (if retry.isSome then .readOnly else .noMaster)) next
  | .failover addr, _ => ([], { s with client := (s.client.failover addr).tick }, [])
  | .replicate addr, _ =>
    let v := { s.servers addr with db := (s.servers s.client.primary).db }
    ([.replicated s.client.primary addr], { s with servers := Function.update s.servers addr v }, [])
  | .flush addr, _ =>
    ([], { s with servers := Function.update s.servers addr { s.servers addr with loaded := false } }, [])

inductive Arrival where
  | allow (c : Call)
  | failover (addr : GoString)
  | replicate (addr : GoString)
  | flush (addr : GoString)

def system : System Shared Thread Arrival Turn Event where
  arrive
    | .allow c => .allow c
    | .failover addr => .failover addr
    | .replicate addr => .replicate addr
    | .flush addr => .flush addr
  step := step

def start (single : Option GoString) (client : Replication.ReplicationClient) (primary : GoString)
    (servers : GoString → Server) : System.Conf Shared Thread :=
  ⟨⟨single, { client := client, primary := primary }, servers⟩, []⟩

/-- The call goes on with nothing done, or it has run the script and is through, or it is through without. -/
inductive Ends (c : Call) : List Event → List Thread → Prop where
  | goes (cmd : Command) (retry : Option ℕ) (stage : Replication.Stage) : Ends c [] [.command c cmd retry stage]
  | ran (addr : GoString) (clock : ℤ) (reply : Reply) (result : Except ScriptError Reply)
      (h : result = .ok reply ∨ result = .error .connection) :
      Ends c [.ran c addr clock reply, .returned c result] []
  | fails (e : ScriptError) : Ends c [.returned c (.error e)] []

theorem Shared.begin_eq (s : Shared) (c : Call) (cmd : Command) :
    ∃ retry stage, s.begin c cmd = .command c cmd retry stage := by
  unfold begin
  split
  · exact ⟨_, _, rfl⟩
  · exact ⟨_, _, rfl⟩

theorem Shared.ends_proceed (s : Shared) (c : Call) (cmd : Command) (e : ScriptError) (next : List Replication.Thread) :
    Ends c (s.proceed c cmd [] (.error e) next).1 (s.proceed c cmd [] (.error e) next).2.2 := by
  have hconclude : Ends c (s.conclude c cmd (.error e)).1 (s.conclude c cmd (.error e)).2 := by
    cases cmd with
    | eval => exact .fails e
    | evalSha =>
      cases e with
      | noScript =>
        obtain ⟨retry, stage, hbegin⟩ := s.begin_eq c .eval
        simp only [conclude, hbegin]
        exact .goes .eval retry stage
      | readOnly => exact .fails _
      | noMaster => exact .fails _
      | connection => exact .fails _
  unfold proceed
  split
  · exact .goes cmd _ _
  · exact hconclude

theorem Shared.access_cases (s : Shared) (f : Turn) (c : Call) (cmd : Command) (addr : GoString) :
    (∃ reply, (s.access f c cmd addr).1 = some reply ∧
      ((s.access f c cmd addr).2.2 = .ok reply ∨ (s.access f c cmd addr).2.2 = .error .connection)) ∨
    ((s.access f c cmd addr).1 = none ∧ ∃ e, (s.access f c cmd addr).2.2 = .error e) := by
  unfold access
  cases f.fate with
  | unsent => exact .inr ⟨rfl, _, rfl⟩
  | replyLost =>
    cases hresult : ((s.servers addr).execute (addr = s.client.primary) c f.clock cmd).1 with
    | ok reply => exact .inl ⟨reply, congrArg Except.toOption hresult, .inr rfl⟩
    | error e => exact .inr ⟨congrArg Except.toOption hresult, _, rfl⟩
  | answered =>
    cases hresult : ((s.servers addr).execute (addr = s.client.primary) c f.clock cmd).1 with
    | ok reply => exact .inl ⟨reply, congrArg Except.toOption hresult, .inl hresult⟩
    | error e => exact .inr ⟨congrArg Except.toOption hresult, _, hresult⟩

theorem replication_step_execute {s : Replication.Shared} {retry : Option ℕ} {addr : GoString}
    {found : Replication.Stamp} {f : Replication.Turn} (h : f.reply ≠ .readOnly) :
    (Replication.step s (.command retry (.execute addr found)) f).2.2 = [] := by
  simp only [Replication.step, Replication.Stage.step]
  exact if_neg fun hrefused => h hrefused.1

theorem ends_command (s : Shared) (c : Call) (cmd : Command) (retry : Option ℕ) (stage : Replication.Stage) (f : Turn) :
    Ends c (step s (.command c cmd retry stage) f).1 (step s (.command c cmd retry stage) f).2.2 := by
  cases stage with
  | execute addr found =>
    simp only [step]
    rcases s.access_cases f c cmd addr with ⟨reply, hran, hresult⟩ | ⟨hran, e, hresult⟩
    · have hreply : clientReply (s.access f c cmd addr).2.2 ≠ .readOnly := by
        rcases hresult with hresult | hresult <;> simp [hresult, clientReply]
      rw [replication_step_execute hreply, hran]
      have hconclude : ∀ s' : Shared, s'.conclude c cmd (s.access f c cmd addr).2.2 =
          ([.returned c (s.access f c cmd addr).2.2], []) := by
        intro s'
        rcases hresult with hresult | hresult <;> rw [hresult] <;> cases cmd <;> rfl
      simp only [Shared.proceed, hconclude]
      exact .ran addr f.clock reply _ hresult
    · rw [hran, hresult]
      exact Shared.ends_proceed _ c cmd e _
  | lookup => exact Shared.ends_proceed _ c cmd _ _
  | discover started rest => exact Shared.ends_proceed _ c cmd _ _
  | install started found addr => exact Shared.ends_proceed _ c cmd _ _
  | read => exact Shared.ends_proceed _ c cmd _ _
  | invalidate => exact Shared.ends_proceed _ c cmd _ _

def Arrival.isAllow (id : ℕ) : Arrival → Bool
  | .allow c => c.id == id
  | _ => false

def Thread.isCall (id : ℕ) : Thread → Bool
  | .allow c => c.id == id
  | .command c _ _ _ => c.id == id
  | _ => false

def Event.settles (id : ℕ) : Event → Bool
  | .ran c _ _ _ => c.id == id
  | .returned c (.error e) => c.id == id && e != .connection
  | _ => false

def Event.ranWith (id : ℕ) (reply : Reply) : Event → Bool
  | .ran c _ _ r => c.id == id && r == reply
  | _ => false

def Event.returnedWith (id : ℕ) (reply : Reply) : Event → Bool
  | .returned c (.ok r) => c.id == id && r == reply
  | _ => false

theorem Ends.settles_le {c : Call} {out : List Event} {ts : List Thread} (h : Ends c out ts) (id : ℕ) :
    out.countP (Event.settles id) + ts.countP (Thread.isCall id) ≤ (c.id == id).toNat := by
  cases h with
  | goes cmd retry stage =>
    rw [List.countP_nil, Nat.zero_add, System.countP_singleton_toNat]
    exact le_rfl
  | ran addr clock reply result hresult =>
    -- a call that has run the script does not come back with a refusal as well
    have hreturned : (Event.returned c result).settles id = false := by
      rcases hresult with rfl | rfl
      · rfl
      · exact Bool.and_false _
    rw [← List.singleton_append, List.countP_append, System.countP_singleton_toNat, System.countP_singleton_toNat,
      hreturned]
    exact le_rfl
  | fails e =>
    rw [System.countP_singleton_toNat]
    exact Bool.toNat_le_toNat fun h => (Bool.and_eq_true_iff.mp h).1

theorem ledger_settles (id : ℕ) :
    system.Ledger (· ≤ ·) (Arrival.isAllow id) (Thread.isCall id) (Event.settles id) where
  adds := System.adds_le
  arrive a := by cases a <;> exact le_rfl
  step s t f := by
    cases t with
    | allow c =>
      obtain ⟨retry, stage, hbegin⟩ := s.begin_eq c .evalSha
      have hturn : system.step s (.allow c) f = ([], s, [.command c .evalSha retry stage]) :=
        congrArg (fun t => ([], s, [t])) hbegin
      rw [hturn]
      exact (Ends.goes .evalSha retry stage).settles_le id
    | command c cmd retry stage => exact (ends_command s c cmd retry stage f).settles_le id
    | failover addr => exact le_rfl
    | replicate addr => exact le_rfl
    | flush addr => exact le_rfl

theorem Ends.returned_le {c : Call} {out : List Event} {ts : List Thread} (h : Ends c out ts) (id : ℕ) (reply : Reply) :
    out.countP (Event.returnedWith id reply) ≤ out.countP (Event.ranWith id reply) := by
  cases h with
  | goes cmd retry stage => exact le_rfl
  | ran addr clock reply result hresult =>
    rcases hresult with rfl | rfl
    · exact le_of_eq (by simp [List.countP_cons, Event.returnedWith, Event.ranWith])
    · exact Nat.zero_le _
  | fails e => exact le_rfl

theorem records_returned (id : ℕ) (reply : Reply) :
    system.Records fun out _ _ => out.countP (Event.returnedWith id reply) ≤ out.countP (Event.ranWith id reply) where
  arrive h := h
  step := by
    intro out s l₁ t l₂ f h
    rw [List.countP_append, List.countP_append]
    refine Nat.add_le_add h ?_
    cases t with
    | allow c => exact le_rfl
    | command c cmd retry stage => exact (ends_command s c cmd retry stage f).returned_le id reply
    | failover addr => exact le_rfl
    | replicate addr => exact le_rfl
    | flush addr => exact le_rfl

/-- Whatever is tried again, the script runs at most once for a call, not at all for one that was refused in the end, and
every reply that a call returns is the reply of a run of its own. -/
theorem script_runs_at_most_once (single : Option GoString) (client : Replication.ReplicationClient) (primary : GoString)
    (servers : GoString → Server) (ms : List (System.Move Arrival Turn)) (id : ℕ) :
    let out := (system.machine.outputs (start single client primary servers) ms).flatten
    out.countP (Event.settles id) ≤ (System.arrivals ms).countP (Arrival.isAllow id) ∧
      ∀ reply, out.countP (Event.returnedWith id reply) ≤ out.countP (Event.ranWith id reply) := by
  intro out
  refine ⟨?_, ?_⟩
  · have hledger := (ledger_settles id).run (start single client primary servers) ms
    change out.countP (Event.settles id) + _ ≤ 0 + _ at hledger
    omega
  · intro reply
    have hstart : ([] : List Event).countP (Event.returnedWith id reply) ≤ [].countP (Event.ranWith id reply) := le_rfl
    exact (records_returned id reply).run hstart ms

def Shared.dbs (s : Shared) (addr : GoString) : Redis GoString := (s.servers addr).db

structure Up (f : Turn) : Prop where
  answers : f.answers = true
  answered : f.fate = .answered

structure Stands (primary : GoString) (db : Redis GoString) (s : Shared) : Prop where
  single : s.single = none
  master : s.client.primary = primary
  endpoint : primary ∈ s.client.client.endpoints
  db : (s.servers primary).db = db

def Succeeds (primary : GoString) (db : Redis GoString) (c : Call) (f : Turn) (s : Shared) (t : Thread) : Prop :=
  let reply := (rateLimitLua c.key c.args f.clock db).1
  ∃ s', system.Completes f s t [.ran c primary f.clock reply, .returned c (.ok reply)] s'

def Shared.served (s : Shared) (addr : GoString) (v : Server) : Shared :=
  { s with client := s.client.tick, servers := Function.update s.servers addr v }

section Alone
variable {primary : GoString} {db : Redis GoString} {c : Call} {f : Turn} {s s₁ : Shared} {t t₁ : Thread} {cmd : Command}
  {retry : Option ℕ} {found : Replication.Stamp} {addr : GoString} {v : Server} {reply : Reply}

theorem Succeeds.silent (h : step s t f = ([], s₁, [t₁])) (hrest : Succeeds primary db c f s₁ t₁) :
    Succeeds primary db c f s t := by
  obtain ⟨s', hrest⟩ := hrest
  exact ⟨s', System.Completes.silent h hrest⟩

theorem Stands.ticked (h : Stands primary db s) : Stands primary db { s with client := s.client.tick } :=
  ⟨h.single, h.master, h.endpoint, h.db⟩

theorem Stands.served (h : Stands primary db s) (hv : addr = primary → v.db = db) :
    Stands primary db (s.served addr v) := by
  refine ⟨h.single, h.master, h.endpoint, ?_⟩
  change (Function.update s.servers addr v primary).db = db
  by_cases haddr : primary = addr
  · rw [haddr, Function.update_self]
    exact hv haddr.symm
  · rw [Function.update_of_ne haddr]
    exact h.db

theorem execute_known (hknown : cmd = .eval ∨ (s.servers addr).loaded = true) :
    ∃ w : Server, w.db = (s.servers addr).db ∧ (s.servers addr).execute (addr = s.client.primary) c f.clock cmd =
      w.runScript (addr = s.client.primary) c f.clock := by
  cases cmd with
  | eval => exact ⟨{ s.servers addr with loaded := true }, rfl, rfl⟩
  | evalSha => exact ⟨_, rfl, if_pos (hknown.resolve_left (by rintro ⟨⟩))⟩

theorem access_master (cmd : Command) (hup : Up f) (hstands : Stands primary db s)
    (hknown : cmd = .eval ∨ (s.servers primary).loaded = true) :
    ∃ v, s.access f c cmd primary =
      (some (rateLimitLua c.key c.args f.clock db).1, v, .ok (rateLimitLua c.key c.args f.clock db).1) := by
  obtain ⟨w, hw, hexecute⟩ := execute_known (s := s) (c := c) (f := f) hknown
  rw [Server.runScript, if_neg (by simp [hstands.master]), hw, hstands.db] at hexecute
  simp only [Shared.access, hup.answered, hexecute, Except.toOption]
  exact ⟨_, rfl⟩

theorem access_replica (cmd : Command) (hrate : 0 < c.args.rate) (haddr : addr ≠ s.client.primary) (hup : Up f)
    (hknown : cmd = .eval ∨ (s.servers addr).loaded = true) :
    ∃ v, s.access f c cmd addr = (none, v, .error .readOnly) := by
  obtain ⟨w, -, hexecute⟩ := execute_known (s := s) (c := c) (f := f) hknown
  rw [Server.runScript, if_pos ⟨hrate, decide_eq_false haddr⟩] at hexecute
  simp only [Shared.access, hup.answered, hexecute, Except.toOption]
  exact ⟨_, rfl⟩

theorem step_ok (h : s.access f c cmd addr = (some reply, v, .ok reply)) :
    step s (.command c cmd retry (.execute addr found)) f =
      ([.ran c addr f.clock reply, .returned c (.ok reply)], s.served addr v, []) := by
  cases cmd <;>
    simp only [step, h, Replication.step, Replication.Stage.step, clientReply, reduceCtorEq, false_and, if_false,
      Shared.proceed, Shared.conclude] <;> rfl

theorem step_refused (h : s.access f c cmd addr = (none, v, .error .readOnly)) (haddr : addr ≠ s.client.primary) :
    step s (.command c cmd none (.execute addr found)) f =
      ([], s.served addr v, [.command c cmd none .invalidate]) := by
  simp only [step, h, Replication.step, Replication.Stage.step, clientReply, Shared.proceed]
  rw [if_pos ⟨trivial, haddr, trivial⟩]
  rfl

theorem step_unknown (hup : Up f) (hsingle : s.single = none) (hunknown : (s.servers addr).loaded = false) :
    step s (.command c .evalSha retry (.execute addr found)) f =
      ([], s.served addr (s.servers addr), [.command c .eval none .lookup]) := by
  have hexecute : (s.servers addr).execute (addr = s.client.primary) c f.clock .evalSha =
      (.error .noScript, s.servers addr) := if_neg (Bool.eq_false_iff.mp hunknown)
  simp only [step, Shared.access, hup.answered, hexecute, Replication.step, Replication.Stage.step, clientReply,
    reduceCtorEq, false_and, if_false, Shared.proceed, Shared.conclude, Shared.begin, Shared.served, hsingle]
  rfl

theorem step_lookup_cached (hcached : s.client.cached f.time = true) :
    step s (.command c cmd retry .lookup) f = ([], { s with client := s.client.tick },
      [.command c cmd retry (.execute s.client.client.masterAddr s.client.found)]) := by
  simp only [step, Replication.step, Replication.Stage.step, if_pos hcached, Shared.proceed]

theorem step_lookup_discover (hcached : s.client.cached f.time = false) :
    step s (.command c cmd retry .lookup) f = ([], { s with client := s.client.tick },
      [.command c cmd retry (.discover none s.client.client.endpoints)]) := by
  simp only [step, Replication.step, Replication.Stage.step, hcached, Bool.false_eq_true, if_false, Shared.proceed]

theorem succeeds_of_known (hup : Up f) (hstands : Stands primary db s)
    (hknown : cmd = .eval ∨ (s.servers primary).loaded = true) :
    Succeeds primary db c f s (.command c cmd retry (.execute primary found)) := by
  obtain ⟨v, haccess⟩ := access_master (c := c) cmd hup hstands hknown
  have hstep : step s (.command c cmd retry (.execute primary found)) f = (_, s.served primary v, []) := step_ok haccess
  exact ⟨s.served primary v, System.Completes.done hstep⟩

theorem succeeds_execute (hup : Up f) (hstands : Stands primary db s) (hcached : s.client.cached f.time = true)
    (hmaster : s.client.client.masterAddr = primary) :
    Succeeds primary db c f s (.command c cmd retry (.execute primary found)) := by
  by_cases hknown : cmd = .eval ∨ (s.servers primary).loaded = true
  · exact succeeds_of_known hup hstands hknown
  · obtain rfl : cmd = .evalSha := by
      cases cmd with
      | evalSha => rfl
      | eval => exact absurd (.inl rfl) hknown
    have hunknown := Bool.eq_false_iff.mpr fun h => hknown (.inr h)
    have hserved : Stands primary db (s.served primary (s.servers primary)) := hstands.served fun _ => hstands.db
    refine .silent (step_unknown hup hstands.single hunknown) (.silent (step_lookup_cached hcached) ?_)
    have hsame : (s.served primary (s.servers primary)).client.client.masterAddr = primary := hmaster
    rw [hsame]
    exact succeeds_of_known hup hserved.ticked (.inl rfl)

theorem succeeds_discover {rest : List GoString} (started : Option Replication.Stamp) (hup : Up f)
    (hstands : Stands primary db s) (hrest : primary ∈ rest) :
    Succeeds primary db c f s (.command c cmd retry (.discover started rest)) := by
  induction rest generalizing s started with
  | nil => cases hrest
  | cons addr rest ih =>
    by_cases haddr : addr = primary
    · subst haddr
      have hasked : step s (.command c cmd retry (.discover started (addr :: rest))) f =
          ([], { s with client := s.client.tick },
            [.command c cmd retry (.install (started.getD s.client.now) s.client.now addr)]) := by
        have hrole : toLower (s.client.role addr) = str "master" := by
          rw [Replication.Shared.role, if_pos hstands.master.symm]
          decide +kernel
        simp only [step, Replication.step, Replication.Stage.step, hrole, hup.answers, and_self, if_true, Shared.proceed]
      refine .silent hasked (.silent rfl (.silent rfl ?_))
      refine succeeds_execute hup ⟨hstands.single, hstands.master, hstands.endpoint, hstands.db⟩ ?_ rfl
      -- the master has been found at this very time
      change decide (f.time - f.time < Replication.masterCacheTTL) = true
      rw [sub_self]
      decide
    · have hpassed : step s (.command c cmd retry (.discover started (addr :: rest))) f =
          ([], { s with client := s.client.tick },
            [.command c cmd retry (.discover (some (started.getD s.client.now)) rest)]) := by
        have hrole : toLower (s.client.role addr) ≠ str "master" := by
          rw [Replication.Shared.role, if_neg fun h => haddr (h.trans hstands.master)]
          decide +kernel
        simp only [step, Replication.step, Replication.Stage.step, hrole, and_false, if_false, Shared.proceed]
      exact .silent hpassed (ih _ hstands.ticked ((List.mem_cons.mp hrest).resolve_left fun h => haddr h.symm))

theorem succeeds_refused (hrate : 0 < c.args.rate) (hup : Up f) (hstands : Stands primary db s) (haddr : addr ≠ primary)
    (hknown : cmd = .eval ∨ (s.servers addr).loaded = true) :
    Succeeds primary db c f s (.command c cmd none (.execute addr found)) := by
  have hreplica : addr ≠ s.client.primary := hstands.master ▸ haddr
  obtain ⟨v, haccess⟩ := access_replica (c := c) cmd hrate hreplica hup hknown
  have hserved := hstands.served (v := v) fun h => absurd h haddr
  refine .silent (step_refused haccess hreplica) (.silent rfl (.silent (step_lookup_discover rfl) ?_))
  exact succeeds_discover none hup ⟨hserved.single, hserved.master, hserved.endpoint, hserved.db⟩ hserved.endpoint

theorem succeeds_stale (hrate : 0 < c.args.rate) (hup : Up f) (hstands : Stands primary db s)
    (hcached : s.client.cached f.time = true) (haddr : s.client.client.masterAddr ≠ primary) :
    Succeeds primary db c f s (.command c .evalSha none (.execute s.client.client.masterAddr found)) := by
  cases hloaded : (s.servers s.client.client.masterAddr).loaded with
  | true => exact succeeds_refused hrate hup hstands haddr (.inr hloaded)
  | false =>
    -- NOSCRIPT does not tell that the server is a replica, and EVAL goes to the same one
    refine .silent (step_unknown hup hstands.single hloaded) (.silent (step_lookup_cached hcached) ?_)
    have hserved := hstands.served (v := s.servers s.client.client.masterAddr) fun h => absurd h haddr
    exact succeeds_refused hrate hup hserved.ticked haddr (.inl rfl)

end Alone

/-- A call that is left to itself while the servers answer runs the script once, on the master's database, and returns its
reply: whichever server the client still takes for the master, and whichever of them know the script. -/
theorem call_finds_master (s : Shared) (c : Call) (f : Turn) (hsingle : s.single = none) (hrate : 0 < c.args.rate)
    (hmem : s.client.primary ∈ s.client.client.endpoints) (hup : Up f) :
    let reply := (rateLimitLua c.key c.args f.clock (s.dbs s.client.primary)).1
    ∃ s', system.Completes f s (.allow c) [.ran c s.client.primary f.clock reply, .returned c (.ok reply)] s' := by
  have hstands : Stands s.client.primary (s.dbs s.client.primary) s := ⟨hsingle, rfl, hmem, rfl⟩
  have hbegin : step s (.allow c) f = ([], s, [.command c .evalSha none .lookup]) := by
    simp only [step, Shared.begin, hsingle]
  change Succeeds s.client.primary (s.dbs s.client.primary) c f s (.allow c)
  refine .silent hbegin ?_
  cases hcached : s.client.cached f.time with
  | false => exact .silent (step_lookup_discover hcached) (succeeds_discover none hup hstands.ticked hmem)
  | true =>
    refine .silent (step_lookup_cached hcached) ?_
    by_cases hmaster : s.client.client.masterAddr = s.client.primary
    · rw [hmaster]
      exact succeeds_execute hup hstands.ticked hcached hmaster
    · exact succeeds_stale hrate hup hstands.ticked hcached hmaster

theorem call_finds_master_after_failover :
    let client : Replication.ReplicationClient := ⟨[str "a:6379", str "b:6379"], str "a:6379", some 0⟩
    let s : Shared := ⟨none, { client := client, primary := str "b:6379" }, fun _ => ⟨Keyspace.empty, false⟩⟩
    let c : Call := ⟨1, str "rl:key", ⟨1, 10, 60, 0⟩⟩
    let reply := (rateLimitLua c.key c.args 0 Keyspace.empty).1
    ∃ s', system.Completes {} s (.allow c) [.ran c (str "b:6379") 0 reply, .returned c (.ok reply)] s' :=
  call_finds_master _ _ _ rfl one_pos (List.mem_cons_of_mem _ (List.mem_singleton_self _)) ⟨rfl, rfl⟩

end EdgeQuota.RateLimit.Scripts
