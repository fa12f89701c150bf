import EdgeQuota.Proxy.ResponseCache

/-! WebSocket upgrades. The proxy writes the request to a connection of its own, takes the client's
connection over, and from then on copies bytes both ways. What the backend answers to the upgrade is
copied like the rest, and never looked at. -/

namespace EdgeQuota.Proxy
open Go

/-- What the two peers do while they are connected: each sends bytes, of which the other's connection
takes `n` when they are written to it, or ends its side, be it by closing, by an error or by silence. -/
inductive RelayEvent where
  | clientSends (b : GoString) (n : ℕ)
  | backendSends (b : GoString) (n : ℕ)
  | clientEnds
  | backendEnds
  deriving DecidableEq

structure CopyLoop where
  left : Option ℕ
  written : GoString := []
  running : Bool := true
  deriving DecidableEq

namespace CopyLoop

def pass (c : CopyLoop) (b : GoString) (n : ℕ) : CopyLoop :=
  { left := c.left.map (· - b.length), written := c.written ++ b.take n, running := b.length ≤ n }

/-- What is left of `b` within the limit is read and written; at the limit the reader reports the end. -/
def copy (c : CopyLoop) (b : GoString) (n : ℕ) : CopyLoop :=
  if !c.running then c
  else
    match c.left with
    | some 0 => { c with running := false }
    | some (k + 1) => c.pass (b.take (k + 1)) n
    | none => c.pass b n

def stop (c : CopyLoop) : CopyLoop := { c with running := false }

end CopyLoop

structure Relay where
  toClient : CopyLoop
  toBackend : CopyLoop
  deriving DecidableEq

/-- The end of one side does not stop the other direction. -/
def Relay.step (s : Relay) : RelayEvent → Relay
  | .clientSends b n => { s with toBackend := s.toBackend.copy b n }
  | .backendSends b n => { s with toClient := s.toClient.copy b n }
  | .clientEnds => { s with toBackend := s.toBackend.stop }
  | .backendEnds => { s with toClient := s.toClient.stop }

structure WebSocketProxy where
  allowedWSOrigins : List GoString := []
  wsLimiter : Bool := false
  backendURL : Option BackendURL := none
  maxWSTransferBytes : ℤ := 0

structure Upgrade where
  tls : Bool := false
  clientIP : Option GoString := none
  acquire : GoString → Bool := fun _ => true
  dial : GoString → Bool → Bool := fun _ _ => true
  /-- What of the request's body has been written, and whether all of the request has. -/
  body : GoString := []
  wrote : Bool := true
  hijack : Bool := true
  traffic : List RelayEvent := []

structure BackendConn where
  addr : GoString
  tls : Bool
  request : Request
  afterHead : GoString

structure Session where
  w : ResponseWriter
  backend : Option BackendConn := none
  toClient : GoString := []

def setForwardingHeaders (r : Request) (tls : Bool) : Request :=
  let r :=
    if r.header.get (str "X-Forwarded-Host") = [] then
      { r with header := r.header.set (str "X-Forwarded-Host") r.host }
    else r
  if r.header.get (str "X-Forwarded-Proto") = [] then
    { r with header := r.header.set (str "X-Forwarded-Proto") (if tls then str "https" else str "http") }
  else r

theorem url_setForwardingHeaders (r : Request) (tls : Bool) : (setForwardingHeaders r tls).url = r.url := by
  unfold setForwardingHeaders
  simp only
  split_ifs <;> rfl

def setForwardedFor (r : Request) (clientIP : Option GoString) : Request :=
  match clientIP with
  | none => r
  | some ip =>
    let prior := r.header.get (str "X-Forwarded-For")
    { r with
      header := r.header.set (str "X-Forwarded-For") (if prior = [] then ip else prior ++ str ", " ++ ip) }

namespace WebSocketProxy

def originAllowed (p : WebSocketProxy) (r : Request) : Bool :=
  p.allowedWSOrigins.isEmpty ||
    p.allowedWSOrigins.contains (toLower (trimRight [str "/"] (r.header.get (str "Origin"))))

def wsKey (r : Request) : GoString := if r.context.key = [] then str "__unknown__" else r.context.key

def effective (p : WebSocketProxy) (r : Request) : Option BackendURL := r.context.backendURL.or p.backendURL

def relayWebSocket (p : WebSocketProxy) (traffic : List RelayEvent) : Relay :=
  let left := if 0 < p.maxWSTransferBytes then some p.maxWSTransferBytes.toNat else none
  traffic.foldl Relay.step ⟨{ left := left }, { left := left }⟩

def connect (p : WebSocketProxy) (r : Request) (w : ResponseWriter) (u : Upgrade) : Session :=
  match p.effective r with
  | none => { w := w.error (str "no backend configured") 502 }
  | some effective =>
    let tls : Bool := effective.scheme = str "https"
    if !u.dial effective.host tls then { w := w.error (str "backend unreachable") 502 }
    else
      let r := setForwardedFor (setForwardingHeaders r u.tls) u.clientIP
      let conn : BackendConn :=
        { addr := effective.host, tls := tls, request := { r with host := effective.host }, afterHead := u.body }
      if !u.wrote then { w := w.error (str "backend write error") 502, backend := some conn }
      else if !u.hijack then { w := w.error (str "hijack not supported") 500, backend := some conn }
      else
        let relay := p.relayWebSocket u.traffic
        { w := w
          backend := some { conn with afterHead := u.body ++ relay.toBackend.written }
          toClient := relay.toClient.written }

def handleWebSocket (p : WebSocketProxy) (r : Request) (w : ResponseWriter) (u : Upgrade) : Session :=
  if !p.originAllowed r then { w := w.error (str "Forbidden") 403 }
  else if p.wsLimiter && !u.acquire (wsKey r) then { w := w.error (str "too many WebSocket connections") 429 }
  else p.connect r w u

end WebSocketProxy

def isHTTPVersion (s : GoString) : Bool :=
  match s with
  | [h, t, t', p, slash, major, dot, minor] =>
    [h, t, t', p, slash] == str "HTTP/" && isDigit major && dot == byte '.' && isDigit minor
  | _ => false

def readStatus (s : GoString) : Option ℤ :=
  let line := (cut 0x0A s).1
  let line := if line.getLast? = some 0x0D then line.dropLast else line
  match cut (byte ' ') line with
  | (_, none) => none
  | (proto, some status) =>
    let code := (cut (byte ' ') (trimLeft [str " "] status.length status)).1
    if code.length = 3 ∧ isHTTPVersion proto then (atoi code).filter (0 ≤ ·) else none

/-- What follows the head of a message; the first argument tells whether the line is blank so far. -/
def dropHead : Bool → GoString → GoString
  | _, [] => []
  | blank, c :: s =>
    if c = 0x0A then if blank then s else dropHead true s
    else dropHead (blank && c == 0x0D) s

/-- The status of the first response that is not interim; the first argument bounds the interim ones. -/
def finalStatus : ℕ → GoString → Option ℤ
  | 0, _ => none
  | n + 1, s =>
    match readStatus s with
    | none => none
    | some code => if 100 ≤ code ∧ code < 200 ∧ code ≠ 101 then finalStatus n (dropHead false s) else some code

def RelayEvent.fromClient : RelayEvent → GoString
  | .clientSends b _ => b
  | .backendSends _ _ | .clientEnds | .backendEnds => []

def RelayEvent.fromBackend : RelayEvent → GoString
  | .backendSends b _ => b
  | .clientSends _ _ | .clientEnds | .backendEnds => []

def Switched (traffic : List RelayEvent) : Prop :=
  let sent := traffic.flatMap RelayEvent.fromBackend
  finalStatus (sent.length + 1) sent = some 101

instance (traffic : List RelayEvent) : Decidable (Switched traffic) := inferInstanceAs (Decidable (_ = _))

/-- What a direction has written, of what was sent on it: the beginning, and all of it while the loop can
go on. -/
structure CopyLoop.Verbatim (c : CopyLoop) (sent : GoString) : Prop where
  beginning : c.written <+: sent
  whole : c.running = true → c.left ≠ some 0 → c.written = sent

theorem CopyLoop.Verbatim.stop {c : CopyLoop} {sent : GoString} (h : c.Verbatim sent) : c.stop.Verbatim sent :=
  ⟨h.beginning, nofun⟩

theorem CopyLoop.copy_eq_pass {c : CopyLoop} (hrun : c.running = true) (hleft : c.left ≠ some 0) (b : GoString) (n : ℕ) :
    ∃ b', b' <+: b ∧ (b ≠ [] → b' ≠ []) ∧ c.copy b n = c.pass b' n ∧ ((c.pass b' n).left ≠ some 0 → b' = b) := by
  unfold CopyLoop.copy
  rw [hrun, Bool.not_true, if_neg Bool.false_ne_true]
  rcases hl : c.left with _ | _ | k
  · exact ⟨b, List.prefix_rfl, id, rfl, fun _ => rfl⟩
  · exact absurd hl hleft
  · refine ⟨b.take (k + 1), List.take_prefix _ b, fun hb => ?_, rfl, fun hmore => ?_⟩
    · rw [ne_eq, List.take_eq_nil_iff, not_or]
      exact ⟨Nat.succ_ne_zero k, hb⟩
    · refine List.take_of_length_le (not_lt.mp fun hlong => hmore ?_)
      have hlen : (b.take (k + 1)).length = k + 1 := List.length_take_of_le hlong.le
      show c.left.map (· - (b.take (k + 1)).length) = some 0
      rw [hl, hlen, Option.map_some, Nat.sub_self]

theorem CopyLoop.Verbatim.copy {c : CopyLoop} {sent : GoString} (h : c.Verbatim sent) (b : GoString) (n : ℕ) :
    (c.copy b n).Verbatim (sent ++ b) := by
  have hlater : c.written <+: sent ++ b := h.beginning.trans (List.prefix_append sent b)
  by_cases hrun : c.running = true
  · by_cases hleft : c.left = some 0
    · have hcopy : c.copy b n = c.stop := by simp [CopyLoop.copy, CopyLoop.stop, hrun, hleft]
      rw [hcopy]
      exact ⟨hlater, nofun⟩
    · obtain ⟨b', hb', -, hcopy, hall⟩ := CopyLoop.copy_eq_pass hrun hleft b n
      have hw : c.written = sent := h.whole hrun hleft
      rw [hcopy]
      refine ⟨?_, fun hr hl => ?_⟩
      · show c.written ++ b'.take n <+: sent ++ b
        rw [hw]
        exact (List.prefix_append_right_inj sent).mpr ((List.take_prefix n b').trans hb')
      · have hn : b'.length ≤ n := of_decide_eq_true hr
        show c.written ++ b'.take n = sent ++ b
        rw [hw, List.take_of_length_le hn, hall hl]
  · have hcopy : c.copy b n = c := if_pos (by simpa using hrun)
    rw [hcopy]
    exact ⟨hlater, fun hr => absurd hr hrun⟩

theorem Relay.step_verbatim {s : Relay} {sent : GoString} (h : s.toBackend.Verbatim sent) (e : RelayEvent) :
    (s.step e).toBackend.Verbatim (sent ++ e.fromClient) := by
  cases e with
  | clientSends b n => exact h.copy b n
  | clientEnds =>
    rw [RelayEvent.fromClient, List.append_nil]
    exact h.stop
  | backendSends b n =>
    rw [RelayEvent.fromClient, List.append_nil]
    exact h
  | backendEnds =>
    rw [RelayEvent.fromClient, List.append_nil]
    exact h

theorem Relay.run_verbatim {s : Relay} {sent : GoString} (h : s.toBackend.Verbatim sent) (es : List RelayEvent) :
    (es.foldl Relay.step s).toBackend.Verbatim (sent ++ es.flatMap RelayEvent.fromClient) := by
  induction es generalizing s sent with
  | nil => simpa using h
  | cons e es ih =>
    rw [List.foldl_cons, List.flatMap_cons, ← List.append_assoc]
    exact ih (step_verbatim h e)

theorem CopyLoop.written_copy (c : CopyLoop) (b : GoString) (n : ℕ) : c.written <+: (c.copy b n).written := by
  unfold CopyLoop.copy
  split_ifs
  · exact List.prefix_rfl
  · split
    · exact List.prefix_rfl
    · exact List.prefix_append ..
    · exact List.prefix_append ..

theorem Relay.run_written (s : Relay) (es : List RelayEvent) :
    s.toBackend.written <+: (es.foldl Relay.step s).toBackend.written := by
  induction es generalizing s with
  | nil => exact List.prefix_rfl
  | cons e es ih =>
    refine List.IsPrefix.trans ?_ (ih (s.step e))
    cases e with
    | clientSends b n => exact s.toBackend.written_copy b n
    | clientEnds => exact List.prefix_rfl
    | backendSends b n => exact List.prefix_rfl
    | backendEnds => exact List.prefix_rfl

theorem Relay.run_ended {s : Relay} (h : s.toBackend.running = false) (es : List RelayEvent) :
    (es.foldl Relay.step s).toBackend.written = s.toBackend.written := by
  induction es generalizing s with
  | nil => rfl
  | cons e es ih =>
    cases e with
    | clientSends b n =>
      have hcopy : (s.step (.clientSends b n)).toBackend = s.toBackend := if_pos (by rw [h]; rfl)
      have hended : (s.step (.clientSends b n)).toBackend.running = false := hcopy ▸ h
      exact (ih hended).trans (congrArg CopyLoop.written hcopy)
    | clientEnds => exact ih rfl
    | backendSends b n => exact ih h
    | backendEnds => exact ih h

def speaks : List RelayEvent → Bool
  | [] => false
  | .clientSends b n :: es => if b = [] then speaks es else 0 < n
  | .clientEnds :: _ => false
  | .backendSends _ _ :: es => speaks es
  | .backendEnds :: es => speaks es

theorem Relay.run_written_iff {s : Relay} (hrun : s.toBackend.running = true) (hleft : s.toBackend.left ≠ some 0)
    (hwritten : s.toBackend.written = []) (es : List RelayEvent) :
    (es.foldl Relay.step s).toBackend.written ≠ [] ↔ speaks es = true := by
  induction es generalizing s with
  | nil => exact ⟨fun h => absurd hwritten h, nofun⟩
  | cons e es ih =>
    cases e with
    | backendSends b n => exact ih hrun hleft hwritten
    | backendEnds => exact ih hrun hleft hwritten
    | clientEnds =>
      have hended : ((es.foldl Relay.step (s.step .clientEnds)).toBackend).written = [] :=
        (run_ended (s := s.step .clientEnds) rfl es).trans hwritten
      exact ⟨fun h => absurd hended h, nofun⟩
    | clientSends b n =>
      -- the first bytes decide: taken, they are there to stay, and if none of them is the loop ends
      obtain ⟨b', hb', hne, hcopy, -⟩ := CopyLoop.copy_eq_pass hrun hleft b n
      have hstep : (s.step (.clientSends b n)).toBackend = s.toBackend.pass b' n := hcopy
      have hnext : (s.step (.clientSends b n)).toBackend.written = b'.take n := by
        rw [hstep, CopyLoop.pass, hwritten, List.nil_append]
      rw [List.foldl_cons, speaks]
      split_ifs with hb
      · obtain rfl : b' = [] := List.prefix_nil.mp (hb ▸ hb')
        refine ih ?_ ?_ ?_
        · rw [hstep]
          exact decide_eq_true (Nat.zero_le n)
        · rw [hstep]
          simpa [CopyLoop.pass] using hleft
        · rw [hnext, List.take_nil]
      rcases Nat.eq_zero_or_pos n with rfl | hn
      · have hended : (s.step (.clientSends b 0)).toBackend.running = false := by
          rw [hstep]
          exact decide_eq_false (by simpa using hne hb)
        rw [run_ended hended, hnext]
        simp
      · have hsome : (s.step (.clientSends b n)).toBackend.written ≠ [] := by
          rw [hnext, ne_eq, List.take_eq_nil_iff, not_or]
          exact ⟨hn.ne', hne hb⟩
        refine ⟨fun _ => decide_eq_true hn, fun _ hnil => hsome ?_⟩
        exact List.prefix_nil.mp (hnil ▸ run_written _ es)

namespace WebSocketProxy

def Connects (p : WebSocketProxy) (r : Request) (u : Upgrade) : Prop :=
  p.originAllowed r = true ∧ (p.wsLimiter = true → u.acquire (wsKey r) = true) ∧
    ∃ b ∈ p.effective r, u.dial b.host (b.scheme = str "https") = true

instance (p : WebSocketProxy) (r : Request) (u : Upgrade) : Decidable (p.Connects r u) :=
  inferInstanceAs (Decidable (_ ∧ _ ∧ _))

/-- Beyond the head of its request the client sends something that the backend's connection takes: a body,
or bytes once its own connection has been taken over. -/
def SendsOn (p : WebSocketProxy) (r : Request) (u : Upgrade) : Prop :=
  p.Connects r u ∧ (u.body ≠ [] ∨ u.wrote = true ∧ u.hijack = true ∧ speaks u.traffic = true)

def passedOn (p : WebSocketProxy) (u : Upgrade) : GoString :=
  u.body ++ if u.wrote = true ∧ u.hijack = true then (p.relayWebSocket u.traffic).toBackend.written else []

theorem relayWebSocket_written_iff (p : WebSocketProxy) (traffic : List RelayEvent) :
    (p.relayWebSocket traffic).toBackend.written ≠ [] ↔ speaks traffic = true := by
  refine Relay.run_written_iff rfl ?_ rfl traffic
  show (if 0 < p.maxWSTransferBytes then some p.maxWSTransferBytes.toNat else none) ≠ some 0
  split_ifs with hmax
  · intro h
    have := Option.some.inj h
    omega
  · nofun

theorem relayWebSocket_verbatim (p : WebSocketProxy) (traffic : List RelayEvent) :
    (p.relayWebSocket traffic).toBackend.written <+: traffic.flatMap RelayEvent.fromClient :=
  (Relay.run_verbatim ⟨List.prefix_rfl, fun _ _ => rfl⟩ traffic).beginning

theorem passedOn_verbatim (p : WebSocketProxy) (u : Upgrade) :
    p.passedOn u <+: u.body ++ u.traffic.flatMap RelayEvent.fromClient := by
  refine (List.prefix_append_right_inj u.body).mpr ?_
  split_ifs
  · exact p.relayWebSocket_verbatim u.traffic
  · exact List.nil_prefix

theorem passedOn_iff (p : WebSocketProxy) (u : Upgrade) :
    p.passedOn u ≠ [] ↔ u.body ≠ [] ∨ u.wrote = true ∧ u.hijack = true ∧ speaks u.traffic = true := by
  unfold passedOn
  rw [ne_eq, List.append_eq_nil_iff, not_and_or]
  refine or_congr Iff.rfl ?_
  split_ifs with htaken
  · rw [← ne_eq, relayWebSocket_written_iff]
    exact ⟨fun h => ⟨htaken.1, htaken.2, h⟩, fun h => h.2.2⟩
  · exact ⟨fun h => absurd rfl h, fun h => absurd ⟨h.1, h.2.1⟩ htaken⟩

theorem connect_backend (p : WebSocketProxy) (r : Request) (w : ResponseWriter) (u : Upgrade) :
    (p.connect r w u).backend.map BackendConn.afterHead =
      if ∃ b ∈ p.effective r, u.dial b.host (b.scheme = str "https") = true then some (p.passedOn u) else none := by
  unfold connect passedOn
  cases p.effective r with
  | none => simp
  | some b =>
    simp only [Option.mem_some_iff, exists_eq_left']
    cases u.dial b.host (b.scheme = str "https") with
    | false => simp
    | true =>
      cases u.wrote with
      | false => simp
      | true => cases u.hijack <;> simp

theorem handleWebSocket_backend (p : WebSocketProxy) (r : Request) (w : ResponseWriter) (u : Upgrade) :
    (p.handleWebSocket r w u).backend.map BackendConn.afterHead =
      if p.Connects r u then some (p.passedOn u) else none := by
  unfold handleWebSocket
  by_cases horigin : p.originAllowed r = true
  · rw [horigin, Bool.not_true, if_neg Bool.false_ne_true]
    by_cases hplace : p.wsLimiter = true → u.acquire (wsKey r) = true
    · have hfree : ¬(p.wsLimiter && !u.acquire (wsKey r)) = true := by simpa using hplace
      rw [if_neg hfree, connect_backend]
      exact if_congr ⟨fun h => ⟨horigin, hplace, h⟩, fun h => h.2.2⟩ rfl rfl
    · have hfull : (p.wsLimiter && !u.acquire (wsKey r)) = true := by simpa using hplace
      rw [if_pos hfull, if_neg fun h => hplace h.2.1]
      rfl
  · rw [if_pos (by simpa using horigin), if_neg fun h => horigin h.1]
    rfl

end WebSocketProxy

/-- **Raw relay.** What the client sends after the head of an upgrade request is passed on as it is, and
at any moment of the session something of it has reached the backend without a 101 from there exactly if
the upgrade got to a backend, the client sent something that its connection took, and the backend has not
answered with a 101. -/
theorem raw_relay_iff (p : WebSocketProxy) (r : Request) (w : ResponseWriter) (u : Upgrade) :
    let conn := (p.handleWebSocket r w u).backend
    (∀ c ∈ conn, c.afterHead <+: u.body ++ u.traffic.flatMap RelayEvent.fromClient) ∧
      ((∀ c ∈ conn, c.afterHead ≠ [] → Switched u.traffic) ↔ (p.SendsOn r u → Switched u.traffic)) := by
  intro conn
  have hconn : conn.map BackendConn.afterHead = if p.Connects r u then some (p.passedOn u) else none :=
    p.handleWebSocket_backend r w u
  by_cases hconnects : p.Connects r u
  · rw [if_pos hconnects] at hconn
    obtain ⟨c, hc, hafter⟩ := Option.map_eq_some_iff.mp hconn
    have hsends : p.SendsOn r u ↔ c.afterHead ≠ [] := by
      rw [hafter, p.passedOn_iff u]
      exact and_iff_right hconnects
    have hverbatim : c.afterHead <+: u.body ++ u.traffic.flatMap RelayEvent.fromClient :=
      hafter ▸ p.passedOn_verbatim u
    rw [hc, hsends]
    simpa only [Option.mem_some_iff, forall_eq', and_true] using hverbatim
  · rw [if_neg hconnects, Option.map_eq_none_iff] at hconn
    rw [hconn]
    exact ⟨nofun, fun _ hsends => absurd hsends.1 hconnects, fun _ => nofun⟩

/-- The backend answers an upgrade with a 404 and keeps the connection, and the client goes on with a
request that nothing but the backend sees. -/
theorem raw_relay_without_switch :
    let r : Request :=
      { method := str "GET", url := ⟨str "/ws", [], []⟩, host := str "edge"
        header := [(str "Upgrade", str "websocket"), (str "Connection", str "Upgrade")] }
    let refusal := str "HTTP/1.1 404 Not Found\r\nContent-Length: 0\r\n\r\n"
    let smuggled := str "DELETE /admin HTTP/1.1\r\nHost: b\r\n\r\n"
    let u : Upgrade := { traffic := [.backendSends refusal refusal.length, .clientSends smuggled smuggled.length] }
    let p : WebSocketProxy := { backendURL := some ⟨str "http", str "b:80", []⟩ }
    isWebSocketUpgrade r = true ∧ ¬Switched u.traffic ∧
      (p.handleWebSocket r {} u).backend.map BackendConn.afterHead = some smuggled := by
  decide +kernel

end EdgeQuota.Proxy
