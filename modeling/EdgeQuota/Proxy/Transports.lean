import EdgeQuota.Proxy.Dialer

/-! The three transports of a proxy. Whether the second one encrypts is settled when it is built, from the
scheme of the default backend; the URL that a request goes to is chosen later. -/

namespace EdgeQuota.Proxy
open Go Middleware

inductive Transport where
  | h1
  | h2
  | h3
  deriving DecidableEq

/-- What is kept of the transports and of the mode that is resolved for them. The third is there only if the
default backend is not a cleartext one. -/
structure Transports where
  cleartext : Bool
  defaultRT : Transport
  mode : BackendProtocol
  available : defaultRT = .h3 → cleartext = false

def isCleartext (scheme : GoString) : Bool := scheme = str "http" ∨ scheme = str "ws"

def schemeHint (target : Option BackendURL) : GoString := (target.map BackendURL.scheme).getD (str "http")

def probeBackendProtocol (alpn : GoString → Option GoString) (target : BackendURL) : Transport :=
  let addr := if byte ':' ∈ target.host then target.host else target.host ++ str ":443"
  if isCleartext target.scheme then .h1 else if alpn addr = some (str "h2") then .h2 else .h1

theorem probeBackendProtocol_ne (alpn : GoString → Option GoString) (target : BackendURL) :
    probeBackendProtocol alpn target ≠ .h3 := by
  unfold probeBackendProtocol
  simp only
  split_ifs <;> rintro ⟨⟩

/-- `buildTransports` and `resolveBackendTransportMode`. Without a default backend nothing can be probed. -/
def newTransports (alpn : GoString → Option GoString) (target : Option BackendURL) (protocol : BackendProtocol) :
    Transports :=
  let cleartext := isCleartext (schemeHint target)
  match protocol with
  | .h1 => ⟨cleartext, .h1, .h1, by rintro ⟨⟩⟩
  | .h2 => ⟨cleartext, .h2, .h2, by rintro ⟨⟩⟩
  | .h3 =>
    if h : cleartext = true then ⟨cleartext, .h1, .h1, by rintro ⟨⟩⟩
    else ⟨cleartext, .h3, .h3, fun _ => eq_false_of_ne_true h⟩
  | .unset | .auto | .other _ =>
    match target with
    | none => ⟨cleartext, .h1, .auto, by rintro ⟨⟩⟩
    | some u => ⟨cleartext, probeBackendProtocol alpn u, .auto, fun h => absurd h (probeBackendProtocol_ne alpn u)⟩

theorem cleartext_newTransports (alpn : GoString → Option GoString) (target : Option BackendURL)
    (protocol : BackendProtocol) :
    (newTransports alpn target protocol).cleartext = isCleartext (schemeHint target) := by
  unfold newTransports
  cases protocol with
  | h3 =>
    simp only
    split_ifs <;> rfl
  | h1 | h2 => rfl
  | unset | auto | other text => cases target <;> rfl

namespace Transports

def roundTripForProtocol (t : Transports) (proto : GoString) : Transport :=
  if proto = str "h2" then .h2
  else if proto = str "h3" then if t.cleartext then t.defaultRT else .h3
  else if proto = str "h1" then .h1
  else t.defaultRT

/-- The transport for a request as the director leaves it, which came in with the given major version of HTTP. -/
def roundTrip (t : Transports) (r : Request) (protoMajor : ℕ) : Transport :=
  if isGRPC r then .h2
  else if r.context.backendProtocol ≠ [] then t.roundTripForProtocol r.context.backendProtocol
  else if t.mode = .auto ∧ protoMajor = 2 then .h2
  else t.defaultRT

theorem cleartext_of_h3 {t : Transports} {r : Request} {protoMajor : ℕ} (h : t.roundTrip r protoMajor = .h3) :
    t.cleartext = false := by
  unfold roundTrip roundTripForProtocol at h
  split_ifs at h with hgrpc hproto hh2 hh3 hclear hh1 hauto
  · exact t.available h
  · exact eq_false_of_ne_true hclear
  · exact t.available h
  · exact t.available h

inductive ConnectError where
  | unsupportedScheme (scheme : GoString)
  | noHost
  deriving DecidableEq

structure Connection where
  addr : GoString
  tls : Bool
  deriving DecidableEq

/-- The packages that the second and the third transport come from, by the address that each dials for a URL. Both take
it from the host of the URL; the second knows two schemes, the third only the one with TLS. -/
structure Packages where
  idna : Idna
  http2 : BackendURL → Except ConnectError GoString
  http3 : BackendURL → Except ConnectError GoString
  http2_dials : ∀ {u : BackendURL}, u.scheme = str "http" ∨ u.scheme = str "https" → u.host ≠ [] → ∃ addr, http2 u = .ok addr
  http3_dials : ∀ {u : BackendURL}, u.scheme = str "https" → u.host ≠ [] → ∃ addr, http3 u = .ok addr
  http3_https : ∀ {u : BackendURL} {addr}, http3 u = .ok addr → u.scheme = str "https"
  http2_host : ∀ {u : BackendURL} {addr}, http2 u = .ok addr → u.Parsed → u.hostname.all (· < 0x80) = true →
    ∃ port, Net.splitHostPort addr = some (u.hostname, port)
  http3_host : ∀ {u : BackendURL} {addr}, http3 u = .ok addr → u.Parsed → u.hostname.all (· < 0x80) = true →
    ∃ port, Net.splitHostPort addr = some (u.hostname, port)

/-- What each transport makes of a URL. The first goes by the scheme; whether the second encrypts is up to the dialer
that it was given. -/
def connect (pkg : Packages) (t : Transports) (rt : Transport) (u : BackendURL) : Except ConnectError Connection :=
  match rt with
  | .h1 =>
    if u.scheme ≠ str "http" ∧ u.scheme ≠ str "https" then .error (.unsupportedScheme u.scheme)
    else if u.host = [] then .error .noHost
    else .ok ⟨canonicalAddr pkg.idna u, u.scheme = str "https"⟩
  | .h2 => (pkg.http2 u).map fun addr => ⟨addr, !t.cleartext⟩
  | .h3 => (pkg.http3 u).map fun addr => ⟨addr, true⟩

theorem exists_of_map_eq_ok {ε α β : Type} {x : Except ε α} {f : α → β} {b : β} (h : x.map f = .ok b) :
    ∃ a, x = .ok a ∧ f a = b := by
  cases x with
  | error e => cases h
  | ok a => exact ⟨a, rfl, Except.ok.inj h⟩

theorem splitHostPort_connect {pkg : Packages} {t : Transports} {rt : Transport} {u : BackendURL} {c : Connection}
    (hparsed : u.Parsed) (hname : u.hostname.all (· < 0x80) = true) (h : t.connect pkg rt u = .ok c) :
    ∃ port, Net.splitHostPort c.addr = some (u.hostname, port) := by
  cases rt with
  | h1 =>
    simp only [connect] at h
    split_ifs at h
    obtain rfl := Except.ok.inj h
    exact ⟨_, splitHostPort_canonicalAddr hparsed hname pkg.idna⟩
  | h2 =>
    obtain ⟨addr, haddr, rfl⟩ := exists_of_map_eq_ok h
    exact pkg.http2_host haddr hparsed hname
  | h3 =>
    obtain ⟨addr, haddr, rfl⟩ := exists_of_map_eq_ok h
    exact pkg.http3_host haddr hparsed hname

def FollowsScheme (pkg : Packages) (t : Transports) (rt : Transport) (u : BackendURL) : Prop :=
  ∃ c, t.connect pkg rt u = .ok c ∧ (c.tls = true ↔ u.scheme = str "https")

theorem followsScheme_iff {pkg : Packages} {t : Transports} {rt : Transport} {u : BackendURL}
    (hscheme : u.scheme = str "http" ∨ u.scheme = str "https") (hhost : u.host ≠ []) :
    t.FollowsScheme pkg rt u ↔
      (rt = .h2 → (t.cleartext = false ↔ u.scheme = str "https")) ∧ (rt = .h3 → u.scheme = str "https") := by
  cases rt with
  | h1 =>
    have hknown : ¬(u.scheme ≠ str "http" ∧ u.scheme ≠ str "https") := by
      rintro ⟨hhttp, hhttps⟩
      exact hscheme.elim hhttp hhttps
    have hconnect : t.connect pkg .h1 u = .ok ⟨canonicalAddr pkg.idna u, u.scheme = str "https"⟩ := by
      simp only [connect, if_neg hknown, if_neg hhost]
    exact iff_of_true ⟨_, hconnect, decide_eq_true_iff⟩ ⟨by rintro ⟨⟩, by rintro ⟨⟩⟩
  | h2 =>
    obtain ⟨addr, haddr⟩ := pkg.http2_dials hscheme hhost
    have hconnect : t.connect pkg .h2 u = .ok ⟨addr, !t.cleartext⟩ := by
      rw [connect, haddr]
      rfl
    constructor
    · rintro ⟨c, hc, htls⟩
      rw [hconnect] at hc
      obtain rfl := Except.ok.inj hc
      refine ⟨fun _ => ?_, by rintro ⟨⟩⟩
      rw [← htls, Bool.not_eq_true']
    · rintro ⟨hclear, -⟩
      exact ⟨_, hconnect, by rw [Bool.not_eq_true', hclear rfl]⟩
  | h3 =>
    constructor
    · rintro ⟨c, hc, -⟩
      obtain ⟨addr, haddr, -⟩ := exists_of_map_eq_ok hc
      exact ⟨by rintro ⟨⟩, fun _ => pkg.http3_https haddr⟩
    · rintro ⟨-, hhttps⟩
      obtain ⟨addr, haddr⟩ := pkg.http3_dials (hhttps rfl) hhost
      refine ⟨⟨addr, true⟩, ?_, iff_of_true rfl (hhttps rfl)⟩
      rw [connect, haddr]
      rfl

end Transports

theorem followsScheme_default {pkg : Transports.Packages} {alpn : GoString → Option GoString} {protocol : BackendProtocol}
    {u : BackendURL} (hscheme : u.scheme = str "http" ∨ u.scheme = str "https") (hhost : u.host ≠ []) (r : Request)
    (protoMajor : ℕ) :
    (newTransports alpn (some u) protocol).FollowsScheme pkg
      ((newTransports alpn (some u) protocol).roundTrip r protoMajor) u := by
  have hclear : (newTransports alpn (some u) protocol).cleartext = false ↔ u.scheme = str "https" := by
    rw [cleartext_newTransports]
    rcases hscheme with hs | hs <;>
    · simp only [schemeHint, isCleartext, Option.map_some, Option.getD_some, hs]
      decide
  rw [Transports.followsScheme_iff hscheme hhost]
  exact ⟨fun _ => hclear, fun h => hclear.mp (Transports.cleartext_of_h3 h)⟩

/-- **TLS follows the scheme.** Whatever the default backend, the protocol of the configuration and the one that
the external service asks for: a request reaches the backend of its URL as the scheme says, exactly if it does
not go over a second transport that was built for the other scheme, or over the third without TLS. One
that has no URL of its own always does. -/
theorem tls_follows_scheme_iff (pkg : Transports.Packages) (alpn : GoString → Option GoString) (target : Option BackendURL)
    (protocol : BackendProtocol) (r : Request) (protoMajor : ℕ) {u : BackendURL}
    (hu : r.context.backendURL.or target = some u) (hscheme : u.scheme = str "http" ∨ u.scheme = str "https")
    (hhost : u.hostname ≠ []) :
    let t := newTransports alpn target protocol
    (t.FollowsScheme pkg (t.roundTrip r protoMajor) u ↔
        (t.roundTrip r protoMajor = .h2 → (isCleartext (schemeHint target) = false ↔ u.scheme = str "https")) ∧
        (t.roundTrip r protoMajor = .h3 → u.scheme = str "https")) ∧
      (r.context.backendURL = none → t.FollowsScheme pkg (t.roundTrip r protoMajor) u) := by
  have hhost : u.host ≠ [] := by
    intro hempty
    rw [BackendURL.hostname, hempty] at hhost
    exact hhost rfl
  intro t
  refine ⟨?_, ?_⟩
  · rw [← cleartext_newTransports alpn target protocol]
    exact Transports.followsScheme_iff hscheme hhost
  · intro hnone
    rw [hnone, Option.none_or] at hu
    subst hu
    exact followsScheme_default hscheme hhost r protoMajor

def plainDial (known : Bool) (u : BackendURL) : Except Transports.ConnectError GoString :=
  if known then .ok (canonicalAddr noIdna u) else .error (.unsupportedScheme u.scheme)

theorem plainDial_ok {known : Bool} {u : BackendURL} {addr : GoString} (h : plainDial known u = .ok addr) :
    known = true ∧ addr = canonicalAddr noIdna u := by
  unfold plainDial at h
  split_ifs at h with hknown
  exact ⟨hknown, (Except.ok.inj h).symm⟩

theorem splitHostPort_plainDial {known : Bool} {u : BackendURL} {addr : GoString} (h : plainDial known u = .ok addr)
    (hparsed : u.Parsed) (hname : u.hostname.all (· < 0x80) = true) :
    ∃ port, Net.splitHostPort addr = some (u.hostname, port) := by
  rw [(plainDial_ok h).2]
  exact ⟨_, splitHostPort_canonicalAddr hparsed hname noIdna⟩

def plainPackages : Transports.Packages where
  idna := noIdna
  http2 u := plainDial (u.scheme = str "http" ∨ u.scheme = str "https") u
  http3 u := plainDial (u.scheme = str "https") u
  http2_dials hscheme _ := ⟨_, if_pos (decide_eq_true hscheme)⟩
  http3_dials hscheme _ := ⟨_, if_pos (decide_eq_true hscheme)⟩
  http3_https h := of_decide_eq_true (plainDial_ok h).1
  http2_host := splitHostPort_plainDial
  http3_host := splitHostPort_plainDial

def publicOnly : BackendURLPolicy := backendURLPolicy {}

def chosen (scheme : String) : BackendURL := ⟨str scheme, str "93.184.216.34", []⟩

def redirected (scheme protocol : String) (header : Header) : Request :=
  { method := str "POST"
    url := { path := str "/", rawPath := [], rawQuery := [] }
    header := header
    context := { backendURL := some (chosen scheme), backendProtocol := str protocol } }

def overGRPC : Header := [(str "Content-Type", str "application/grpc")]

def builtFor (scheme : String) : Transports := newTransports (fun _ => none) (some ⟨str scheme, str "backend:8080", []⟩) .unset

theorem tls_follows_scheme_h1 :
    validateBackendURL noNames publicOnly (chosen "https") = .ok () ∧
      (builtFor "http").FollowsScheme plainPackages ((builtFor "http").roundTrip (redirected "https" "" []) 1) (chosen "https") := by
  have hchoice : (builtFor "http").roundTrip (redirected "https" "" []) 1 = .h1 := by decide +kernel
  refine ⟨rfl, (tls_follows_scheme_iff plainPackages _ _ _ _ _ rfl (Or.inr rfl) (by decide)).1.mpr ⟨?_, ?_⟩⟩
  · intro h2
    cases hchoice.symm.trans h2
  · intro h3
    cases hchoice.symm.trans h3

/-- A call goes out in the clear to an `https` backend, TLS is spoken to an `http` one, and a third one is not
contacted at all. -/
theorem tls_against_scheme :
    validateBackendURL noNames publicOnly (chosen "https") = .ok () ∧
      validateBackendURL noNames publicOnly (chosen "http") = .ok () ∧
      (builtFor "http").connect plainPackages ((builtFor "http").roundTrip (redirected "https" "" overGRPC) 2) (chosen "https") =
        .ok ⟨str "93.184.216.34:443", false⟩ ∧
      (builtFor "https").connect plainPackages ((builtFor "https").roundTrip (redirected "http" "h2" []) 1) (chosen "http") =
        .ok ⟨str "93.184.216.34:80", true⟩ ∧
      (builtFor "https").connect plainPackages ((builtFor "https").roundTrip (redirected "http" "h3" []) 1) (chosen "http") =
        .error (.unsupportedScheme (str "http")) := by
  exact ⟨rfl, rfl, by decide +kernel, by decide +kernel, by decide +kernel⟩

end EdgeQuota.Proxy
