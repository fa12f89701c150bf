import EdgeQuota.Go.Url
import EdgeQuota.Middleware.Live

/-! The two checks against private networks: the one of a URL that the external service returns, and the one
of the dialer. Each looks the name up for itself, and the answers need not be the same. -/

deriving instance DecidableEq for EdgeQuota.Go.Net.Addr

namespace EdgeQuota.Proxy
open Go Middleware

def privateNetworks : List Net.IPNet :=
  (["10.0.0.0/8", "172.16.0.0/12", "192.168.0.0/16", "127.0.0.0/8", "169.254.0.0/16", "::1/128", "fc00::/7",
    "fe80::/10"].map str).filterMap Net.parseCIDR

def isPrivateIP (ip : List UInt8) : Bool := privateNetworks.any fun n => n.contains ip

example : privateNetworks.length = 8 ∧ isPrivateIP [172, 31, 255, 1] = true ∧ isPrivateIP [172, 32, 0, 1] = false := by
  decide +kernel

theorem isPrivateIP_as16 (ip : List UInt8) : isPrivateIP (Net.as16 ip) = isPrivateIP ip := by
  unfold isPrivateIP Net.IPNet.contains
  simp only [Net.to4_as16]

/-- What the resolver answers at one moment; a name that cannot be resolved has no addresses, and neither has
one that is not ASCII. -/
structure Resolver where
  answer : GoString → List Net.Addr
  ascii : ∀ name, answer name ≠ [] → name.all (· < 0x80) = true

def Resolver.lookupIPAddr (dns : Resolver) (host : GoString) : List Net.Addr :=
  match Net.parseAddr host with
  | some a => [a]
  | none => if host = [] then [] else dns.answer host

def Resolver.PrivateOnly (dns : Resolver) (host : GoString) : Prop :=
  dns.lookupIPAddr host ≠ [] ∧ ∀ a ∈ dns.lookupIPAddr host, isPrivateIP a.bytes = true

instance (dns : Resolver) (host : GoString) : Decidable (dns.PrivateOnly host) := inferInstanceAs (Decidable (_ ∧ _))

theorem parseAddr_of_parseIP {host : GoString} {ip : List UInt8} (h : Net.parseIP host = some ip) :
    ∃ a, Net.parseAddr host = some a ∧ ip = Net.as16 a.bytes := by
  unfold Net.parseIP at h
  split at h
  · cases h
  · rename_i a ha
    split_ifs at h
    exact ⟨a, ha, (Option.some.inj h).symm⟩

theorem Resolver.lookupIPAddr_of_parseIP (dns : Resolver) {host : GoString} {ip : List UInt8}
    (h : Net.parseIP host = some ip) : ∃ a, dns.lookupIPAddr host = [a] ∧ isPrivateIP a.bytes = isPrivateIP ip := by
  obtain ⟨a, ha, rfl⟩ := parseAddr_of_parseIP h
  refine ⟨a, ?_, (isPrivateIP_as16 a.bytes).symm⟩
  rw [lookupIPAddr, ha]

inductive PolicyError where
  | scheme (scheme : GoString)
  | emptyHost
  | host (host : GoString)
  | privateIP (ip : List UInt8)
  | unresolved (host : GoString)
  | privateHost (host : GoString) (ip : List UInt8)
  deriving DecidableEq

def PolicyError.format : PolicyError → String
  | .scheme _ => "scheme %q is not allowed"
  | .emptyHost => "empty host"
  | .host _ => "host %q is not in the allowed list"
  | .privateIP _ => "IP %s is in a private/reserved range"
  | .unresolved _ => "cannot resolve host %q: %w"
  | .privateHost _ _ => "host %q resolves to private IP %s"

def checkNotPrivate (dns : Resolver) (host : GoString) : Except PolicyError Unit :=
  match Net.parseIP host with
  | some ip => if isPrivateIP ip then .error (.privateIP ip) else .ok ()
  | none =>
    match dns.lookupIPAddr host with
    | [] => .error (.unresolved host)
    | ips =>
      match ips.find? fun a => isPrivateIP a.bytes with
      | some a => .error (.privateHost host a.bytes)
      | none => .ok ()

def schemes (policy : BackendURLPolicy) : List GoString :=
  if policy.allowedSchemes = [] then [str "http", str "https"] else policy.allowedSchemes

def validateBackendURL (dns : Resolver) (policy : BackendURLPolicy) (u : BackendURL) : Except PolicyError Unit :=
  if !(schemes policy).any fun s => equalFold u.scheme s then .error (.scheme u.scheme)
  else if u.hostname = [] then .error .emptyHost
  else if policy.allowedHosts ≠ [] then
    if policy.allowedHosts.any fun h => equalFold u.hostname h then .ok () else .error (.host u.hostname)
  else if policy.denyPrivateNetworks then checkNotPrivate dns u.hostname
  else .ok ()

theorem checkNotPrivate_iff (dns : Resolver) (host : GoString) :
    checkNotPrivate dns host = .ok () ↔
      dns.lookupIPAddr host ≠ [] ∧ ∀ a ∈ dns.lookupIPAddr host, isPrivateIP a.bytes = false := by
  unfold checkNotPrivate
  split
  · rename_i ip hip
    obtain ⟨a, hlookup, hprivate⟩ := dns.lookupIPAddr_of_parseIP hip
    rw [hlookup, List.forall_mem_singleton, hprivate]
    cases isPrivateIP ip <;> simp
  · split
    · rename_i hnone
      simp [hnone]
    · rename_i ips hne
      have hne : dns.lookupIPAddr host ≠ [] := hne
      cases hfind : (dns.lookupIPAddr host).find? fun a => isPrivateIP a.bytes with
      | none =>
        refine iff_of_true rfl ⟨hne, fun a ha => ?_⟩
        exact eq_false_of_ne_true (List.find?_eq_none.mp hfind a ha)
      | some a =>
        refine iff_of_false (by rintro ⟨⟩) ?_
        rintro ⟨-, hall⟩
        have hprivate := List.find?_some hfind
        rw [hall a (List.mem_of_find?_eq_some hfind)] at hprivate
        cases hprivate

theorem validateBackendURL_ok {dns : Resolver} {policy : BackendURLPolicy} {u : BackendURL}
    (h : validateBackendURL dns policy u = .ok ()) :
    u.hostname ≠ [] ∧
      (policy.allowedHosts = [] → policy.denyPrivateNetworks = true → checkNotPrivate dns u.hostname = .ok ()) := by
  unfold validateBackendURL at h
  split_ifs at h with hscheme hhost hlist hallowed hdeny
  · exact ⟨hhost, fun hnone => absurd hnone hlist⟩
  · exact ⟨hhost, fun _ _ => h⟩
  · exact ⟨hhost, fun _ hon => absurd hon hdeny⟩

inductive DialError where
  | address (addr : GoString)
  | port (port : GoString)
  | noHost (host : GoString)
  | blocked (ip : List UInt8)
  | unresolved (host : GoString)
  | allPrivate (host : GoString)
  deriving DecidableEq

def DialError.format : DialError → String
  | .address _ => "address %s: missing port in address"
  | .port _ => "address %s: invalid port"
  | .noHost _ => "lookup %s: no such host"
  | .blocked _ => "dial blocked: %s is a private/reserved IP"
  | .unresolved _ => "dial blocked: cannot resolve %q: %w"
  | .allPrivate _ => "dial blocked: all IPs for %q resolve to private/reserved ranges"

def DialError.onPrivateGrounds : DialError → Bool
  | .blocked _ | .allPrivate _ => true
  | .address _ | .port _ | .noHost _ | .unresolved _ => false

abbrev Dialed := Except DialError (List Net.Addr)

def Dialed.Refused (d : Dialed) : Prop := ∃ e, d = .error e ∧ e.onPrivateGrounds = true

def Dialed.Public (d : Dialed) : Prop := ∀ as, d = .ok as → ∀ a ∈ as, isPrivateIP a.bytes = false

def validPort (port : GoString) : Bool :=
  port.all isDigit && port.foldl (fun n c => n * 10 + digit c) 0 ≤ 65535

theorem length_unspecified : (List.replicate 16 (0 : UInt8)).length = if false then 4 else 16 := rfl

def unspecified : Net.Addr := ⟨false, List.replicate 16 0, [], length_unspecified⟩

def dialAddr (dns : Resolver) (addr : GoString) : Dialed :=
  match Net.splitHostPort addr with
  | none => .error (.address addr)
  | some (host, port) =>
    if !validPort port then .error (.port port)
    else if host = [] then .ok [unspecified]
    else
      match dns.lookupIPAddr host with
      | [] => .error (.noHost host)
      | as => .ok as

/-- `SafeDialer.DialContext`. An address that is found to be safe is dialed without another lookup. -/
def safeDial (enabled : Bool) (dns : Resolver) (addr : GoString) : Dialed :=
  if !enabled then dialAddr dns addr
  else
    match Net.splitHostPort addr with
    | none => dialAddr dns addr
    | some (host, port) =>
      match Net.parseIP host with
      | some ip => if isPrivateIP ip then .error (.blocked ip) else dialAddr dns addr
      | none =>
        match dns.lookupIPAddr host with
        | [] => .error (.unresolved host)
        | ips =>
          match ips.find? fun a => !isPrivateIP a.bytes with
          | none => .error (.allPrivate host)
          | some a => if validPort port then .ok [{ a with zone := [] }] else .error (.port port)

/-- `addrList.forResolve`: an address in brackets is one of IPv6, and otherwise IPv4 comes first. -/
def forResolve (addr : GoString) (as : List Net.Addr) : Option Net.Addr :=
  let want6 : Bool := byte '[' ∈ addr
  (as.find? fun a => (Net.to4 a.bytes).isNone == want6).or as.head?

def dialUDP (dns : Resolver) (addr : GoString) : Dialed :=
  match dialAddr dns addr with
  | .error e => .error e
  | .ok as => .ok (forResolve addr as).toList

theorem dialAddr_not_refused (dns : Resolver) (addr : GoString) : ¬(dialAddr dns addr).Refused := by
  rintro ⟨e, he, hgrounds⟩
  unfold dialAddr at he
  split at he
  · cases he
    cases hgrounds
  · split_ifs at he
    · cases he
      cases hgrounds
    · split at he
      · cases he
        cases hgrounds
      · cases he

theorem public_safeDial (dns : Resolver) (addr : GoString) : (safeDial true dns addr).Public := by
  intro as has a ha
  unfold safeDial at has
  rw [Bool.not_true, if_neg Bool.false_ne_true] at has
  split at has
  · rename_i hsplit
    rw [dialAddr, hsplit] at has
    cases has
  rename_i host port hsplit
  split at has
  · rename_i ip hip
    obtain ⟨b, hlookup, hprivate⟩ := dns.lookupIPAddr_of_parseIP hip
    split_ifs at has with hpublic
    rw [dialAddr, hsplit] at has
    simp only [hlookup] at has
    split_ifs at has with hport hhost
    · rw [hhost] at hip
      cases hip
    · obtain rfl := Except.ok.inj has
      obtain rfl := List.mem_singleton.mp ha
      rw [hprivate]
      exact eq_false_of_ne_true hpublic
  · split at has
    · cases has
    · split at has
      · cases has
      · rename_i b hfind
        split_ifs at has
        obtain rfl := Except.ok.inj has
        obtain rfl := List.mem_singleton.mp ha
        simpa using List.find?_some hfind

theorem refused_safeDial_iff {dns : Resolver} {addr host port : GoString}
    (hsplit : Net.splitHostPort addr = some (host, port)) :
    (safeDial true dns addr).Refused ↔ dns.PrivateOnly host := by
  unfold safeDial Resolver.PrivateOnly
  rw [Bool.not_true, if_neg Bool.false_ne_true, hsplit]
  simp only
  split
  · rename_i ip hip
    obtain ⟨a, hlookup, hprivate⟩ := dns.lookupIPAddr_of_parseIP hip
    rw [hlookup, List.forall_mem_singleton, hprivate]
    split_ifs with hp
    · exact iff_of_true ⟨_, rfl, rfl⟩ ⟨List.cons_ne_nil _ _, hp⟩
    · exact iff_of_false (dialAddr_not_refused dns addr) fun hall => hp hall.2
  · split
    · rename_i hnone
      refine iff_of_false ?_ fun hall => hall.1 hnone
      rintro ⟨e, he, hgrounds⟩
      cases he
      cases hgrounds
    · rename_i hne
      have hne : dns.lookupIPAddr host ≠ [] := hne
      cases hfind : (dns.lookupIPAddr host).find? fun a => !isPrivateIP a.bytes with
      | none =>
        refine iff_of_true ⟨_, rfl, rfl⟩ ⟨hne, fun a ha => ?_⟩
        simpa using List.find?_eq_none.mp hfind a ha
      | some a =>
        have hpublic := List.find?_some hfind
        refine iff_of_false ?_ ?_
        · rintro ⟨e, he, hgrounds⟩
          simp only at he
          split_ifs at he
          cases he
          cases hgrounds
        · rintro ⟨-, hall⟩
          rw [hall a (List.mem_of_find?_eq_some hfind)] at hpublic
          cases hpublic

theorem exists_of_refused_safeDial {dns : Resolver} {addr : GoString} (h : (safeDial true dns addr).Refused) :
    ∃ host port, Net.splitHostPort addr = some (host, port) ∧ dns.PrivateOnly host := by
  cases hsplit : Net.splitHostPort addr with
  | some hp => exact ⟨hp.1, hp.2, rfl, (refused_safeDial_iff hsplit).mp h⟩
  | none =>
    have hdial : safeDial true dns addr = dialAddr dns addr := by
      simp only [safeDial, hsplit, Bool.not_true, Bool.false_eq_true, if_false]
    rw [hdial] at h
    exact absurd h (dialAddr_not_refused dns addr)

theorem ascii_of_checkNotPrivate {dns : Resolver} {u : BackendURL} (hparsed : u.Parsed)
    (h : checkNotPrivate dns u.hostname = .ok ()) : u.hostname.all (· < 0x80) = true := by
  obtain ⟨hlookup, -⟩ := (checkNotPrivate_iff dns u.hostname).mp h
  obtain ⟨hp, -, hname, -⟩ := hparsed.split
  by_cases hcolon : byte ':' ∈ u.hostname
  · rw [hname] at hcolon ⊢
    exact hp.address hcolon
  · unfold Resolver.lookupIPAddr at hlookup
    split at hlookup
    · rename_i a ha
      exact ascii_of_parseAddr ha hcolon
    · split_ifs at hlookup
      · exact absurd rfl hlookup
      · exact dns.ascii u.hostname hlookup

theorem mem_of_forResolve {addr : GoString} {as : List Net.Addr} {a : Net.Addr} (h : a ∈ (forResolve addr as).toList) :
    a ∈ as := by
  have h := Option.mem_toList.mp h
  unfold forResolve at h
  rcases Option.or_eq_some_iff.mp h with hfind | ⟨-, hhead⟩
  · exact List.mem_of_find?_eq_some hfind
  · exact List.mem_of_mem_head? hhead

def uncheckedDial (udp : Bool) (dns : Resolver) (addr : GoString) : Dialed :=
  if udp then dialUDP dns addr else dialAddr dns addr

theorem mem_uncheckedDial {udp : Bool} {dns : Resolver} {addr : GoString} {as : List Net.Addr}
    (h : uncheckedDial udp dns addr = .ok as) : ∃ all, dialAddr dns addr = .ok all ∧ ∀ a ∈ as, a ∈ all := by
  cases udp with
  | false => exact ⟨as, h, fun _ ha => ha⟩
  | true =>
    simp only [uncheckedDial, if_true, dialUDP] at h
    split at h
    · cases h
    · rename_i all hall
      obtain rfl := Except.ok.inj h
      exact ⟨all, hall, fun _ ha => mem_of_forResolve ha⟩

theorem public_uncheckedDial_of_unsplit {udp : Bool} {dns : Resolver} {addr : GoString}
    (h : Net.splitHostPort addr = none) : (uncheckedDial udp dns addr).Public := by
  intro as has
  obtain ⟨all, hall, -⟩ := mem_uncheckedDial has
  simp only [dialAddr, h] at hall
  cases hall

theorem uncheckedDial_not_refused (udp : Bool) (dns : Resolver) (addr : GoString) :
    ¬(uncheckedDial udp dns addr).Refused := by
  have hplain := dialAddr_not_refused dns addr
  cases udp with
  | false => exact hplain
  | true =>
    rintro ⟨e, he, hgrounds⟩
    simp only [uncheckedDial, if_true, dialUDP] at he
    split at he
    · rename_i e' he'
      obtain rfl := Except.error.inj he
      exact hplain ⟨e', he', hgrounds⟩
    · cases he

def loopback : Net.Addr := ⟨true, [127, 0, 0, 1], [], rfl⟩

def noNames : Resolver := ⟨fun _ => [], fun _ h => absurd rfl h⟩

def rebound : Resolver where
  answer name := if name.all (· < 0x80) then [loopback] else []
  ascii name h := by
    by_contra hne
    exact h (if_neg hne)

theorem forResolve_singleton (addr : GoString) (a : Net.Addr) : forResolve addr [a] = some a := by
  unfold forResolve
  simp only [List.find?_singleton, List.head?_cons]
  split_ifs <;> rfl

theorem uncheckedDial_of_lookup (udp : Bool) {dns : Resolver} {addr host port : GoString} {a : Net.Addr}
    (hsplit : Net.splitHostPort addr = some (host, port)) (hport : validPort port = true) (hhost : host ≠ [])
    (hlookup : dns.lookupIPAddr host = [a]) : uncheckedDial udp dns addr = .ok [a] := by
  have hdial : dialAddr dns addr = .ok [a] := by
    simp only [dialAddr, hsplit, hport, Bool.not_true, Bool.false_eq_true, if_false, if_neg hhost, hlookup]
  cases udp with
  | false => exact hdial
  | true => simp only [uncheckedDial, if_true, dialUDP, hdial, forResolve_singleton, Option.toList_some]

theorem public_uncheckedDial_iff (udp : Bool) {addr host port : GoString}
    (hsplit : Net.splitHostPort addr = some (host, port)) (hhost : host ≠ []) (hascii : host.all (· < 0x80) = true) :
    (∀ dns, (uncheckedDial udp dns addr).Public) ↔
      (∃ a, Net.parseAddr host = some a ∧ isPrivateIP a.bytes = false) ∨ validPort port = false := by
  cases hport : validPort port with
  | false =>
    refine iff_of_true ?_ (Or.inr rfl)
    intro dns as has
    obtain ⟨all, hall, -⟩ := mem_uncheckedDial has
    simp only [dialAddr, hsplit, hport, Bool.not_false, if_true] at hall
    cases hall
  | true =>
    simp only [Bool.true_eq_false, or_false]
    cases haddr : Net.parseAddr host with
    | none =>
      refine iff_of_false ?_ (by rintro ⟨a, ha, -⟩; cases ha)
      intro hall
      have hlookup : rebound.lookupIPAddr host = [loopback] := by
        simp only [Resolver.lookupIPAddr, haddr, if_neg hhost, rebound, if_pos hascii]
      have hdial := uncheckedDial_of_lookup udp hsplit hport hhost hlookup
      exact absurd (hall rebound [loopback] hdial loopback (List.mem_singleton_self _)) (by decide +kernel)
    | some a =>
      have hdial : ∀ dns, uncheckedDial udp dns addr = .ok [a] := by
        intro dns
        refine uncheckedDial_of_lookup udp hsplit hport hhost ?_
        rw [Resolver.lookupIPAddr, haddr]
      constructor
      · intro hall
        exact ⟨a, rfl, hall noNames [a] (hdial noNames) a (List.mem_singleton_self a)⟩
      · rintro ⟨b, hb, hpublic⟩ dns as has c hc
        obtain rfl := Option.some.inj hb
        obtain rfl := Except.ok.inj ((hdial dns).symm.trans has)
        rw [List.mem_singleton.mp hc]
        exact hpublic

end EdgeQuota.Proxy
