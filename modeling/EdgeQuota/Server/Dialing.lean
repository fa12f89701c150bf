import EdgeQuota.Proxy.Transports
import EdgeQuota.Server.Reload

/-! The connections that the proxy of a server opens for a request whose backend the external service has named.
The name has been checked when the answer came in; it is looked up again when the connection is opened. -/

namespace EdgeQuota.Server
open Go Config Lib Middleware EdgeQuota.Proxy

section Dial
variable (alpn : GoString → Option GoString) (pkg : Transports.Packages)

def Proxy.transports (p : Proxy) : Transports :=
  newTransports alpn (p.target.map fun u => ⟨u.scheme, u.host, []⟩) p.backendProtocol

def Proxy.overUDP (p : Proxy) (r : Request) (protoMajor : ℕ) : Bool :=
  !isWebSocketUpgrade r && (p.transports alpn).roundTrip r protoMajor = .h3

def Proxy.address (p : Proxy) (r : Request) (protoMajor : ℕ) (u : BackendURL) :
    Except Transports.ConnectError GoString :=
  if isWebSocketUpgrade r then .ok u.host
  else ((p.transports alpn).connect pkg ((p.transports alpn).roundTrip r protoMajor) u).map
    Transports.Connection.addr

def Proxy.dial (dns : Resolver) (p : Proxy) (r : Request) (protoMajor : ℕ) (u : BackendURL) :
    Except Transports.ConnectError Dialed :=
  (p.address alpn pkg r protoMajor u).map fun addr =>
    if p.overUDP alpn r protoMajor then dialUDP dns addr else safeDial p.denyPrivateNetworks dns addr

def Proxy.guarded (p : Proxy) (r : Request) (protoMajor : ℕ) : Bool :=
  p.denyPrivateNetworks && !p.overUDP alpn r protoMajor

variable {alpn pkg} {p : Proxy} {r : Request} {protoMajor : ℕ} {u : BackendURL}

theorem Proxy.guarded_iff :
    p.guarded alpn r protoMajor = true ↔ p.denyPrivateNetworks = true ∧ p.overUDP alpn r protoMajor = false := by
  rw [guarded, Bool.and_eq_true, Bool.not_eq_true']

theorem Proxy.dial_guarded (h : p.guarded alpn r protoMajor = true) (dns : Resolver) :
    p.dial alpn pkg dns r protoMajor u = (p.address alpn pkg r protoMajor u).map (safeDial true dns) := by
  obtain ⟨hdeny, htcp⟩ := guarded_iff.mp h
  simp only [dial, htcp, Bool.false_eq_true, if_false, hdeny]

theorem Proxy.dial_unguarded (h : p.guarded alpn r protoMajor = false) (dns : Resolver) :
    p.dial alpn pkg dns r protoMajor u =
      (p.address alpn pkg r protoMajor u).map (uncheckedDial (p.overUDP alpn r protoMajor) dns) := by
  unfold dial uncheckedDial
  cases hudp : p.overUDP alpn r protoMajor with
  | true => simp only [if_true]
  | false =>
    have hdeny : p.denyPrivateNetworks = false := by
      simpa [guarded, hudp] using h
    simp only [hdeny, safeDial, Bool.not_false, if_true]

theorem Proxy.splitHostPort_address (hparsed : u.Parsed) (hname : u.hostname.all (· < 0x80) = true) {addr : GoString}
    (h : p.address alpn pkg r protoMajor u = .ok addr) {host port : GoString}
    (hsplit : Net.splitHostPort addr = some (host, port)) : host = u.hostname := by
  unfold address at h
  split_ifs at h
  · obtain rfl := Except.ok.inj h
    obtain ⟨hp, htext, hhost, -⟩ := hparsed.split
    rw [← htext, splitHostPort_text] at hsplit
    obtain ⟨p, -, hp⟩ := Option.map_eq_some_iff.mp hsplit
    rw [hhost]
    exact (congrArg Prod.fst hp).symm
  · obtain ⟨c, hc, rfl⟩ := Transports.exists_of_map_eq_ok h
    obtain ⟨port', hport⟩ := Transports.splitHostPort_connect hparsed hname hc
    rw [hsplit] at hport
    exact congrArg Prod.fst (Option.some.inj hport)

end Dial

theorem urlPolicy_new {r : Reach} {cfg : FullConfig} {s : Live} (h : Live.new r cfg = .ok s) :
    s.urlPolicy = backendURLPolicy cfg.upstream.urlPolicy := by
  unfold Live.new at h
  split at h
  · cases h
  split at h
  · cases h
  rename_i s₀ hfallback
  obtain ⟨s₁, hredis, h⟩ := exists_of_bind_eq_ok h
  obtain ⟨s₂, hauth, h⟩ := exists_of_bind_eq_ok h
  obtain ⟨s₃, hexternal, h⟩ := exists_of_bind_eq_ok h
  obtain rfl := Except.ok.inj h
  obtain ⟨ks, fb, rfl, -, -⟩ := Live.storeFallback_spec hfallback
  obtain ⟨b, n, rfl, -⟩ := Live.initRedis_spec hredis rfl
  obtain ⟨cache, owned, n, authCache, rfl, hcache, hauthCache⟩ := Live.initAuth_spec hauth rfl rfl
  obtain ⟨cache', owned', n', ext, rfl, -⟩ :=
    Live.initExternal_spec hexternal rfl hcache fun hon => (hauthCache hon).1
  unfold Live.initResponseCache
  split_ifs <;> rfl

theorem urlPolicy_reload (r : Reach) (cfg : FullConfig) (s : Live) :
    ((s.reload r cfg).1 = .ok () → (s.reload r cfg).2.urlPolicy = backendURLPolicy cfg.upstream.urlPolicy) ∧
      (∀ e, (s.reload r cfg).1 = .error e → (s.reload r cfg).2.urlPolicy = s.urlPolicy) := by
  unfold Live.reload
  split
  · exact ⟨by rintro ⟨⟩, fun _ _ => rfl⟩
  · simp only
    split
    · exact ⟨by rintro ⟨⟩, fun _ _ => rfl⟩
    · exact ⟨fun _ => rfl, by rintro e ⟨⟩⟩

section Policy
variable {parseURL : GoString → Except GoString ParsedURL}

theorem chain_swapProxy (cfg : FullConfig) (s : Server parseURL) :
    (s.swapProxy cfg).chain = s.chain := by
  unfold swapProxy
  split <;> rfl

theorem reload_error {r : Reach} {cfg : FullConfig} {s : Server parseURL} {e : ChainError}
    (h : (s.chain.reload r cfg).1 = .error e) :
    s.reload r cfg = (.error e, { s with chain := (s.chain.reload r cfg).2 }) := by
  unfold reload
  rw [show s.chain.reload r cfg = (.error e, (s.chain.reload r cfg).2) from Prod.ext h rfl]

theorem reload_ok {r : Reach} {cfg : FullConfig} {s : Server parseURL} (h : (s.chain.reload r cfg).1 = .ok ()) :
    (s.reload r cfg).2.chain = (s.chain.reload r cfg).2 ∧ (s.reload r cfg).2.cfg = cfg := by
  unfold reload
  rw [show s.chain.reload r cfg = (.ok (), (s.chain.reload r cfg).2) from Prod.ext h rfl]
  refine ⟨?_, rfl⟩
  simp only
  split_ifs
  · exact chain_swapProxy cfg _
  · rfl

theorem urlPolicy_run {r : Reach} {cfg : FullConfig} {s : Server parseURL} (h : new r cfg = .ok s)
    (calls : List (Reach × FullConfig)) :
    ((reloads parseURL).run s calls).chain.urlPolicy =
      backendURLPolicy ((reloads parseURL).run s calls).cfg.upstream.urlPolicy := by
  have hstart : s.chain.urlPolicy = backendURLPolicy s.cfg.upstream.urlPolicy := by
    unfold new at h
    split at h
    · cases h
    · split at h
      · cases h
      · rename_i chain hchain
        obtain rfl := Except.ok.inj h
        exact urlPolicy_new hchain
  refine Machine.run_of_invariant (P := fun _ _ => True)
    (I := fun s : Server parseURL => s.chain.urlPolicy = backendURLPolicy s.cfg.upstream.urlPolicy) ?_ hstart
    (Machine.along_of_forall fun _ _ _ => trivial)
  intro s call hs _
  show (s.reload call.1 call.2).2.chain.urlPolicy = backendURLPolicy (s.reload call.1 call.2).2.cfg.upstream.urlPolicy
  obtain ⟨hok, herror⟩ := urlPolicy_reload call.1 call.2 s.chain
  cases hreload : (s.chain.reload call.1 call.2).1 with
  | error e =>
    rw [reload_error hreload]
    exact (herror e hreload).trans hs
  | ok done =>
    obtain ⟨hchain, hcfg⟩ := reload_ok hreload
    rw [hchain, hcfg]
    exact hok hreload

end Policy

section Rebinding
variable (alpn : GoString → Option GoString) (pkg : Transports.Packages)

def Proxy.StaysPublic (p : Proxy) (r : Request) (protoMajor : ℕ) (u : BackendURL) : Prop :=
  ∀ dns d, p.dial alpn pkg dns r protoMajor u = .ok d → d.Public

def Proxy.Undialable (p : Proxy) (r : Request) (protoMajor : ℕ) (u : BackendURL) : Prop :=
  ∀ addr, p.address alpn pkg r protoMajor u = .ok addr → ∀ host port, Net.splitHostPort addr = some (host, port) →
    validPort port = false

variable {alpn pkg} {r : Request} {protoMajor : ℕ} {u : BackendURL}

theorem Proxy.staysPublic_of_guarded {p : Proxy} (h : p.guarded alpn r protoMajor = true) :
    p.StaysPublic alpn pkg r protoMajor u := by
  intro dns d hd
  rw [dial_guarded h] at hd
  obtain ⟨addr, -, rfl⟩ := Transports.exists_of_map_eq_ok hd
  exact public_safeDial dns addr

theorem Proxy.staysPublic_unguarded_iff {p : Proxy} {dns₀ : Resolver} (h : p.guarded alpn r protoMajor = false)
    (hparsed : u.Parsed) (hhost : u.hostname ≠ []) (hcheck : checkNotPrivate dns₀ u.hostname = .ok ()) :
    p.StaysPublic alpn pkg r protoMajor u ↔
      (Net.parseAddr u.hostname).isSome = true ∨ p.Undialable alpn pkg r protoMajor u := by
  have hname := ascii_of_checkNotPrivate hparsed hcheck
  obtain ⟨-, hpublic⟩ := (checkNotPrivate_iff dns₀ u.hostname).mp hcheck
  constructor
  · intro hall
    by_contra hne
    obtain ⟨hnone, hdialable⟩ := not_or.mp hne
    have hnone := Option.not_isSome_iff_eq_none.mp hnone
    simp only [Undialable, not_forall] at hdialable
    obtain ⟨addr, haddr, host, port, hsplit, hport⟩ := hdialable
    obtain rfl := splitHostPort_address hparsed hname haddr hsplit
    have hdialed : ∀ dns, (uncheckedDial (p.overUDP alpn r protoMajor) dns addr).Public := by
      intro dns
      refine hall dns _ ?_
      rw [dial_unguarded h, haddr]
      rfl
    rcases (public_uncheckedDial_iff _ hsplit hhost hname).mp hdialed with ⟨a, ha, -⟩ | hinvalid
    · cases hnone.symm.trans ha
    · exact hport hinvalid
  · intro hcond dns d hd
    rw [dial_unguarded h] at hd
    obtain ⟨addr, haddr, rfl⟩ := Transports.exists_of_map_eq_ok hd
    cases hsplit : Net.splitHostPort addr with
    | none => exact public_uncheckedDial_of_unsplit hsplit
    | some hp =>
      obtain ⟨host, port⟩ := hp
      obtain rfl := splitHostPort_address hparsed hname haddr hsplit
      refine (public_uncheckedDial_iff _ hsplit hhost hname).mpr ?_ dns
      rcases hcond with hliteral | hundialable
      · obtain ⟨a, ha⟩ := Option.isSome_iff_exists.mp hliteral
        -- an address leads to itself, and it has been found public
        have hlookup : dns₀.lookupIPAddr u.hostname = [a] := by
          rw [Resolver.lookupIPAddr, ha]
        exact Or.inl ⟨a, ha, hpublic a (by rw [hlookup]; exact List.mem_singleton_self a)⟩
      · exact Or.inr (hundialable addr haddr _ _ hsplit)

/-- **No dial to private networks.** On a server that is reached by reloads, with private networks denied
and no hosts listed, the connections for a URL that the policy has accepted stay out of private networks
whatever the resolver answers later, exactly if the proxy has been built to check, and the connection is not one of
HTTP/3; or if there is nothing to look up. -/
theorem stays_public_iff {parseURL : GoString → Except GoString ParsedURL} {reach : Reach} {cfg : FullConfig}
    {s₀ : Server parseURL} (hstart : Server.new reach cfg = .ok s₀) (calls : List (Reach × FullConfig))
    {dns₀ : Resolver} {s : Server parseURL} (hs : s = (Server.reloads parseURL).run s₀ calls)
    (hdeny : s.cfg.upstream.urlPolicy.denyPrivateNetworksEnabled = true)
    (hhosts : s.cfg.upstream.urlPolicy.allowedHosts = []) (hparsed : u.Parsed)
    (haccepted : validateBackendURL dns₀ s.chain.urlPolicy u = .ok ()) :
    s.proxy.StaysPublic alpn pkg r protoMajor u ↔
      (s.proxy.denyPrivateNetworks = true ∧ s.proxy.overUDP alpn r protoMajor = false) ∨
        (Net.parseAddr u.hostname).isSome = true ∨ s.proxy.Undialable alpn pkg r protoMajor u := by
  have hpolicy : s.chain.urlPolicy = backendURLPolicy s.cfg.upstream.urlPolicy := by
    rw [hs]
    exact Server.urlPolicy_run hstart calls
  obtain ⟨hhost, hcheck⟩ := validateBackendURL_ok haccepted
  rw [hpolicy] at hcheck
  cases hg : s.proxy.guarded alpn r protoMajor with
  | true => exact iff_of_true (Proxy.staysPublic_of_guarded hg) (Or.inl (Proxy.guarded_iff.mp hg))
  | false =>
    have hnot := Proxy.guarded_iff.not.mp (ne_true_of_eq_false hg)
    rw [Proxy.staysPublic_unguarded_iff hg hparsed hhost (hcheck hhosts hdeny), or_iff_right hnot]

def parsedURL (raw : GoString) : Except GoString ParsedURL :=
  if (str "https://").isPrefixOf raw then
    .ok ⟨str "https", str "backend:443", str "443", fun host => str "https://" ++ host⟩
  else Live.plainURL raw

def secured : FullConfig := { Live.plainFull true with fallbackBackendURL := str "https://backend:443" }

def tenantURL : BackendURL := ⟨str "https", str "tenant.example:443", []⟩

theorem parsed_tenantURL : tenantURL.Parsed :=
  ⟨⟨str "tenant.example", some (str "443"), by decide, by decide, by decide⟩, rfl⟩

def publicNames : Resolver where
  answer name := if name.all (· < 0x80) then [⟨true, [93, 184, 216, 34], [], rfl⟩] else []
  ascii name h := by
    by_contra hne
    exact h (if_neg hne)

def sentTo (u : BackendURL) (protocol : String) : Request :=
  { method := str "GET"
    url := { path := str "/", rawPath := [], rawQuery := [] }
    header := []
    context := { backendURL := some u, backendProtocol := str protocol } }

def securedServer : Except Server.NewError (Server parsedURL) := Server.new {} secured

theorem stays_public_h2 :
    ∃ s, securedServer = .ok s ∧ s.proxy.StaysPublic (fun _ => none) plainPackages (sentTo tenantURL "h2") 1 tenantURL := by
  obtain ⟨s, hs, hdeny, hhosts, haccepted, hchecks, htcp⟩ := exists_of_any (x := securedServer)
    (P := fun s => s.cfg.upstream.urlPolicy.denyPrivateNetworksEnabled = true ∧
      s.cfg.upstream.urlPolicy.allowedHosts = [] ∧
      validateBackendURL publicNames s.chain.urlPolicy tenantURL = .ok () ∧ s.proxy.denyPrivateNetworks = true ∧
      s.proxy.overUDP (fun _ => none) (sentTo tenantURL "h2") 1 = false) (by decide +kernel)
  exact ⟨s, hs, (stays_public_iff hs [] rfl hdeny hhosts parsed_tenantURL haccepted).mpr (Or.inl ⟨hchecks, htcp⟩)⟩

/-- The name is answered differently once it has been accepted: over HTTP/3, and after a reload that turned the
external service on. -/
theorem rebound_to_loopback :
    validate parsedURL secured = .ok secured ∧ isPrivateIP loopback.bytes = true ∧
      (securedServer.toOption.map fun s =>
        (validateBackendURL publicNames s.chain.urlPolicy tenantURL,
          s.proxy.dial (fun _ => none) plainPackages rebound (sentTo tenantURL "h3") 1 tenantURL)) =
        some (.ok (), .ok (.ok [loopback])) ∧
      validate Live.plainURL (Live.plainFull true) = .ok (Live.plainFull true) ∧
      (Server.plainServer.toOption.map fun s =>
        let s := (Server.reloads Live.plainURL).run s [({}, Live.plainFull true)]
        (s.cfg.rateLimit.external.enabled, validateBackendURL publicNames s.chain.urlPolicy tenantURL,
          s.proxy.dial (fun _ => none) plainPackages rebound (sentTo tenantURL "h1") 1 tenantURL)) =
        some (true, .ok (), .ok (.ok [loopback])) := by
  exact ⟨rfl, by decide +kernel, by decide +kernel, rfl, by decide +kernel⟩

theorem denyPrivateNetworks_buildProxy {parseURL : GoString → Except GoString ParsedURL} {cfg : FullConfig} {p : Proxy}
    (h : buildProxy parseURL cfg = .ok p) :
    p.denyPrivateNetworks =
      (cfg.upstream.urlPolicy.denyPrivateNetworksEnabled && cfg.rateLimit.external.enabled) := by
  unfold buildProxy at h
  split at h
  · cases h
  · split at h
    · cases h
    · obtain rfl := Except.ok.inj h
      rfl

/-- **Accepted backends are reached.** With the same answers of the resolver, the proxy that is built from a
configuration refuses a URL that its policy has accepted, exactly if it checks, the connection is not
one of HTTP/3, the operator lists hosts, and the one that is dialed has private addresses only. -/
theorem refused_iff {parseURL : GoString → Except GoString ParsedURL} {cfg : FullConfig} {p : Proxy} {dns : Resolver}
    (hbuilt : buildProxy parseURL cfg = .ok p) (hparsed : u.Parsed)
    (haccepted : validateBackendURL dns (backendURLPolicy cfg.upstream.urlPolicy) u = .ok ()) :
    (∃ d, p.dial alpn pkg dns r protoMajor u = .ok d ∧ d.Refused) ↔
      cfg.upstream.urlPolicy.denyPrivateNetworksEnabled = true ∧ cfg.rateLimit.external.enabled = true ∧
        p.overUDP alpn r protoMajor = false ∧ cfg.upstream.urlPolicy.allowedHosts ≠ [] ∧
        ∃ addr host port, p.address alpn pkg r protoMajor u = .ok addr ∧
          Net.splitHostPort addr = some (host, port) ∧ dns.PrivateOnly host := by
  have hbuilds := denyPrivateNetworks_buildProxy hbuilt
  constructor
  · rintro ⟨d, hd, hrefused⟩
    cases hg : p.guarded alpn r protoMajor with
    | false =>
      rw [Proxy.dial_unguarded hg] at hd
      obtain ⟨addr, -, rfl⟩ := Transports.exists_of_map_eq_ok hd
      exact absurd hrefused (uncheckedDial_not_refused _ dns addr)
    | true =>
      obtain ⟨hdenies, htcp⟩ := Proxy.guarded_iff.mp hg
      obtain ⟨hdeny, hexternal⟩ := Bool.and_eq_true_iff.mp (hbuilds.symm.trans hdenies)
      rw [Proxy.dial_guarded hg] at hd
      obtain ⟨addr, haddr, rfl⟩ := Transports.exists_of_map_eq_ok hd
      obtain ⟨host, port, hsplit, honly⟩ := exists_of_refused_safeDial hrefused
      refine ⟨hdeny, hexternal, htcp, ?_, addr, host, port, haddr, hsplit, honly⟩
      -- without a list, the policy has looked at the same addresses
      intro hnone
      have hcheck := (validateBackendURL_ok haccepted).2 hnone hdeny
      obtain ⟨-, hpublic⟩ := (checkNotPrivate_iff dns u.hostname).mp hcheck
      obtain rfl := Proxy.splitHostPort_address hparsed (ascii_of_checkNotPrivate hparsed hcheck) haddr hsplit
      obtain ⟨a, ha⟩ := List.exists_mem_of_ne_nil _ honly.1
      exact absurd ((hpublic a ha).symm.trans (honly.2 a ha)) Bool.false_ne_true
  · rintro ⟨hdeny, hexternal, htcp, -, addr, host, port, haddr, hsplit, honly⟩
    have hdenies : p.denyPrivateNetworks = true := by
      rw [hbuilds, hdeny, hexternal]
      rfl
    refine ⟨safeDial true dns addr, ?_, (refused_safeDial_iff hsplit).mpr honly⟩
    rw [Proxy.dial_guarded (Proxy.guarded_iff.mpr ⟨hdenies, htcp⟩), haddr]
    rfl

theorem refused_public_name :
    ∃ p, buildProxy parsedURL secured = .ok p ∧
      ¬∃ d, p.dial (fun _ => none) plainPackages publicNames (sentTo tenantURL "h2") 1 tenantURL = .ok d ∧ d.Refused := by
  obtain ⟨p, hp⟩ := Live.exists_of_isOk (x := buildProxy parsedURL secured) (by decide +kernel)
  have haccepted : validateBackendURL publicNames (backendURLPolicy secured.upstream.urlPolicy) tenantURL = .ok () := by
    decide +kernel
  refine ⟨p, hp, (refused_iff hp parsed_tenantURL haccepted).not.mpr ?_⟩
  rintro ⟨-, -, -, hlisted, -⟩
  exact hlisted rfl

def listing : FullConfig :=
  { Live.plainFull true with upstream := { urlPolicy := { allowedHosts := [str "10.0.0.5"] } } }

def listedURL : BackendURL := ⟨str "http", str "10.0.0.5:8080", []⟩

theorem listed_host_refused :
    validate Live.plainURL listing = .ok listing ∧
      validateBackendURL publicNames (backendURLPolicy listing.upstream.urlPolicy) listedURL = .ok () ∧
      ((buildProxy Live.plainURL listing).toOption.map fun p =>
        p.dial (fun _ => none) plainPackages publicNames (sentTo listedURL "") 1 listedURL) =
        some (.ok (.error (.blocked (Net.as16 [10, 0, 0, 5])))) := by
  exact ⟨rfl, by decide +kernel, by decide +kernel⟩

end Rebinding

end EdgeQuota.Server
