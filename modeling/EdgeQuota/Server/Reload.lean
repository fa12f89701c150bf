import EdgeQuota.Lib.Machine
import EdgeQuota.Middleware.Reload

/-! The server around the chain. A reload builds a new proxy where the backend has changed, keeps the old one
where the new one cannot be built, and takes over the configuration in either case. -/

deriving instance DecidableEq for EdgeQuota.Config.TransportConfig

namespace EdgeQuota
open Go Config Lib Middleware

namespace Server

inductive ProxyError where
  | backendURL (url : GoString) (e : GoString)
  | backendProtocol (text : GoString)

structure Proxy where
  target : Option ParsedURL
  timeout : ℤ
  maxIdleConns : ℤ
  idleConnTimeout : ℤ
  transport : TransportConfig
  backendProtocol : BackendProtocol
  h3UDPReceiveBufferSize : ℤ
  h3UDPSendBufferSize : ℤ
  backendTLSInsecure : Bool
  wsLimiter : Option ℤ
  maxRequestBodySize : Option ℤ
  maxWSTransferBytes : Option ℤ
  wsIdleTimeout : Option ℤ
  denyPrivateNetworks : Bool
  allowedWSOrigins : List GoString

def parseDuration (s : GoString) (default : ℤ) : ℤ := if s = [] then default else durationOr s 0

def positive (n : ℤ) : Option ℤ := if 0 < n then some n else none

def defaultBackendURL (cfg : FullConfig) : GoString :=
  if cfg.rateLimit.external.enabled then cfg.fallbackBackendURL else cfg.staticBackendURL

section Build
variable (parseURL : GoString → Except GoString ParsedURL)

def parseTarget (url : GoString) : Except ProxyError (Option ParsedURL) :=
  if url = [] then .ok none
  else
    match parseURL url with
    | .error e => .error (.backendURL url e)
    | .ok u => .ok (some u)

def buildProxy (cfg : FullConfig) : Except ProxyError Proxy :=
  match parseTarget parseURL (defaultBackendURL cfg) with
  | .error e => .error e
  | .ok target =>
    match cfg.upstream.backendProtocol with
    | .other text => .error (.backendProtocol text)
    | protocol =>
      .ok
        { target := target
          timeout := parseDuration cfg.backend.timeout 30000000000
          maxIdleConns := positiveOr cfg.upstream.maxIdleConns 100
          idleConnTimeout := parseDuration cfg.backend.idleConnTimeout 90000000000
          transport := cfg.backend.transport
          backendProtocol := protocol
          h3UDPReceiveBufferSize := cfg.upstream.h3UDPReceiveBufferSize
          h3UDPSendBufferSize := cfg.upstream.h3UDPSendBufferSize
          backendTLSInsecure := cfg.upstream.tlsInsecureVerify
          wsLimiter := positive cfg.serving.maxWebSocketConnsPerKey
          maxRequestBodySize := positive cfg.upstream.maxRequestBodySize
          maxWSTransferBytes := positive cfg.serving.maxWebSocketTransferBytes
          wsIdleTimeout := positive (parseDuration cfg.serving.webSocketIdleTimeout 300000000000)
          denyPrivateNetworks := cfg.upstream.urlPolicy.denyPrivateNetworksEnabled && cfg.rateLimit.external.enabled
          allowedWSOrigins := cfg.serving.allowedWebSocketOrigins }

end Build

structure BuildFields where
  staticBackendURL : GoString
  fallbackBackendURL : Option GoString
  externalEnabled : Bool
  timeout : GoString
  idleConnTimeout : GoString
  transport : TransportConfig
  upstream : ℤ × Bool × ℤ × BackendProtocol × ℤ × ℤ
  denyPrivateNetworks : Bool
  webSockets : ℤ × ℤ × GoString × List GoString

def buildFields (cfg : FullConfig) : BuildFields where
  staticBackendURL := cfg.staticBackendURL
  fallbackBackendURL := if cfg.rateLimit.external.enabled then some cfg.fallbackBackendURL else none
  externalEnabled := cfg.rateLimit.external.enabled
  timeout := cfg.backend.timeout
  idleConnTimeout := cfg.backend.idleConnTimeout
  transport := cfg.backend.transport
  upstream :=
    (cfg.upstream.maxIdleConns, cfg.upstream.tlsInsecureVerify, cfg.upstream.maxRequestBodySize,
      cfg.upstream.backendProtocol, cfg.upstream.h3UDPReceiveBufferSize, cfg.upstream.h3UDPSendBufferSize)
  denyPrivateNetworks := cfg.upstream.urlPolicy.denyPrivateNetworksEnabled
  webSockets :=
    (cfg.serving.maxWebSocketConnsPerKey, cfg.serving.maxWebSocketTransferBytes, cfg.serving.webSocketIdleTimeout,
      cfg.serving.allowedWebSocketOrigins)

theorem buildProxy_congr {parseURL : GoString → Except GoString ParsedURL} {a b : FullConfig}
    (h : buildFields a = buildFields b) : buildProxy parseURL a = buildProxy parseURL b := by
  unfold buildFields at h
  simp only [BuildFields.mk.injEq, Prod.mk.injEq] at h
  obtain ⟨hstatic, hfallback, hexternal, htimeout, hidle, htransport, ⟨hconns, htls, hbody, hprotocol, hreceive, hsend⟩,
    hdeny, hwsConns, hwsBytes, hwsIdle, hwsOrigins⟩ := h
  have hurl : defaultBackendURL a = defaultBackendURL b := by
    unfold defaultBackendURL
    rw [hexternal] at hfallback ⊢
    split_ifs at hfallback ⊢ with henabled
    · exact Option.some.inj hfallback
    · exact hstatic
  unfold buildProxy
  rw [hurl, hexternal, htimeout, hidle, htransport, hconns, htls, hbody, hprotocol, hreceive, hsend, hdeny, hwsConns,
    hwsBytes, hwsIdle, hwsOrigins]

def backendEqual (a b : FullConfig) : Bool :=
  a.backend.timeout = b.backend.timeout ∧ a.upstream.maxIdleConns = b.upstream.maxIdleConns ∧
    a.backend.idleConnTimeout = b.backend.idleConnTimeout ∧
    a.upstream.tlsInsecureVerify = b.upstream.tlsInsecureVerify ∧
    a.upstream.maxRequestBodySize = b.upstream.maxRequestBodySize ∧
    (a.backend.transport = b.backend.transport ∧ a.upstream.backendProtocol = b.upstream.backendProtocol ∧
      a.upstream.h3UDPReceiveBufferSize = b.upstream.h3UDPReceiveBufferSize ∧
      a.upstream.h3UDPSendBufferSize = b.upstream.h3UDPSendBufferSize) ∧
    a.upstream.urlPolicy.denyPrivateNetworksEnabled = b.upstream.urlPolicy.denyPrivateNetworksEnabled ∧
    a.upstream.urlPolicy.allowedSchemes = b.upstream.urlPolicy.allowedSchemes ∧
    a.upstream.urlPolicy.allowedHosts = b.upstream.urlPolicy.allowedHosts

def backendChanged (old new : FullConfig) : Bool :=
  !backendEqual old new || old.staticBackendURL ≠ new.staticBackendURL ||
    old.fallbackBackendURL ≠ new.fallbackBackendURL

end Server

/-- The proxy that serves requests has been built from a configuration, not always from the current one. -/
structure Server (parseURL : GoString → Except GoString ParsedURL) where
  cfg : FullConfig
  chain : Live
  builtFrom : FullConfig
  proxy : Server.Proxy
  built : Server.buildProxy parseURL builtFrom = .ok proxy

namespace Server
variable {parseURL : GoString → Except GoString ParsedURL}

inductive NewError where
  | proxy (e : ProxyError)
  | chain (e : StartError)

def new (r : Reach) (cfg : FullConfig) : Except NewError (Server parseURL) :=
  match h : buildProxy parseURL cfg with
  | .error e => .error (.proxy e)
  | .ok proxy =>
    match Live.new r cfg with
    | .error e => .error (.chain e)
    | .ok chain => .ok ⟨cfg, chain, cfg, proxy, h⟩

def swapProxy (cfg : FullConfig) (s : Server parseURL) : Server parseURL :=
  match h : buildProxy parseURL cfg with
  | .error _ => s
  | .ok proxy => { s with builtFrom := cfg, proxy := proxy, built := h }

def reload (r : Reach) (cfg : FullConfig) (s : Server parseURL) : Except ChainError Unit × Server parseURL :=
  match s.chain.reload r cfg with
  | (.error e, chain) => (.error e, { s with chain := chain })
  | (.ok (), chain) =>
    let s := { s with chain := chain }
    let s := if backendChanged s.cfg cfg then s.swapProxy cfg else s
    (.ok (), { s with cfg := cfg })

def reloads (parseURL : GoString → Except GoString ParsedURL) :
    Machine (Server parseURL) (Reach × FullConfig) (Except ChainError Unit) where
  step s call := s.reload call.1 call.2

def Matches (s : Server parseURL) : Prop := buildFields s.builtFrom = buildFields s.cfg

theorem Matches.proxy {s : Server parseURL} (h : s.Matches) : buildProxy parseURL s.cfg = .ok s.proxy :=
  (buildProxy_congr h).symm.trans s.built

def Follows (s : Server parseURL) (call : Reach × FullConfig) : Prop :=
  (s.reload call.1 call.2).1 = .ok () →
    (backendChanged s.cfg call.2 = true ∧ (buildProxy parseURL call.2).isOk = true) ∨
      buildFields s.cfg = buildFields call.2

theorem matches_swapProxy {cfg : FullConfig} {s : Server parseURL} :
    buildFields (s.swapProxy cfg).builtFrom = buildFields cfg ↔
      (buildProxy parseURL cfg).isOk = true ∨ buildFields s.builtFrom = buildFields cfg := by
  unfold swapProxy
  split
  · rename_i e he
    simp [he, Except.isOk, Except.toBool]
  · rename_i proxy hp
    simp [hp, Except.isOk, Except.toBool]

theorem matches_reload {s : Server parseURL} (h : s.Matches) (call : Reach × FullConfig) :
    (s.reload call.1 call.2).2.Matches ↔ s.Follows call := by
  unfold Follows reload
  rcases s.chain.reload call.1 call.2 with ⟨e | ⟨⟨⟩⟩, chain⟩
  · refine iff_of_true h ?_
    intro herror
    cases herror
  · have hsame : buildFields s.builtFrom = buildFields call.2 ↔ buildFields s.cfg = buildFields call.2 := by
      rw [← show buildFields s.builtFrom = buildFields s.cfg from h]
    simp only [forall_const]
    by_cases hchanged : backendChanged s.cfg call.2 = true
    · rw [if_pos hchanged]
      refine matches_swapProxy.trans ?_
      simp only [hchanged, true_and]
      exact or_congr Iff.rfl hsame
    · rw [if_neg hchanged]
      exact hsame.trans (or_iff_right fun hboth => hchanged hboth.1).symm

theorem run_matches_iff {s : Server parseURL} (h : s.Matches) (calls : List (Reach × FullConfig)) :
    (∀ done, done <+: calls → ((reloads parseURL).run s done).Matches) ↔ (reloads parseURL).Along Follows s calls :=
  Machine.forall_run_iff_along (M := reloads parseURL) (I := Matches) (P := Follows) (K := fun _ _ => True)
    (fun _ _ _ _ => trivial) (fun _ call _ _ hs => matches_reload hs call) trivial h

theorem config_new {r : Reach} {cfg : FullConfig} {s : Server parseURL} (h : new r cfg = .ok s) :
    s.cfg = cfg ∧ s.builtFrom = cfg := by
  unfold new at h
  split at h
  · cases h
  · split at h
    · cases h
    · obtain rfl := Except.ok.inj h
      exact ⟨rfl, rfl⟩

/-- **The proxy in service.** Through any sequence of reloads of a server, the proxy that serves requests stays
one that was built from the same fields as the current configuration has, exactly as long as every reload
that succeeds builds a new one or leaves the fields as they are. -/
theorem serving_proxy_iff {r : Reach} {cfg : FullConfig} {s : Server parseURL} (h : new r cfg = .ok s)
    (calls : List (Reach × FullConfig)) :
    (∀ done, done <+: calls →
      buildFields ((reloads parseURL).run s done).builtFrom = buildFields ((reloads parseURL).run s done).cfg) ↔
      (reloads parseURL).Along Follows s calls := by
  obtain ⟨hcfg, hbuilt⟩ := config_new h
  have hmatches : s.Matches := congrArg buildFields (hbuilt.trans hcfg.symm)
  exact run_matches_iff hmatches calls

def plainServer : Except NewError (Server Live.plainURL) := new {} (Live.plainFull false)

def tuned : FullConfig := { Live.plainFull false with upstream := { maxIdleConns := 7 } }

theorem serving_proxy_tuned :
    ∃ s, plainServer = .ok s ∧
      buildFields ((reloads Live.plainURL).run s [({}, tuned)]).builtFrom =
        buildFields ((reloads Live.plainURL).run s [({}, tuned)]).cfg := by
  obtain ⟨s, hs⟩ := Live.exists_of_isOk (x := plainServer) (by decide +kernel)
  have hfollows : (reloads Live.plainURL).Along Follows s [({}, tuned)] := by
    refine ⟨fun _ => Or.inl ⟨?_, by decide +kernel⟩, trivial⟩
    rw [(config_new hs).1]
    decide +kernel
  exact ⟨s, hs, (serving_proxy_iff hs _).mpr hfollows _ List.prefix_rfl⟩

def limited : FullConfig := { Live.plainFull false with serving := { maxWebSocketConnsPerKey := 3 } }

def mistyped : FullConfig := { tuned with upstream := { maxIdleConns := 7, backendProtocol := .other (str "h4") } }

theorem serving_proxy_outdated :
    validate Live.plainURL limited = .ok limited ∧ validate Live.plainURL mistyped = .ok mistyped ∧
      (plainServer.toOption.map fun s =>
        let s' := (reloads Live.plainURL).run s [({}, limited)]
        (s'.builtFrom.serving.maxWebSocketConnsPerKey, s'.cfg.serving.maxWebSocketConnsPerKey)) = some (0, 3) ∧
      (plainServer.toOption.map fun s =>
        let s' := (reloads Live.plainURL).run s [({}, mistyped), ({}, mistyped)]
        (s'.builtFrom.upstream.maxIdleConns, s'.cfg.upstream.maxIdleConns)) = some (0, 7) := by
  exact ⟨rfl, rfl, by decide +kernel, by decide +kernel⟩

end Server
end EdgeQuota
