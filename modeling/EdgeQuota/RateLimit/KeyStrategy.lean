import EdgeQuota.Config.Validate
import EdgeQuota.Go.Net

/-! The strategies that extract a rate-limit key from a request. -/

namespace EdgeQuota.RateLimit
open Go Config

inductive KeyStrategy where
  | clientIP (trustedNets : List Net.IPNet) (ipDepth : ℤ)
  | header (headerName : GoString)
  | composite (headerName : GoString) (pathPrefix : Bool)
  | global (key : GoString)

def remoteIP (remoteAddr : GoString) : GoString :=
  match Net.splitHostPort remoteAddr with
  | none => remoteAddr
  | some (ip, _) => ip

def isTrusted (trustedNets : List Net.IPNet) (ipStr : GoString) : Bool :=
  match Net.parseIP ipStr with
  | none => false
  | some ip => trustedNets.any fun n => n.contains ip

def forwardedIP (ipDepth : ℤ) (h : Header) : Option GoString :=
  let xff := h.get (str "X-Forwarded-For")
  let parts := (xff.splitOn (byte ',')).map trimSpace
  let idx := if 0 < ipDepth ∧ ipDepth ≤ parts.length then parts.length - ipDepth.toNat else 0
  if xff ≠ [] ∧ parts.getD idx [] ≠ [] then some (parts.getD idx [])
  else
    let xri := h.get (str "X-Real-IP")
    if xri ≠ [] then some (trimSpace xri) else none

def clientIP (trustedNets : List Net.IPNet) (ipDepth : ℤ) (r : Request) : GoString :=
  let callerIP := remoteIP r.remoteAddr
  if isTrusted trustedNets callerIP then (forwardedIP ipDepth r.header).getD callerIP else callerIP

def requiredHeader (headerName : GoString) (h : Header) : Except ConfigError GoString :=
  if h.get headerName = [] then .error ⟨"header %q is empty or missing", [.str headerName], none⟩
  else .ok (h.get headerName)

def firstPathSegment (path : GoString) : GoString :=
  let path := if path.head? = some (byte '/') then path.tail else path
  let (segment, rest) := cut (byte '/') path
  -- a separator at the very start ends no segment
  if rest.isSome ∧ segment ≠ [] then segment else if path = [] then str "root" else path

namespace KeyStrategy

def extract (ks : KeyStrategy) (r : Request) : Except ConfigError GoString :=
  match ks with
  | .clientIP trustedNets ipDepth => .ok (RateLimit.clientIP trustedNets ipDepth r)
  | .header headerName => requiredHeader headerName r.header
  | .composite headerName pathPrefix =>
    match requiredHeader headerName r.header with
    | .error e => .error e
    | .ok hv => .ok (if pathPrefix then hv ++ str ":" ++ firstPathSegment r.url.path else hv)
  | .global key => .ok key

end KeyStrategy

def withMask (cidr : GoString) : GoString :=
  if byte '/' ∈ cidr then cidr else if byte ':' ∈ cidr then cidr ++ str "/128" else cidr ++ str "/32"

def parseTrustedProxies : List GoString → Except ConfigError (List Net.IPNet)
  | [] => .ok []
  | cidr :: cidrs =>
    if trimSpace cidr = [] then parseTrustedProxies cidrs
    else
      match Net.parseCIDR (withMask (trimSpace cidr)) with
      | none =>
        .error ⟨"invalid trusted_proxies CIDR %q: %w",
          [.str (withMask (trimSpace cidr)), .str (str "invalid CIDR address: " ++ withMask (trimSpace cidr))], none⟩
      | some n =>
        match parseTrustedProxies cidrs with
        | .error e => .error e
        | .ok nets => .ok (n :: nets)

def newKeyStrategy (cfg : KeyStrategyConfig) : Except ConfigError KeyStrategy :=
  match cfg.type with
  | .clientIP | .unset =>
    match parseTrustedProxies cfg.trustedProxies with
    | .error e => .error e
    | .ok nets => .ok (.clientIP nets cfg.trustedIPDepth)
  | .header =>
    if cfg.headerName = [] then .error ⟨"header_name is required when type is %q", [.str cfg.type.text], none⟩
    else .ok (.header (canonicalHeaderKey cfg.headerName))
  | .composite =>
    if cfg.headerName = [] then .error ⟨"header_name is required when type is %q", [.str cfg.type.text], none⟩
    else .ok (.composite (canonicalHeaderKey cfg.headerName) cfg.pathPrefix)
  | .global => .ok (.global (if cfg.globalKey = [] then str "global" else cfg.globalKey))
  | .other _ =>
    .error ⟨"unknown key strategy type %q: must be clientip, header, composite, or global", [.str cfg.type.text], none⟩

section Client
variable {nets : List Net.IPNet}

def Peer (addr : GoString) : Prop :=
  ∃ host port, Net.splitHostPort addr = some (host, port) ∧ (Net.parseAddr host).isSome = true

theorem isTrusted_nil (ip : GoString) : isTrusted [] ip = false := by
  unfold isTrusted
  split <;> rfl

theorem exists_trusted_peer (h : nets ≠ []) : ∃ addr, Peer addr ∧ isTrusted nets (remoteIP addr) = true := by
  obtain ⟨n, nets, rfl⟩ := List.exists_cons_of_ne_nil h
  obtain ⟨addr, host, port, ip, hsplit, hip, hin⟩ := n.exists_peer
  refine ⟨addr, ⟨host, port, hsplit, ?_⟩, ?_⟩
  · unfold Net.parseIP at hip
    split at hip
    · cases hip
    · rename_i a ha
      rw [ha]
      rfl
  · rw [remoteIP, hsplit, isTrusted, hip]
    simp only [List.any_cons, hin, Bool.true_or]

theorem forwardedIP_single (depth : ℤ) {v : GoString} (hv : v ≠ []) (hcomma : byte ',' ∉ v) (htrim : trimSpace v = v) :
    forwardedIP depth [(str "X-Forwarded-For", v)] = some v := by
  have hget : Header.get [(str "X-Forwarded-For", v)] (str "X-Forwarded-For") = v := rfl
  have hsplit : v.splitOn (byte ',') = [v] := by
    have hjoin : ([byte ','].intercalate [v]).splitOn (byte ',') = [v] :=
      List.splitOn_intercalate _ (by simpa using hcomma) (List.cons_ne_nil _ _)
    simpa using hjoin
  unfold forwardedIP
  simp only [hget, hsplit, List.map_cons, List.map_nil, htrim, List.length_singleton]
  have hidx : (if 0 < depth ∧ depth ≤ ((1 : ℕ) : ℤ) then 1 - depth.toNat else 0) = 0 := by
    split_ifs <;> omega
  rw [hidx]
  exact if_pos ⟨hv, hv⟩

end Client
end EdgeQuota.RateLimit
