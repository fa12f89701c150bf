import EdgeQuota.Go.Http

/-! The parts of `net` and `net/netip` that the program uses: IP addresses, networks, and the address
of a peer. Of a text that is no address only the failure is kept. -/

namespace EdgeQuota.Go.Net

structure Addr where
  is4 : Bool
  bytes : List UInt8
  zone : GoString
  length : bytes.length = if is4 then 4 else 16

def ipv4Fields : GoString → List UInt8 → ℕ → ℕ → Option { ip : List UInt8 // ip.length = 4 }
  | [], fields, val, _ =>
    if h : fields.length = 3 then some ⟨fields ++ [UInt8.ofNat val], by simp [h]⟩ else none
  | c :: s, fields, val, digLen =>
    if isDigit c then
      if digLen = 1 ∧ val = 0 then none
      else if 255 < val * 10 + digit c then none
      else ipv4Fields s fields (val * 10 + digit c) (digLen + 1)
    else if c = byte '.' then
      if digLen = 0 ∨ s = [] ∨ fields.length = 3 then none
      else ipv4Fields s (fields ++ [UInt8.ofNat val]) 0 0
    else none

def parseIPv4Fields (s : GoString) : Option { ip : List UInt8 // ip.length = 4 } := ipv4Fields s [] 0 0

def parseIPv4 (s : GoString) : Option Addr := (parseIPv4Fields s).map fun ip => ⟨true, ip.1, [], ip.2⟩

def isHex (c : UInt8) : Bool := (unhex c).isSome

def hexValue (digits : GoString) : ℕ := digits.foldl (fun acc c => acc * 16 + ((unhex c).getD 0).toNat) 0

/-- The groups of an address, of which so many may still come, and the place of the ellipsis among the
bytes so far. -/
def ipv6Groups : ℕ → GoString → List UInt8 → Option ℕ → Option (List UInt8 × Option ℕ)
  | 0, _, _, _ => none
  | left + 1, s, ip, ellipsis =>
    let digits := s.takeWhile isHex
    let rest := s.dropWhile isHex
    if digits = [] ∨ 4 < digits.length then none
    else if rest.head? = some (byte '.') then
      -- an IPv4 address in the place of the last two groups
      if (ellipsis = none ∧ ip.length ≠ 12) ∨ 16 < ip.length + 4 then none
      else (parseIPv4Fields s).map fun fields => (ip ++ fields.1, ellipsis)
    else
      let ip := ip ++ [UInt8.ofNat (hexValue digits / 256), UInt8.ofNat (hexValue digits)]
      match rest with
      | [] => some (ip, ellipsis)
      | colon :: s =>
        if colon ≠ byte ':' ∨ s = [] then none
        else if s.head? = some (byte ':') then
          if ellipsis.isSome then none
          else if s.tail = [] then some (ip, some ip.length)
          else ipv6Groups left s.tail ip (some ip.length)
        else ipv6Groups left s ip ellipsis

def expandEllipsis (ip : List UInt8) (ellipsis : Option ℕ) : Option { ip : List UInt8 // ip.length = 16 } :=
  if h : ip.length < 16 then
    ellipsis.map fun e =>
      ⟨ip.take e ++ List.replicate (16 - ip.length) 0 ++ ip.drop e, by
        have := congrArg List.length (List.take_append_drop e ip)
        rw [List.length_append] at this
        simp only [List.length_append, List.length_replicate]
        omega⟩
  else if h : ip.length = 16 ∧ ellipsis = none then some ⟨ip, h.1⟩
  else none

def parseIPv6Bytes (s : GoString) : Option { ip : List UInt8 // ip.length = 16 } :=
  if s = str "::" then some ⟨List.replicate 16 0, rfl⟩
  else
    let groups := if (str "::").isPrefixOf s then ipv6Groups 8 (s.drop 2) [] (some 0) else ipv6Groups 8 s [] none
    groups.bind fun (ip, ellipsis) => expandEllipsis ip ellipsis

def parseIPv6 (s : GoString) : Option Addr :=
  let (s, zone) := cut (byte '%') s
  if zone = some [] then none else (parseIPv6Bytes s).map fun ip => ⟨false, ip.1, zone.getD [], ip.2⟩

def parseAddr (s : GoString) : Option Addr :=
  match s.find? fun c => c = byte '.' ∨ c = byte ':' ∨ c = byte '%' with
  | none => none
  | some c => if c = byte '.' then parseIPv4 s else if c = byte ':' then parseIPv6 s else none

theorem ipv6Groups_of_not_hex {s : GoString} (h : s.takeWhile isHex = []) (left : ℕ) (ip : List UInt8)
    (ellipsis : Option ℕ) : ipv6Groups left s ip ellipsis = none := by
  cases left with
  | zero => rfl
  | succ left =>
    rw [ipv6Groups]
    exact if_pos (Or.inl h)

theorem parseIPv6Bytes_of_not_hex {s : GoString} (h : s.takeWhile isHex = []) (hcolon : s.head? ≠ some (byte ':')) :
    parseIPv6Bytes s = none := by
  have hellipsis : (str "::").isPrefixOf s = false := by
    cases s with
    | nil => rfl
    | cons c s =>
      have hc : (byte ':' == c) = false := beq_eq_false_iff_ne.mpr fun h => hcolon (congrArg some h.symm)
      exact congrArg (· && (str ":").isPrefixOf s) hc
  have hne : s ≠ str "::" := by
    rintro rfl
    exact hcolon rfl
  rw [parseIPv6Bytes, if_neg hne]
  simp only [hellipsis, Bool.false_eq_true, if_false, ipv6Groups_of_not_hex h, Option.bind_none]

theorem parseAddr_of_not_hex {c : UInt8} (hhex : isHex c = false) (hcolon : c ≠ byte ':') (s : GoString) :
    parseAddr (c :: s) = none := by
  have hdigit : isDigit c = false := by
    rw [Bool.eq_false_iff]
    intro h
    rw [isHex, unhex, if_pos h] at hhex
    cases hhex
  have h4 : parseIPv4 (c :: s) = none := by
    rw [parseIPv4, parseIPv4Fields, ipv4Fields, hdigit, if_neg Bool.false_ne_true]
    simp
  have h6 : parseIPv6 (c :: s) = none := by
    have hbytes : parseIPv6Bytes (cut (byte '%') (c :: s)).1 = none := by
      rw [cut]
      split_ifs
      · exact parseIPv6Bytes_of_not_hex rfl (by rintro ⟨⟩)
      · exact parseIPv6Bytes_of_not_hex (by simp [hhex]) (by simpa using hcolon)
    unfold parseIPv6
    simp only [hbytes, Option.map_none, ite_self]
  unfold parseAddr
  split
  · rfl
  · rw [h4, h6, ite_self, ite_self]

def groupsText : List UInt8 → GoString
  | a :: b :: ip => hexEncode [a, b] ++ if ip = [] then [] else byte ':' :: groupsText ip
  | _ => []

theorem isHex_of_mem_hexEncode {s : GoString} {c : UInt8} (h : c ∈ hexEncode s) : isHex c = true := by
  obtain ⟨b, -, hmem⟩ := List.mem_flatMap.mp h
  obtain ⟨hhi, hlo⟩ := unhex_hexDigit b
  simp only [List.mem_cons, List.not_mem_nil, or_false] at hmem
  rcases hmem with rfl | rfl
  · rw [isHex, hhi]
    rfl
  · rw [isHex, hlo]
    rfl

theorem hexValue_hexEncode (a b : UInt8) : hexValue (hexEncode [a, b]) = a.toNat * 256 + b.toNat := by
  have hnib : ∀ c : UInt8, (c / 16).toNat * 16 + (c % 16).toNat = c.toNat := by
    intro c
    rw [UInt8.toNat_div, UInt8.toNat_mod]
    exact Nat.div_add_mod' _ _
  simp only [hexEncode, List.flatMap_cons, List.flatMap_nil, List.append_nil, List.cons_append, List.nil_append,
    hexValue, List.foldl_cons, List.foldl_nil, unhex_hexDigit, Option.getD_some]
  rw [← hnib a, ← hnib b]
  omega

theorem bytes_of_hexValue (a b : UInt8) :
    [UInt8.ofNat (hexValue (hexEncode [a, b]) / 256), UInt8.ofNat (hexValue (hexEncode [a, b]))] = [a, b] := by
  have hb := b.toNat_lt
  have hhi : (a.toNat * 256 + b.toNat) / 256 = a.toNat := by omega
  have hlo : UInt8.ofNat (a.toNat * 256 + b.toNat) = b := by
    rw [← UInt8.toNat_inj, UInt8.toNat_ofNat']
    omega
  rw [hexValue_hexEncode, hhi, hlo, UInt8.ofNat_toNat]

theorem groupsText_cons (a b : UInt8) (ip : List UInt8) :
    groupsText (a :: b :: ip) = hexEncode [a, b] ++ if ip = [] then [] else byte ':' :: groupsText ip := rfl

theorem head_groupsText (a b : UInt8) (ip : List UInt8) :
    ∃ c t, groupsText (a :: b :: ip) = c :: t ∧ isHex c = true :=
  ⟨_, _, rfl, isHex_of_mem_hexEncode (s := [a]) (List.mem_cons_self ..)⟩

theorem takeWhile_group (a b : UInt8) (ip : List UInt8) :
    (groupsText (a :: b :: ip)).takeWhile isHex = hexEncode [a, b] ∧
      (groupsText (a :: b :: ip)).dropWhile isHex = if ip = [] then [] else byte ':' :: groupsText ip := by
  have hhex : ∀ c ∈ hexEncode [a, b], isHex c = true := fun c => isHex_of_mem_hexEncode
  have hcolon : isHex (byte ':') = false := by decide
  rw [groupsText_cons, List.takeWhile_append_of_pos hhex, List.dropWhile_append_of_pos hhex]
  split_ifs
  · simp
  · simp [hcolon]

theorem ipv6Groups_groupsText (n : ℕ) (ip acc : List UInt8) (hlen : ip.length = 2 * (n + 1)) :
    ipv6Groups (n + 1) (groupsText ip) acc none = some (acc ++ ip, none) := by
  -- one group is read, and the rest with its two bytes among those so far
  induction n generalizing ip acc with
  | zero =>
    obtain ⟨a, b, rfl⟩ := List.length_eq_two.mp hlen
    obtain ⟨htake, hdrop⟩ := takeWhile_group a b []
    rw [ipv6Groups]
    simp only [htake, hdrop, bytes_of_hexValue]
    rfl
  | succ n ih =>
    match ip, hlen with
    | a :: b :: c :: d :: ip, hlen =>
      obtain ⟨htake, hdrop⟩ := takeWhile_group a b (c :: d :: ip)
      obtain ⟨x, t, htext, hx⟩ := head_groupsText c d ip
      have hrest : ipv6Groups (n + 1) (groupsText (c :: d :: ip)) (acc ++ [a, b]) none =
          some (acc ++ [a, b] ++ c :: d :: ip, none) := by
        refine ih _ _ ?_
        simp only [List.length_cons] at hlen ⊢
        omega
      have hx' : x ≠ byte ':' := by
        rintro rfl
        cases hx
      rw [ipv6Groups]
      rw [htext] at hrest
      simp only [htake, hdrop, bytes_of_hexValue, htext, reduceCtorEq, if_false]
      rw [if_neg (by simp [hexEncode]), if_neg (by rintro ⟨⟩)]
      simp only [ne_eq, not_true_eq_false, or_self, if_false, List.head?_cons, Option.some.injEq,
        if_neg hx', hrest, List.append_assoc, List.cons_append, List.nil_append]

theorem mem_groupsText {ip : List UInt8} {c : UInt8} (h : c ∈ groupsText ip) : isHex c = true ∨ c = byte ':' := by
  fun_induction groupsText ip with
  | case1 a b ip ih =>
    rcases List.mem_append.mp h with h | h
    · exact Or.inl (isHex_of_mem_hexEncode h)
    · split_ifs at h
      · cases h
      · rcases List.mem_cons.mp h with rfl | h
        · exact Or.inr rfl
        · exact ih h
  | case2 => cases h

theorem notMem_groupsText {c : UInt8} (hhex : isHex c = false) (hcolon : c ≠ byte ':') (ip : List UInt8) :
    c ∉ groupsText ip := by
  intro h
  rcases mem_groupsText h with h | h
  · rw [hhex] at h
    cases h
  · exact hcolon h

theorem parseIPv6Bytes_groupsText {ip : List UInt8} (hlen : ip.length = 16) :
    parseIPv6Bytes (groupsText ip) = some ⟨ip, hlen⟩ := by
  have hgroups := ipv6Groups_groupsText 7 ip [] hlen
  match ip, hlen with
  | a :: b :: ip, hlen =>
    obtain ⟨x, t, htext, hx⟩ := head_groupsText a b ip
    have hx' : byte ':' ≠ x := by
      rintro rfl
      cases hx
    have hne : groupsText (a :: b :: ip) ≠ str "::" := by
      rw [htext]
      exact fun h => hx' (List.cons.inj h).1.symm
    have hellipsis : (str "::").isPrefixOf (groupsText (a :: b :: ip)) = false := by
      rw [htext]
      exact congrArg (· && (str ":").isPrefixOf t) (beq_eq_false_iff_ne.mpr hx')
    rw [parseIPv6Bytes, if_neg hne]
    simp only [hellipsis, Bool.false_eq_true, if_false, hgroups, List.nil_append, Option.bind_some, expandEllipsis]
    rw [dif_neg (by omega), dif_pos ⟨hlen, trivial⟩]

theorem parseAddr_groupsText {ip : List UInt8} (hlen : ip.length = 16) :
    parseAddr (groupsText ip) = some ⟨false, ip, [], hlen⟩ := by
  have h6 : parseIPv6 (groupsText ip) = some ⟨false, ip, [], hlen⟩ := by
    have hcut := cut_of_notMem (notMem_groupsText (c := byte '%') (by decide) (by decide) ip)
    rw [parseIPv6, hcut]
    simp only [reduceCtorEq, if_false, parseIPv6Bytes_groupsText hlen]
    rfl
  have hfind : (groupsText ip).find? (fun c => c = byte '.' ∨ c = byte ':' ∨ c = byte '%') = some (byte ':') := by
    match ip, hlen with
    | a :: b :: c :: ip, _ =>
      have hnone : (hexEncode [a, b]).find? (fun c => c = byte '.' ∨ c = byte ':' ∨ c = byte '%') = none := by
        refine List.find?_eq_none.mpr fun c hc => ?_
        have hhex := isHex_of_mem_hexEncode hc
        rw [decide_eq_true_iff]
        rintro (rfl | rfl | rfl) <;> cases hhex
      rw [groupsText_cons, List.find?_append, hnone]
      rfl
  rw [parseAddr, hfind, h6]
  rfl

def v4InV6Prefix : List UInt8 := List.replicate 10 0 ++ [0xFF, 0xFF]

def to4 (ip : List UInt8) : Option (List UInt8) :=
  if ip.length = 4 then some ip
  else if ip.length = 16 ∧ ip.take 12 = v4InV6Prefix then some (ip.drop 12)
  else none

def as16 (ip : List UInt8) : List UInt8 := if ip.length = 4 then v4InV6Prefix ++ ip else ip

def parseIP (s : GoString) : Option (List UInt8) :=
  match parseAddr s with
  | none => none
  | some a => if a.zone = [] then some (as16 a.bytes) else none

structure IPNet where
  ip : List UInt8
  mask : List UInt8
  length : ip.length = mask.length ∧ (ip.length = 4 ∨ ip.length = 16)

def cidrMask (ones bytes : ℕ) : List UInt8 :=
  (List.range bytes).map fun i => if 8 * (i + 1) ≤ ones then 0xFF else ~~~(0xFF >>> UInt8.ofNat (ones - 8 * i))

def maskIP (ip mask : List UInt8) : List UInt8 := List.zipWith (· &&& ·) ip mask

def parseCIDR (s : GoString) : Option IPNet :=
  match cut (byte '/') s with
  | (_, none) => none
  | (addr, some ones) =>
    match parseAddr addr with
    | none => none
    | some a =>
      let n := ones.foldl (fun n c => n * 10 + digit c) 0
      if a.zone ≠ [] ∨ ones = [] ∨ ones.all isDigit = false ∨ 8 * a.bytes.length < n then none
      else
        -- an IPv4 address has a mask of four bytes, and is one itself from here on
        some ⟨maskIP a.bytes (cidrMask n a.bytes.length), cidrMask n a.bytes.length, by
          have hlen := a.length
          simp only [maskIP, cidrMask, List.length_zipWith, List.length_map, List.length_range, min_self, true_and]
          split_ifs at hlen
          · exact Or.inl hlen
          · exact Or.inr hlen⟩

def IPNet.contains (n : IPNet) (ip : List UInt8) : Bool :=
  let nn := (to4 n.ip).getD n.ip
  let m := if nn.length = 4 then n.mask.drop (n.mask.length - 4) else n.mask
  let ip := (to4 ip).getD ip
  decide (ip.length = nn.length) && decide (maskIP nn m = maskIP ip m)

theorem to4_as16 (ip : List UInt8) : (to4 (as16 ip)).getD (as16 ip) = (to4 ip).getD ip := by
  by_cases h4 : ip.length = 4
  · have hmapped : (v4InV6Prefix ++ ip).length = 16 := by simp [h4, v4InV6Prefix]
    have htake : (v4InV6Prefix ++ ip).take 12 = v4InV6Prefix := List.take_left' rfl
    rw [as16, if_pos h4, to4, to4, if_pos h4, hmapped, if_neg (by decide), if_pos ⟨rfl, htake⟩]
    rfl
  · rw [as16, if_neg h4]

theorem IPNet.contains_as16 (n : IPNet) : n.contains (as16 n.ip) = true := by
  unfold contains
  simp only [to4_as16, decide_true, Bool.and_self]

def splitHostPort (hostport : GoString) : Option (GoString × GoString) :=
  match cut (byte ':') hostport.reverse with
  | (_, none) => none
  | (port, some front) =>
    let host := front.reverse
    let port := port.reverse
    if hostport.head? = some (byte '[') then
      match cut (byte ']') host.tail with
      | (host, some []) => if byte '[' ∈ host ∨ byte '[' ∈ port ∨ byte ']' ∈ port then none else some (host, port)
      | _ => none
    else if byte ':' ∈ host ∨ byte '[' ∈ hostport ∨ byte ']' ∈ hostport then none
    else some (host, port)

theorem splitHostPort_groupsText (ip : List UInt8) :
    splitHostPort (byte '[' :: (groupsText ip ++ str "]:1")) = some (groupsText ip, str "1") := by
  have hreverse : (byte '[' :: (groupsText ip ++ str "]:1")).reverse =
      str "1" ++ byte ':' :: (byte ']' :: ((groupsText ip).reverse ++ [byte '['])) := by
    simp only [List.reverse_cons, List.reverse_append]
    rfl
  have hclose := cut_append (notMem_groupsText (c := byte ']') (by decide) (by decide) ip) []
  have hopen := notMem_groupsText (c := byte '[') (by decide) (by decide) ip
  rw [splitHostPort, hreverse, cut_append (by decide)]
  simp only [List.head?_cons, if_true, List.reverse_cons, List.reverse_append, List.reverse_reverse,
    List.reverse_nil, List.nil_append, List.cons_append, List.tail_cons, hclose, hopen, false_or]
  rfl

theorem length_as16 (n : IPNet) : (as16 n.ip).length = 16 := by
  unfold as16
  split_ifs with h4
  · simp [h4, v4InV6Prefix]
  · exact n.length.2.resolve_left h4

theorem IPNet.exists_peer (n : IPNet) :
    ∃ addr host port ip, splitHostPort addr = some (host, port) ∧ parseIP host = some ip ∧ n.contains ip = true := by
  have hlen := length_as16 n
  have hparse : parseIP (groupsText (as16 n.ip)) = some (as16 n.ip) := by
    have h16 : as16 (as16 n.ip) = as16 n.ip := if_neg (by omega)
    rw [parseIP, parseAddr_groupsText hlen]
    simp only [if_true, h16]
  exact ⟨_, _, _, _, splitHostPort_groupsText _, hparse, n.contains_as16⟩

end EdgeQuota.Go.Net
