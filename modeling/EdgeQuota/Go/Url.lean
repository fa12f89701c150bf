import EdgeQuota.Go.Net

/-! The host of a URL: its name and its port as `net/url` tells them apart, and the address that a transport
makes of them. -/

namespace EdgeQuota.Go

def stripBrackets (host : GoString) : GoString :=
  if host.head? = some (byte '[') ∧ host.getLast? = some (byte ']') then host.tail.dropLast else host

def urlSplitHostPort (hostPort : GoString) : GoString × GoString :=
  match cut (byte ':') hostPort.reverse with
  | (port, some front) =>
    if port.all isDigit then (stripBrackets front.reverse, port.reverse) else (stripBrackets hostPort, [])
  | (_, none) => (stripBrackets hostPort, [])

def BackendURL.hostname (u : BackendURL) : GoString := (urlSplitHostPort u.host).1

def BackendURL.port (u : BackendURL) : GoString := (urlSplitHostPort u.host).2

def bracketed (host : GoString) : GoString := if byte ':' ∈ host then byte '[' :: (host ++ [byte ']']) else host

def joinHostPort (host port : GoString) : GoString := bracketed host ++ byte ':' :: port

/-- A host as `url.Parse` accepts it: brackets stand around an IPv6 address and nowhere else, and what follows
the colon behind the name are digits. -/
structure HostPort where
  name : GoString
  port : Option GoString
  plain : byte '[' ∉ name ∧ byte ']' ∉ name
  address : byte ':' ∈ name → name.all (· < 0x80) = true
  digits : ∀ p ∈ port, p.all isDigit = true

def HostPort.text (h : HostPort) : GoString := bracketed h.name ++ h.port.elim [] (byte ':' :: ·)

def BackendURL.Parsed (u : BackendURL) : Prop := ∃ h : HostPort, h.text = u.host

theorem stripBrackets_bracketed {name : GoString} (h : byte '[' ∉ name) : stripBrackets (bracketed name) = name := by
  unfold bracketed
  split_ifs
  · have hlast : (byte '[' :: (name ++ [byte ']'])).getLast? = some (byte ']') := by
      rw [← List.cons_append, List.getLast?_concat]
    rw [stripBrackets, if_pos ⟨rfl, hlast⟩, List.tail_cons, List.dropLast_concat]
  · refine if_neg ?_
    rintro ⟨hhead, -⟩
    exact h (List.mem_of_mem_head? hhead)

theorem notMem_digits {p : GoString} (h : p.all isDigit = true) {c : UInt8} (hc : isDigit c = false) : c ∉ p := by
  intro hmem
  rw [List.all_eq_true.mp h c hmem] at hc
  cases hc

theorem urlSplitHostPort_bracketed {name : GoString} (h : byte '[' ∉ name) :
    urlSplitHostPort (bracketed name) = (name, []) := by
  unfold urlSplitHostPort
  rw [stripBrackets_bracketed h]
  by_cases hcolon : byte ':' ∈ name
  · have hreverse : (bracketed name).reverse = byte ']' :: (name.reverse ++ [byte '[']) := by
      rw [bracketed, if_pos hcolon]
      simp
    have hcut : cut (byte ':') (bracketed name).reverse =
        (byte ']' :: (cut (byte ':') (name.reverse ++ [byte '['])).1,
          (cut (byte ':') (name.reverse ++ [byte '['])).2) := by
      rw [hreverse, cut, if_neg (by decide)]
    rw [hcut]
    split
    · rename_i heq
      rw [← (Prod.mk.inj heq).1]
      rfl
    · rfl
  · rw [bracketed, if_neg hcolon, cut_of_notMem (by simpa using hcolon)]

theorem urlSplitHostPort_text (h : HostPort) : urlSplitHostPort h.text = (h.name, h.port.getD []) := by
  obtain ⟨name, port, hplain, -, hdigits⟩ := h
  cases port with
  | none =>
    rw [HostPort.text, Option.elim_none, List.append_nil]
    exact urlSplitHostPort_bracketed hplain.1
  | some p =>
    have hp := hdigits p rfl
    have hcolon : byte ':' ∉ p.reverse := fun hmem => notMem_digits hp (by decide) (List.mem_reverse.mp hmem)
    rw [HostPort.text, Option.elim_some, urlSplitHostPort, List.reverse_append, List.reverse_cons, List.append_assoc,
      List.singleton_append, cut_append hcolon]
    simp only [List.all_reverse, hp, if_true, List.reverse_reverse, Option.getD_some, stripBrackets_bracketed hplain.1]

theorem BackendURL.Parsed.split {u : BackendURL} (h : u.Parsed) :
    ∃ hp : HostPort, hp.text = u.host ∧ u.hostname = hp.name ∧ u.port = hp.port.getD [] := by
  obtain ⟨hp, hhost⟩ := h
  refine ⟨hp, hhost, ?_, ?_⟩
  · rw [hostname, ← hhost, urlSplitHostPort_text]
  · rw [port, ← hhost, urlSplitHostPort_text]

theorem splitHostPort_joinHostPort {host port : GoString} (hhost : byte '[' ∉ host ∧ byte ']' ∉ host)
    (hport : port.all isDigit = true) : Net.splitHostPort (joinHostPort host port) = some (host, port) := by
  obtain ⟨hopen, hclose⟩ := hhost
  have hcolon : byte ':' ∉ port.reverse := fun hmem => notMem_digits hport (by decide) (List.mem_reverse.mp hmem)
  have hopen' : byte '[' ∉ port := notMem_digits hport (by decide)
  have hclose' : byte ']' ∉ port := notMem_digits hport (by decide)
  unfold Net.splitHostPort joinHostPort
  rw [List.reverse_append, List.reverse_cons, List.append_assoc, List.singleton_append, cut_append hcolon]
  by_cases hname : byte ':' ∈ host
  · have hcut : cut (byte ']') (host ++ [byte ']']) = (host, some []) := cut_append hclose []
    simp only [bracketed, if_pos hname, List.reverse_reverse, List.cons_append, List.head?_cons, if_true,
      List.tail_cons, hcut, hopen, hopen', hclose', or_self, if_false]
  · have hhead : (host ++ byte ':' :: port).head? ≠ some (byte '[') := by
      cases host with
      | nil =>
        intro heq
        exact absurd (Option.some.inj heq) (by decide)
      | cons c host =>
        intro heq
        exact hopen (Option.some.inj heq ▸ List.mem_cons_self ..)
    have hno : byte '[' ∉ host ++ byte ':' :: port ∧ byte ']' ∉ host ++ byte ':' :: port := by
      simp only [List.mem_append, List.mem_cons, not_or]
      exact ⟨⟨hopen, by decide, hopen'⟩, hclose, by decide, hclose'⟩
    simp only [bracketed, List.reverse_reverse, hhead, if_false, hname, hno.1, hno.2, or_self]

theorem mem_of_mem_cut {sep c : UInt8} {s x : GoString} (h : (cut sep s).2 = some x) (hc : c ∈ x) : c ∈ s := by
  induction s with
  | nil => cases h
  | cons a s ih =>
    rw [cut] at h
    split_ifs at h
    · obtain rfl := Option.some.inj h
      exact List.mem_cons_of_mem a hc
    · exact List.mem_cons_of_mem a (ih h)

theorem splitHostPort_text (h : HostPort) : Net.splitHostPort h.text = h.port.map fun p => (h.name, p) := by
  obtain ⟨name, port, ⟨hopen, hclose⟩, -, hdigits⟩ := h
  cases port with
  | some p => exact splitHostPort_joinHostPort ⟨hopen, hclose⟩ (hdigits p rfl)
  | none =>
    rw [HostPort.text, Option.elim_none, List.append_nil, Net.splitHostPort]
    by_cases hcolon : byte ':' ∈ name
    · have hreverse : (bracketed name).reverse = byte ']' :: (name.reverse ++ [byte '[']) := by
        rw [bracketed, if_pos hcolon]
        simp
      split
      · rfl
      · rename_i port front hcut
        -- the last colon is within the brackets, so that none closes before it
        have hfront : byte ']' ∉ front.reverse.tail := by
          intro hmem
          have hmem := List.mem_reverse.mp (List.mem_of_mem_tail hmem)
          rw [hreverse, cut, if_neg (by decide)] at hcut
          have hin := mem_of_mem_cut (Prod.mk.inj hcut).2 hmem
          simp only [List.mem_append, List.mem_reverse, List.mem_singleton] at hin
          exact hin.elim hclose (by decide)
        have hhead : (bracketed name).head? = some (byte '[') := by
          rw [bracketed, if_pos hcolon]
          rfl
        simp only [hhead, if_true, cut_of_notMem hfront]
        rfl
    · rw [bracketed, if_neg hcolon, cut_of_notMem (by simpa using hcolon)]
      rfl

theorem ascii_of_ipv4Fields {s : GoString} {fields : List UInt8} {val digLen : ℕ}
    (h : (Net.ipv4Fields s fields val digLen).isSome = true) : s.all (· < 0x80) = true := by
  induction s generalizing fields val digLen with
  | nil => rfl
  | cons c s ih =>
    rw [Net.ipv4Fields] at h
    rw [List.all_cons, Bool.and_eq_true, decide_eq_true_iff]
    split_ifs at h with hdigit hzero hbig hdot hempty
    · cases h
    · cases h
    · rw [isDigit, Bool.and_eq_true, decide_eq_true_iff, decide_eq_true_iff] at hdigit
      exact ⟨UInt8.lt_of_le_of_lt hdigit.2 (by decide), ih h⟩
    · cases h
    · exact ⟨hdot ▸ (by decide), ih h⟩
    · cases h

theorem ascii_of_parseAddr {s : GoString} {a : Net.Addr} (h : Net.parseAddr s = some a) (hcolon : byte ':' ∉ s) :
    s.all (· < 0x80) = true := by
  unfold Net.parseAddr at h
  split at h
  · cases h
  · rename_i c hfind
    split_ifs at h with hdot hc
    · obtain ⟨ip, hip, -⟩ := Option.map_eq_some_iff.mp h
      exact ascii_of_ipv4Fields (Option.isSome_of_eq_some hip)
    · exact absurd (hc ▸ List.mem_of_find?_eq_some hfind) hcolon

/-- The conversion of names that are not ASCII. -/
structure Idna where
  toASCII : GoString → Option GoString

def noIdna : Idna := ⟨fun _ => none⟩

def Idna.ascii (idna : Idna) (host : GoString) : GoString :=
  if host.all (· < 0x80) then host else (idna.toASCII host).getD host

def defaultPort (scheme : GoString) : GoString :=
  if scheme = str "http" then str "80" else if scheme = str "https" then str "443" else []

def BackendURL.portOr (u : BackendURL) (port : GoString) : GoString := if u.port = [] then port else u.port

def canonicalAddr (idna : Idna) (u : BackendURL) : GoString :=
  joinHostPort (idna.ascii u.hostname) (u.portOr (defaultPort u.scheme))

theorem Idna.ascii_of_ascii (idna : Idna) {host : GoString} (h : host.all (· < 0x80) = true) : idna.ascii host = host :=
  if_pos h

section Names
variable {u : BackendURL} (hparsed : u.Parsed) (hname : u.hostname.all (· < 0x80) = true)
include hparsed hname

theorem splitHostPort_canonicalAddr (idna : Idna) :
    Net.splitHostPort (canonicalAddr idna u) = some (u.hostname, u.portOr (defaultPort u.scheme)) := by
  obtain ⟨hp, -, hhost, hport⟩ := hparsed.split
  have hplain : byte '[' ∉ u.hostname ∧ byte ']' ∉ u.hostname := hhost ▸ hp.plain
  rw [canonicalAddr, idna.ascii_of_ascii hname]
  refine splitHostPort_joinHostPort hplain ?_
  unfold BackendURL.portOr defaultPort
  split_ifs with hnone hhttp hhttps
  · decide
  · decide
  · rfl
  · rw [hport]
    cases hp' : hp.port with
    | none => rfl
    | some p => exact hp.digits p hp'

end Names

end EdgeQuota.Go
