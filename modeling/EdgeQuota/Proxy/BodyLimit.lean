import EdgeQuota.Proxy.ErrorHandler
import Mathlib.Data.List.Infix

/-! The limit on the size of a request body. The body is streamed through a reader that counts: the read that takes it
over the limit fails, the transport gives the request up, and the error handler answers for it as for any other. -/

namespace EdgeQuota.Proxy
open Go Cache

inductive ReadError where
  | eof
  | other (text : GoString)

structure CountingReader where
  read : ℤ := 0
  limit : ℤ
  limited : Bool := false

def limitText (limit : ℤ) : GoString := str "request body exceeds size limit of " ++ formatInt limit ++ str " bytes"

def CountingReader.count (cr : CountingReader) (b : GoString) (err : Option ReadError) :
    CountingReader × GoString × Option ReadError :=
  let cr := { cr with read := int64 (cr.read + b.length) }
  if 0 < cr.limit ∧ cr.limit < cr.read then ({ cr with limited := true }, b, some (.other (limitText cr.limit)))
  else (cr, b, err)

/-- The body of a client, by the reads that deliver it. The end is told with the last of them. -/
structure ClientBody where
  reads : List GoString := []
  last : GoString := []

def ClientBody.bytes (body : ClientBody) : GoString := body.reads.flatten ++ body.last

def ClientBody.results (body : ClientBody) : List (GoString × Option ReadError) :=
  body.reads.map (fun b => (b, none)) ++ [(body.last, some .eof)]

/-- What the backend gets to see of a body, and the error that the transport gives up with. -/
structure Upload where
  received : GoString
  complete : Bool
  err : Option GoError

def upload (sends : Bool) : CountingReader → GoString → List (GoString × Option ReadError) → Upload
  | _, received, [] => ⟨received, false, none⟩
  | cr, received, (b, err) :: rest =>
    match cr.count b err with
    | (cr, b, none) => upload sends cr (received ++ b) rest
    | (_, b, some .eof) => ⟨received ++ b, true, none⟩
    | (_, b, some (.other text)) => ⟨received ++ (if sends then b else []), false, some (.new text)⟩

def streamed (limit : ℤ) (sends : Bool) : Option ClientBody → Upload
  | none => ⟨[], true, none⟩
  | some body => upload sends { limit := limit } [] body.results

def bytesOf (body : Option ClientBody) : GoString := (body.map ClientBody.bytes).getD []

/-- The transport under the counting reader. It may have the answer of the backend before the body has ended, after so
many reads, and may then send the rest of the body or leave it. -/
structure StreamingTransport where
  sends : Bool
  answer : GoString → BackendResponse
  early : Option ℕ := none
  leaves : Bool := false
  interim : List InterimResponse := []
  pending : ∀ i ∈ interim, i.statusCode ≠ 101

namespace StreamingTransport

def handling (t : StreamingTransport) (u : Upload) : Handling :=
  match u.err with
  | none => (t.answer u.received).handling
  | some err => FailedRoundTrip.handling ⟨t.interim, err, t.pending⟩

/-- What has been sent when the answer comes, if it comes before the body has ended or failed. -/
def answeredAt (t : StreamingTransport) (limit : ℤ) (body : Option ClientBody) : Option Upload :=
  match t.early, body with
  | some k, some body =>
    let u := upload t.sends { limit := limit } [] (body.results.take k)
    if u.err.isNone && !u.complete then some u else none
  | _, _ => none

def roundTrip (t : StreamingTransport) (limit : ℤ) (body : Option ClientBody) : Upload × Handling :=
  let u := streamed limit t.sends body
  match t.answeredAt limit body with
  | some sent => (if t.leaves then sent else u, (t.answer sent.received).handling)
  | none => (u, t.handling u)

end StreamingTransport

section Reads
variable {n limit : ℤ} {sends : Bool} {received : GoString}

theorem count_within (b : GoString) (err : Option ReadError) (hn : 0 ≤ n) (hlimit : limit < 2 ^ 63)
    (h : n + b.length ≤ limit) : CountingReader.count ⟨n, limit, false⟩ b err = (⟨n + b.length, limit, false⟩, b, err) := by
  have hint : int64 (n + b.length) = n + b.length := int64_eq_self_iff.mpr (by omega)
  unfold CountingReader.count
  simp only [hint]
  rw [if_neg]
  omega

theorem count_over (b : GoString) (err : Option ReadError) (hlow : 1 ≤ limit) (h : limit < n + b.length)
    (hsize : n + b.length < 2 ^ 63) :
    CountingReader.count ⟨n, limit, false⟩ b err =
      (⟨n + b.length, limit, true⟩, b, some (.other (limitText limit))) := by
  have hint : int64 (n + b.length) = n + b.length := int64_eq_self_iff.mpr (by omega)
  unfold CountingReader.count
  simp only [hint]
  rw [if_pos ⟨by omega, h⟩]

theorem upload_within (reads : List GoString) (last : GoString) (hn : 0 ≤ n) (hlimit : limit < 2 ^ 63)
    (h : n + (reads.flatten ++ last).length ≤ limit) :
    upload sends ⟨n, limit, false⟩ received (ClientBody.results ⟨reads, last⟩) =
      ⟨received ++ (reads.flatten ++ last), true, none⟩ := by
  induction reads generalizing n received with
  | nil =>
    change upload sends ⟨n, limit, false⟩ received [(last, some .eof)] = _
    rw [upload, count_within last (some .eof) hn hlimit h]
    rfl
  | cons b reads ih =>
    rw [List.flatten_cons, List.append_assoc, List.length_append, Nat.cast_add, ← add_assoc] at h
    change upload sends ⟨n, limit, false⟩ received ((b, none) :: ClientBody.results ⟨reads, last⟩) = _
    rw [upload, count_within b none hn hlimit (by omega)]
    change upload sends ⟨n + b.length, limit, false⟩ (received ++ b) (ClientBody.results ⟨reads, last⟩) = _
    rw [ih (by omega) h, List.flatten_cons, List.append_assoc, List.append_assoc]

theorem upload_over (reads : List GoString) (last : GoString) (hn : 0 ≤ n) (hlow : 1 ≤ limit) (hlimit : limit < 2 ^ 63)
    (h : limit < n + (reads.flatten ++ last).length) (hsize : n + (reads.flatten ++ last).length < 2 ^ 63) :
    ∃ seen, upload sends ⟨n, limit, false⟩ received (ClientBody.results ⟨reads, last⟩) =
      ⟨seen, false, some (.new (limitText limit))⟩ := by
  induction reads generalizing n received with
  | nil =>
    change ∃ seen, upload sends ⟨n, limit, false⟩ received [(last, some .eof)] = _
    rw [upload, count_over last (some .eof) hlow h hsize]
    exact ⟨_, rfl⟩
  | cons b reads ih =>
    rw [List.flatten_cons, List.append_assoc, List.length_append, Nat.cast_add, ← add_assoc] at h hsize
    change ∃ seen, upload sends ⟨n, limit, false⟩ received ((b, none) :: ClientBody.results ⟨reads, last⟩) = _
    rw [upload]
    by_cases hover : limit < n + b.length
    · rw [count_over b none hlow hover (by omega)]
      exact ⟨_, rfl⟩
    · rw [count_within b none hn hlimit (by omega)]
      exact ih (by omega) h hsize

theorem received_upload {cr : CountingReader} {results : List (GoString × Option ReadError)}
    (h : (upload sends cr received results).err = none) :
    (upload sends cr received results).received <+: received ++ (results.map Prod.fst).flatten := by
  induction results generalizing cr received with
  | nil => exact List.prefix_append _ _
  | cons result rest ih =>
    obtain ⟨b, err⟩ := result
    obtain ⟨cr', err', hcount⟩ : ∃ cr' err', cr.count b err = (cr', b, err') := by
      unfold CountingReader.count
      dsimp only
      split_ifs
      · exact ⟨_, _, rfl⟩
      · exact ⟨_, _, rfl⟩
    rw [upload, hcount] at h ⊢
    rw [List.map_cons, List.flatten_cons, ← List.append_assoc]
    match err' with
    | none => exact ih h
    | some .eof => exact List.prefix_append _ _
    | some (.other text) => cases h

end Reads

theorem mem_of_contains {s sub : GoString} (h : contains s sub = true) {c : UInt8} (hc : c ∈ sub) : c ∈ s := by
  obtain ⟨t, ht, hsub⟩ := List.any_eq_true.mp h
  have hsuffix : t <:+ s := (List.mem_tails _ _).mp ht
  have hbegins : sub <+: t := List.isPrefixOf_iff_prefix.mp hsub
  exact hsuffix.subset (hbegins.subset hc)

theorem notMem_itoa (n : ℕ) : byte 'n' ∉ itoa n := by
  intro hmem
  have hdigit := isDigit_of_mem_itoa hmem
  revert hdigit
  decide

theorem isClientDisconnect_limit (limit : ℤ) : isClientDisconnect (.new (limitText limit)) = false := by
  have htext : byte 'n' ∉ limitText limit := by
    have hbefore : byte 'n' ∉ str "request body exceeds size limit of " := by decide +kernel
    have hafter : byte 'n' ∉ str " bytes" := by decide +kernel
    have hformat : byte 'n' ∉ formatInt limit := by
      unfold formatInt
      split_ifs
      · refine List.not_mem_cons_of_ne_of_not_mem (by decide) (notMem_itoa _)
      · exact notMem_itoa _
    simp only [limitText, List.mem_append, hbefore, hformat, hafter, or_self, not_false_eq_true]
  have hnone : ∀ sub : GoString, byte 'n' ∈ sub → contains (limitText limit) sub = false :=
    fun sub hsub => Bool.eq_false_iff.mpr fun hcontains => htext (mem_of_contains hcontains hsub)
  unfold isClientDisconnect
  simp only [GoError.isCanceled, GoError.text, Bool.false_or, Bool.or_eq_false_iff]
  exact ⟨⟨hnone _ (by decide +kernel), hnone _ (by decide +kernel)⟩, hnone _ (by decide +kernel)⟩

section Limit
variable {limit : ℤ} {sends : Bool}

theorem streamed_within (hlimit : limit < 2 ^ 63) {body : Option ClientBody} (h : (bytesOf body).length ≤ limit) :
    streamed limit sends body = ⟨bytesOf body, true, none⟩ := by
  cases body with
  | none => rfl
  | some body =>
    refine (upload_within body.reads body.last le_rfl hlimit ?_).trans rfl
    rw [zero_add]
    exact h

theorem prefix_answeredAt {t : StreamingTransport} {body : Option ClientBody} {u : Upload}
    (h : t.answeredAt limit body = some u) : u.complete = false ∧ u.received <+: bytesOf body := by
  unfold StreamingTransport.answeredAt at h
  split at h
  · rename_i k body _
    dsimp only at h
    split_ifs at h with hopen
    obtain rfl := Option.some.inj h
    rw [Bool.and_eq_true, Option.isNone_iff_eq_none, Bool.not_eq_true'] at hopen
    refine ⟨hopen.2, (received_upload hopen.1).trans ?_⟩
    have hbytes : bytesOf (some body) = (body.results.map Prod.fst).flatten := by
      simp [bytesOf, ClientBody.bytes, ClientBody.results, Function.comp_def]
    rw [hbytes, List.nil_append]
    conv_rhs => rw [← List.take_append_drop k body.results, List.map_append, List.flatten_append]
    exact List.prefix_append _ _
  · cases h

theorem streamed_over (sends : Bool) (hlow : 1 ≤ limit) (hlimit : limit < 2 ^ 63) {body : Option ClientBody}
    (h : limit < (bytesOf body).length) (hsize : ((bytesOf body).length : ℤ) < 2 ^ 63) :
    ∃ seen, streamed limit sends body = ⟨seen, false, some (.new (limitText limit))⟩ := by
  cases body with
  | none =>
    change limit < ((0 : ℕ) : ℤ) at h
    omega
  | some body =>
    refine upload_over body.reads body.last le_rfl hlow hlimit ?_ ?_
    · rw [zero_add]
      exact h
    · rw [zero_add]
      exact hsize

end Limit

/-- **Oversized bodies.** A body within the limit reaches the backend as it is, unless the backend answers before its end
and the rest is left. One over the limit, with fewer than 2^63 bytes, is never seen complete, and the client receives 502,
or what the backend has answered before. -/
theorem oversized_body {limit : ℤ} (hlow : 1 ≤ limit) (hlimit : limit < 2 ^ 63) (body : Option ClientBody)
    (t : StreamingTransport) (cache : Option ℕ) (r : Request) {w : ResponseWriter} (hw : Fresh w) :
    let u := (t.roundTrip limit body).1
    let handling := (t.roundTrip limit body).2
    ((bytesOf body).length ≤ limit → u.received <+: bytesOf body ∧
      (t.answeredAt limit body = none ∨ t.leaves = false → u.complete = true ∧ u.received = bytesOf body)) ∧
    (limit < (bytesOf body).length → ((bytesOf body).length : ℤ) < 2 ^ 63 → u.complete = false ∧
      match t.answeredAt limit body with
      | some sent => handling = (t.answer sent.received).handling
      | none => (received (respond cache r w handling)).map Prod.fst = some 502) := by
  unfold StreamingTransport.roundTrip
  dsimp only
  constructor
  · intro hwithin
    have hwhole : streamed limit t.sends body = _ := streamed_within hlimit hwithin
    cases hearly : t.answeredAt limit body with
    | none =>
      dsimp only
      rw [hwhole]
      exact ⟨List.prefix_rfl, fun _ => ⟨rfl, rfl⟩⟩
    | some sent =>
      dsimp only
      split_ifs with hleaves
      · refine ⟨(prefix_answeredAt hearly).2, fun hrest => ?_⟩
        rcases hrest with hnone | hsends
        · cases hnone
        · exact absurd hleaves (by simp [hsends])
      · rw [hwhole]
        exact ⟨List.prefix_rfl, fun _ => ⟨rfl, rfl⟩⟩
  · intro hover hsize
    obtain ⟨seen, hseen⟩ := streamed_over t.sends hlow hlimit hover hsize
    cases hearly : t.answeredAt limit body with
    | none =>
      refine ⟨congrArg Upload.complete hseen, ?_⟩
      have hhandling : t.handling (streamed limit t.sends body) =
          FailedRoundTrip.handling ⟨t.interim, .new (limitText limit), t.pending⟩ := by
        rw [hseen]
        rfl
      simp only [hhandling, received_failure _ cache r hw, isClientDisconnect_limit]
      rfl
    | some sent =>
      refine ⟨?_, rfl⟩
      dsimp only
      split_ifs
      · exact (prefix_answeredAt hearly).1
      · exact congrArg Upload.complete hseen

theorem pending_nil : ∀ i ∈ ([] : List InterimResponse), i.statusCode ≠ 101 := List.forall_mem_nil _

def accepting : StreamingTransport where
  sends := true
  answer _ := { statusCode := 204, header := [] }
  pending := pending_nil

theorem oversized_body_small :
    (accepting.roundTrip 3 (some { reads := [str "ab"], last := str "c" })).1.received = str "abc" ∧
      (received (respond none asked {} (accepting.roundTrip 3 (some { reads := [str "ab"], last := str "cd" })).2)).map
        Prod.fst = some 502 := by
  have hsmall := (oversized_body (by decide : (1 : ℤ) ≤ 3) (by decide) (some { reads := [str "ab"], last := str "c" })
    accepting none asked (by decide : Fresh {})).1 (by decide +kernel)
  have hlarge := (oversized_body (by decide : (1 : ℤ) ≤ 3) (by decide) (some { reads := [str "ab"], last := str "cd" })
    accepting none asked (by decide : Fresh {})).2 (by decide +kernel) (by decide +kernel)
  exact ⟨(hsmall.2 (Or.inl rfl)).2, hlarge.2⟩

/-- A body of two bytes under a limit of one: the client receives 502, and, from a backend that answers after the first
byte, that answer. -/
theorem oversized_body_bad_gateway :
    let body : Option ClientBody := some { reads := [str "a", str "b"] }
    let status (t : StreamingTransport) := (received (respond none asked {} (t.roundTrip 1 body).2)).map Prod.fst
    (accepting.roundTrip 1 body).1.complete = false ∧ status accepting = some 502 ∧
      status { accepting with early := some 1 } = some 204 := by
  decide +kernel

end EdgeQuota.Proxy
