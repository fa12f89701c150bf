import EdgeQuota.Cache.Capture
import EdgeQuota.Proxy.ReverseProxy

/-! Round trips that fail. The error handler of the reverse proxy tells the errors of the backend from a client
that has gone by their text, and says nothing to the latter; the server then answers for it. -/

namespace EdgeQuota.Proxy
open Go Cache

inductive GoError where
  | canceled
  | new (text : GoString)
  | wrap (text : GoString) (cause : GoError)
  | join (text : GoString) (first second : GoError)

def GoError.text : GoError → GoString
  | .canceled => str "context canceled"
  | .new text => text
  | .wrap text _ => text
  | .join text _ _ => text

def GoError.isCanceled : GoError → Bool
  | .canceled => true
  | .new _ => false
  | .wrap _ cause => cause.isCanceled
  | .join _ first second => first.isCanceled || second.isCanceled

def isClientDisconnect (err : GoError) : Bool :=
  err.isCanceled || contains err.text (str "client disconnected") ||
    contains err.text (str "connection reset by peer") || contains err.text (str "broken pipe")

def errorHandler (err : GoError) : List HandlerOp := if isClientDisconnect err then [] else [.writeHeader 502]

structure FailedRoundTrip where
  interim : List InterimResponse := []
  err : GoError
  pending : ∀ i ∈ interim, i.statusCode ≠ 101

def FailedRoundTrip.handling (f : FailedRoundTrip) : Handling :=
  ⟨f.interim.flatMap InterimResponse.ops ++ errorHandler f.err, true⟩

def respond (cache : Option ℕ) (r : Request) (w : ResponseWriter) (h : Handling) : ResponseWriter :=
  match cache with
  | none => h.ops.foldl ResponseWriter.handle w
  | some maxBodySize => ((CachingResponseWriter.new w r).relay maxBodySize h).w

/-- A handler that returns without a status has the server send 200. -/
def finishRequest (w : ResponseWriter) : ResponseWriter := if w.wroteHeader then w else w.writeHeader 200

def received (w : ResponseWriter) : Option (ℤ × GoString) :=
  (final (finishRequest w)).map fun p => (p.1, (finishRequest w).body)

theorem received_writeHeader {w : ResponseWriter} (hw : Fresh w) {code : ℤ} (hcode : ¬(100 ≤ code ∧ code < 200)) :
    received (w.writeHeader code) = some (code, []) := by
  have hwritten := writeHeader_final hw.wroteHeader hcode
  have hfinish : finishRequest (w.writeHeader code) = w.writeHeader code := by
    rw [finishRequest, hwritten]
    rfl
  rw [received, hfinish, hwritten, final_commit, Option.map_some, hw.body]

theorem received_open {w : ResponseWriter} (hw : Fresh w) : received w = some (200, []) := by
  have hcode : ¬((100 : ℤ) ≤ 200 ∧ (200 : ℤ) < 200) := by omega
  have hfinish : finishRequest w = finishRequest (w.writeHeader 200) := by
    rw [finishRequest, finishRequest, hw.wroteHeader, writeHeader_final hw.wroteHeader hcode]
    rfl
  rw [← received_writeHeader hw hcode, received, received, hfinish]

theorem received_same {u w : ResponseWriter} (h : withoutXCache u = withoutXCache w) : received u = received w := by
  have hstrip : ∀ v, withoutXCache (finishRequest v) = finishRequest (withoutXCache v) := by
    intro v
    cases hv : v.wroteHeader <;>
      simp [finishRequest, withoutXCache, ResponseWriter.writeHeader, hv]
  have hfinish : withoutXCache (finishRequest u) = withoutXCache (finishRequest w) := by
    rw [hstrip, h, hstrip]
  have hstatus := final_same hfinish
  have hbody : (finishRequest u).body = (finishRequest w).body := by
    show (withoutXCache (finishRequest u)).body = (withoutXCache (finishRequest w)).body
    rw [hfinish]
  have hreceived : ∀ v, received v =
      ((final (finishRequest v)).map Prod.fst).map fun code => (code, (finishRequest v).body) := by
    intro v
    rw [Option.map_map]
    rfl
  rw [hreceived, hreceived, hstatus, hbody]

theorem fresh_copyHeader (h : Header) {w : ResponseWriter} (hw : Fresh w) :
    Fresh ((copyHeader h).foldl ResponseWriter.handle w) := by
  induction h generalizing w with
  | nil => exact hw
  | cons l h ih => exact ih ⟨hw.wroteHeader, hw.body⟩

theorem fresh_interim {i : InterimResponse} (hi : i.statusCode ≠ 101) {w : ResponseWriter} (hw : Fresh w) :
    Fresh (i.ops.foldl ResponseWriter.handle w) := by
  have hcopied := fresh_copyHeader i.header hw
  rw [InterimResponse.ops, List.foldl_append]
  simp only [List.foldl_cons, List.foldl_nil, ResponseWriter.handle,
    writeHeader_interim hcopied.wroteHeader i.informational hi]
  exact ⟨hcopied.wroteHeader, hcopied.body⟩

theorem fresh_interims {is : List InterimResponse} (his : ∀ i ∈ is, i.statusCode ≠ 101) {w : ResponseWriter}
    (hw : Fresh w) : Fresh ((is.flatMap InterimResponse.ops).foldl ResponseWriter.handle w) := by
  induction is generalizing w with
  | nil => exact hw
  | cons i is ih =>
    obtain ⟨hi, his⟩ := List.forall_mem_cons.mp his
    rw [List.flatMap_cons, List.foldl_append]
    exact ih his (fresh_interim hi hw)

theorem notMem_handling (f : FailedRoundTrip) : .writeHeader 101 ∉ f.handling.ops := by
  intro hmem
  rcases List.mem_append.mp hmem with hinterim | hfailed
  · obtain ⟨i, hi, hop⟩ := List.mem_flatMap.mp hinterim
    rcases List.mem_append.mp hop with hcopied | hwritten
    · obtain ⟨l, -, hl⟩ := List.mem_map.mp hcopied
      cases hl
    · simp only [List.mem_cons, HandlerOp.writeHeader.injEq, reduceCtorEq, List.not_mem_nil, or_self,
        or_false] at hwritten
      exact f.pending i hi hwritten.symm
  · unfold errorHandler at hfailed
    split_ifs at hfailed
    · cases hfailed
    · exact absurd (HandlerOp.writeHeader.inj (List.mem_singleton.mp hfailed)) (by decide)

theorem received_failure (f : FailedRoundTrip) (cache : Option ℕ) (r : Request) {w : ResponseWriter} (hw : Fresh w) :
    received (respond cache r w f.handling) = some (if isClientDisconnect f.err then 200 else 502, []) := by
  have hplain : received (f.handling.ops.foldl ResponseWriter.handle w) =
      some (if isClientDisconnect f.err then 200 else 502, []) := by
    have hopen := fresh_interims f.pending hw
    rw [FailedRoundTrip.handling, List.foldl_append, errorHandler]
    split_ifs
    · exact received_open hopen
    · exact received_writeHeader hopen (by omega)
  cases cache with
  | none => exact hplain
  | some maxBodySize =>
    obtain ⟨u, hsame, hrelay⟩ := relay_eq maxBodySize r hw f.handling (notMem_handling f)
    simp only [respond, hrelay]
    exact (received_same hsame).trans hplain

/-- **Failures of the backend.** A round trip that fails is reported to the client with a status of the 500s
exactly if its error is not taken for that of a client that has gone; otherwise the client receives an empty
200. -/
theorem upstream_failure_reported_iff (f : FailedRoundTrip) (cache : Option ℕ) (r : Request) {w : ResponseWriter}
    (hw : Fresh w) :
    ((∃ code body, received (respond cache r w f.handling) = some (code, body) ∧ 500 ≤ code ∧ code ≤ 599) ↔
        isClientDisconnect f.err = false) ∧
      (isClientDisconnect f.err = true → received (respond cache r w f.handling) = some (200, [])) := by
  rw [received_failure f cache r hw]
  cases isClientDisconnect f.err with
  | false => exact ⟨iff_of_true ⟨502, [], rfl, by omega, by omega⟩ rfl, by rintro ⟨⟩⟩
  | true =>
    rw [if_pos rfl]
    refine ⟨iff_of_false ?_ (by rintro ⟨⟩), fun _ => rfl⟩
    rintro ⟨code, body, hsome, hlow, -⟩
    obtain ⟨rfl, -⟩ := Prod.mk.inj (Option.some.inj hsome)
    omega

def failed (text : String) : FailedRoundTrip := { err := .new (str text), pending := fun _ h => by cases h }

def asked : Request := { method := str "GET", url := { path := str "/", rawPath := [], rawQuery := [] }, header := [] }

theorem upstream_failure_refused :
    Fresh {} ∧ ∃ code body,
      received (respond none asked {} (failed "dial tcp 10.0.0.5:8080: connection refused").handling) = some (code, body) ∧
        500 ≤ code ∧ code ≤ 599 := by
  have herr : isClientDisconnect (failed "dial tcp 10.0.0.5:8080: connection refused").err = false := by decide +kernel
  exact ⟨by decide, (upstream_failure_reported_iff _ none asked (by decide)).1.mpr herr⟩

theorem upstream_reset_unreported :
    (failed "read tcp 10.0.0.9:44312->10.0.0.5:8080: connection reset by peer").err.isCanceled = false ∧
      ∀ cache ∈ [none, some 1048576],
        received (respond cache asked {}
          (failed "read tcp 10.0.0.9:44312->10.0.0.5:8080: connection reset by peer").handling) = some (200, []) := by
  decide +kernel

end EdgeQuota.Proxy
