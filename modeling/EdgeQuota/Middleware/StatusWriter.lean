import EdgeQuota.Proxy.ErrorHandler

/-! The writer in which the chain notes the status of a response for its metrics and its access log. It notes the first
status that the handler writes, which need not be the last. Behind the chain a caching writer may stand in front of it. -/

namespace EdgeQuota.Middleware
open Go Cache Proxy

structure StatusWriter where
  w : ResponseWriter
  code : ℤ := 200
  written : Bool := false
  bytesWritten : ℕ := 0

namespace StatusWriter

def new (w : ResponseWriter) : StatusWriter := { w := w }

def note (sw : StatusWriter) (code : ℤ) : StatusWriter :=
  if sw.written then sw else { sw with code := code, written := true }

def writeHeader (sw : StatusWriter) (code : ℤ) : StatusWriter :=
  let sw := sw.note code
  { sw with w := sw.w.writeHeader code }

def write (sw : StatusWriter) (b : GoString) (n : ℕ) : StatusWriter :=
  let sw := sw.note 200
  { sw with w := sw.w.write b n, bytesWritten := sw.bytesWritten + (b.take n).length }

def handle (sw : StatusWriter) : HandlerOp → StatusWriter
  | .writeHeader code => sw.writeHeader code
  | .write b n => sw.write b n
  | .setHeader key value => { sw with w := sw.w.handle (.setHeader key value) }
  | .addHeader key value => { sw with w := sw.w.handle (.addHeader key value) }
  | .delHeader key => { sw with w := sw.w.handle (.delHeader key) }
  | .clearHeader => { sw with w := sw.w.handle .clearHeader }

end StatusWriter

def headerCalls (cw : CachingResponseWriter) (code : ℤ) : List HandlerOp :=
  if 100 ≤ code ∧ code < 200 then [.writeHeader code]
  else if cw.headerSent then []
  else [.setHeader (str "X-Cache") (str "MISS"), .writeHeader code]

def calls (cw : CachingResponseWriter) : HandlerOp → List HandlerOp
  | .writeHeader code => headerCalls cw code
  | .write b n => (if cw.headerSent then [] else headerCalls cw 200) ++ [.write b n]
  | .setHeader key value => [.setHeader key value]
  | .addHeader key value => [.addHeader key value]
  | .delHeader key => [.delHeader key]
  | .clearHeader => [.clearHeader]

structure Stack where
  cw : CachingResponseWriter
  sw : StatusWriter

def Stack.handle (maxBodySize : ℕ) (st : Stack) (op : HandlerOp) : Stack :=
  ⟨st.cw.handle maxBodySize op, (calls st.cw op).foldl StatusWriter.handle st.sw⟩

def recording (cache : Option ℕ) (r : Request) (w : ResponseWriter) (ops : List HandlerOp) : StatusWriter :=
  match cache with
  | none => ops.foldl StatusWriter.handle (.new w)
  | some maxBodySize => (ops.foldl (Stack.handle maxBodySize) ⟨.new w r, .new w⟩).sw

def deliveredStatus (w : ResponseWriter) : Option ℤ := (received w).map Prod.fst

def statusOf : HandlerOp → Option ℤ
  | .writeHeader code => some code
  | .write _ _ => some 200
  | .setHeader _ _ | .addHeader _ _ | .delHeader _ | .clearHeader => none

def statuses (ops : List HandlerOp) : List ℤ := ops.filterMap statusOf

def isInterim (code : ℤ) : Bool := decide (100 ≤ code ∧ code < 200)

section Noted
variable {sw : StatusWriter}

theorem w_handle (sw : StatusWriter) (op : HandlerOp) : (sw.handle op).w = sw.w.handle op := by
  have hnote : ∀ code, (sw.note code).w = sw.w := by
    intro code
    unfold StatusWriter.note
    split_ifs <;> rfl
  cases op with
  | writeHeader code => exact congrArg (ResponseWriter.writeHeader · code) (hnote code)
  | write b n => exact congrArg (ResponseWriter.write · b n) (hnote 200)
  | setHeader key value => rfl
  | addHeader key value => rfl
  | delHeader key => rfl
  | clearHeader => rfl

theorem w_foldl (sw : StatusWriter) (ops : List HandlerOp) :
    (ops.foldl StatusWriter.handle sw).w = ops.foldl ResponseWriter.handle sw.w := by
  induction ops generalizing sw with
  | nil => rfl
  | cons op ops ih => rw [List.foldl_cons, List.foldl_cons, ih, w_handle]

def Notes (sw sw' : StatusWriter) (status : Option ℤ) : Prop :=
  (sw'.code, sw'.written) = if sw.written then (sw.code, true) else (status.getD sw.code, status.isSome)

theorem Notes.refl (sw : StatusWriter) : Notes sw sw none := by
  unfold Notes
  cases sw.written <;> rfl

theorem Notes.trans {a b c : StatusWriter} {first second : Option ℤ} (hab : Notes a b first) (hbc : Notes b c second) :
    Notes a c (first.or second) := by
  unfold Notes at hab hbc ⊢
  cases hwritten : a.written with
  | true =>
    rw [hwritten, if_pos rfl] at hab
    obtain ⟨hcode, hnoted⟩ := Prod.mk.inj hab
    rw [hnoted, if_pos rfl, hcode] at hbc
    exact hbc
  | false =>
    rw [hwritten, if_neg Bool.false_ne_true] at hab
    obtain ⟨hcode, hnoted⟩ := Prod.mk.inj hab
    rw [hcode, hnoted] at hbc
    cases first <;> exact hbc

theorem notes_handle (sw : StatusWriter) (op : HandlerOp) : Notes sw (sw.handle op) (statusOf op) := by
  cases hwritten : sw.written <;> cases op <;>
    simp [Notes, StatusWriter.handle, StatusWriter.writeHeader, StatusWriter.write, StatusWriter.note, statusOf, hwritten]

theorem head_statuses (op : HandlerOp) (ops : List HandlerOp) :
    (statuses (op :: ops)).head? = (statusOf op).or (statuses ops).head? := by
  cases hstatus : statusOf op <;> simp [statuses, hstatus]

theorem notes_foldl (sw : StatusWriter) (ops : List HandlerOp) :
    Notes sw (ops.foldl StatusWriter.handle sw) (statuses ops).head? := by
  induction ops generalizing sw with
  | nil => exact Notes.refl sw
  | cons op ops ih =>
    rw [head_statuses]
    exact (notes_handle sw op).trans (ih _)

end Noted

def Writes (ops : List HandlerOp) : Prop := ∀ code, .writeHeader code ∈ ops → 100 ≤ code ∧ code ≤ 999 ∧ code ≠ 101

section Delivered
variable {w : ResponseWriter} {op : HandlerOp} {ops : List HandlerOp}

theorem Writes.cons (h : Writes (op :: ops)) : (∀ code, op = .writeHeader code → code ≠ 101) ∧ Writes ops :=
  ⟨fun code hop => (h code (hop ▸ List.mem_cons_self ..)).2.2, fun code hmem => h code (List.mem_cons_of_mem _ hmem)⟩

theorem Writes.notMem (h : Writes ops) : .writeHeader 101 ∉ ops := fun hmem => (h 101 hmem).2.2 rfl

theorem final_handle_of_sent (h : w.wroteHeader = true) (op : HandlerOp) :
    (w.handle op).wroteHeader = true ∧ final (w.handle op) = final w := by
  cases op with
  | writeHeader code =>
    have hsame : w.handle (.writeHeader code) = w := writeHeader_of_sent h
    rw [hsame]
    exact ⟨h, rfl⟩
  | write b n =>
    have hsame : w.handle (.write b n) = { w with body := w.body ++ b.take n } := write_of_sent h b n
    rw [hsame]
    exact ⟨h, rfl⟩
  | setHeader key value => exact ⟨h, rfl⟩
  | addHeader key value => exact ⟨h, rfl⟩
  | delHeader key => exact ⟨h, rfl⟩
  | clearHeader => exact ⟨h, rfl⟩

theorem final_handle_of_open (h : w.wroteHeader = false) (hop : ∀ code, op = .writeHeader code → code ≠ 101) :
    (w.handle op).wroteHeader = ((statusOf op).filter fun code => !isInterim code).isSome ∧
      (final (w.handle op)).map Prod.fst = (statusOf op).filter fun code => !isInterim code := by
  have hfinal : ∀ {code : ℤ}, ¬(100 ≤ code ∧ code < 200) →
      (w.writeHeader code).wroteHeader = true ∧ (final (w.writeHeader code)).map Prod.fst = some code := by
    intro code hcode
    rw [writeHeader_final h hcode, final_commit]
    exact ⟨rfl, rfl⟩
  have hheader : ∀ header, final { w with header := header } = none := fun header => final_of_open h
  cases op with
  | writeHeader code =>
    by_cases hcode : 100 ≤ code ∧ code < 200
    · have hopen := writeHeader_interim h hcode (hop code rfl)
      have hnone : final (w.writeHeader code) = none := by
        rw [hopen]
        exact final_of_open h
      simp only [ResponseWriter.handle, hnone, statusOf, isInterim, hcode, Option.filter_some, and_self, decide_true,
        Bool.not_true, Bool.false_eq_true, if_false, Option.map_none, Option.isSome_none, and_true]
      rw [hopen]
      exact h
    · obtain ⟨hsent, hstatus⟩ := hfinal hcode
      simp only [ResponseWriter.handle, hsent, hstatus, statusOf, isInterim, hcode, Option.filter_some, decide_false,
        Bool.not_false, if_true, Option.isSome_some, and_self]
  | write b n =>
    have hcode : ¬((100 : ℤ) ≤ 200 ∧ (200 : ℤ) < 200) := by decide
    obtain ⟨hsent, hstatus⟩ := hfinal hcode
    have hwrite : w.handle (.write b n) = { w.writeHeader 200 with body := (w.writeHeader 200).body ++ b.take n } :=
      write_of_open h b n
    rw [hwrite]
    exact ⟨hsent, hstatus⟩
  | setHeader key value => exact ⟨h, congrArg (Option.map Prod.fst) (hheader _)⟩
  | addHeader key value => exact ⟨h, congrArg (Option.map Prod.fst) (hheader _)⟩
  | delHeader key => exact ⟨h, congrArg (Option.map Prod.fst) (hheader _)⟩
  | clearHeader => exact ⟨h, congrArg (Option.map Prod.fst) (hheader _)⟩

theorem final_foldl_of_sent (h : w.wroteHeader = true) (ops : List HandlerOp) :
    final (ops.foldl ResponseWriter.handle w) = final w := by
  induction ops generalizing w with
  | nil => rfl
  | cons op ops ih =>
    obtain ⟨hsent, hfinal⟩ := final_handle_of_sent h op
    rw [List.foldl_cons, ih hsent, hfinal]

theorem final_foldl (h : w.wroteHeader = false) (hops : Writes ops) :
    (final (ops.foldl ResponseWriter.handle w)).map Prod.fst = (statuses ops).find? fun code => !isInterim code := by
  induction ops generalizing w with
  | nil => exact congrArg (Option.map Prod.fst) (final_of_open h)
  | cons op ops ih =>
    obtain ⟨hop, hrest⟩ := hops.cons
    obtain ⟨hwrote, hfinal⟩ := final_handle_of_open h hop
    rw [List.foldl_cons]
    cases hstatus : statusOf op with
    | none =>
      rw [hstatus] at hwrote
      rw [ih hwrote hrest]
      simp [statuses, hstatus]
    | some code =>
      rw [hstatus, Option.filter_some] at hwrote hfinal
      cases hinterim : isInterim code with
      | true =>
        rw [hinterim] at hwrote
        rw [ih hwrote hrest]
        simp [statuses, hstatus, hinterim]
      | false =>
        rw [hinterim] at hwrote hfinal
        rw [final_foldl_of_sent hwrote, hfinal]
        simp [statuses, hstatus, hinterim]

theorem deliveredStatus_eq (h : w.wroteHeader = true → (final w).isSome = true) :
    deliveredStatus w = some (((final w).map Prod.fst).getD 200) := by
  unfold deliveredStatus received finishRequest
  cases hw : w.wroteHeader with
  | true =>
    obtain ⟨p, hp⟩ := Option.isSome_iff_exists.mp (h hw)
    simp [hp]
  | false =>
    have hcode : ¬((100 : ℤ) ≤ 200 ∧ (200 : ℤ) < 200) := by decide
    rw [if_neg Bool.false_ne_true, writeHeader_final hw hcode, final_commit, final_of_open hw]
    rfl

end Delivered

section Stack
variable {maxBodySize : ℕ} {r : Request} {w : ResponseWriter} {ops : List HandlerOp}

theorem w_writeHeader (cw : CachingResponseWriter) (code : ℤ) :
    (cw.writeHeader code).w = (headerCalls cw code).foldl ResponseWriter.handle cw.w := by
  unfold CachingResponseWriter.writeHeader headerCalls
  by_cases hinterim : 100 ≤ code ∧ code < 200
  · rw [if_pos hinterim, if_pos hinterim]
    rfl
  · rw [if_neg hinterim, if_neg hinterim]
    cases cw.headerSent with
    | true => rfl
    | false =>
      simp only [Bool.false_eq_true, if_false]
      split
      · rfl
      · split <;> rfl

theorem w_cachingHandle (cw : CachingResponseWriter) (op : HandlerOp) :
    (cw.handle maxBodySize op).w = (calls cw op).foldl ResponseWriter.handle cw.w := by
  cases op with
  | writeHeader code => exact w_writeHeader cw code
  | write b n =>
    have hcapture : ∀ (cw : CachingResponseWriter) (b : GoString), (cw.capture maxBodySize b).w = cw.w :=
      fun cw b => congrArg Prod.fst (cachingWriter_capture maxBodySize cw b)
    simp only [CachingResponseWriter.handle, CachingResponseWriter.write, hcapture, calls, List.foldl_append]
    split_ifs
    · rfl
    · rw [w_writeHeader]
      rfl
  | setHeader key value => rfl
  | addHeader key value => rfl
  | delHeader key => rfl
  | clearHeader => rfl

theorem head_calls {cw : CachingResponseWriter} (h : cw.headerSent = false) (op : HandlerOp) :
    (statuses (calls cw op)).head? = statusOf op := by
  have hheader : ∀ code, (statuses (headerCalls cw code)).head? = some code := by
    intro code
    unfold headerCalls
    rw [h, if_neg Bool.false_ne_true]
    split_ifs <;> rfl
  cases op with
  | writeHeader code => exact hheader code
  | write b n =>
    have hfirst := hheader 200
    unfold statuses at hfirst ⊢
    rw [calls, h, if_neg Bool.false_ne_true, List.filterMap_append, List.head?_append, hfirst]
    rfl
  | setHeader key value => rfl
  | addHeader key value => rfl
  | delHeader key => rfl
  | clearHeader => rfl

structure Stack.Aligned (st : Stack) : Prop where
  same : st.sw.w = st.cw.w
  headerSent : st.sw.written = false → st.cw.headerSent = false

theorem Stack.Aligned.notes {st : Stack} (h : st.Aligned) (maxBodySize : ℕ) (op : HandlerOp) :
    Notes st.sw (st.handle maxBodySize op).sw (statusOf op) := by
  have hcalls := notes_foldl st.sw (calls st.cw op)
  cases hwritten : st.sw.written with
  | true =>
    unfold Notes at hcalls ⊢
    rw [hwritten, if_pos rfl] at hcalls ⊢
    exact hcalls
  | false =>
    rw [head_calls (h.headerSent hwritten)] at hcalls
    exact hcalls

theorem Stack.Aligned.handle {st : Stack} (h : st.Aligned) (maxBodySize : ℕ) (op : HandlerOp) :
    (st.handle maxBodySize op).Aligned := by
  refine ⟨?_, ?_⟩
  · change ((calls st.cw op).foldl StatusWriter.handle st.sw).w = (st.cw.handle maxBodySize op).w
    rw [w_foldl, h.same, w_cachingHandle]
  · intro hopen
    have hnoted := congrArg Prod.snd (h.notes maxBodySize op)
    rw [hopen] at hnoted
    cases hwritten : st.sw.written with
    | true =>
      rw [hwritten] at hnoted
      cases hnoted
    | false =>
      rw [hwritten] at hnoted
      have hsent := h.headerSent hwritten
      cases op with
      | writeHeader code => cases hnoted
      | write b n => cases hnoted
      | setHeader key value => exact hsent
      | addHeader key value => exact hsent
      | delHeader key => exact hsent
      | clearHeader => exact hsent

theorem Stack.Aligned.foldl {st : Stack} (h : st.Aligned) (maxBodySize : ℕ) (ops : List HandlerOp) :
    (ops.foldl (Stack.handle maxBodySize) st).Aligned ∧
      (ops.foldl (Stack.handle maxBodySize) st).cw = ops.foldl (CachingResponseWriter.handle maxBodySize) st.cw ∧
      Notes st.sw (ops.foldl (Stack.handle maxBodySize) st).sw (statuses ops).head? := by
  induction ops generalizing st with
  | nil => exact ⟨h, rfl, Notes.refl st.sw⟩
  | cons op ops ih =>
    obtain ⟨haligned, hcw, hnotes⟩ := ih (h.handle maxBodySize op)
    refine ⟨haligned, hcw, ?_⟩
    rw [head_statuses]
    exact (h.notes maxBodySize op).trans hnotes

theorem statusCode_tracks {cw : CachingResponseWriter} (h : Tracks maxBodySize r cw w) :
    cw.statusCode = ((final w).map Prod.fst).getD 200 := by
  rw [h.state]
  unfold captured
  cases final w with
  | none => rfl
  | some p =>
    simp only
    cases eligible r p.1 p.2 <;> rfl

end Stack

section Recorded
variable {r : Request} {w : ResponseWriter} {ops : List HandlerOp}

theorem code_recording (cache : Option ℕ) (r : Request) (w : ResponseWriter) (ops : List HandlerOp) :
    (recording cache r w ops).code = (statuses ops).head?.getD 200 := by
  cases cache with
  | none => exact congrArg Prod.fst (notes_foldl (.new w) ops)
  | some maxBodySize =>
    have haligned : Stack.Aligned ⟨.new w r, .new w⟩ := ⟨rfl, fun _ => rfl⟩
    exact congrArg Prod.fst (haligned.foldl maxBodySize ops).2.2

theorem deliveredStatus_recording (cache : Option ℕ) (r : Request) (hw : Fresh w) (hops : Writes ops) :
    deliveredStatus (recording cache r w ops).w =
      some (((statuses ops).find? fun code => !isInterim code).getD 200) := by
  have hplain : deliveredStatus (ops.foldl ResponseWriter.handle w) =
      some (((statuses ops).find? fun code => !isInterim code).getD 200) := by
    rw [deliveredStatus_eq ((Tracks.new 0 r hw).foldl hops.notMem).sent, final_foldl hw.wroteHeader hops]
  cases cache with
  | none =>
    change deliveredStatus (ops.foldl StatusWriter.handle (.new w)).w = _
    rw [w_foldl]
    exact hplain
  | some maxBodySize =>
    have haligned : Stack.Aligned ⟨.new w r, .new w⟩ := ⟨rfl, fun _ => rfl⟩
    obtain ⟨hstack, hcw, -⟩ := haligned.foldl maxBodySize ops
    have htracks := (Tracks.new maxBodySize r hw).foldl hops.notMem
    change deliveredStatus (ops.foldl (Stack.handle maxBodySize) ⟨.new w r, .new w⟩).sw.w = _
    rw [hstack.same, hcw, deliveredStatus, received_same htracks.same]
    exact hplain

/-- **The recorded status.** Whatever statuses and bytes a handler writes, with a caching writer in front or without,
the status that is recorded for metrics and logs is the one the client receives and the one the caching writer records,
exactly if the first status that is written is not interim. -/
theorem recorded_status_iff (cache : Option ℕ) (r : Request) (hw : Fresh w) (hops : Writes ops) :
    (deliveredStatus (recording cache r w ops).w = some (recording cache r w ops).code ∧
        ∀ maxBodySize, (ops.foldl (CachingResponseWriter.handle maxBodySize) (.new w r)).statusCode =
          (recording cache r w ops).code) ↔
      ∀ code ∈ (statuses ops).head?, ¬(100 ≤ code ∧ code < 200) := by
  have hcaching : ∀ maxBodySize, (ops.foldl (CachingResponseWriter.handle maxBodySize) (.new w r)).statusCode =
      ((statuses ops).find? fun code => !isInterim code).getD 200 := by
    intro maxBodySize
    rw [statusCode_tracks ((Tracks.new maxBodySize r hw).foldl hops.notMem), final_foldl hw.wroteHeader hops]
  rw [deliveredStatus_recording cache r hw hops, code_recording, Option.some.injEq]
  simp only [hcaching, forall_const, and_self]
  cases hstatuses : statuses ops with
  | nil => exact iff_of_true rfl (by rintro code ⟨⟩)
  | cons first rest =>
    simp only [List.head?_cons, Option.getD_some, Option.mem_some, forall_eq', List.find?_cons]
    cases hinterim : isInterim first with
    | false =>
      have hfinal : ¬(100 ≤ first ∧ first < 200) := of_decide_eq_false hinterim
      exact iff_of_true rfl hfinal
    | true =>
      have hfirst : 100 ≤ first ∧ first < 200 := of_decide_eq_true hinterim
      refine iff_of_false ?_ (not_not.mpr hfirst)
      -- what is found later, or the default, is no interim status
      intro heq
      have hlate : isInterim ((rest.find? fun code => !isInterim code).getD 200) = false := by
        cases hfind : rest.find? fun code => !isInterim code with
        | none => rfl
        | some code =>
          have hfound := List.find?_some hfind
          exact (Bool.not_eq_true' _).mp hfound
      rw [show (!true) = false from rfl] at heq
      simp only at heq
      rw [heq, hinterim] at hlate
      cases hlate

end Recorded

theorem recorded_status_plain :
    deliveredStatus (recording (some 1024) asked {} [.writeHeader 404, .writeHeader 200, .write (str "no") 2]).w =
        some 404 ∧
      (recording (some 1024) asked {} [.writeHeader 404, .writeHeader 200, .write (str "no") 2]).code = 404 := by
  have hops : Writes [.writeHeader 404, .writeHeader 200, .write (str "no") 2] := by
    intro code hmem
    simp only [List.mem_cons, HandlerOp.writeHeader.injEq, reduceCtorEq, List.not_mem_nil, or_false] at hmem
    omega
  have hcode : (recording (some 1024) asked {} [.writeHeader 404, .writeHeader 200, .write (str "no") 2]).code = 404 := by
    decide +kernel
  have hiff := recorded_status_iff (some 1024) asked (by decide : Fresh {}) hops
  have hstatus := (hiff.mpr (by decide +kernel)).1
  rw [hcode] at hstatus
  exact ⟨hstatus, hcode⟩

theorem recorded_status_early_hints :
    let ops : List HandlerOp := [.writeHeader 103, .writeHeader 404]
    (ops.foldl (CachingResponseWriter.handle 1024) (.new {} asked)).statusCode = 404 ∧
      ∀ cache ∈ [none, some 1024],
        deliveredStatus (recording cache asked {} ops).w = some 404 ∧ (recording cache asked {} ops).code = 103 := by
  decide +kernel

end EdgeQuota.Middleware
