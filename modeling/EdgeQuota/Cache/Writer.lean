import EdgeQuota.Cache.Control
import EdgeQuota.Cache.Store

/-! The response writer that captures what a backend answers and, once the handler is done,
stores it. -/

namespace EdgeQuota.Cache
open Go Lib

structure CachingResponseWriter where
  w : ResponseWriter
  req : Request
  statusCode : ℤ := 200
  buf : Option GoString := none
  cacheable : Bool := false
  ttl : ℤ := 0
  vary : List GoString := []
  tags : List GoString := []
  overflow : Bool := false
  headerSent : Bool := false
  complete : Bool := false
  deriving DecidableEq

namespace CachingResponseWriter

def new (w : ResponseWriter) (req : Request) : CachingResponseWriter := { w := w, req := req }

def mapHeader (cw : CachingResponseWriter) (f : Header → Header) : CachingResponseWriter :=
  { cw with w := { cw.w with header := f cw.w.header } }

def writeHeader (cw : CachingResponseWriter) (code : ℤ) : CachingResponseWriter :=
  if 100 ≤ code ∧ code < 200 then { cw with w := cw.w.writeHeader code }
  else if cw.headerSent then cw
  else
    let cw := { cw with headerSent := true, statusCode := code }
    -- every final status is passed on, with the headers as they are by then
    let commit (cw : CachingResponseWriter) : CachingResponseWriter :=
      let cw := cw.mapHeader fun h => h.set (str "X-Cache") (str "MISS")
      { cw with w := cw.w.writeHeader code }
    match isCacheable cw.req code cw.w.header with
    | none => commit cw
    | some ttl =>
      match parseVary cw.w.header with
      | none => commit cw
      | some vary =>
        commit
          { cw with
            cacheable := true
            ttl := ttl
            vary := vary
            tags := parseSurrogateKey cw.w.header
            buf := some [] }

def capture (maxBodySize : ℕ) (cw : CachingResponseWriter) (b : GoString) : CachingResponseWriter :=
  match cw.buf with
  | some body =>
    if cw.cacheable && !cw.overflow then
      if maxBodySize < (body ++ b).length then { cw with overflow := true, buf := none }
      else { cw with buf := some (body ++ b) }
    else cw
  | none => cw

def write (maxBodySize : ℕ) (cw : CachingResponseWriter) (b : GoString) (n : ℕ) : CachingResponseWriter :=
  let cw := if cw.headerSent then cw else cw.writeHeader 200
  capture maxBodySize { cw with w := cw.w.write b n } (b.take n)

def markComplete (cw : CachingResponseWriter) : CachingResponseWriter := { cw with complete := true }

def handle (maxBodySize : ℕ) (cw : CachingResponseWriter) : HandlerOp → CachingResponseWriter
  | .setHeader key value => cw.mapHeader fun h => h.set key value
  | .addHeader key value => cw.mapHeader fun h => h.add key value
  | .delHeader key => cw.mapHeader fun h => h.del key
  | .clearHeader => cw.mapHeader fun _ => []
  | .writeHeader code => cw.writeHeader code
  | .write b n => cw.write maxBodySize b n

def relay (maxBodySize : ℕ) (cw : CachingResponseWriter) (h : Handling) : CachingResponseWriter :=
  let cw := h.ops.foldl (handle maxBodySize) cw
  if h.returned then cw.markComplete else cw

@[simp] theorem req_writeHeader (cw : CachingResponseWriter) (code : ℤ) : (cw.writeHeader code).req = cw.req := by
  unfold writeHeader
  split
  · rfl
  split
  · rfl
  simp only
  split
  · rfl
  · split <;> rfl

@[simp] theorem req_capture (maxBodySize : ℕ) (cw : CachingResponseWriter) (b : GoString) :
    (capture maxBodySize cw b).req = cw.req := by
  unfold capture
  split
  · split_ifs <;> rfl
  · rfl

theorem req_handle (maxBodySize : ℕ) (cw : CachingResponseWriter) (op : HandlerOp) :
    (handle maxBodySize cw op).req = cw.req := by
  cases op with
  | setHeader key value => rfl
  | addHeader key value => rfl
  | delHeader key => rfl
  | clearHeader => rfl
  | writeHeader code => exact req_writeHeader cw code
  | write b n =>
    simp only [handle, write, req_capture]
    split_ifs
    · rfl
    · exact req_writeHeader cw 200

theorem req_relay (maxBodySize : ℕ) (cw : CachingResponseWriter) (h : Handling) :
    (relay maxBodySize cw h).req = cw.req := by
  have hfold : ∀ (ops : List HandlerOp) (cw : CachingResponseWriter),
      (ops.foldl (handle maxBodySize) cw).req = cw.req := by
    intro ops
    induction ops with
    | nil => exact fun _ => rfl
    | cons op ops ih => exact fun cw => (ih _).trans (req_handle maxBodySize cw op)
  unfold relay
  split_ifs
  · exact hfold h.ops cw
  · exact hfold h.ops cw

def pointerEntry (cw : CachingResponseWriter) (now : ℤ) : Stored :=
  ⟨{ statusCode := cw.statusCode, vary := cw.vary, createdAt := now }, cw.req, true⟩

def responseEntry (cw : CachingResponseWriter) (body : GoString) (now : ℤ) : Stored :=
  ⟨{ statusCode := cw.statusCode
     headers := (cw.w.header.del (str "Surrogate-Key")).del (str "Cache-Tag")
     body := body
     vary := cw.vary
     tags := cw.tags
     createdAt := now }, cw.req, false⟩

def storeResponse (cw : CachingResponseWriter) (cacheKey body : GoString) : Program Unit := do
  let storeKey := if cw.vary ≠ [] then keyFromRequest cw.req cw.vary else cacheKey
  if storeKey ≠ cacheKey then
    let now : ℤ ← send .now
    Store.setIndex cacheKey (cw.pointerEntry now) cw.ttl
    let now : ℤ ← send .now
    Store.set storeKey (cw.responseEntry body now) cw.ttl
  else
    let now : ℤ ← send .now
    Store.set storeKey (cw.responseEntry body now) cw.ttl

def finish (cw : CachingResponseWriter) (cacheKey : GoString) : Program Unit :=
  if !cw.headerSent then pure ()
  else if !cw.cacheable then send (.record .uncacheable)
  else do
    send (.record .miss)
    if !cw.complete then pure ()
    else
      match cw.overflow, cw.buf with
      | true, _ => send (.record .skip)
      | false, none => pure ()
      | false, some body =>
        if responseHasSetCookie cw.w.header then pure ()
        else cw.storeResponse cacheKey body

end CachingResponseWriter
end EdgeQuota.Cache
