import EdgeQuota.Proxy.ResponseCache

/-! The answer of a backend on its way through `httputil.ReverseProxy`. Its headers are added to the
map that the chain has already written to; a 1xx response is sent with that map, which is emptied
afterwards, and so is what the chain wrote. -/

namespace EdgeQuota.Proxy
open Go Cache

def hopHeaders : List GoString :=
  ["Connection", "Proxy-Connection", "Keep-Alive", "Proxy-Authenticate", "Proxy-Authorization", "Te", "Trailer",
    "Transfer-Encoding", "Upgrade"].map str

def trimString (s : GoString) : GoString := trim [[0x20], [0x09], [0x0A], [0x0D]] s

def removeHopByHopHeaders (h : Header) : Header :=
  let listed := (h.values (str "Connection")).flatMap fun line =>
    ((line.splitOn (byte ',')).map trimString).filter (· ≠ [])
  (listed ++ hopHeaders).foldl Header.del h

def modifyResponse (h : Header) : Header := (h.del (str "Alt-Svc")).del (str "X-Request-Id")

structure InterimResponse where
  statusCode : ℤ
  header : Header
  informational : 100 ≤ statusCode ∧ statusCode < 200

/-- The pieces of the body come with the number of bytes that the client takes. Of the trailers the
names announced beforehand are known before the body, and the lines after it, if it is copied to its
end. -/
structure BackendResponse where
  interim : List InterimResponse := []
  statusCode : ℤ
  header : Header
  pieces : List (GoString × ℕ) := []
  copied : Bool := true
  announced : List GoString := []
  trailer : Header := []

def copyHeader (h : Header) : List HandlerOp := h.map fun l => .addHeader l.1 l.2

def InterimResponse.ops (i : InterimResponse) : List HandlerOp :=
  copyHeader i.header ++ [.writeHeader i.statusCode, .clearHeader]

namespace BackendResponse

def trailersAnnounced (resp : BackendResponse) : Bool := resp.trailer.all fun l => resp.announced.contains l.1

def trailerOps (resp : BackendResponse) : List HandlerOp :=
  if resp.trailersAnnounced then copyHeader resp.trailer
  else copyHeader (resp.trailer.map fun l => (str "Trailer:" ++ l.1, l.2))

def passedOn (resp : BackendResponse) : Header := modifyResponse (removeHopByHopHeaders resp.header)

def finalOps (resp : BackendResponse) : List HandlerOp :=
  copyHeader resp.passedOn ++
    (if resp.announced = [] then [] else [.addHeader (str "Trailer") ((str ", ").intercalate resp.announced)]) ++
    [.writeHeader resp.statusCode] ++ resp.pieces.map (fun p => .write p.1 p.2) ++
    (if resp.copied then resp.trailerOps else [])

def handling (resp : BackendResponse) : Handling :=
  ⟨resp.interim.flatMap InterimResponse.ops ++ resp.finalOps, resp.copied⟩

/-- What was in the header map is gone before the final response is written, and that writes no line
under the name. -/
structure Sheds (resp : BackendResponse) (name : GoString) : Prop where
  interim : resp.interim ≠ []
  header : ∀ l ∈ resp.passedOn, canonicalHeaderKey l.1 ≠ canonicalHeaderKey name
  trailer : resp.trailersAnnounced = true → ∀ l ∈ resp.trailer, canonicalHeaderKey l.1 ≠ canonicalHeaderKey name

end BackendResponse

theorem header_writeHeader (w : ResponseWriter) (code : ℤ) : (w.writeHeader code).header = w.header := by
  unfold ResponseWriter.writeHeader
  split_ifs <;> rfl

theorem header_write (w : ResponseWriter) (b : GoString) (n : ℕ) : (w.write b n).header = w.header := by
  unfold ResponseWriter.write
  split_ifs
  · rfl
  · exact header_writeHeader w 200

theorem cachingWriter_writeHeader (cw : CachingResponseWriter) (code : ℤ) :
    ((cw.writeHeader code).w.header, (cw.writeHeader code).headerSent) =
      if 100 ≤ code ∧ code < 200 ∨ cw.headerSent = true then (cw.w.header, cw.headerSent)
      else (cw.w.header.set (str "X-Cache") (str "MISS"), true) := by
  unfold CachingResponseWriter.writeHeader
  by_cases hinterim : 100 ≤ code ∧ code < 200
  · rw [if_pos hinterim, if_pos (Or.inl hinterim), header_writeHeader]
  rw [if_neg hinterim]
  by_cases hsent : cw.headerSent = true
  · rw [if_pos hsent, if_pos (Or.inr hsent)]
  rw [if_neg hsent, if_neg (not_or.mpr ⟨hinterim, hsent⟩)]
  -- whether or not the response is cacheable, the map is written to once
  cases hcacheable : isCacheable cw.req code cw.w.header with
  | none => simp only [hcacheable, CachingResponseWriter.mapHeader, header_writeHeader]
  | some ttl =>
    cases hvary : parseVary cw.w.header <;>
      simp only [hcacheable, hvary, CachingResponseWriter.mapHeader, header_writeHeader]

theorem cachingWriter_capture (maxBodySize : ℕ) (cw : CachingResponseWriter) (b : GoString) :
    ((cw.capture maxBodySize b).w, (cw.capture maxBodySize b).headerSent) = (cw.w, cw.headerSent) := by
  unfold CachingResponseWriter.capture
  split
  · split_ifs <;> rfl
  · rfl

def mapAfter (m : Header × Bool) : HandlerOp → Header × Bool
  | .setHeader key value => (m.1.set key value, m.2)
  | .addHeader key value => (m.1.add key value, m.2)
  | .delHeader key => (m.1.del key, m.2)
  | .clearHeader => ([], m.2)
  | .writeHeader code =>
    if 100 ≤ code ∧ code < 200 ∨ m.2 = true then m else (m.1.set (str "X-Cache") (str "MISS"), true)
  | .write _ _ => if m.2 = true then m else (m.1.set (str "X-Cache") (str "MISS"), true)

theorem handle_mapAfter (maxBodySize : ℕ) (cw : CachingResponseWriter) (op : HandlerOp) :
    ((cw.handle maxBodySize op).w.header, (cw.handle maxBodySize op).headerSent) =
      mapAfter (cw.w.header, cw.headerSent) op := by
  cases op with
  | setHeader key value => rfl
  | addHeader key value => rfl
  | delHeader key => rfl
  | clearHeader => rfl
  | writeHeader code => exact cachingWriter_writeHeader cw code
  | write b n =>
    have hcapture := cachingWriter_capture maxBodySize
    simp only [Prod.mk.injEq] at hcapture
    simp only [CachingResponseWriter.handle, CachingResponseWriter.write, (hcapture _ _).1, (hcapture _ _).2,
      header_write, mapAfter]
    split_ifs with hsent
    · rfl
    · exact (cachingWriter_writeHeader cw 200).trans (if_neg (by simp [hsent]))

theorem relay_mapAfter (maxBodySize : ℕ) (cw : CachingResponseWriter) (h : Handling) :
    ((cw.relay maxBodySize h).w.header, (cw.relay maxBodySize h).headerSent) =
      h.ops.foldl mapAfter (cw.w.header, cw.headerSent) := by
  have hfold : ∀ (ops : List HandlerOp) (cw : CachingResponseWriter),
      ((ops.foldl (CachingResponseWriter.handle maxBodySize) cw).w.header,
        (ops.foldl (CachingResponseWriter.handle maxBodySize) cw).headerSent) =
      ops.foldl mapAfter (cw.w.header, cw.headerSent) := by
    intro ops
    induction ops with
    | nil => exact fun _ => rfl
    | cons op ops ih =>
      intro cw
      rw [List.foldl_cons, List.foldl_cons, ih, handle_mapAfter]
  unfold CachingResponseWriter.relay
  split_ifs
  · exact hfold h.ops cw
  · exact hfold h.ops cw

theorem mapAfter_copyHeader (h : Header) (m : Header × Bool) : ((copyHeader h).foldl mapAfter m).2 = m.2 := by
  induction h generalizing m with
  | nil => rfl
  | cons l h ih => exact ih _

theorem mapAfter_interim (i : InterimResponse) {m : Header × Bool} (hm : m.2 = false) :
    i.ops.foldl mapAfter m = ([], false) := by
  have hsent : ((copyHeader i.header).foldl mapAfter m).2 = false := (mapAfter_copyHeader i.header m).trans hm
  rw [InterimResponse.ops, List.foldl_append, List.foldl_cons, List.foldl_cons, List.foldl_nil]
  simp only [mapAfter, i.informational, and_self, true_or, if_true, hsent]

theorem mapAfter_interims {is : List InterimResponse} (his : is ≠ []) {m : Header × Bool} (hm : m.2 = false) :
    (is.flatMap InterimResponse.ops).foldl mapAfter m = ([], false) := by
  induction is generalizing m with
  | nil => exact absurd rfl his
  | cons i is ih =>
    rw [List.flatMap_cons, List.foldl_append, mapAfter_interim i hm]
    cases is with
    | nil => rfl
    | cons j is => exact ih (List.cons_ne_nil j is) rfl

def Unnamed (name : GoString) (h : Header) : Prop := ∀ l ∈ h, canonicalHeaderKey l.1 ≠ canonicalHeaderKey name

structure Foreign (name : GoString) : Prop where
  valid : name.all validHeaderFieldByte = true
  trailer : canonicalHeaderKey (str "Trailer") ≠ canonicalHeaderKey name
  xCache : canonicalHeaderKey (str "X-Cache") ≠ canonicalHeaderKey name
  age : canonicalHeaderKey (str "Age") ≠ canonicalHeaderKey name

section Unnamed
variable {name : GoString} {h : Header} (hname : Foreign name)

theorem Unnamed.del (hh : Unnamed name h) (key : GoString) : Unnamed name (h.del key) :=
  fun l hl => hh l (List.mem_filter.mp hl).1

theorem Unnamed.add (hh : Unnamed name h) {key : GoString} (hkey : canonicalHeaderKey key ≠ canonicalHeaderKey name)
    (value : GoString) : Unnamed name (h.add key value) := by
  intro l hl
  rcases List.mem_append.mp hl with hl | hl
  · exact hh l hl
  · obtain rfl := List.mem_singleton.mp hl
    rw [canonicalHeaderKey_canonicalHeaderKey]
    exact hkey

theorem Unnamed.set (hh : Unnamed name h) {key : GoString} (hkey : canonicalHeaderKey key ≠ canonicalHeaderKey name)
    (value : GoString) : Unnamed name (h.set key value) := (hh.del key).add hkey value

def Spares (name : GoString) : HandlerOp → Prop
  | .setHeader key _ | .addHeader key _ => canonicalHeaderKey key ≠ canonicalHeaderKey name
  | .delHeader _ | .clearHeader | .writeHeader _ | .write _ _ => True

include hname in
theorem Unnamed.mapAfter {m : Header × Bool} (hm : Unnamed name m.1) {op : HandlerOp} (hop : Spares name op) :
    Unnamed name (mapAfter m op).1 := by
  have hmiss : Unnamed name (m.1.set (str "X-Cache") (str "MISS")) := hm.set hname.xCache _
  cases op with
  | setHeader key value => exact hm.set hop value
  | addHeader key value => exact hm.add hop value
  | delHeader key => exact hm.del key
  | clearHeader => exact nofun
  | writeHeader code =>
    simp only [Proxy.mapAfter]
    split_ifs
    · exact hm
    · exact hmiss
  | write b n =>
    simp only [Proxy.mapAfter]
    split_ifs
    · exact hm
    · exact hmiss

include hname in
theorem Unnamed.foldl_mapAfter {m : Header × Bool} (hm : Unnamed name m.1) {ops : List HandlerOp}
    (hops : ∀ op ∈ ops, Spares name op) : Unnamed name (ops.foldl Proxy.mapAfter m).1 := by
  induction ops generalizing m with
  | nil => exact hm
  | cons op ops ih =>
    obtain ⟨hop, hops⟩ := List.forall_mem_cons.mp hops
    exact ih (mapAfter hname hm hop) hops

theorem spares_copyHeader (hh : Unnamed name h) : ∀ op ∈ copyHeader h, Spares name op := by
  intro op hop
  obtain ⟨l, hl, rfl⟩ := List.mem_map.mp hop
  exact hh l hl

end Unnamed

theorem canonicalHeaderKey_trailer (key : GoString) :
    canonicalHeaderKey (str "Trailer:" ++ key) = str "Trailer:" ++ key := by
  refine if_neg fun h => ?_
  have hcolon := List.all_eq_true.mp h (byte ':') (List.mem_append_left _ (by decide +kernel))
  exact absurd hcolon (by decide +kernel)

theorem BackendResponse.Sheds.spares {resp : BackendResponse} {name : GoString} (h : resp.Sheds name)
    (hname : Foreign name) : ∀ op ∈ resp.finalOps, Spares name op := by
  have hprefixed : Unnamed name (resp.trailer.map fun l => (str "Trailer:" ++ l.1, l.2)) := by
    intro l hl
    obtain ⟨l, -, rfl⟩ := List.mem_map.mp hl
    intro heq
    have hall := all_canonicalHeaderKey hname.valid
    rw [← heq, canonicalHeaderKey_trailer] at hall
    exact absurd (List.all_eq_true.mp hall (byte ':') (List.mem_append_left _ (by decide +kernel))) (by decide +kernel)
  intro op hop
  simp only [finalOps, List.mem_append] at hop
  rcases hop with (((hop | hop) | hop) | hop) | hop
  · exact spares_copyHeader h.header op hop
  · split_ifs at hop with hannounced
    · cases hop
    · obtain rfl := List.mem_singleton.mp hop
      exact hname.trailer
  · obtain rfl := List.mem_singleton.mp hop
    trivial
  · obtain ⟨p, -, rfl⟩ := List.mem_map.mp hop
    trivial
  · split_ifs at hop
    · unfold trailerOps at hop
      split_ifs at hop with hannounced
      · exact spares_copyHeader (h.trailer hannounced) op hop
      · exact spares_copyHeader hprefixed op hop
    · cases hop

theorem header_relay_interim {resp : BackendResponse} (h : resp.interim ≠ []) (maxBodySize : ℕ) (w : ResponseWriter)
    (r : Request) :
    ((CachingResponseWriter.new w r).relay maxBodySize resp.handling).w.header =
      (resp.finalOps.foldl mapAfter ([], false)).1 := by
  have hmap := relay_mapAfter maxBodySize (CachingResponseWriter.new w r) resp.handling
  rw [BackendResponse.handling, List.foldl_append, mapAfter_interims h rfl] at hmap
  exact congrArg Prod.fst hmap

theorem unnamed_relay {resp : BackendResponse} {name : GoString} (hname : Foreign name) (h : resp.Sheds name)
    (maxBodySize : ℕ) (w : ResponseWriter) (r : Request) :
    Unnamed name ((CachingResponseWriter.new w r).relay maxBodySize resp.handling).w.header := by
  rw [header_relay_interim h.interim]
  have hempty : Unnamed name [] := List.forall_mem_nil _
  exact Unnamed.foldl_mapAfter hname (m := ([], false)) hempty (h.spares hname)

theorem Unnamed.marshal {name : GoString} (hname : Foreign name) {e : Entry}
    (h : Unnamed name e.headers) : Unnamed name e.marshal.headers := by
  intro l hl
  obtain ⟨l, hmem, rfl⟩ := List.mem_map.mp hl
  exact fun heq => h l hmem (canonicalHeaderKey_toValidUTF8 hname.valid heq)

theorem values_foldl_add {name : GoString} {lines : Header} (hlines : Unnamed name lines) (h : Header) :
    (lines.foldl (fun h l => h.add l.1 l.2) h).values name = h.values name := by
  induction lines generalizing h with
  | nil => rfl
  | cons l lines ih =>
    obtain ⟨hl, hlines⟩ := List.forall_mem_cons.mp hlines
    rw [List.foldl_cons, ih hlines, Header.values_add, if_neg hl, List.append_nil]

theorem values_replay {name : GoString} (hname : Foreign name) {e : Entry} (he : Unnamed name e.headers)
    (w : ResponseWriter) (now : ℤ) :
    (replay w e now).header.values name = w.header.values name := by
  unfold replay
  rw [header_write, header_writeHeader, Header.values_set, if_neg hname.xCache, Header.values_set,
    if_neg hname.age]
  exact values_foldl_add he w.header

end EdgeQuota.Proxy
