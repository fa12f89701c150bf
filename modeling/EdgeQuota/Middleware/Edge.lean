import EdgeQuota.Middleware.Chain
import EdgeQuota.Proxy.Ownership
import Mathlib.Data.List.ReduceOption

/-! Requests through the chain and then the proxy behind it. The chain leaves the backend that the
external service chose in the context of the request; the key of the response cache is made from
the method, the target and the headers that the response varies on, and does not tell the backend. -/

namespace EdgeQuota.Middleware
open Go Lib Cache Proxy

def Effect.call : Effect → Option (Request × ResponseWriter)
  | .next r w => some (r, w)
  | .acquire | .release => none

def Serving.forwarded (s : Serving) : Option (Request × ResponseWriter) := s.trace.findSome? Effect.call

inductive EdgeTask where
  | request (c : Chain) (o : Outcomes) (r : Request)
  | delete (key : GoString)
  | deleteByTag (tag : GoString)

def EdgeTask.perform (maxBodySize : ℕ) : EdgeTask → Program Outcome
  | .request c o r =>
    match (c.serveHTTP o r {}).forwarded with
    | some (r, w) => Proxy.serveHTTP maxBodySize r w
    | none => pure (.bypass r)
  | .delete key => Proxy.perform maxBodySize (.delete key)
  | .deleteByTag tag => Proxy.perform maxBodySize (.deleteByTag tag)

def edge (maxBodySize : ℕ) :
    Machine (Pool World Command Reply Outcome) (Sched EdgeTask Surroundings) (Option Outcome) :=
  Pool.interleave exec (EdgeTask.perform maxBodySize)

def effectiveBackend (target : Option BackendURL) (r : Request) : Option BackendURL :=
  r.context.backendURL.or target

/-- The `Host` that the backend receives: that of the request, which the director leaves alone, or
else the one in the URL. -/
def forwardedHost (target : Option BackendURL) (r : Request) : GoString :=
  if r.host = [] then ((effectiveBackend target r).map BackendURL.host).getD [] else r.host

def SameBackend (target : Option BackendURL) (r r₀ : Request) : Prop :=
  effectiveBackend target r = effectiveBackend target r₀ ∧ forwardedHost target r = forwardedHost target r₀

instance (target : Option BackendURL) (r r₀ : Request) : Decidable (SameBackend target r r₀) :=
  inferInstanceAs (Decidable (_ ∧ _))

def FromBackend (target : Option BackendURL) : Outcome → Prop
  | .hit r s _ _ => SameBackend target r s.storedFor
  | .miss _ _ | .bypass _ | .purged _ => True

instance (target : Option BackendURL) : DecidablePred (FromBackend target)
  | .hit r s _ _ => inferInstanceAs (Decidable (SameBackend target r s.storedFor))
  | .miss _ _ | .bypass _ | .purged _ => .isTrue trivial

section Separate
variable {target : Option BackendURL} {R : Request → Prop} {V : List GoString → Prop} {maxBodySize : ℕ}

/-- No two of the requests with different backends or hosts share a key, whichever of the lists of
names the keys are made with. -/
def Separate (target : Option BackendURL) (R : Request → Prop) (V : List GoString → Prop) : Prop :=
  ∀ r r₀ v v₀, R r → R r₀ → V v → V v₀ → keyFromRequest r v = keyFromRequest r₀ v₀ → SameBackend target r r₀

def EdgeTask.HandsOn (R : Request → Prop) : EdgeTask → Prop
  | .request c o r => ∀ p ∈ (c.serveHTTP o r {}).forwarded, R p.1
  | .delete _ | .deleteByTag _ => True

def VariesOn (maxBodySize : ℕ) (V : List GoString → Prop) : Command → Surroundings → Prop
  | .upstream r w, env => V ((CachingResponseWriter.new w r).relay maxBodySize env.handling).vary
  | _, _ => True

instance [DecidablePred R] : DecidablePred (EdgeTask.HandsOn R) := fun t => by
  cases t <;> unfold EdgeTask.HandsOn <;> infer_instance

instance [DecidablePred V] (c : Command) (env : Surroundings) : Decidable (VariesOn maxBodySize V c env) :=
  match c with
  | .upstream r w =>
    inferInstanceAs (Decidable (V ((CachingResponseWriter.new w r).relay maxBodySize env.handling).vary))
  | .get _ | .set _ _ _ | .getAuth _ | .setAuth _ _ _ | .sadd _ _ | .growOnlyExpire _ _ | .del _ | .smembers _ | .now
  | .record _ => .isTrue trivial

structure StoredBy (R : Request → Prop) (V : List GoString → Prop) (key : GoString) (s : Stored) : Prop where
  request : R s.storedFor
  vary : V s.entry.vary
  key_eq : ∃ v, V v ∧ key = keyFromRequest s.storedFor v

theorem stores_storedBy (hnil : V []) (hmarshal : ∀ v, V v → V (v.map toValidUTF8)) {cw : CachingResponseWriter}
    (hreq : R cw.req) (hvary : V cw.vary) : Stores (StoredBy R V) cw where
  response _ _ := ⟨hreq, hmarshal _ hvary, cw.vary, hvary, rfl⟩
  pointer _ _ := ⟨hreq, hmarshal _ hvary, [], hnil, rfl⟩

theorem answers_storedBy (hnil : V []) (hsep : Separate target R V) {r : Request} (hr : R r)
    (w : ResponseWriter) : Answers (StoredBy R V) (FromBackend target) r w where
  plain s hs _ _ := by
    obtain ⟨v, hv, hkey⟩ := hs.key_eq
    exact hsep r s.storedFor [] v hr hs.request hnil hv hkey
  variant s s' hs _ hs' _ := by
    -- the lists come from the entry under the base key
    obtain ⟨v, hv, hkey⟩ := hs'.key_eq
    exact hsep r s'.storedFor s.entry.vary v hr hs'.request hs.vary hv hkey
  miss _ := trivial

theorem guards_storedBy (hnil : V []) (hmarshal : ∀ v, V v → V (v.map toValidUTF8)) (hsep : Separate target R V)
    {t : EdgeTask} (ht : t.HandsOn R) :
    Guards (VariesOn maxBodySize V) (StoredBy R V) (FromBackend target) (t.perform maxBodySize) := by
  cases t with
  | delete key => exact guards_perform maxBodySize (t := .delete key) nofun fun _ => trivial
  | deleteByTag tag => exact guards_perform maxBodySize (t := .deleteByTag tag) nofun fun _ => trivial
  | request c o r =>
    cases hforwarded : (c.serveHTTP o r {}).forwarded with
    | none =>
      simp only [EdgeTask.perform, hforwarded]
      exact Prog.sound_pure trivial
    | some p =>
      have hr : R p.1 := ht p hforwarded
      simp only [EdgeTask.perform, hforwarded]
      refine guards_serveHTTP (fun _ => answers_storedBy hnil hsep hr p.2) trivial fun _ env hvary _ => ?_
      have hreq := CachingResponseWriter.req_relay maxBodySize (CachingResponseWriter.new p.2 p.1) env.handling
      exact stores_storedBy hnil hmarshal (hreq.symm ▸ hr) hvary

/-- **Backend isolation.** In every interleaving of requests through chain and proxy and of purges in
which no key belongs to requests with different backends or hosts, every hit answers a request with a
response from its own backend and host. -/
theorem backend_isolation (hnil : V []) (hmarshal : ∀ v, V v → V (v.map toValidUTF8)) (hsep : Separate target R V)
    {es : List (Sched EdgeTask Surroundings)}
    (hes : (edge maxBodySize).Along (Pool.Within (EdgeTask.HandsOn R) (VariesOn maxBodySize V))
      (Pool.init World.empty) es) :
    ∀ o, some o ∈ (edge maxBodySize).outputs (Pool.init World.empty) es → FromBackend target o :=
  Pool.interleave_sound (fun _ ht => guards_storedBy hnil hmarshal hsep ht) holds_empty hes

end Separate

def routing : Chain where
  staticRL :=
    { ratePerSecond := 1, burst := 1, ttl := 2, period := 1000000000, failurePolicy := .passThrough,
      failureCode := 429, average := 1 }
  externalRL := true

def backendAt (host : String) : BackendURL := ⟨str "http", str host, []⟩

def routedTo (backend : String) : Outcomes where
  getLimits := some { average := 10, burst := 10, period := str "1s", backendURL := str ("http://" ++ backend) }
  parseBackend _ := some (backendAt backend)

def requestFor (host : String) : Request :=
  { method := str "GET", url := ⟨str "/", [], []⟩, header := [], host := str host }

def cacheableBody (body : String) : Surroundings :=
  { handling :=
    { ops :=
      [.addHeader (str "Cache-Control") (str "max-age=60"), .writeHeader 200, .write (str body) (str body).length] } }

def edgeAlone (backend host body : String) : List (Sched EdgeTask Surroundings) :=
  .start 0 (.request routing (routedTo backend) (requestFor host)) :: List.replicate 8 (.step 0 (cacheableBody body))

def edgeHits (os : List (Option Outcome)) : List ((GoString × GoString) × (GoString × GoString) × GoString) :=
  os.filterMap fun
    | some (.hit r s _ _) =>
      some ((r.host, s.storedFor.host),
        (((effectiveBackend none r).map BackendURL.host).getD [],
          ((effectiveBackend none s.storedFor).map BackendURL.host).getD []), s.entry.body)
    | _ => none

theorem backend_isolation_one_backend :
    edgeHits ((edge 1024).outputs (Pool.init World.empty)
        (edgeAlone "a.example" "h" "from a" ++ edgeAlone "a.example" "h" "from a")) =
      [((str "h", str "h"), (str "a.example", str "a.example"), str "from a")] ∧
    ((edge 1024).outputs (Pool.init World.empty)
      (edgeAlone "a.example" "h" "from a" ++ edgeAlone "a.example" "h" "from a")).reduceOption.Forall (FromBackend none) := by
  have hsep : Separate none (fun r => r.context.backendURL = some (backendAt "a.example") ∧ r.host = str "h") (· = []) := by
    rintro r r₀ _ _ ⟨hb, hh⟩ ⟨hb₀, hh₀⟩ - - -
    simp only [SameBackend, forwardedHost, effectiveBackend, hb, hh, hb₀, hh₀, and_self]
  refine ⟨by decide +kernel, List.forall_iff_forall_mem.mpr fun o ho => ?_⟩
  refine backend_isolation (V := (· = [])) rfl ?_ hsep (by decide +kernel) o (List.reduceOption_mem_iff.mp ho)
  rintro _ rfl
  rfl

/-- A request that the external service sends to backend `b` is answered with what backend `a` answered
to another tenant, and a request for one virtual host with the response of another. -/
theorem backend_isolation_fails :
    edgeHits ((edge 1024).outputs (Pool.init World.empty)
        (edgeAlone "a.example" "h" "from a" ++ edgeAlone "b.example" "h" "from b")) =
      [((str "h", str "h"), (str "b.example", str "a.example"), str "from a")] ∧
    edgeHits ((edge 1024).outputs (Pool.init World.empty)
        (edgeAlone "a.example" "x" "for x" ++ edgeAlone "a.example" "y" "for y")) =
      [((str "y", str "x"), (str "a.example", str "a.example"), str "for x")] := by
  decide +kernel

end EdgeQuota.Middleware
