import EdgeQuota.Go.Http

/-! Which responses may be stored, for how long, and under which header names: the response
headers that the cache reads. -/

namespace EdgeQuota.Cache
open Go

/-- `splitDirectives`, with the directive under construction in `b`. -/
def splitFrom (inQuotes escaped : Bool) (b : GoString) : List GoString → List GoString
  | [] => [b]
  | r :: rs =>
    if escaped then splitFrom inQuotes false (b ++ r) rs
    else if r = str "\\" ∧ inQuotes then splitFrom inQuotes true (b ++ r) rs
    else if r = str "\"" then splitFrom (!inQuotes) false (b ++ r) rs
    else if r = str "," ∧ !inQuotes then b :: splitFrom inQuotes false [] rs
    else splitFrom inQuotes false (b ++ r) rs

def splitDirectives (cc : GoString) : List GoString := splitFrom false false [] (runes cc)

structure CacheControl where
  maxAge : ℤ := 0
  sMaxAge : ℤ := 0
  hasSMaxAge : Bool := false
  noStore : Bool := false
  noCache : Bool := false
  isPrivate : Bool := false
  isPublic : Bool := false
  mustRevalidate : Bool := false
  deriving DecidableEq

def seconds (n : ℤ) : ℤ := int64 (n * 1000000000)

def applyDirective (c : CacheControl) (directive : GoString) : CacheControl :=
  let name := toLower (trimSpace (cut (byte '=') directive).1)
  let value := trim [str "\""] (trimSpace ((cut (byte '=') directive).2.getD []))
  if name = str "max-age" then
    match atoi value with
    | some n => if 0 < n then { c with maxAge := seconds n } else c
    | none => c
  else if name = str "s-maxage" then
    match atoi value with
    | some n => if 0 ≤ n then { c with sMaxAge := seconds n, hasSMaxAge := true } else c
    | none => c
  else if name = str "no-store" then { c with noStore := true }
  else if name = str "no-cache" then { c with noCache := true }
  else if name = str "private" then { c with isPrivate := true }
  else if name = str "public" then { c with isPublic := true }
  else if name = str "must-revalidate" then { c with mustRevalidate := true }
  else c

def parseCacheControl (cc : GoString) : CacheControl := (splitDirectives cc).foldl applyDirective {}

example : parseCacheControl (str "public, Max-Age=\"60\", ext=\"a, no-store\"") =
    { isPublic := true, maxAge := 60000000000 } := by decide +kernel

def directiveName (directive : GoString) : GoString := toLower (trimSpace (cut (byte '=') directive).1)

def directiveValue (directive : GoString) : GoString :=
  trim [str "\""] (trimSpace ((cut (byte '=') directive).2.getD []))

def cacheDirectives (header : Header) : List GoString :=
  splitDirectives (join (byte ',') (header.values (str "Cache-Control")))

def forbidsStorage (header : Header) : Bool := (cacheDirectives header).any fun d => directiveName d = str "no-store"

/-- The numbers that the directives of a name declare, whatever their sign. -/
def numbers (name : GoString) (ds : List GoString) : List ℤ :=
  ds.filterMap fun d => if directiveName d = name then atoi (directiveValue d) else none

def trailerPrefix : GoString := str "Trailer:"

def cutTrailer (name : GoString) : GoString :=
  if trailerPrefix.isPrefixOf name then name.drop trailerPrefix.length else name

def responseHasSetCookie (header : Header) : Bool :=
  header.any fun l => canonicalHeaderKey (cutTrailer l.1) = str "Set-Cookie"

def isCacheable (r : Request) (statusCode : ℤ) (header : Header) : Option ℤ :=
  if statusCode ≠ 200 ∧ statusCode ≠ 301 then none
  else if responseHasSetCookie header then none
  else
    let lines := header.values (str "Cache-Control")
    if lines = [] then none
    else
      let cc := parseCacheControl (join (byte ',') lines)
      if cc.noStore || cc.noCache || cc.isPrivate then none
      else if r.header.get (str "Authorization") ≠ [] ∧ !cc.isPublic ∧ !cc.hasSMaxAge ∧ !cc.mustRevalidate then none
      else
        let ttl := if cc.hasSMaxAge then cc.sMaxAge else cc.maxAge
        if ttl ≤ 0 then none else some ttl

def nonEmptyFields (sep : UInt8) (line : GoString) : List GoString :=
  ((line.splitOn sep).map trimSpace).filter (· ≠ [])

/-- `none` stands for a response that varies on everything. -/
def parseVary (header : Header) : Option (List GoString) :=
  let names := (header.values (str "Vary")).flatMap (nonEmptyFields (byte ','))
  if str "*" ∈ names then none else some (names.map canonicalHeaderKey)

def parseSurrogateKey (header : Header) : List GoString :=
  let sk := header.get (str "Surrogate-Key")
  let sk := if sk = [] then header.get (str "Cache-Tag") else sk
  if sk = [] then [] else nonEmptyFields (byte ' ') sk

end EdgeQuota.Cache
