import EdgeQuota.Go.Strings
import EdgeQuota.RateLimit.Sharpness

/-! The Redis limiter: it puts its prefix before the key, its parameters after it, and hands
both to the script. EVALSHA and its EVAL fallback run the same script, so one call stands for
either. -/

namespace EdgeQuota.RateLimit
open Lib Go

structure Limiter where
  rate : ℚ
  burst : ℤ
  ttl : ℤ
  keyPrefix : GoString
  closed : Bool

/-- What Redis may answer instead of a reply; only the class of the error is ever looked at. -/
inductive RedisError where
  | connectivity
  | readOnly
  | other
  deriving DecidableEq

inductive LimiterError where
  | limiterClosed
  | redis (e : RedisError)
  deriving DecidableEq

structure Result where
  allowed : Bool
  retryAfter : ℤ
  remaining : ℤ
  limit : ℤ
  resetAfter : ℤ
  deriving DecidableEq

/-- What a call meets: the instance's clock, Redis's clock, and a failure of Redis if any. -/
structure Moment where
  now : ℤ
  clock : ℤ
  fault : Option RedisError

def parseScriptResult (r : Reply) : Result :=
  ⟨r.allowed == 1, int64 (r.retryAfter * 1000), r.remaining, r.limit, int64 (r.resetAfter * 1000)⟩

namespace Limiter

def newIn (N : Arithmetic) (ratePerSecond : ℚ) (burst ttl : ℤ) (keyPrefix : GoString) : Limiter :=
  ⟨N.fl (ratePerSecond / 1000000), burst, ttl, keyPrefix, false⟩

def evalScriptIn (N : Arithmetic) (key : GoString) (a : Args) (m : Moment) (db : Redis GoString) :
    Except LimiterError Reply × Redis GoString :=
  match m.fault with
  | some e => (.error (.redis e), db)
  | none => ((.ok (N.rateLimitLua key a m.clock db).1), (N.rateLimitLua key a m.clock db).2)

def allowIn (N : Arithmetic) (l : Limiter) (key : GoString) (m : Moment) (db : Redis GoString) :
    Except LimiterError Result × Redis GoString :=
  if l.closed then (.error .limiterClosed, db)
  else
    let (r, db) := evalScriptIn N (l.keyPrefix ++ key) ⟨l.rate, l.burst, l.ttl, m.now⟩ m db
    (r.map parseScriptResult, db)

def allowWithOverridesIn (N : Arithmetic) (l : Limiter) (key : GoString) (ratePerSecond : ℚ) (burst ttlOverride : ℤ)
    (m : Moment) (db : Redis GoString) : Except LimiterError Result × Redis GoString :=
  if l.closed then (.error .limiterClosed, db)
  else
    let ttl := if 0 < ttlOverride then ttlOverride else l.ttl
    let (r, db) := evalScriptIn N (l.keyPrefix ++ key) ⟨N.fl (ratePerSecond / 1000000), burst, ttl, m.now⟩ m db
    (r.map parseScriptResult, db)

abbrev new (ratePerSecond : ℚ) (burst ttl : ℤ) (keyPrefix : GoString) : Limiter :=
  newIn .exact ratePerSecond burst ttl keyPrefix

abbrev allow (l : Limiter) (key : GoString) (m : Moment) (db : Redis GoString) :
    Except LimiterError Result × Redis GoString := allowIn .exact l key m db

end Limiter
end EdgeQuota.RateLimit
