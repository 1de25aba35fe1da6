import RoverControl.Rate.Quantity

/-!
# Token buckets

A bucket holds up to `burst` tokens and gains `rate` of them a second.  It is refilled when it is
looked at: `refill` credits the time since the last refill, and a clock that stands still or goes
back credits nothing.  `allow` takes a token or counts a drop, `attempt` takes one or tells how
long to wait for it, and `configure` changes the limit and leaves the tokens as they are until the
next refill.
-/

namespace RoverControl

structure TokenBucket (α : Type) where
  limit : RateLimit α
  tokens : α
  /-- The clock reading up to which time has been credited, in nanoseconds. -/
  lastRefill : Int
  admits : Nat
  drops : Nat
  waits : Nat

namespace TokenBucket

open Quantity

variable {α : Type} [Quantity α]

/-- A full bucket. -/
def new (limit : RateLimit α) (now : Int) : TokenBucket α where
  limit
  tokens := ofInt limit.burst.toNat
  lastRefill := now
  admits := 0
  drops := 0
  waits := 0

/-- Credits the time that has passed, up to a full bucket. -/
def refill (b : TokenBucket α) (now : Int) : TokenBucket α :=
  let elapsed : α := seconds (now - b.lastRefill)
  if elapsed ≤ ofInt 0 then b
  else
    let full : α := ofInt b.limit.burst.toNat
    let tokens := b.tokens + elapsed * b.limit.rate
    { b with tokens := if full < tokens then full else tokens, lastRefill := now }

/-- Takes a token, if there is a whole one. -/
def take? (b : TokenBucket α) : Option (TokenBucket α) :=
  if (ofInt 1 : α) ≤ b.tokens then
    some { b with tokens := b.tokens - ofInt 1, admits := b.admits + 1 }
  else none

/-- Takes a token without waiting for it, or counts a drop. -/
def allow (b : TokenBucket α) (now : Int) : Bool × TokenBucket α :=
  let b := b.refill now
  match b.take? with
  | some b => (true, b)
  | none => (false, { b with drops := b.drops + 1 })

/-- The wait where there is no rate to compute it from, in seconds. -/
def fallbackWait : α := ofInt 100 / ofInt 1000

/-- The seconds until a whole token has been gained. -/
def waitTime (b : TokenBucket α) : α :=
  let missing : α := ofInt 1 - b.tokens
  let deficit := if (ofInt 0 : α) < missing then missing else ofInt 0
  if (ofInt 0 : α) < b.limit.rate then deficit / b.limit.rate else fallbackWait

/-- What comes of asking for a token that may be waited for. -/
inductive Attempt (α : Type) where
  /-- A token was taken. -/
  | taken (b : TokenBucket α)
  /-- There is none yet; the wait of that many nanoseconds has been counted. -/
  | wait (nanoseconds : Int) (b : TokenBucket α)

/-- Takes a token or tells how long to sleep before the next attempt. -/
def attempt (b : TokenBucket α) (now : Int) : Attempt α :=
  let b := b.refill now
  match b.take? with
  | some b => .taken b
  | none => .wait (sleepTime b.waitTime) { b with waits := b.waits + 1 }

/-- Changes the limit, unless the new one is not valid. -/
def configure (b : TokenBucket α) (limit : RateLimit α) : Option (TokenBucket α) :=
  if limit.isValid then some { b with limit } else none

/-- The tokens there are now. -/
def available (b : TokenBucket α) (now : Int) : α × TokenBucket α :=
  let b := b.refill now
  (b.tokens, b)

end TokenBucket

end RoverControl
