import RoverControl.Number.Binary64

/-!
# Arithmetic of rates

Rate limits are computed in doubles, but nothing in them depends on rounding.  `Quantity` lists
what they need of a kind of number, so that the same definitions can also be read over exact
numbers.  `sleepTime` turns a number of seconds into the nanoseconds that a sleeper is asked for.
-/

namespace RoverControl

/-- Numbers that tokens, seconds and rates are measured in. -/
class Quantity (α : Type) extends Add α, Sub α, Mul α, Div α, LT α, LE α where
  decidableLT : DecidableRel (α := α) (· < ·)
  decidableLE : DecidableRel (α := α) (· ≤ ·)
  /-- The number nearest to an integer. -/
  ofInt : Int → α
  /-- The least integer not below a number. -/
  ceil : α → Int
  /-- Whether a number is neither infinite nor undefined. -/
  isFinite : α → Bool

namespace Quantity

variable {α : Type} [Quantity α]

instance : DecidableRel (α := α) (· < ·) := decidableLT

instance : DecidableRel (α := α) (· ≤ ·) := decidableLE

/-- Seconds in a number of nanoseconds. -/
def seconds (nanoseconds : Int) : α := ofInt nanoseconds / ofInt 1000000000

/-- The longest time that a sleeper can be asked for, in nanoseconds. -/
def longestSleep : Int := 9223372036854775807

/-- The nanoseconds to sleep for a number of seconds: rounded up, so that no time is cut short,
zero unless the number is positive, and never more than the longest time. -/
def sleepTime (s : α) : Int :=
  if (ofInt 0 : α) < s then
    if seconds longestSleep ≤ s then longestSleep else ceil (s * ofInt 1000000000)
  else 0

/-- Whether a rate is one: finite and positive. -/
def isRate (x : α) : Bool := isFinite x && decide ((ofInt 0 : α) < x)

end Quantity

instance : Quantity Float where
  decidableLT := Float.decLt
  decidableLE := Float.decLe
  ofInt := Binary64.ofInt
  ceil := Binary64.ceil
  isFinite := Float.isFinite

/-- A rate of tokens a second, and the number of tokens that can be saved up. -/
structure RateLimit (α : Type) where
  rate : α
  burst : UInt32

/-- Whether both parts of a limit are positive, and the rate is finite. -/
def RateLimit.isValid {α : Type} [Quantity α] (l : RateLimit α) : Bool :=
  Quantity.isRate l.rate && 0 < l.burst

end RoverControl
