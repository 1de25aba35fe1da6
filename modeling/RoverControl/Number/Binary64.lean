/-!
# Double precision numbers and their exact values

A finite double is `± m * 2 ^ q` with a natural number `m`.  `Binary64.exactValue?` reads `m` and
`q` off its 64 bits, and `Binary64.ofRatio` goes the other way: it gives the double nearest to a
quotient of natural numbers, where a quotient halfway between two doubles goes to the one with an
even last bit.

Without its sign bit, the pattern of a double is its *word*.  Words are ordered like the
magnitudes they stand for, so the word one above the largest finite one stands for infinity.
-/

namespace RoverControl

namespace Binary64

/-- The bit above the 52 bits of a fraction; a normal number has it in its mantissa. -/
def hiddenBit : Nat := 1 <<< 52

/-- The bit above a word, which is set in negative numbers. -/
def signBit : Nat := 1 <<< 63

/-- The first word past the finite ones. -/
def infinityWord : Nat := 2047 * hiddenBit

/-- The word of a number that is not defined. -/
def undefinedWord : Nat := infinityWord + (1 <<< 51)

/-- The exact value of a finite double: `mantissa * 2 ^ exponent`, or its negative. -/
structure Exact where
  negative : Bool
  mantissa : Nat
  exponent : Int

/-- The sign bit of a double. -/
def isNegative (x : Float) : Bool := signBit ≤ x.toBits.toNat

/-- The bits of a double without its sign. -/
def word (x : Float) : Nat := x.toBits.toNat % signBit

/-- The double with a given sign and word. -/
def ofWord (negative : Bool) (w : Nat) : Float :=
  Float.ofBits (UInt64.ofNat (if negative then signBit + w else w))

/-- The exact value of a double that is neither infinite nor undefined. -/
def exactValue? (x : Float) : Option Exact :=
  let w := word x
  if infinityWord ≤ w then none
  else if w < hiddenBit then some ⟨isNegative x, w, -1074⟩
  else some ⟨isNegative x, hiddenBit + w % hiddenBit, (w / hiddenBit : Nat) - 1075⟩

/-! ## Integral values -/

/-- The integer part of the magnitude. -/
def Exact.floorAbs (v : Exact) : Nat :=
  if 0 ≤ v.exponent then v.mantissa <<< v.exponent.toNat
  else v.mantissa >>> (-v.exponent).toNat

/-- Whether the magnitude is a whole number. -/
def Exact.isIntegral (v : Exact) : Bool :=
  0 ≤ v.exponent || v.mantissa % (1 <<< (-v.exponent).toNat) == 0

/-- The integer that a double is equal to, if it is one. -/
def integer? (x : Float) : Option Int :=
  match exactValue? x with
  | some v => if v.isIntegral then some (if v.negative then -v.floorAbs else v.floorAbs) else none
  | none => none

/-- The least integer not below a finite double. -/
def ceil (x : Float) : Int :=
  match exactValue? x with
  | some v =>
    if v.negative then -v.floorAbs
    else if v.isIntegral then v.floorAbs
    else v.floorAbs + 1
  | none => 0

/-! ## Rounding -/

/-- The natural number nearest to `n / d`; a half goes to the even neighbour. -/
def roundDiv (n d : Nat) : Nat :=
  let q := n / d
  let r := n % d
  if 2 * r < d then q else if d < 2 * r then q + 1 else q + q % 2

/-- The exponent of the largest power of two not above `num / den`. -/
def binade (num den : Nat) : Int :=
  let e : Int := num.log2 - den.log2
  if den <<< e.toNat ≤ num <<< (-e).toNat then e else e - 1

/-- The word of the double nearest to `num / den`. -/
def nearestWord (num den : Nat) : Nat :=
  if num = 0 then 0
  else
    let q := max (binade num den - 52) (-1074)
    let m := roundDiv (num <<< (-q).toNat) (den <<< q.toNat)
    min (m + (q + 1074).toNat * hiddenBit) infinityWord

/-- The double nearest to `num / den`, or to its negative. -/
def ofRatio (negative : Bool) (num den : Nat) : Float := ofWord negative (nearestWord num den)

/-- The double nearest to a natural number. -/
def ofNat (n : Nat) : Float := ofRatio false n 1

/-- The double nearest to an integer. -/
def ofInt (n : Int) : Float := ofRatio (n < 0) n.natAbs 1

/-- The double nearest to `m * 2 ^ e`, or to its negative. -/
def ofBinary (negative : Bool) (m : Nat) (e : Int) : Float :=
  if m = 0 then ofWord negative 0
  else if 1024 ≤ e then ofWord negative infinityWord
  else if m.log2 + e < -1080 then ofWord negative 0
  else ofRatio negative (m <<< e.toNat) (1 <<< (-e).toNat)

/-- The double nearest to `m * 10 ^ e`, or to its negative.  Exponents far outside the range are
settled without computing the power. -/
def ofDecimal (negative : Bool) (m : Nat) (e : Int) : Float :=
  if m = 0 then ofWord negative 0
  else if 310 ≤ e then ofWord negative infinityWord
  else if m.log2 + 3 * e < -1080 then ofWord negative 0
  else ofRatio negative (m * Nat.pow 10 e.toNat) (Nat.pow 10 (-e).toNat)

end Binary64

end RoverControl
