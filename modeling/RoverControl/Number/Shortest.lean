import RoverControl.Bytes
import RoverControl.Number.Binary64

/-!
# The shortest decimal text of a double

Of the decimal numbers `d * 10 ^ k` that round to a given double, the text shows one with the
fewest digits and, of those, the one nearest to the exact value.  They are found by trying ever
finer grids `10 ^ k`: on each grid only the two neighbours of the value can round to it.

The text is positional or has an exponent of at least two digits, whichever is shorter, and
positional where both are equally long.  A positional text without a fraction shows every digit of
the exact value.
-/

namespace RoverControl

namespace Binary64

/-- The number `digits * 10 ^ exponent`. -/
structure Decimal where
  digits : Nat
  exponent : Int

namespace Exact

/-! ## Numbers that round to a given one

Lengths are measured in quarters of the last place, so that the ends of the interval of numbers
that round to `v` are whole: they are half a place above and half a place below, or a quarter
below where the doubles underneath lie twice as close. -/

/-- The lower end of the interval, in quarters of the last place. -/
def lowerEnd (v : Exact) : Nat :=
  if v.mantissa = hiddenBit ∧ v.exponent ≠ -1074 then 4 * v.mantissa - 1 else 4 * v.mantissa - 2

/-- The upper end of the interval, in quarters of the last place. -/
def upperEnd (v : Exact) : Nat := 4 * v.mantissa + 2

/-- A quarter of the last place is `quarter.1 / quarter.2` steps of the grid `10 ^ k`. -/
def quarter (v : Exact) (k : Int) : Nat × Nat :=
  (Nat.pow 10 (-k).toNat <<< (v.exponent - 2).toNat,
    Nat.pow 10 k.toNat <<< (2 - v.exponent).toNat)

/-- Whether `d * 10 ^ k` rounds to `v`; the ends belong to the interval when the last bit of `v`
is zero. -/
def admits (v : Exact) (k : Int) (d : Nat) : Bool :=
  let (a, b) := v.quarter k
  if v.mantissa % 2 = 0 then v.lowerEnd * a ≤ d * b && d * b ≤ v.upperEnd * a
  else v.lowerEnd * a < d * b && d * b < v.upperEnd * a

/-- The point of the grid `10 ^ k` that is nearest to `v` among those that round to it. -/
def gridPoint? (v : Exact) (k : Int) : Option Nat :=
  let (a, b) := v.quarter k
  let below := 4 * v.mantissa * a / b
  let nearest := roundDiv (4 * v.mantissa * a) b
  if v.admits k nearest then some nearest
  else if v.admits k below then some below
  else if v.admits k (below + 1) then some (below + 1)
  else none

/-- The first of `grids` ever finer grids, from `10 ^ k` on, with a point that rounds to `v`. -/
def firstGridPoint (v : Exact) : (grids : Nat) → (k : Int) → Decimal
  | 0, k => ⟨4 * v.mantissa * (v.quarter k).1 / (v.quarter k).2, k⟩
  | n + 1, k =>
    match v.gridPoint? k with
    | some d => ⟨d, k⟩
    | none => v.firstGridPoint n (k - 1)

/-- The shortest decimal that rounds to `v`, which is not zero.  The first grid is coarser than
the value, and seventeen digits always suffice. -/
def shortest (v : Exact) : Decimal :=
  v.firstGridPoint 24 ((v.mantissa.log2 + v.exponent + 1) * 30103 / 100000 + 1)

end Exact

/-! ## Layout -/

/-- Digits with a decimal point and no exponent. -/
def positional (v : Exact) (d : Decimal) : Bytes :=
  let ds := decimal d.digits
  if 0 ≤ d.exponent then decimal v.floorAbs
  else
    let places := (-d.exponent).toNat
    if places < ds.length then
      ds.take (ds.length - places) ++ Ascii.dot :: ds.drop (ds.length - places)
    else
      Ascii.zero :: Ascii.dot :: (List.replicate (places - ds.length) Ascii.zero ++ ds)

/-- One digit before the point, and an exponent with a sign and at least two digits. -/
def scientific (d : Decimal) : Bytes :=
  let ds := decimal d.digits
  let e := d.exponent + ds.length - 1
  let mantissa := match ds with
    | c :: r@(_ :: _) => c :: Ascii.dot :: r
    | _ => ds
  let exponent := decimal e.natAbs
  mantissa ++ ascii "e" ++ [if e < 0 then Ascii.minus else Ascii.plus] ++
    (if exponent.length < 2 then Ascii.zero :: exponent else exponent)

/-- The shortest text of a finite number other than zero. -/
def Exact.text (v : Exact) : Bytes :=
  let d := v.shortest
  let plain := positional v d
  let short := scientific d
  let magnitude := if plain.length ≤ short.length then plain else short
  if v.negative then Ascii.minus :: magnitude else magnitude

end Binary64

end RoverControl
