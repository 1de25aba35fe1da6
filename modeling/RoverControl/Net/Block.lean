import RoverControl.Net.AddressText

/-!
# Blocks of addresses

A block holds the addresses of one family that share their first bits with its base.  It is
written as the base, a slash and the number of shared bits; a base without a number is a block of
one address, and the bits of the base past the shared ones must be zero.
-/

namespace RoverControl

namespace Net

/-! ## Prefixes -/

/-- The positions of the octets that the first `n` bits reach into, each with a mask for those of
its bits that are among them. -/
def prefixMasks (n : Nat) : List (Nat × UInt8) :=
  let whole : List (Nat × UInt8) := (List.range (n / 8)).map fun i => (i, 0xff)
  if n % 8 = 0 then whole else whole ++ [(n / 8, 0xff <<< UInt8.ofNat (8 - n % 8))]

namespace RawAddress

/-- Whether two addresses are of one family and share their first `n` bits, by the octets that these
reach into. -/
def sharesPrefix (base : RawAddress) (n : Nat) (a : RawAddress) : Bool :=
  base.family = a.family &&
    (prefixMasks n).all fun (i, mask) => base.octet i &&& mask == a.octet i &&& mask

/-- The text of a base and the length of a prefix. -/
def prefixText (base : RawAddress) (n : Nat) : Bytes := base.text ++ Ascii.slash :: decimal n

end RawAddress

/-! ## Blocks -/

structure Block where
  base : Address
  prefixLength : Nat
  deriving DecidableEq

namespace Block

/-- Whether the bits of an address from position `n` on are zero. -/
def hostBitsClear (a : Address) (n : Nat) : Bool :=
  (List.range' n (a.family.bits - n)).all fun i => !a.bit i

/-- The block of a base and a prefix length, unless the base has a bit past the prefix. -/
def make? (base : Address) (prefixLength : Nat) : Option Block :=
  if prefixLength ≤ base.family.bits && hostBitsClear base prefixLength then
    some ⟨base, prefixLength⟩
  else none

/-- The block that a text denotes, with blanks around it. -/
def parse (s : Bytes) : Option Block :=
  let s := s.trim
  match Bytes.cut Ascii.slash s with
  | none => (Address.parse s).bind fun base => make? base base.family.bits
  | some (front, back) =>
    match Address.parse front, readDecimal? back with
    | some base, some n => make? base n
    | _, _ => none

/-- Whether an address lies in a block. -/
def contains (block : Block) (a : Address) : Bool :=
  block.base.sharesPrefix block.prefixLength a.toRawAddress

/-- The canonical text of a block. -/
def text (block : Block) : Bytes := block.base.prefixText block.prefixLength

/-- The blocks of a list of texts, unless it is empty or one of them denotes none. -/
def parseAll (texts : List Bytes) : Option (List Block) :=
  if texts = [] then none else texts.mapM parse

end Block

end Net

end RoverControl
