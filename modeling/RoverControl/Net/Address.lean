import RoverControl.Bytes

/-!
# IP addresses

An address is stored as a family and sixteen octets, of which the IPv4 family uses the first four;
the others are zero in every `Address`.
-/

namespace RoverControl

namespace Net

inductive Family where
  | v4
  | v6
  deriving DecidableEq

/-- The number of bits of an address. -/
def Family.bits : Family → Nat
  | .v4 => 32
  | .v6 => 128

/-- A family and sixteen octets. -/
structure RawAddress where
  family : Family
  octets : List UInt8
  length_octets : octets.length = 16
  deriving DecidableEq

namespace RawAddress

/-- The octet at a position, zero past the last one. -/
def octet (a : RawAddress) (i : Nat) : UInt8 := a.octets.getD i 0

/-- The bit at a position, where the first one is the highest of the first octet. -/
def bit (a : RawAddress) (i : Nat) : Bool := (a.octet (i / 8)).toNat.testBit (7 - i % 8)

end RawAddress

/-- An address; the octets of an IPv4 address are followed by zeros. -/
structure Address extends RawAddress where
  zeros : family = .v4 → octets.drop 4 = List.replicate 12 0
  deriving DecidableEq

namespace Address

/-- The IPv4 address of four octets. -/
def v4 (a b c d : UInt8) : Address where
  family := .v4
  octets := [a, b, c, d, 0, 0, 0, 0, 0, 0, 0, 0, 0, 0, 0, 0]
  length_octets := rfl
  zeros _ := rfl

/-- The IPv6 address of sixteen octets. -/
def v6 (octets : List UInt8) (h : octets.length = 16) : Address := ⟨⟨.v6, octets, h⟩, nofun⟩

/-- The IPv6 address of a list of octets, if there are sixteen of them. -/
def v6? (octets : List UInt8) : Option Address :=
  if h : octets.length = 16 then some (v6 octets h) else none

end Address

end Net

end RoverControl
