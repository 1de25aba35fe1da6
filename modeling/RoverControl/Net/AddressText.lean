import RoverControl.Net.Address

/-!
# Addresses as text

An IPv4 address is written as four decimal numbers divided by dots.  An IPv6 address is written as
eight groups of up to four hexadecimal digits divided by colons; two colons stand for one or more
groups of zeros, and the last two groups may be written as an IPv4 address.  `Address.parse` reads
both forms, and `RawAddress.text` writes the shortest one of these rules: the first of the longest
runs of two or more zero groups is left out, and addresses that embed an IPv4 address end with its
four numbers.
-/

namespace RoverControl

namespace Net

namespace Address

/-! ## Reading -/

/-- A decimal number up to 255 without superfluous zeros. -/
def readOctet (s : Bytes) : Option UInt8 :=
  match readDecimal? s with
  | some n =>
    if n < 256 && (s.length = 1 || s.head? != some Ascii.zero) then some n.toUInt8 else none
  | none => none

/-- Four octets divided by dots. -/
def readDotted (s : Bytes) : Option (UInt8 × UInt8 × UInt8 × UInt8) :=
  match s.splitOn Ascii.dot with
  | [a, b, c, d] =>
    match readOctet a, readOctet b, readOctet c, readOctet d with
    | some a, some b, some c, some d => some (a, b, c, d)
    | _, _, _, _ => none
  | _ => none

/-- The number of a group of hexadecimal digits. -/
def readHex : Bytes → Option Nat
  | s => s.foldlM (fun n c => (Ascii.hexValue? c).map (16 * n + ·)) 0

/-- The two octets of a group. -/
def readGroup (s : Bytes) : Option (List UInt8) :=
  if s = [] || 4 < s.length then none
  else (readHex s).map fun n => [(n / 256).toUInt8, (n % 256).toUInt8]

/-- The octets of groups of which the last may be a dotted IPv4 address if `dotted` holds. -/
def readGroups (dotted : Bool) : List Bytes → Option (List UInt8)
  | [] => some []
  | [s] =>
    if dotted && s.contains Ascii.dot then
      (readDotted s).map fun (a, b, c, d) => [a, b, c, d]
    else readGroup s
  | s :: rest =>
    match readGroup s, readGroups dotted rest with
    | some front, some back => some (front ++ back)
    | _, _ => none

/-- The groups of a text, which may be empty. -/
def groupsOf (s : Bytes) : List Bytes := if s = [] then [] else s.splitOn Ascii.colon

/-- What stands before and after the first pair of colons; `front` holds the bytes before, the last
one first. -/
def cutPair (front : Bytes) : Bytes → Option (Bytes × Bytes)
  | Ascii.colon :: Ascii.colon :: back => some (front.reverse, back)
  | c :: rest => cutPair (c :: front) rest
  | [] => none

/-- An IPv4 address, read from a whole text. -/
def parseV4 (s : Bytes) : Option Address :=
  (readDotted s).map fun (a, b, c, d) => v4 a b c d

/-- An IPv6 address, read from a whole text. -/
def parseV6 (s : Bytes) : Option Address :=
  match cutPair [] s with
  | none => (readGroups true (groupsOf s)).bind v6?
  | some (front, back) =>
    match readGroups false (groupsOf front), readGroups true (groupsOf back) with
    | some front, some back =>
      if front.length + back.length ≤ 14 then
        v6? (front ++ List.replicate (16 - (front.length + back.length)) 0 ++ back)
      else none
    | _, _ => none

/-- The longest text that is taken for an address. -/
def maxTextBytes : Nat := 45

/-- An address of either family, with blanks around it.  A zero byte ends the text. -/
def parse (s : Bytes) : Option Address :=
  let s := s.trim
  if s = [] || maxTextBytes < s.length then none
  else
    let s := s.before 0
    (parseV4 s).or (parseV6 s)

/-! ## Writing -/

/-- Texts with a separator between each two. -/
def join (sep : Bytes) : List Bytes → Bytes
  | [] => []
  | [s] => s
  | s :: rest => s ++ sep ++ join sep rest

/-- Octets in decimal, divided by dots. -/
def dottedText (octets : List UInt8) : Bytes :=
  join [Ascii.dot] (octets.map fun c => decimal c.toNat)

/-- A number in hexadecimal digits, without leading zeros. -/
def hexText (n : Nat) : Bytes :=
  if n < 16 then [Ascii.hexDigit n] else hexText (n / 16) ++ [Ascii.hexDigit (n % 16)]

/-- The groups of sixteen bits that octets make up. -/
def words : List UInt8 → List Nat
  | a :: b :: rest => (256 * a.toNat + b.toNat) :: words rest
  | _ => []

/-- The number of zeros at the front of a list. -/
def leadingZeros (ws : List Nat) : Nat := (ws.takeWhile (· == 0)).length

/-- The first of the longest runs of zeros in a list: its position and its length. -/
def longestZeroRun (ws : List Nat) : Nat × Nat :=
  (List.range ws.length).foldl
    (fun best i =>
      let n := leadingZeros (ws.drop i)
      if best.2 < n then (i, n) else best)
    (0, 0)

def groupsText (ws : List Nat) : Bytes := join [Ascii.colon] (ws.map hexText)

/-- The text of sixteen octets as an IPv6 address. -/
def groupedText (octets : List UInt8) : Bytes :=
  let ws := words octets
  let (start, count) := longestZeroRun ws
  if count < 2 then groupsText ws
  else if start = 0 && count = 6 then ascii "::" ++ dottedText (octets.drop 12)
  else if start = 0 && count = 5 && ws[5]? = some 0xffff then
    ascii "::ffff:" ++ dottedText (octets.drop 12)
  else groupsText (ws.take start) ++ ascii "::" ++ groupsText (ws.drop (start + count))

end Address

/-- The text of an address. -/
def RawAddress.text (a : RawAddress) : Bytes :=
  match a.family with
  | .v4 => Address.dottedText (a.octets.take 4)
  | .v6 => Address.groupedText a.octets

end Net

end RoverControl
