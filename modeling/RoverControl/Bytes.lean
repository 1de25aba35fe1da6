/-!
# Bytes

All text that the service reads or writes is a list of bytes, which need not be valid UTF-8.  This
module holds the ASCII constants and classes and the few cutting operations that the wire formats
share: `Bytes.trim` drops blanks at both ends, `Bytes.cut` divides at the first separator, and
`decimal` and `readDecimal` write and read natural numbers.
-/

namespace RoverControl

/-- A text as it travels; its order is the lexicographic order of unsigned bytes. -/
abbrev Bytes := List UInt8

/-- The bytes of an ASCII text. -/
def ascii (s : String) : Bytes := s.toList.map fun c => UInt8.ofNat c.toNat

namespace Ascii

@[match_pattern] abbrev backspace : UInt8 := 0x08
@[match_pattern] abbrev tab : UInt8 := 0x09
@[match_pattern] abbrev newline : UInt8 := 0x0a
@[match_pattern] abbrev formFeed : UInt8 := 0x0c
@[match_pattern] abbrev carriageReturn : UInt8 := 0x0d
@[match_pattern] abbrev space : UInt8 := 0x20
@[match_pattern] abbrev quote : UInt8 := 0x22
@[match_pattern] abbrev plus : UInt8 := 0x2b
@[match_pattern] abbrev comma : UInt8 := 0x2c
@[match_pattern] abbrev minus : UInt8 := 0x2d
@[match_pattern] abbrev dot : UInt8 := 0x2e
@[match_pattern] abbrev slash : UInt8 := 0x2f
@[match_pattern] abbrev zero : UInt8 := 0x30
@[match_pattern] abbrev colon : UInt8 := 0x3a
@[match_pattern] abbrev questionMark : UInt8 := 0x3f
@[match_pattern] abbrev openBracket : UInt8 := 0x5b
@[match_pattern] abbrev backslash : UInt8 := 0x5c
@[match_pattern] abbrev closeBracket : UInt8 := 0x5d
@[match_pattern] abbrev openBrace : UInt8 := 0x7b
@[match_pattern] abbrev closeBrace : UInt8 := 0x7d

/-! ## Classes -/

def isDigit (c : UInt8) : Bool := 0x30 ≤ c && c ≤ 0x39

def isUpper (c : UInt8) : Bool := 0x41 ≤ c && c ≤ 0x5a

def isLower (c : UInt8) : Bool := 0x61 ≤ c && c ≤ 0x7a

def isAlphanumeric (c : UInt8) : Bool := isDigit c || isUpper c || isLower c

/-- Space or horizontal tab. -/
def isBlank (c : UInt8) : Bool := c == space || c == tab

/-- Space, tab, line feed, vertical tab, form feed or carriage return. -/
def isSpace (c : UInt8) : Bool := c == space || (0x09 ≤ c && c ≤ 0x0d)

def toLower (c : UInt8) : UInt8 := if isUpper c then c + 0x20 else c

def toUpper (c : UInt8) : UInt8 := if isLower c then c - 0x20 else c

/-- The number that a decimal digit stands for. -/
def digitValue (c : UInt8) : Nat := c.toNat - 0x30

/-- The number that a hexadecimal digit of either case stands for. -/
def hexValue? (c : UInt8) : Option Nat :=
  if isDigit c then some (c.toNat - 0x30)
  else if 0x61 ≤ c && c ≤ 0x66 then some (c.toNat - 0x57)
  else if 0x41 ≤ c && c ≤ 0x46 then some (c.toNat - 0x37)
  else none

/-- The lower-case hexadecimal digit of a number below sixteen. -/
def hexDigit (n : Nat) : UInt8 := if n < 10 then UInt8.ofNat (0x30 + n) else UInt8.ofNat (0x57 + n)

end Ascii

namespace Bytes

/-- The text with ASCII capitals made small. -/
def toLower (s : Bytes) : Bytes := s.map Ascii.toLower

/-- The text with small ASCII letters made capitals. -/
def toUpper (s : Bytes) : Bytes := s.map Ascii.toUpper

/-- The text without the blanks at its two ends. -/
def trim (s : Bytes) : Bytes :=
  ((s.dropWhile Ascii.isBlank).reverse.dropWhile Ascii.isBlank).reverse

/-- What stands before and after the first separator, if there is one. -/
def cut (sep : UInt8) (s : Bytes) : Option (Bytes × Bytes) :=
  match s.dropWhile (· != sep) with
  | [] => none
  | _ :: back => some (s.takeWhile (· != sep), back)

/-- What stands before the first separator, or the whole text. -/
def before (sep : UInt8) (s : Bytes) : Bytes := s.takeWhile (· != sep)

/-! ## Lengths -/

theorem length_dropWhile_le (p : UInt8 → Bool) (s : Bytes) : (s.dropWhile p).length ≤ s.length :=
  (List.dropWhile_sublist p).length_le

/-- Dropping a run of bytes that is not empty leaves less. -/
theorem length_dropWhile_lt {p : UInt8 → Bool} {s : Bytes} (h : s.takeWhile p ≠ []) :
    (s.dropWhile p).length < s.length := by
  have hs := congrArg List.length (List.takeWhile_append_dropWhile (p := p) (l := s))
  have := List.length_pos_iff.2 h
  simp only [List.length_append] at hs
  omega

end Bytes

/-! ## Natural numbers in decimal -/

/-- The decimal digits of a number, without leading zeros. -/
def decimal (n : Nat) : Bytes :=
  if n < 10 then [UInt8.ofNat (0x30 + n)]
  else decimal (n / 10) ++ [UInt8.ofNat (0x30 + n % 10)]

/-- The number that a run of decimal digits denotes. -/
def readDecimal (digits : Bytes) : Nat :=
  digits.foldl (fun n c => 10 * n + Ascii.digitValue c) 0

/-- The number that a whole text of one or more decimal digits denotes. -/
def readDecimal? (s : Bytes) : Option Nat :=
  if s ≠ [] && s.all Ascii.isDigit then some (readDecimal s) else none

/-- The decimal digits of an integer, after a minus sign if it is negative. -/
def decimalInt (n : Int) : Bytes :=
  if n < 0 then Ascii.minus :: decimal n.natAbs else decimal n.natAbs

end RoverControl
