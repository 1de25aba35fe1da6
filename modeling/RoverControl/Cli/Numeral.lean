import RoverControl.Bytes
import RoverControl.Number.Binary64

/-!
# Numbers on the command line

Numbers are read leniently: white space in front and a sign are allowed, a natural number too large
for 64 bits counts as the largest one, and a negative one wraps around.  A rate may also be written
in hexadecimal with a binary exponent, or be infinite or undefined.  In all cases the number must
be followed by the end of the text.
-/

namespace RoverControl

namespace Cli

/-- The sign in front of a text, and the rest. -/
def readSign : Bytes → Bool × Bytes
  | Ascii.minus :: rest => (true, rest)
  | Ascii.plus :: rest => (false, rest)
  | s => (false, s)

/-- The largest natural number of 64 bits. -/
def maxUnsigned : Nat := UInt64.size - 1

/-- A natural number of 64 bits. -/
def readUnsigned (s : Bytes) : Option Nat :=
  if s.head? = some Ascii.minus then none
  else
    let (negative, digits) := readSign (s.dropWhile Ascii.isSpace)
    match readDecimal? digits with
    | none => none
    | some n =>
      if maxUnsigned < n then some maxUnsigned
      else if negative then some ((maxUnsigned + 1 - n) % (maxUnsigned + 1))
      else some n

/-! ## Rates -/

/-- Whether a text consists of the small letters of `word` in any case. -/
def isWord (word : String) (s : Bytes) : Bool := s.toLower == ascii word

/-- Whether a text is the word for an undefined number, with letters, digits and underscores in
parentheses after it or without. -/
def isUndefined (s : Bytes) : Bool :=
  isWord "nan" s ||
    (isWord "nan(" (s.take 4) && s.getLast? == some 0x29 &&
      ((s.drop 4).dropLast.all fun c => Ascii.isAlphanumeric c || c == 0x5f))

/-- The digits before and after a point, at least one in all, and the rest. -/
def readPointed (isDigit : UInt8 → Bool) (s : Bytes) : Option (Bytes × Bytes × Bytes) :=
  let whole := s.takeWhile isDigit
  let (fraction, rest) :=
    match s.dropWhile isDigit with
    | Ascii.dot :: rest => (rest.takeWhile isDigit, rest.dropWhile isDigit)
    | rest => ([], rest)
  if whole = [] && fraction = [] then none else some (whole, fraction, rest)

/-- The exponent that makes up a whole text after the letter `mark`; zero if the text is empty. -/
def readExponent (mark : UInt8) : Bytes → Option Int
  | [] => some 0
  | c :: rest =>
    if Ascii.toLower c = mark then
      let (negative, digits) := readSign rest
      (readDecimal? digits).map fun n => if negative then -(n : Int) else n
    else none

/-- The double nearest to a text in decimal notation. -/
def readDecimalRate (negative : Bool) (s : Bytes) : Option Float :=
  match readPointed Ascii.isDigit s with
  | none => none
  | some (whole, fraction, rest) =>
    (readExponent 0x65 rest).map fun e =>
      Binary64.ofDecimal negative (readDecimal (whole ++ fraction)) (e - fraction.length)

/-- The number that a run of hexadecimal digits denotes. -/
def readHexadecimal (digits : Bytes) : Nat :=
  digits.foldl (fun n c => 16 * n + (Ascii.hexValue? c).getD 0) 0

/-- The double nearest to a text in hexadecimal notation, after the mark of that notation. -/
def readHexadecimalRate (negative : Bool) (s : Bytes) : Option Float :=
  match readPointed (fun c => (Ascii.hexValue? c).isSome) s with
  | none => none
  | some (whole, fraction, rest) =>
    (readExponent 0x70 rest).map fun e =>
      Binary64.ofBinary negative (readHexadecimal (whole ++ fraction)) (e - 4 * fraction.length)

/-- A rate in any notation. -/
def readRate (s : Bytes) : Option Float :=
  let (negative, s) := readSign (s.dropWhile Ascii.isSpace)
  if isWord "inf" s || isWord "infinity" s then
    some (Binary64.ofWord negative Binary64.infinityWord)
  else if isUndefined s then some (Binary64.ofWord negative Binary64.undefinedWord)
  else
    match s with
    | Ascii.zero :: c :: rest =>
      if Ascii.toLower c = 0x78 then readHexadecimalRate negative rest
      else readDecimalRate negative s
    | _ => readDecimalRate negative s

end Cli

end RoverControl
