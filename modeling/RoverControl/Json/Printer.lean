import RoverControl.Json.Basic
import RoverControl.Number.Shortest

/-!
# Compact JSON text

`Json.render` writes a value without any space.  In texts, the quote, the backslash and the control
characters are escaped and every other byte is written as it is; whole numbers below `2 ^ 53` in
magnitude are written as integers, other finite numbers by their shortest text, and numbers that
are not finite as null.
-/

namespace RoverControl

namespace Json

/-- How one byte is written inside quotes. -/
def escapeByte (c : UInt8) : Bytes :=
  if c = Ascii.quote then ascii "\\\""
  else if c = Ascii.backslash then ascii "\\\\"
  else if c = Ascii.backspace then ascii "\\b"
  else if c = Ascii.formFeed then ascii "\\f"
  else if c = Ascii.newline then ascii "\\n"
  else if c = Ascii.carriageReturn then ascii "\\r"
  else if c = Ascii.tab then ascii "\\t"
  else if c < 0x20 then
    ascii "\\u00" ++ [Ascii.hexDigit (c.toNat / 16), Ascii.hexDigit (c.toNat % 16)]
  else [c]

/-- A text in quotes. -/
def renderString (s : Bytes) : Bytes := Ascii.quote :: (s.flatMap escapeByte ++ [Ascii.quote])

/-- The text of a number. -/
def renderNumber (x : Float) : Bytes :=
  match Binary64.exactValue? x with
  | none => ascii "null"
  | some v =>
    if v.isIntegral && v.floorAbs < 2 * Binary64.hiddenBit then
      if v.negative && v.floorAbs != 0 then Ascii.minus :: decimal v.floorAbs
      else decimal v.floorAbs
    else v.text

mutual

/-- The compact text of a value. -/
def render : Json → Bytes
  | .null => ascii "null"
  | .bool true => ascii "true"
  | .bool false => ascii "false"
  | .number x => renderNumber x
  | .string s => renderString s
  | .array items => Ascii.openBracket :: (renderItems items ++ [Ascii.closeBracket])
  | .object members => Ascii.openBrace :: (renderMembers members ++ [Ascii.closeBrace])

/-- The texts of the items, divided by commas. -/
def renderItems : List Json → Bytes
  | [] => []
  | [v] => render v
  | v :: rest => render v ++ Ascii.comma :: renderItems rest

/-- The texts of the members, divided by commas. -/
def renderMembers : List (Bytes × Json) → Bytes
  | [] => []
  | [(k, v)] => renderString k ++ Ascii.colon :: render v
  | (k, v) :: rest =>
    renderString k ++ Ascii.colon :: (render v ++ Ascii.comma :: renderMembers rest)

end

end Json

end RoverControl
