/-!
# Reasons for refusing a JSON text
-/

namespace RoverControl

namespace Json

/-- Why a text is not read as a value. -/
inductive Error where
  | inputTooLarge
  | emptyInput
  | invalidJson
  | nestingTooDeep
  | invalidNumber
  | invalidEscape
  | unterminatedString
  | trailingContent
  deriving DecidableEq

/-- The reason as it is told to a client. -/
def Error.message : Error → String
  | .inputTooLarge => "input too large"
  | .emptyInput => "empty input"
  | .invalidJson => "invalid JSON"
  | .nestingTooDeep => "nesting too deep"
  | .invalidNumber => "invalid number"
  | .invalidEscape => "invalid escape sequence"
  | .unterminatedString => "unterminated string"
  | .trailingContent => "trailing content after JSON value"

end Json

end RoverControl
