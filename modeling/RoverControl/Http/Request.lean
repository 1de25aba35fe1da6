import RoverControl.Http.Error
import RoverControl.Http.Headers

/-!
# Requests

A request is a head and a body.  The head is a request line, at most 64 header lines and an empty
line, 8192 bytes at most in all; a line ends with a line feed, and a carriage return right before
it belongs to the line end.  The body has as many bytes as the head announces, 65536 at most, and
nothing follows it.  `Request.parse` reads a request and names the first rule that is broken;
`Http.Error.incomplete` means that more bytes may still make it a request.
-/

namespace RoverControl

namespace Http

/-- The longest head, with the empty line at its end. -/
def maxHeadBytes : Nat := 8192

/-- The longest body. -/
def maxBodyBytes : Nat := 65536

/-- The largest number of header lines. -/
def maxHeaderLines : Nat := 64

/-- A request, its target divided at the first question mark. -/
structure Request where
  method : Bytes
  path : Bytes
  query : Bytes
  headers : Headers
  body : Bytes

/-! ## Lines -/

/-- A line whose last byte comes first, without a carriage return at its end. -/
def finishLine : Bytes → Bytes
  | Ascii.carriageReturn :: line => line.reverse
  | line => line.reverse

/-- Divides a text into the lines before the first empty one and what follows that; `line` holds
the bytes of the current line read so far, the last one first. -/
def splitHeadFrom (line : Bytes) : Bytes → Option (List Bytes × Bytes)
  | [] => none
  | c :: rest =>
    if c = Ascii.newline then
      if finishLine line = [] then some ([], rest)
      else (splitHeadFrom [] rest).map fun (lines, body) => (finishLine line :: lines, body)
    else splitHeadFrom (c :: line) rest

/-- The lines before the first empty one, and what follows that. -/
def splitHead (raw : Bytes) : Option (List Bytes × Bytes) := splitHeadFrom [] raw

/-! ## The request line -/

/-- The bytes that names of methods and header fields are made of. -/
def isTokenByte (c : UInt8) : Bool :=
  Ascii.isAlphanumeric c || (ascii "!#$%&'*+-.^_|~\x60").contains c

/-- One or more such bytes. -/
def isToken (s : Bytes) : Bool := s ≠ [] && s.all isTokenByte

/-- A method and a target, divided by one space from each other and from the version. -/
def readRequestLine (line : Bytes) : Except Error (Bytes × Bytes) :=
  match Bytes.cut Ascii.space line with
  | none => .error .malformedRequestLine
  | some (method, rest) =>
    match Bytes.cut Ascii.space rest with
    | none => .error .malformedRequestLine
    | some (target, version) =>
      if !isToken method || target.head? != some Ascii.slash || version.contains Ascii.space then
        .error .malformedRequestLine
      else if version = ascii "HTTP/1.1" || version = ascii "HTTP/1.0" then .ok (method, target)
      else if (ascii "HTTP/").isPrefixOf version then .error .unsupportedVersion
      else .error .malformedRequestLine

/-- The path and the query of a target. -/
def splitTarget (target : Bytes) : Bytes × Bytes :=
  (Bytes.cut Ascii.questionMark target).getD (target, [])

/-! ## Header lines -/

/-- What the header lines read so far say: their fields, and the length of the body. -/
structure Fields where
  headers : Headers
  contentLength : Option Nat

/-- The number in a `Content-Length` field. -/
def readContentLength (value : Bytes) : Option Nat :=
  (readDecimal? value).filter (· < UInt64.size)

/-- The length of the body after a further announcement, which must not contradict an earlier
one. -/
def agreeLength (earlier : Option Nat) (value : Bytes) : Except Error (Option Nat) :=
  match readContentLength value with
  | none => .error .invalidContentLength
  | some n =>
    if earlier = none || earlier = some n then .ok (some n) else .error .invalidContentLength

/-- Takes in one more header line. -/
def Fields.addLine (fields : Fields) (line : Bytes) : Except Error Fields :=
  match Bytes.cut Ascii.colon line with
  | none => .error .malformedHeader
  | some (name, value) =>
    let value := value.trim
    if !isToken name then .error .malformedHeader
    else if Headers.sameName name (ascii "Content-Length") then
      match agreeLength fields.contentLength value with
      | .error e => .error e
      | .ok length => .ok ⟨fields.headers.add name value, length⟩
    else if Headers.sameName name (ascii "Transfer-Encoding") then .error .chunkedNotSupported
    else .ok ⟨fields.headers.add name value, fields.contentLength⟩

/-- Takes in header lines one after the other. -/
def Fields.addLines (fields : Fields) : List Bytes → Except Error Fields
  | [] => .ok fields
  | line :: rest =>
    match fields.addLine line with
    | .error e => .error e
    | .ok fields => fields.addLines rest

/-! ## Whole requests -/

/-- The request whose head has been divided into lines and whose body is in `body`. -/
def readRequest (lines : List Bytes) (body : Bytes) : Except Error Request :=
  match lines with
  | [] => .error .malformedRequestLine
  | first :: headerLines =>
    match readRequestLine first with
    | .error e => .error e
    | .ok (method, target) =>
      if maxHeaderLines < headerLines.length then .error .tooManyHeaders
      else
        match Fields.addLines ⟨[], none⟩ headerLines with
        | .error e => .error e
        | .ok fields =>
          let length := fields.contentLength.getD 0
          if maxBodyBytes < length then .error .bodyTooLarge
          else if body.length < length then .error .incomplete
          else if length < body.length then .error .trailingData
          else
            .ok {
              method
              path := (splitTarget target).1
              query := (splitTarget target).2
              headers := fields.headers
              body }

/-- The request that the bytes received make up. -/
def Request.parse (raw : Bytes) : Except Error Request :=
  match splitHead raw with
  | none => .error (if maxHeadBytes < raw.length then .headTooLarge else .incomplete)
  | some (lines, body) =>
    if maxHeadBytes < raw.length - body.length then .error .headTooLarge
    else readRequest lines body

end Http

end RoverControl
