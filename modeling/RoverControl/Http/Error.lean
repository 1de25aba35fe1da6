/-!
# Reasons for refusing a request before it is understood
-/

namespace RoverControl

namespace Http

/-- Why the bytes received are not a request. -/
inductive Error where
  | incomplete
  | headTooLarge
  | bodyTooLarge
  | malformedRequestLine
  | unsupportedVersion
  | malformedHeader
  | tooManyHeaders
  | invalidContentLength
  | chunkedNotSupported
  | trailingData
  deriving DecidableEq

/-- The status that answers such bytes. -/
def Error.status : Error → Int
  | .headTooLarge => 431
  | .bodyTooLarge => 413
  | .unsupportedVersion => 505
  | .chunkedNotSupported => 501
  | .incomplete | .malformedRequestLine | .malformedHeader | .tooManyHeaders
  | .invalidContentLength | .trailingData => 400

/-- The reason as it is told to a client. -/
def Error.message : Error → String
  | .incomplete => "incomplete request"
  | .headTooLarge => "header block too large"
  | .bodyTooLarge => "body too large"
  | .malformedRequestLine => "malformed request line"
  | .unsupportedVersion => "unsupported HTTP version"
  | .malformedHeader => "malformed header"
  | .tooManyHeaders => "too many headers"
  | .invalidContentLength => "invalid Content-Length"
  | .chunkedNotSupported => "chunked transfer encoding not supported"
  | .trailingData => "unexpected data after body"

end Http

end RoverControl
