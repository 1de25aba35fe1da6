import RoverControl.Json.Printer

/-!
# Responses

A response is a status and a JSON body.  It is written with a head of four lines, the last but one
of which counts the bytes of the body.
-/

namespace RoverControl

namespace Http

structure Response where
  status : Int
  body : Json

/-- The body of every answer that refuses a request. -/
def detailBody (detail : Bytes) : Json := .object [(ascii "detail", .string detail)]

/-- The phrase that explains a status to a human reader. -/
def reasonPhrase : Int → String
  | 200 => "OK"
  | 202 => "Accepted"
  | 400 => "Bad Request"
  | 401 => "Unauthorized"
  | 403 => "Forbidden"
  | 404 => "Not Found"
  | 413 => "Payload Too Large"
  | 422 => "Unprocessable Entity"
  | 429 => "Too Many Requests"
  | 431 => "Request Header Fields Too Large"
  | 500 => "Internal Server Error"
  | 501 => "Not Implemented"
  | 503 => "Service Unavailable"
  | 505 => "HTTP Version Not Supported"
  | _ => "Unknown"

/-- The bytes of a response. -/
def Response.format (r : Response) : Bytes :=
  let payload := r.body.render
  ascii "HTTP/1.1 " ++ decimalInt r.status ++ ascii " " ++ ascii (reasonPhrase r.status) ++
    ascii "\r\nContent-Type: application/json\r\nContent-Length: " ++ decimal payload.length ++
    ascii "\r\nConnection: close\r\n\r\n" ++ payload

end Http

end RoverControl
