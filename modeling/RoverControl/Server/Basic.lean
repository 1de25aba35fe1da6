import RoverControl.Json.Parser
import RoverControl.Server.Socket
import RoverControl.Service.Dispatch

/-!
# The server

`Server.serve` waits for one connection, reads a request from it, has the service answer, and
sends the answer.  A client may name the address that a request was forwarded for only if it is
itself in an allowed network; for all others the header holds the address they connect from.
-/

namespace RoverControl

/-- What has come of the visits so far. -/
structure ServerCounts where
  connections : Nat
  served : Nat
  rejected : Nat
  errors : Nat

structure Server where
  service : Service
  /-- How long receiving and sending may take, in milliseconds. -/
  ioTimeout : Int
  counts : ServerCounts

/-- How a visit ended. -/
inductive ServeStatus where
  | served
  | rejected
  | idle
  | error
  deriving DecidableEq

/-- A socket of the server. -/
inductive Descriptor where
  /-- The one that connections are accepted on. -/
  | listener
  /-- The accepted one. -/
  | connection
  deriving DecidableEq

/-- What is known of a visit when it is over. -/
structure Report where
  status : ServeStatus
  /-- The status of the answer, zero if there was none. -/
  code : Int
  method : Bytes
  path : Bytes
  peer : Bytes
  error : Option SocketError
  sent : Bytes
  /-- The number of calls to receive, and to send. -/
  receives : Nat
  sends : Nat
  /-- Whether a connection was accepted; the time for receiving and sending is set at once. -/
  accepted : Bool
  /-- The sockets that were closed. -/
  closed : List Descriptor

namespace Report

/-- A visit without a connection. -/
def noConnection (status : ServeStatus) (error : Option SocketError) : Report :=
  ⟨status, 0, [], [], [], error, [], 0, 0, false, []⟩

/-- Closes the connection at the end of a visit. -/
def close (r : Report) : Report := { r with closed := r.closed ++ [.connection] }

end Report

namespace Server

/-- The time that is allowed for receiving and sending unless another one is asked for. -/
def standardIoTimeout : Int := 2000

/-- A server that has not been visited. -/
def new (service : Service) (ioTimeout : Int) : Server := ⟨service, ioTimeout, ⟨0, 0, 0, 0⟩⟩

/-- The seconds and microseconds of the time that receiving and sending may take; neither part of
a negative time is positive. -/
def ioTimeoutParts (s : Server) : Int × Int :=
  (s.ioTimeout.tdiv 1000, s.ioTimeout.tmod 1000 * 1000)

/-- The time that a wait of that many milliseconds for a connection is given: a number of 32 bits
with a sign, which wraps around. -/
def pollTimeout (milliseconds : Int) : Int := milliseconds.bmod UInt32.size

def countError (s : Server) : Server :=
  { s with counts := { s.counts with errors := s.counts.errors + 1 } }

/-! ## Requests -/

/-- The headers that the service is shown for a request from a peer. -/
def forwardedHeaders (store : Config.Store) (peer : Bytes) (headers : Headers) : Headers :=
  if (Net.Address.parse peer).any store.isAllowed then headers.add forwardedForHeader peer
  else headers.assign forwardedForHeader (if peer = [] then ascii "unknown" else peer)

/-- The body of a request as a value, null if it is empty. -/
def decodeBody (body : Bytes) : Except Json.Error Json :=
  if body = [] then .ok .null else Json.parse body

/-- The answer to what was read, with the method and path if the service gave it. -/
structure Answer where
  response : Http.Response
  dispatched : Option (Bytes × Bytes)

/-- Answers what was read from a peer. -/
def answer (service : Service) (peer : Bytes) (read : Except Http.Error Http.Request) :
    Answer × Service :=
  match read with
  | .error e => (⟨⟨e.status, Http.detailBody (ascii e.message)⟩, none⟩, service)
  | .ok request =>
    match decodeBody request.body with
    | .error e =>
      (⟨⟨400, Http.detailBody (ascii "Invalid JSON body: " ++ ascii e.message)⟩, none⟩, service)
    | .ok body =>
      let headers := forwardedHeaders service.store peer request.headers
      let (response, service) := service.handle request.method request.path body headers
      (⟨response, some (request.method, request.path)⟩, service)

/-! ## Visits -/

/-- Serves a connection that has been accepted from a peer, and leaves it open. -/
def converse (s : Server) (v : Visit) (peer : Bytes) : Report × Server :=
  let reading := readRequest [] v.receipts
  match reading.request with
  | .error e =>
    (⟨.error, 0, [], [], peer, some e, [], reading.calls, 0, true, []⟩, s.countError)
  | .ok read =>
    let (a, service) := answer s.service peer read
    let counts :=
      if a.dispatched.isSome then { s.counts with served := s.counts.served + 1 }
      else { s.counts with rejected := s.counts.rejected + 1 }
    let s := { s with service, counts }
    let (method, path) := a.dispatched.getD ([], [])
    let sending := sendAll a.response.format v.takes
    let report : Report := {
      status :=
        if sending.error.isSome then .error else if a.dispatched.isSome then .served else .rejected
      code := a.response.status
      method
      path
      peer
      error := sending.error
      sent := sending.sent
      receives := reading.calls
      sends := sending.calls
      accepted := true
      closed := [] }
    (report, if sending.error.isSome then s.countError else s)

/-- Waits for one connection and serves it. -/
def serve (s : Server) (v : Visit) : Report × Server :=
  match v.poll with
  | .timeout => (.noConnection .idle none, s)
  | .failed e =>
    if e = .interrupted then (.noConnection .idle none, s)
    else (.noConnection .error (some e), s.countError)
  | .ready =>
    match v.peer with
    | .error e =>
      if e = .interrupted || e = .wouldBlock then (.noConnection .idle none, s)
      else (.noConnection .error (some e), s.countError)
    | .ok peer =>
      let s := { s with counts := { s.counts with connections := s.counts.connections + 1 } }
      let (report, s) := s.converse v ((peer.map (·.text)).getD [])
      (report.close, s)

end Server

end RoverControl
