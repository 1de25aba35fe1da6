import RoverControl.Http.Request
import RoverControl.Net.AddressText
import RoverControl.Server.SocketError

/-!
# Connections

A `Visit` is what the sockets do while the server waits for one connection and serves it: how the
wait ends, who connects, what arrives in which pieces, and how much of the answer is taken at a
time.  `readRequest` and `sendAll` are the two loops over the pieces; both try again after an
interruption.
-/

namespace RoverControl

/-- How waiting for a connection ends. -/
inductive Poll where
  | ready
  | timeout
  | failed (e : SocketError)

/-- What the sockets do during one visit. -/
structure Visit where
  poll : Poll
  /-- The address of the peer, none if it is of an unknown family; or why it is not accepted. -/
  peer : Except SocketError (Option Net.Address)
  /-- What arrives; after that the peer has closed its side. -/
  arrivals : List (Except SocketError Bytes)
  /-- How many bytes are taken at a time; after that all of them. -/
  takes : List (Except SocketError Nat)

namespace Visit

/-- A visit in which nobody connects in time. -/
def nobody : Visit := ⟨.timeout, .ok none, [], []⟩

/-- The most that is received in one call. -/
def chunkBytes : Nat := 4096

/-- The pieces of at most `chunkBytes` bytes that `fuel` calls receive of a chunk. -/
def piecesFrom : (fuel : Nat) → Bytes → List Bytes
  | 0, _ => []
  | fuel + 1, s =>
    if s = [] then [] else s.take chunkBytes :: piecesFrom fuel (s.drop chunkBytes)

/-- The pieces in which a chunk is received. -/
def pieces (s : Bytes) : List Bytes := piecesFrom (s.length / chunkBytes + 1) s

/-- What the calls to receive give, one after the other. -/
def receipts (v : Visit) : List (Except SocketError Bytes) :=
  v.arrivals.flatMap fun
    | .error e => [.error e]
    | .ok s => (pieces s).map .ok

end Visit

/-! ## Receiving -/

/-- What was read from a connection, and in how many calls. -/
structure Reading where
  request : Except SocketError (Except Http.Error Http.Request)
  calls : Nat

/-- One more call than that. -/
def Reading.succ (r : Reading) : Reading := { r with calls := r.calls + 1 }

/-- The most that is read before giving up on an incomplete request. -/
def maxRequestBytes : Nat := Http.maxHeadBytes + Http.maxBodyBytes

/-- Reads until the bytes received make up a request or can no longer become one, or until the
peer has closed its side. -/
def readRequest (buffer : Bytes) : List (Except SocketError Bytes) → Reading
  | [] => ⟨.ok (Http.Request.parse buffer), 1⟩
  | .error e :: rest =>
    if e = .interrupted then (readRequest buffer rest).succ else ⟨.error e, 1⟩
  | .ok [] :: _ => ⟨.ok (Http.Request.parse buffer), 1⟩
  | .ok piece :: rest =>
    match Http.Request.parse (buffer ++ piece) with
    | .error .incomplete =>
      if maxRequestBytes < (buffer ++ piece).length then ⟨.ok (.error .incomplete), 1⟩
      else (readRequest (buffer ++ piece) rest).succ
    | result => ⟨.ok result, 1⟩

/-! ## Sending -/

/-- What was sent, in how many calls, and why not all of it, if so. -/
structure Sending where
  sent : Bytes
  calls : Nat
  error : Option SocketError

/-- Sends until all is taken. -/
def sendAll (data : Bytes) : List (Except SocketError Nat) → Sending
  | [] => if data = [] then ⟨[], 0, none⟩ else ⟨data, 1, none⟩
  | step :: rest =>
    if data = [] then ⟨[], 0, none⟩
    else
      match step with
      | .error e =>
        if e = .interrupted then
          let s := sendAll data rest
          { s with calls := s.calls + 1 }
        else ⟨[], 1, some e⟩
      | .ok n =>
        let s := sendAll (data.drop n) rest
        ⟨data.take n ++ s.sent, s.calls + 1, s.error⟩

end RoverControl
