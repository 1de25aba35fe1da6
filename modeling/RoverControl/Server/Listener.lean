import RoverControl.Server.Socket

/-!
# Listening

`listen` sets up the socket on which connections are accepted: four calls, of which each may fail.
A socket that cannot be set up is closed again.
-/

namespace RoverControl

/-- A call that may fail while a listener is set up or asked for its port. -/
inductive ListenerCall where
  | socket
  | reuseAddress
  | bind
  | listen
  | socketName
  deriving DecidableEq

/-- A call that was made. -/
inductive ListenerEvent where
  | socket
  | reuseAddress
  | bind (octets : UInt8 × UInt8 × UInt8 × UInt8) (port : UInt16)
  | listen

/-- How setting up a listener went. -/
structure Listening where
  ok : Bool
  events : List ListenerEvent
  /-- Whether the socket was closed again. -/
  closed : Bool

/-- The address that connections are accepted on unless another one is asked for. -/
def standardBindAddress : Bytes := ascii "127.0.0.1"

/-- Listens on an IPv4 address and a port, where the call `fails` fails. -/
def listen (fails : Option ListenerCall) (address : Bytes) (port : UInt16) : Listening :=
  match Net.Address.readDotted (address.before 0) with
  | none => ⟨false, [], false⟩
  | some octets =>
    if fails = some .socket then ⟨false, [.socket], false⟩
    else if fails = some .reuseAddress then ⟨false, [.socket, .reuseAddress], true⟩
    else if fails = some .bind then ⟨false, [.socket, .reuseAddress, .bind octets port], true⟩
    else ⟨fails ≠ some .listen, [.socket, .reuseAddress, .bind octets port, .listen],
      fails = some .listen⟩

/-- The port that a listener listens on. -/
def Listening.localPort (l : Listening) (fails : Option ListenerCall) (port : UInt16) :
    Option UInt16 :=
  if l.ok && fails ≠ some .socketName then some port else none

end RoverControl
