import RoverControl.Service.Basic

/-!
# Access

A request is let in if its `X-Api-Key` header holds one of the keys and its client address lies in
one of the allowed networks.  The client is the first address of the `X-Forwarded-For` header, or
the loopback address where that header is missing or empty.
-/

namespace RoverControl

def apiKeyHeader : Bytes := ascii "X-Api-Key"

def forwardedForHeader : Bytes := ascii "X-Forwarded-For"

def loopbackAddress : Bytes := ascii "127.0.0.1"

/-- The text of the address that a request is judged by. -/
def clientAddress (headers : Headers) : Bytes :=
  match headers.find? forwardedForHeader with
  | none | some [] => loopbackAddress
  | some chain => chain.before Ascii.comma

/-- Why a request with these headers is not let in, if it is not. -/
def Config.Store.denial (store : Config.Store) (headers : Headers) : Option Rejection :=
  if !((headers.find? apiKeyHeader).any store.hasKey) then
    some ⟨.authentication, ascii "Invalid API key"⟩
  else
    match Net.Address.parse (clientAddress headers) with
    | none => some ⟨.malformedClientAddress, ascii "Invalid client IP"⟩
    | some address =>
      if store.isAllowed address then none
      else some ⟨.authorization, ascii "Client network not permitted"⟩

end RoverControl
