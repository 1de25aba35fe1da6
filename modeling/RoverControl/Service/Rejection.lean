import RoverControl.Http.Response

/-!
# Rejections

A request that the service does not carry out is answered with the status of the kind of its
rejection and an object that holds the detail.
-/

namespace RoverControl

/-- Why a request was not carried out. -/
inductive Rejection.Kind where
  | validation
  | authentication
  | authorization
  | malformedClientAddress
  | queueFull
  | ingressRateLimited
  | routeNotFound
  | hardwareFault
  deriving DecidableEq

def Rejection.Kind.status : Rejection.Kind → Int
  | .validation => 422
  | .authentication => 401
  | .authorization => 403
  | .malformedClientAddress => 400
  | .queueFull => 503
  | .ingressRateLimited => 429
  | .routeNotFound => 404
  | .hardwareFault => 500

/-- The name of a kind in logs. -/
def Rejection.Kind.label : Rejection.Kind → String
  | .validation => "validation"
  | .authentication => "authentication"
  | .authorization => "authorization"
  | .malformedClientAddress => "malformed_client_address"
  | .queueFull => "queue_full"
  | .ingressRateLimited => "ingress_rate_limited"
  | .routeNotFound => "route_not_found"
  | .hardwareFault => "hardware_fault"

structure Rejection where
  kind : Rejection.Kind
  detail : Bytes

/-- What a handler makes of a request. -/
abbrev Outcome := Except Rejection Http.Response

/-- The response to a rejected request. -/
def Rejection.response (r : Rejection) : Http.Response := ⟨r.kind.status, Http.detailBody r.detail⟩

/-- The response that tells an outcome. -/
def Outcome.response : Outcome → Http.Response
  | .ok r => r
  | .error r => r.response

namespace Rejection

def validation (detail : Bytes) : Rejection := ⟨.validation, detail⟩

def hardwareFault (detail : String) : Rejection := ⟨.hardwareFault, ascii detail⟩

end Rejection

end RoverControl
