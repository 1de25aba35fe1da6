import RoverControl.Service.Access
import RoverControl.Service.Handlers
import RoverControl.Service.Route

/-!
# Requests to the service

`Service.handle` answers one request: it checks the access, finds the route, and runs its handler.
Every request is counted by the status of its answer.
-/

namespace RoverControl

namespace Service

/-- Runs the handler of a route. -/
def runRoute (s : Service) (body : Json) : Route → Outcome × Service
  | .drive => s.handleDrive body
  | .stop => s.handleStop
  | .brake => s.handleBrake
  | .emergencyStop => s.handleEmergencyStop
  | .reset => s.handleReset
  | .panTilt => s.handlePanTilt body
  | .ultrasonic => s.handleUltrasonic
  | .line => s.handleLine
  | .getConfig => s.handleGetConfig
  | .patchConfig => s.handlePatchConfig body

/-- The outcome of a request; a body that is null counts as an empty object. -/
def outcome (s : Service) (method path : Bytes) (body : Json) (headers : Headers) :
    Outcome × Service :=
  match s.store.denial headers with
  | some denial => (.error denial, s)
  | none =>
    match Route.find? method path with
    | none => (.error ⟨.routeNotFound, ascii "Not Found"⟩, s)
    | some route => s.runRoute (if body.isNull then .object [] else body) route

/-- Answers a request, and counts it. -/
def handle (s : Service) (method path : Bytes) (body : Json) (headers : Headers) :
    Http.Response × Service :=
  let (outcome, s) := s.outcome method path body headers
  let response := outcome.response
  (response, { s with metrics := s.metrics.record response.status })

/-- Starts the worker. -/
def start (s : Service) (fails : Bool) : Bool × Service :=
  let (ok, drivetrain) := s.drivetrain.start fails
  (ok, { s with drivetrain })

/-- Ends the worker, and stops the motors. -/
def shutdown (s : Service) : Bool × Service :=
  let (ok, drivetrain) := s.drivetrain.stop.operate .stop
  (ok, { s with drivetrain })

end Service

end RoverControl
