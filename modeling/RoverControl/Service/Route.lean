import RoverControl.Bytes

/-!
# Routes
-/

namespace RoverControl

/-- What the service can be asked for. -/
inductive Route where
  | drive
  | stop
  | brake
  | emergencyStop
  | reset
  | panTilt
  | ultrasonic
  | line
  | getConfig
  | patchConfig
  deriving DecidableEq

namespace Route

/-- The method and the path of every route. -/
def table : List (Bytes × Bytes × Route) := [
  (ascii "POST", ascii "/drive/differential", .drive),
  (ascii "POST", ascii "/drive/stop", .stop),
  (ascii "POST", ascii "/drive/brake", .brake),
  (ascii "POST", ascii "/drive/emergency-stop", .emergencyStop),
  (ascii "POST", ascii "/drive/reset", .reset),
  (ascii "POST", ascii "/pan-tilt/position", .panTilt),
  (ascii "GET", ascii "/telemetry/ultrasonic", .ultrasonic),
  (ascii "GET", ascii "/telemetry/line", .line),
  (ascii "GET", ascii "/config", .getConfig),
  (ascii "PATCH", ascii "/config", .patchConfig)]

/-- The route of a method, in capital or small letters, and a path. -/
def find? (method path : Bytes) : Option Route :=
  (table.find? fun (m, p, _) => m == method.toUpper && p == path).map fun (_, _, route) => route

end Route

end RoverControl
