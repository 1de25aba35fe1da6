import RoverControl.Service.Basic

/-!
# Handlers

One handler a route: it reads the body of a request that has been let in, acts on the service, and
gives the outcome.
-/

namespace RoverControl

/-! ## Reading bodies -/

/-- A speed from -1 to 1. -/
def readSpeed (body : Json) (name : Bytes) : Except Rejection Float :=
  match (body.find? name).bind Json.number? with
  | none => .error (.validation (name ++ ascii " is required"))
  | some x =>
    if -1 ≤ x ∧ x ≤ 1 then .ok x
    else .error (.validation (name ++ ascii " must be between -1 and 1"))

/-- A time in seconds, which may be left out. -/
def readDuration (body : Json) : Except Rejection (Option Float) :=
  match (body.find? (ascii "duration_s")).filter (!·.isNull) with
  | none => .ok none
  | some v =>
    match v.number? with
    | some x =>
      if x.isFinite && 0 < x then .ok (some x)
      else .error (.validation (ascii "duration_s must be a positive number"))
    | none => .error (.validation (ascii "duration_s must be a positive number"))

/-- A drive command. -/
def readCommand (body : Json) : Except Rejection Command :=
  match readSpeed body (ascii "left_speed") with
  | .error e => .error e
  | .ok left =>
    match readSpeed body (ascii "right_speed") with
    | .error e => .error e
    | .ok right =>
      match readDuration body with
      | .error e => .error e
      | .ok duration => .ok ⟨left, right, duration⟩

/-- An angle of at most `limit` degrees to either side. -/
def readAngle (body : Json) (name : Bytes) (limit : Nat) : Except Rejection Float :=
  let fault := Rejection.validation
    (name ++ ascii " must be between -" ++ decimal limit ++ ascii " and " ++ decimal limit ++
      ascii " degrees")
  match (body.find? name).bind Json.number? with
  | none => .error fault
  | some x =>
    let bound := Binary64.ofNat limit
    if -bound ≤ x ∧ x ≤ bound then .ok x else .error fault

/-! ## Replies -/

def statusBody (status : String) : Json := .object [(ascii "status", .text status)]

def readingMembers (r : UltrasonicReading) : List (Bytes × Json) :=
  [(ascii "distance_m", .number r.distance), (ascii "valid", .bool r.valid)]

/-- The reply to a motor call, or the fault if it was refused. -/
def motorOutcome (ok : Bool) (status fault : String) : Outcome :=
  if ok then .ok ⟨200, statusBody status⟩ else .error (.hardwareFault fault)

namespace Service

/-! ## Driving -/

/-- Queues a drive command, if the ingress limiter lets it pass and the queue has room. -/
def handleDrive (s : Service) (body : Json) : Outcome × Service :=
  match readCommand body with
  | .error e => (.error e, s)
  | .ok command =>
    match s.ingress.allow s.now with
    | (false, ingress) =>
      (.error ⟨.ingressRateLimited, ascii "Command rate limit exceeded"⟩, { s with ingress })
    | (true, ingress) =>
      match s.drivetrain.enqueue command with
      | (none, drivetrain) =>
        (.error ⟨.queueFull, ascii "Drive command queue is full"⟩, { s with ingress, drivetrain })
      | (some depth, drivetrain) =>
        (.ok ⟨202, .object [(ascii "status", .text "queued"),
          (ascii "queue_depth", .number (Binary64.ofNat depth))]⟩, { s with ingress, drivetrain })

/-- Stops the motors and discards the commands that wait. -/
def handleStop (s : Service) : Outcome × Service :=
  let (ok, drivetrain) := s.drivetrain.operate .stop
  (motorOutcome ok "stopped" "Actuator rejected stop", { s with drivetrain := drivetrain.clear })

/-- Brakes and discards the commands that wait. -/
def handleBrake (s : Service) : Outcome × Service :=
  let (ok, drivetrain) := s.drivetrain.operate .brake
  (motorOutcome ok "braking" "Actuator rejected brake", { s with drivetrain := drivetrain.clear })

/-- Discards the commands that wait and latches the motors. -/
def handleEmergencyStop (s : Service) : Outcome × Service :=
  let (ok, drivetrain) := s.drivetrain.clear.operate .emergencyStop
  (motorOutcome ok "estop" "Actuator rejected emergency stop", { s with drivetrain })

/-- Releases the latch of the motors. -/
def handleReset (s : Service) : Outcome × Service :=
  let (ok, drivetrain) := s.drivetrain.operate .resetEmergencyStop
  (motorOutcome ok "ready" "Actuator rejected emergency stop reset", { s with drivetrain })

/-! ## Instruments -/

/-- Points the servo. -/
def handlePanTilt (s : Service) (body : Json) : Outcome × Service :=
  match readAngle body (ascii "pan_deg") 90 with
  | .error e => (.error e, s)
  | .ok pan =>
    match readAngle body (ascii "tilt_deg") 45 with
    | .error e => (.error e, s)
    | .ok tilt =>
      if s.drivetrain.rig.faults.contains .servo then
        (.error (.hardwareFault "Servo rejected move"), s)
      else
        let servo := s.instruments.servo.moveTo pan tilt
        (.ok ⟨200, .object [(ascii "pan_deg", .number servo.pan),
          (ascii "tilt_deg", .number servo.tilt)]⟩,
          { s with instruments := { s.instruments with servo } })

/-- Measures the distance. -/
def handleUltrasonic (s : Service) : Outcome × Service :=
  match s.instruments.ultrasonic.read with
  | none => (.error (.hardwareFault "Ultrasonic sensor did not respond"), s)
  | some (reading, ultrasonic) =>
    let history := ultrasonic.history.map fun r => Json.object (readingMembers r)
    (.ok ⟨200, .object (readingMembers reading ++ [(ascii "history", .array history)])⟩,
      { s with instruments := { s.instruments with ultrasonic } })

/-- Looks for the line. -/
def handleLine (s : Service) : Outcome × Service :=
  match s.instruments.line.next with
  | none => (.error (.hardwareFault "Line sensor did not respond"), s)
  | some (reading, line) =>
    (.ok ⟨200, .object [(ascii "left", .number reading.left),
      (ascii "right", .number reading.right), (ascii "on_line", .bool reading.onLine)]⟩,
      { s with instruments := { s.instruments with line } })

/-! ## Configuration -/

/-- Shows the configuration. -/
def handleGetConfig (s : Service) : Outcome × Service :=
  (.ok ⟨200, s.store.config.snapshot⟩, s)

/-- Gives a limiter the limit of a patch, if it has one; nothing if the limiter refuses it. -/
def configureField (b : TokenBucket Float) : Option (RateLimit Float) → Option (TokenBucket Float)
  | none => some b
  | some limit => b.configure limit

/-- Gives the queue the length of a patch, if it has one; nothing if the queue refuses it. -/
def resizeField (d : Drivetrain) : Option Nat → Option Drivetrain
  | none => some d
  | some maxsize => d.setMaxsize maxsize

/-- Changes the configuration and the parts of the service that it governs. -/
def handlePatchConfig (s : Service) (body : Json) : Outcome × Service :=
  match Config.Patch.ofJson body with
  | .error e => (.error (.validation e.message), s)
  | .ok patch =>
    match configureField s.ingress patch.ingress with
    | none => (.error (.validation (ascii Config.Error.invalidIngressRate.message)), s)
    | some ingress =>
      let s := { s with ingress }
      match configureField s.drivetrain.limiter patch.execution with
      | none => (.error (.validation (ascii Config.Error.invalidExecutionRate.message)), s)
      | some limiter =>
        let s := { s with drivetrain := { s.drivetrain with limiter } }
        match resizeField s.drivetrain patch.queueMaxsize with
        | none => (.error (.validation (ascii Config.Error.invalidQueueMaxsize.message)), s)
        | some drivetrain =>
          let s := { s with drivetrain, store := s.store.apply patch }
          (.ok ⟨200, s.store.config.snapshot⟩, s)

end Service

end RoverControl
