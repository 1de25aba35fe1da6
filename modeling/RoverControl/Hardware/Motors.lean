/-!
# Motors

The simulated motors of a differential drive.  An emergency stop latches them: until it is reset,
drive, stop and brake calls are accepted and counted, but change nothing.
-/

namespace RoverControl

/-- A call to the motors. -/
inductive MotorCall where
  | drive (left right : Float)
  | stop
  | brake
  | emergencyStop
  | resetEmergencyStop
  deriving DecidableEq

/-- The state of the motors. -/
structure Motors where
  left : Float
  right : Float
  braking : Bool
  latched : Bool
  driveCount : Nat
  ignoredCount : Nat

namespace Motors

/-- Motors at rest. -/
def atRest : Motors := ⟨0, 0, false, false, 0, 0⟩

/-- The value nearest to `x` from `lo` to `hi`; an undefined value stays as it is. -/
def clamp (x lo hi : Float) : Float := if x < lo then lo else if hi < x then hi else x

/-- Counts a call that the latch swallows. -/
def ignore (m : Motors) : Motors := { m with ignoredCount := m.ignoredCount + 1 }

/-- The motors after a call. -/
def apply (m : Motors) : MotorCall → Motors
  | .drive left right =>
    if m.latched then m.ignore
    else
      { m with
        left := clamp left (-1) 1
        right := clamp right (-1) 1
        braking := false
        driveCount := m.driveCount + 1 }
  | .stop => if m.latched then m.ignore else { m with left := 0, right := 0, braking := false }
  | .brake => if m.latched then m.ignore else { m with left := 0, right := 0, braking := true }
  | .emergencyStop => { m with left := 0, right := 0, braking := false, latched := true }
  | .resetEmergencyStop => { m with latched := false }

end Motors

end RoverControl
