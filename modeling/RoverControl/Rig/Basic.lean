import RoverControl.Rig.Timeline

/-!
# The rig

The rig is what the drivetrain drives: simulated motors on a timeline, parts of which can be made
to refuse their calls, and a gate that can hold a drive call after it has begun.
-/

namespace RoverControl

/-- A part that can be made to refuse its calls. -/
inductive Part where
  | drive
  | stop
  | brake
  | emergencyStop
  | resetEmergencyStop
  | servo
  deriving DecidableEq

/-- The part that a motor call needs. -/
def MotorCall.part : MotorCall → Part
  | .drive _ _ => .drive
  | .stop => .stop
  | .brake => .brake
  | .emergencyStop => .emergencyStop
  | .resetEmergencyStop => .resetEmergencyStop

structure Rig where
  time : Timeline
  motors : Motors
  /-- The parts that refuse their calls. -/
  faults : List Part
  /-- Whether drive calls wait at the gate. -/
  held : Bool

namespace Rig

/-- A rig at rest in which nothing is broken. -/
def new (time : Timeline) : Rig := ⟨time, Motors.atRest, [], false⟩

def mapTime (r : Rig) (f : Timeline → Timeline) : Rig := { r with time := f r.time }

/-- Puts a motor call on record. -/
def note (r : Rig) (caller : Caller) (c : MotorCall) : Rig :=
  r.mapTime (·.note (.call caller c))

/-- Carries out a call that is on record, unless its part refuses. -/
def carryOut (r : Rig) (c : MotorCall) : Bool × Rig :=
  if r.faults.contains c.part then (false, r) else (true, { r with motors := r.motors.apply c })

/-- Makes a motor call; the answer tells whether it was carried out. -/
def call (r : Rig) (caller : Caller) (c : MotorCall) : Bool × Rig := (r.note caller c).carryOut c

end Rig

end RoverControl
