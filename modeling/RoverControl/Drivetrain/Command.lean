import RoverControl.Rig.Basic

/-!
# Drive commands

A command is executed in two parts: its drive call is put on record, and once the gate of the rig
lets it pass, `Rig.finish` carries it out, sleeps for the duration of the command if it has one,
and stops the motors after that.
-/

namespace RoverControl

/-- Two speeds, and after how many seconds to stop. -/
structure Command where
  left : Float
  right : Float
  duration : Option Float

/-- The drive call of a command. -/
def Command.driveCall (c : Command) : MotorCall := .drive c.left c.right

/-- Carries out the drive call of a command, which is on record, and what follows it.  The answer
tells whether all went well. -/
def Rig.finish (r : Rig) (c : Command) : Bool × Rig :=
  match r.carryOut c.driveCall with
  | (false, r) => (false, r)
  | (true, r) =>
    match c.duration with
    | none => (true, r)
    | some seconds =>
      match r.time.sleep (Quantity.sleepTime seconds) with
      | .woke time => { r with time }.call .worker .stop
      | .fault _ time => (false, { r with time })

end RoverControl
