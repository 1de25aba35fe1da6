import RoverControl.Drivetrain.Basic

/-!
# Runs of the drivetrain

A run is a sequence of steps: operations on the queue and on its limiter, the start and end of the
worker, faults and holds of the rig, and changes of time.
-/

namespace RoverControl

namespace Drivetrain

/-- What can be done with a drivetrain. -/
inductive Step where
  | enqueue (c : Command)
  | clear
  | setMaxsize (maxsize : Nat)
  | configure (limit : RateLimit Float)
  | start (fails : Bool)
  | stop
  | operate (c : MotorCall)
  | hold
  | release
  | fail (parts : List Part)
  | time (t : Timeline.Step)

/-- What a step answers. -/
inductive StepAnswer where
  | nothing
  | flag (b : Bool)
  /-- The number of commands that wait after one was accepted. -/
  | accepted (depth : Nat)
  | queueFull
  /-- The number of commands that were discarded. -/
  | cleared (count : Nat)

/-- The outcome of an operation that may be refused. -/
def orRefuse (d : Drivetrain) : Option Drivetrain → StepAnswer × Drivetrain
  | some d => (.flag true, d)
  | none => (.flag false, d)

/-- Does a step that has begun. -/
def act (d : Drivetrain) : Step → StepAnswer × Drivetrain
  | .enqueue c =>
    match d.enqueue c with
    | (some depth, d) => (.accepted depth, d)
    | (none, d) => (.queueFull, d)
  | .clear => (.cleared d.depth, d.clear)
  | .setMaxsize maxsize => d.orRefuse (d.setMaxsize maxsize)
  | .configure limit => d.orRefuse (d.configure limit)
  | .start fails =>
    let (ok, d) := d.start fails
    (.flag ok, d)
  | .stop => (.nothing, d.stop)
  | .operate c =>
    let (ok, d) := d.operate c
    (.flag ok, d)
  | .hold => (.nothing, d.hold)
  | .release => (.nothing, d.release)
  | .fail parts => (.nothing, d.mapRig ({ · with faults := parts }))
  | .time t => (.nothing, d.mapRig (·.mapTime (·.act t)))

/-- Begins a step and does it. -/
def step (d : Drivetrain) (step : Step) : StepAnswer × Drivetrain :=
  (d.mapRig (·.mapTime Timeline.beginStep)).act step

/-- The drivetrain after a sequence of steps. -/
def run (d : Drivetrain) (steps : List Step) : Drivetrain :=
  steps.foldl (fun d step => (d.step step).2) d

end Drivetrain

end RoverControl
