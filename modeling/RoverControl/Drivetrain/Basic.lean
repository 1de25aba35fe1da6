import RoverControl.Drivetrain.Command
import RoverControl.Queue.Bounded

/-!
# The drivetrain

Drive commands wait in a bounded queue for a worker, which executes them one after the other: it
waits for a token of the execution limiter, makes the drive call, and after a command with a
duration sleeps for that time and makes a stop call.  A command has failed if a call is refused or
a sleep ends badly.

Between two operations the worker has always done what it can: it is idle and the queue is empty,
or it stands in a drive call that is held at the gate of the rig.
-/

namespace RoverControl

/-- What the worker is doing. -/
inductive Worker where
  /-- There is none. -/
  | absent
  /-- It waits for commands. -/
  | idle
  /-- Its drive call for a command is held. -/
  | driving (c : Command)

/-- What has become of the commands so far. -/
structure QueueCounts where
  enqueued : Nat
  rejectedFull : Nat
  executed : Nat
  executionFailures : Nat
  drained : Nat

structure Drivetrain where
  backlog : BoundedQueue Command
  /-- The number of accepted commands that have been neither executed nor discarded. -/
  unfinished : Nat
  counts : QueueCounts
  worker : Worker
  limiter : TokenBucket Float
  rig : Rig

namespace Drivetrain

/-- A drivetrain without commands and without a worker. -/
def new (maxsize : Nat) (limiter : TokenBucket Float) (rig : Rig) : Drivetrain where
  backlog := .empty maxsize
  unfinished := 0
  counts := ⟨0, 0, 0, 0, 0⟩
  worker := .absent
  limiter
  rig

/-- The number of commands that wait. -/
def depth (d : Drivetrain) : Nat := d.backlog.size

/-- Whether there is a worker. -/
def running (d : Drivetrain) : Bool :=
  match d.worker with
  | .absent => false
  | _ => true

/-- Whether no command waits or is being executed. -/
def isIdle (d : Drivetrain) : Bool := d.unfinished == 0

def mapRig (d : Drivetrain) (f : Rig → Rig) : Drivetrain := { d with rig := f d.rig }

/-! ## The worker -/

/-- Counts a command that has been executed, well or not. -/
def record (d : Drivetrain) (ok : Bool) : Drivetrain :=
  { d with
    counts :=
      if ok then { d.counts with executed := d.counts.executed + 1 }
      else { d.counts with executionFailures := d.counts.executionFailures + 1 }
    unfinished := d.unfinished - 1 }

/-- Finishes a command whose drive call is on record. -/
def finish (d : Drivetrain) (c : Command) : Drivetrain :=
  let (ok, rig) := d.rig.finish c
  { d with rig, worker := .idle }.record ok

/-- Takes up a command: waits for a token, makes the drive call, and finishes the command unless
the call is held. -/
def execute (d : Drivetrain) (c : Command) : Drivetrain :=
  let awaited := d.limiter.await d.rig.time
  let d := { d with limiter := awaited.bucket, rig := { d.rig with time := awaited.time } }
  match awaited.fault with
  | some _ => d.record false
  | none =>
    let d := d.mapRig (·.note .worker c.driveCall)
    if d.rig.held then { d with worker := .driving c } else d.finish c

/-- Executes the commands of a list, which are all that wait, until one is held. -/
def executeAll (d : Drivetrain) : List Command → Drivetrain
  | [] => d
  | c :: rest =>
    let d := { d with backlog := { d.backlog with items := rest } }.execute c
    match d.worker with
    | .idle => d.executeAll rest
    | _ => d

/-- Lets an idle worker do what it can. -/
def settle (d : Drivetrain) : Drivetrain :=
  match d.worker with
  | .idle => d.executeAll d.backlog.items
  | _ => d

/-! ## The queue -/

/-- Appends a command, and answers with the number that wait then, or with nothing if the queue is
full. -/
def enqueue (d : Drivetrain) (c : Command) : Option Nat × Drivetrain :=
  match d.backlog.push c with
  | (false, backlog) =>
    (none, { d with
      backlog
      counts := { d.counts with rejectedFull := d.counts.rejectedFull + 1 } })
  | (true, backlog) =>
    (some backlog.size, { d with
      backlog
      unfinished := d.unfinished + 1
      counts := { d.counts with enqueued := d.counts.enqueued + 1 } }.settle)

/-- Discards the commands that wait. -/
def clear (d : Drivetrain) : Drivetrain :=
  { d with
    backlog := d.backlog.clear
    unfinished := d.unfinished - d.depth
    counts := { d.counts with drained := d.counts.drained + d.depth } }

/-- Changes how many commands may wait; zero is refused. -/
def setMaxsize (d : Drivetrain) (maxsize : Nat) : Option Drivetrain :=
  if maxsize = 0 then none else some { d with backlog := d.backlog.setCapacity maxsize }

/-- Changes the limit of execution, unless the new one is not valid. -/
def configure (d : Drivetrain) (limit : RateLimit Float) : Option Drivetrain :=
  (d.limiter.configure limit).map fun limiter => { d with limiter }

/-! ## Starting and stopping -/

/-- Starts the worker unless there is one, or unless `fails` says that none can be had. -/
def start (d : Drivetrain) (fails : Bool) : Bool × Drivetrain :=
  match d.worker with
  | .absent => if fails then (false, d) else (true, { d with worker := .idle }.settle)
  | _ => (true, d)

/-- Ends the worker: a command that it holds passes the gate and is finished, and those that wait
are discarded. -/
def stop (d : Drivetrain) : Drivetrain :=
  let d :=
    match d.worker with
    | .driving c => (d.mapRig ({ · with held := false })).finish c
    | _ => d
  { d with worker := .absent }.clear

/-! ## The gate -/

/-- Holds drive calls at the gate from now on. -/
def hold (d : Drivetrain) : Drivetrain := d.mapRig ({ · with held := true })

/-- Opens the gate. -/
def release (d : Drivetrain) : Drivetrain :=
  let d := d.mapRig ({ · with held := false })
  match d.worker with
  | .driving c => (d.finish c).settle
  | _ => d

/-- Makes a motor call that bypasses the queue. -/
def operate (d : Drivetrain) (c : MotorCall) : Bool × Drivetrain :=
  let (ok, rig) := d.rig.call .operator c
  (ok, { d with rig })

end Drivetrain

end RoverControl
