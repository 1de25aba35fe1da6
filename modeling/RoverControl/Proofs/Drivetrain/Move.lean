import RoverControl.Drivetrain.Step

/-!
# Moves of the drivetrain

An operation on the drivetrain is made of moves that each happen at once: those of whoever operates
it, and those of the worker, which gets on with one command at a time.  `Move` says what a move
does at a `Moment`, that is to a drivetrain whose worker has reached some `Phase`, and `Path`
strings moves together.  Nothing in them says whose turn it is, so a path may be any order in
which operators and the worker come to act.
-/

namespace RoverControl

namespace Drivetrain

/-- How far the worker has come with the command that it has taken. -/
inductive Phase where
  /-- It has taken none. -/
  | free
  /-- It waits for a token. -/
  | waiting (c : Command)
  /-- The drive call is on record and has not been answered. -/
  | calling (c : Command)
  /-- The drive call was carried out, and these seconds are to pass. -/
  | pausing (c : Command) (seconds : Float)
  /-- They have passed, and the motors are to be stopped. -/
  | stopping (c : Command)
  /-- The command remains to be counted, as executed well or not. -/
  | ending (c : Command) (ok : Bool)

namespace Phase

/-- The number of commands that the worker has taken and not finished. -/
def inHand : Phase → Nat
  | free => 0
  | _ => 1

/-- What follows the answer to a drive call. -/
def afterAnswer (c : Command) (ok : Bool) : Phase :=
  match ok, c.duration with
  | true, none => ending c true
  | true, some seconds => pausing c seconds
  | false, _ => ending c false

/-- Whether the worker can get no further by itself: it has no command, or its drive call has not
been answered. -/
def AtRest : Phase → Prop
  | free | calling _ => True
  | _ => False

end Phase

/-- A drivetrain between two moves. -/
structure Moment where
  drivetrain : Drivetrain
  phase : Phase

/-- The phase of a worker that has done what it can. -/
def phase (d : Drivetrain) : Phase :=
  match d.worker with
  | .driving c => .calling c
  | _ => .free

/-- A drivetrain between two operations. -/
def moment (d : Drivetrain) : Moment := ⟨d, d.phase⟩

/-! ## Actions -/

/-- What is done in a move. -/
inductive Action where
  /-- A step begins, and the record of the one before is forgotten. -/
  | begin
  /-- Something changes besides commands, motors and counts. -/
  | adjust
  | accept (c : Command)
  /-- A command finds the queue full. -/
  | refuse (c : Command)
  /-- The commands that wait are discarded. -/
  | discard (cs : List Command)
  | operate (c : MotorCall) (ok : Bool)
  /-- A worker is engaged. -/
  | engage
  /-- The worker is dismissed. -/
  | dismiss
  | take (c : Command)
  /-- The worker asks for a sleep because there is no token. -/
  | wait (c : Command) (nanoseconds : Int) (fault : Option Timeline.SleepFault)
  /-- It makes the drive call. -/
  | call (c : Command)
  /-- The drive call is held at the gate. -/
  | block (c : Command)
  /-- The drive call returns. -/
  | answer (c : Command) (ok : Bool)
  /-- The worker asks for a sleep as long as the duration of the command. -/
  | pause (c : Command) (nanoseconds : Int) (fault : Option Timeline.SleepFault)
  | stop (c : Command) (ok : Bool)
  /-- The command is counted, as executed well or not. -/
  | finish (c : Command) (ok : Bool)

namespace Action

/-- Whether an action is one of the worker. -/
def isWorkers : Action → Bool
  | begin | adjust | accept _ | refuse _ | discard _ | operate _ _ | engage | dismiss => false
  | _ => true

/-- The event of a sleep: a sleep that there is no room for leaves none. -/
def sleepEvent? (nanoseconds : Int) (fault : Option Timeline.SleepFault) : Option Event :=
  if fault = some .exhausted then none else some (.sleep nanoseconds)

/-- What an action leaves on record. -/
def event? : Action → Option Event
  | operate c _ => some (.call .operator c)
  | wait _ nanoseconds fault | pause _ nanoseconds fault => sleepEvent? nanoseconds fault
  | call c => some (.call .worker c.driveCall)
  | stop _ _ => some (.call .worker .stop)
  | _ => none

/-- The number of commands that an action brings into the queue. -/
def admitted : Action → Nat
  | accept _ => 1
  | _ => 0

/-- The number of commands that an action marks as done. -/
def settled : Action → Nat
  | discard cs => cs.length
  | finish _ _ => 1
  | _ => 0

end Action

/-- What a sequence of actions leaves on record. -/
def recorded (acts : List Action) : List Event := acts.filterMap Action.event?

/-- The actions that are not the worker's. -/
def operations (acts : List Action) : List Action := acts.filter (!·.isWorkers)

/-- The actions of the worker. -/
def work (acts : List Action) : List Action := acts.filter (·.isWorkers)

/-! ## Moves -/

/-- A drivetrain that differs from another in nothing that commands, motors or counts depend on. -/
structure Alike (d d' : Drivetrain) : Prop where
  items : d'.backlog.items = d.backlog.items
  unfinished : d'.unfinished = d.unfinished
  counts : d'.counts = d.counts
  worker : d'.worker = d.worker
  admits : d'.limiter.admits = d.limiter.admits
  drops : d'.limiter.drops = d.limiter.drops
  waits : d'.limiter.waits = d.limiter.waits
  motors : d'.rig.motors = d.rig.motors
  events : d'.rig.time.events = d.rig.time.events

/-- A drivetrain with another limiter at another time. -/
def resume (d : Drivetrain) (limiter : TokenBucket Float) (time : Timeline) : Drivetrain :=
  { d with limiter, rig := { d.rig with time } }

/-- A drivetrain whose rig has another time. -/
def atTime (d : Drivetrain) (time : Timeline) : Drivetrain := d.mapRig ({ · with time })

/-- What a move does. -/
inductive Move : Moment → Action → Moment → Prop where
  | begin {d p} : Move ⟨d, p⟩ .begin ⟨d.mapRig (·.mapTime Timeline.beginStep), p⟩
  | adjust {d d' p} (h : d.Alike d') : Move ⟨d, p⟩ .adjust ⟨d', p⟩
  | accept {d p c backlog} (h : d.backlog.push c = (true, backlog)) :
      Move ⟨d, p⟩ (.accept c) ⟨{ d with
        backlog
        unfinished := d.unfinished + 1
        counts := { d.counts with enqueued := d.counts.enqueued + 1 } }, p⟩
  | refuse {d p c backlog} (h : d.backlog.push c = (false, backlog)) :
      Move ⟨d, p⟩ (.refuse c) ⟨{ d with
        backlog
        counts := { d.counts with rejectedFull := d.counts.rejectedFull + 1 } }, p⟩
  | discard {d p} : Move ⟨d, p⟩ (.discard d.backlog.items) ⟨d.clear, p⟩
  | operate {d p c ok rig} (h : d.rig.call .operator c = (ok, rig)) :
      Move ⟨d, p⟩ (.operate c ok) ⟨{ d with rig }, p⟩
  | engage {d} (h : d.worker = .absent) :
      Move ⟨d, .free⟩ .engage ⟨{ d with worker := .idle }, .free⟩
  | dismiss {d} : Move ⟨d, .free⟩ .dismiss ⟨{ d with worker := .absent }, .free⟩
  | take {d c rest} (hw : d.worker = .idle) (h : d.backlog.items = c :: rest) :
      Move ⟨d, .free⟩ (.take c)
        ⟨{ d with backlog := { d.backlog with items := rest } }, .waiting c⟩
  | wait {d c nanoseconds limiter time}
      (h : d.limiter.attempt d.rig.time.now = .wait nanoseconds limiter)
      (hs : d.rig.time.sleep nanoseconds = .woke time) :
      Move ⟨d, .waiting c⟩ (.wait c nanoseconds none) ⟨d.resume limiter time, .waiting c⟩
  | waitFault {d c nanoseconds limiter why time}
      (h : d.limiter.attempt d.rig.time.now = .wait nanoseconds limiter)
      (hs : d.rig.time.sleep nanoseconds = .fault why time) :
      Move ⟨d, .waiting c⟩ (.wait c nanoseconds (some why))
        ⟨d.resume limiter time, .ending c false⟩
  | call {d c limiter} (h : d.limiter.attempt d.rig.time.now = .taken limiter) :
      Move ⟨d, .waiting c⟩ (.call c)
        ⟨(d.resume limiter d.rig.time).mapRig (·.note .worker c.driveCall), .calling c⟩
  | block {d c} (h : d.rig.held = true) :
      Move ⟨d, .calling c⟩ (.block c) ⟨{ d with worker := .driving c }, .calling c⟩
  | answer {d c ok rig} (hh : d.rig.held = false) (h : d.rig.carryOut c.driveCall = (ok, rig)) :
      Move ⟨d, .calling c⟩ (.answer c ok)
        ⟨{ d with rig, worker := .idle }, .afterAnswer c ok⟩
  | pause {d c seconds time} (h : d.rig.time.sleep (Quantity.sleepTime seconds) = .woke time) :
      Move ⟨d, .pausing c seconds⟩ (.pause c (Quantity.sleepTime seconds) none)
        ⟨d.atTime time, .stopping c⟩
  | pauseFault {d c seconds why time}
      (h : d.rig.time.sleep (Quantity.sleepTime seconds) = .fault why time) :
      Move ⟨d, .pausing c seconds⟩ (.pause c (Quantity.sleepTime seconds) (some why))
        ⟨d.atTime time, .ending c false⟩
  | stop {d c ok rig} (h : d.rig.call .worker .stop = (ok, rig)) :
      Move ⟨d, .stopping c⟩ (.stop c ok) ⟨{ d with rig }, .ending c ok⟩
  | finish {d c ok} : Move ⟨d, .ending c ok⟩ (.finish c ok) ⟨d.record ok, .free⟩

/-! ## Paths -/

/-- A path leads from one moment to another by actions in order, each of them a move. -/
inductive Path (R : Moment → Action → Moment → Prop) : Moment → List Action → Moment → Prop where
  | nil {m} : Path R m [] m
  | cons {m a m' acts m''} (h : R m a m') (t : Path R m' acts m'') : Path R m (a :: acts) m''

namespace Path

variable {R R' : Moment → Action → Moment → Prop} {m m' m'' : Moment} {acts acts' : List Action}

theorem single {a : Action} (h : R m a m') : Path R m [a] m' := .cons h .nil

theorem append (h : Path R m acts m') (h' : Path R m' acts' m'') :
    Path R m (acts ++ acts') m'' := by
  induction h with
  | nil => exact h'
  | cons h _ ih => exact .cons h (ih h')

/-- A path can be divided after any of its actions. -/
theorem exists_of_append (h : Path R m (acts ++ acts') m'') :
    ∃ m', Path R m acts m' ∧ Path R m' acts' m'' := by
  induction acts generalizing m with
  | nil => exact ⟨m, .nil, h⟩
  | cons a acts ih =>
    cases h with
    | cons h t =>
      obtain ⟨m', h₁, h₂⟩ := ih t
      exact ⟨m', .cons h h₁, h₂⟩

/-- What every move keeps holds along a whole path. -/
theorem keeps {I : Moment → Prop} (hI : ∀ {m a m'}, R m a m' → I m → I m')
    (h : Path R m acts m') (hm : I m) : I m' := by
  induction h with
  | nil => exact hm
  | cons h _ ih => exact ih (hI h hm)

/-- What every action but one keeps holds along a path without that action. -/
theorem keeps_of_notMem {I : Moment → Prop} {bad : Action}
    (hI : ∀ {m a m'}, R m a m' → a ≠ bad → I m → I m') (h : Path R m acts m')
    (hacts : bad ∉ acts) (hm : I m) : I m' := by
  induction h with
  | nil => exact hm
  | cons h _ ih =>
    have hne := List.ne_of_not_mem_cons hacts
    exact ih (List.not_mem_of_not_mem_cons hacts) (hI h hne.symm hm)

/-- If every move keeps an invariant, and whatever it does where the invariant holds is a move of
another kind, then a path is one of that kind. -/
theorem strengthen {I : Moment → Prop} (hI : ∀ {m a m'}, R m a m' → I m → I m')
    (hR : ∀ {m a m'}, R m a m' → I m → R' m a m') (h : Path R m acts m') (hm : I m) :
    Path R' m acts m' := by
  induction h with
  | nil => exact .nil
  | cons h _ ih => exact .cons (hR h hm) (ih (hI h hm))

end Path

end Drivetrain

end RoverControl
