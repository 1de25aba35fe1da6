import RoverControl.Hardware.Motors
import RoverControl.Rate.TokenBucket

/-!
# Virtual time

A `Timeline` is a clock that moves only when it is told to, a sleeper whose behaviour can be chosen,
and a record of the sleeps and motor calls of the current step.  A step has room for a number of
sleeps that the timeline sets, so that waiting on a clock that stands still comes to an end:
`TokenBucket.await` sleeps and tries again until it has a token or the sleeper fails.
-/

namespace RoverControl

/-- What a sleeper does once it has noted how long it shall sleep. -/
inductive SleeperMode where
  /-- Moves the clock on by that time. -/
  | advance
  /-- Returns at once. -/
  | frozen
  /-- Fails. -/
  | fail
  /-- Fails once, and moves the clock on from then on. -/
  | failOnce
  deriving DecidableEq

/-- Who makes a motor call: the worker that executes the queue, or someone who bypasses it. -/
inductive Caller where
  | worker
  | operator
  deriving DecidableEq

/-- Something that happened during a step. -/
inductive Event where
  /-- The worker asked for a sleep of that many nanoseconds. -/
  | sleep (nanoseconds : Int)
  | call (caller : Caller) (c : MotorCall)
  deriving DecidableEq

structure Timeline where
  /-- The clock reading, in nanoseconds. -/
  now : Int
  /-- The clock reads no more than this, and no less than its negative, if it is bounded. -/
  bound : Option Int
  mode : SleeperMode
  /-- How many sleeps a step has room for. -/
  room : Nat
  /-- How many more sleeps the current step has room for. -/
  sleepsLeft : Nat
  /-- What has happened in the current step, in order. -/
  events : List Event

namespace Timeline

/-- A clock whose readings and their differences fit into 64 bits stays within this bound. -/
def standardBound : Int := 4000000000000000000

/-- Room for more sleeps than a step needs while the clock moves on. -/
def standardRoom : Nat := 64

/-- A clock that reads zero, with a sleeper that moves it on. -/
def start (bound : Option Int) : Timeline := ⟨0, bound, .advance, standardRoom, standardRoom, []⟩

/-- Begins a step: forgets what happened in the one before. -/
def beginStep (t : Timeline) : Timeline := { t with sleepsLeft := t.room, events := [] }

/-- The reading nearest to a time that the clock can have. -/
def clip (t : Timeline) (now : Int) : Int :=
  match t.bound with
  | some bound => max (-bound) (min bound now)
  | none => now

/-- Sets the clock, within its bounds. -/
def setClock (t : Timeline) (now : Int) : Timeline := { t with now := t.clip now }

/-- Moves the clock on, or back. -/
def elapse (t : Timeline) (nanoseconds : Int) : Timeline := t.setClock (t.now + nanoseconds)

/-- Adds an event to the record. -/
def note (t : Timeline) (e : Event) : Timeline := { t with events := t.events ++ [e] }

/-! ## Steps -/

/-- A change of time from outside. -/
inductive Step where
  | advance (nanoseconds : Int)
  | clock (now : Int)
  | sleeper (mode : SleeperMode)

/-- Carries out a change of time. -/
def act (t : Timeline) : Step → Timeline
  | .advance nanoseconds => t.elapse nanoseconds
  | .clock now => t.setClock now
  | .sleeper mode => { t with mode }

/-! ## Sleeping -/

/-- Why a sleep did not end well. -/
inductive SleepFault where
  /-- The sleeper failed. -/
  | failed
  /-- The step has no room for a further sleep. -/
  | exhausted
  deriving DecidableEq

/-- How a sleep ended, and the time after it. -/
inductive Slept where
  | woke (t : Timeline)
  | fault (why : SleepFault) (t : Timeline)

/-- Sleeps once. -/
def sleep (t : Timeline) (nanoseconds : Int) : Slept :=
  match t.sleepsLeft with
  | 0 => .fault .exhausted t
  | n + 1 =>
    let t := { t.note (.sleep nanoseconds) with sleepsLeft := n }
    match t.mode with
    | .advance => .woke (t.elapse nanoseconds)
    | .frozen => .woke t
    | .fail => .fault .failed t
    | .failOnce => .fault .failed { t with mode := .advance }

theorem sleepsLeft_of_woke {t t' : Timeline} {d : Int} (h : t.sleep d = .woke t') :
    t'.sleepsLeft < t.sleepsLeft := by
  unfold sleep at h
  split at h
  · simp at h
  · rename_i hn
    dsimp only at h
    split at h
    · simp only [Slept.woke.injEq] at h
      simp [← h, elapse, setClock, hn]
    · simp only [Slept.woke.injEq] at h
      simp [← h, hn]
    · simp at h
    · simp at h

end Timeline

namespace TokenBucket

variable {α : Type} [Quantity α]

/-- The outcome of waiting for a token: the fault that ended the wait, if it did not end with a
token, and the bucket and the time after it. -/
structure Awaited (α : Type) where
  fault : Option Timeline.SleepFault
  bucket : TokenBucket α
  time : Timeline

/-- Takes a token, and sleeps as long as there is none. -/
def await (b : TokenBucket α) (t : Timeline) : Awaited α :=
  match b.attempt t.now with
  | .taken b => ⟨none, b, t⟩
  | .wait nanoseconds b =>
    match _h : t.sleep nanoseconds with
    | .woke t => b.await t
    | .fault why t => ⟨some why, b, t⟩
termination_by t.sleepsLeft
decreasing_by exact Timeline.sleepsLeft_of_woke _h

end TokenBucket

end RoverControl
