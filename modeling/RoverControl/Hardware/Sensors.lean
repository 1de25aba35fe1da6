/-!
# Sensors

The simulated sensors replay a script of readings again and again, and do not respond if it is
empty.  The ultrasonic sensor also keeps the latest of its valid readings.
-/

namespace RoverControl

/-- A list of readings that is replayed from the start when it ends. -/
structure Script (α : Type) where
  readings : List α
  /-- The position of the reading that comes next. -/
  position : Nat

namespace Script

variable {α : Type}

def ofList (readings : List α) : Script α := ⟨readings, 0⟩

/-- The next reading, unless the script is empty. -/
def next (s : Script α) : Option (α × Script α) :=
  match s.readings[s.position]? with
  | some a => some (a, { s with position := (s.position + 1) % s.readings.length })
  | none => none

end Script

/-! ## Distance -/

structure UltrasonicReading where
  distance : Float
  valid : Bool

structure Ultrasonic where
  script : Script Float
  historySize : Nat
  /-- The latest valid readings, the oldest one first. -/
  history : List UltrasonicReading

namespace Ultrasonic

/-- The number of readings that are kept unless another one is asked for. -/
def standardHistorySize : Nat := 5

def new (distances : List Float) (historySize : Nat) : Ultrasonic :=
  ⟨Script.ofList distances, historySize, []⟩

/-- A sensor that sees the same distance four times. -/
def standard : Ultrasonic := new [2.5, 2.5, 2.5, 2.5] standardHistorySize

/-- Keeps a further reading, in place of the oldest one if there is no room. -/
def keep (history : List UltrasonicReading) (size : Nat) (r : UltrasonicReading) :
    List UltrasonicReading :=
  if size = 0 then history
  else (if size ≤ history.length then history.drop 1 else history) ++ [r]

/-- The next reading; distances that are not positive are not valid. -/
def read (u : Ultrasonic) : Option (UltrasonicReading × Ultrasonic) :=
  match u.script.next with
  | none => none
  | some (distance, script) =>
    let r : UltrasonicReading := ⟨distance, decide (0 < distance)⟩
    let history := if r.valid then keep u.history u.historySize r else u.history
    some (r, { u with script, history })

end Ultrasonic

/-! ## Line -/

structure LineReading where
  left : Float
  right : Float
  onLine : Bool

/-- A line sensor. -/
abbrev LineSensor := Script LineReading

namespace LineSensor

/-- A sensor that never sees a line. -/
def standard : LineSensor := Script.ofList [⟨0.1, 0.1, false⟩]

end LineSensor

end RoverControl
