import RoverControl.Config.Patch
import RoverControl.Drivetrain.Basic
import RoverControl.Hardware.Sensors
import RoverControl.Hardware.Servo
import RoverControl.Http.Headers
import RoverControl.Service.Rejection

/-!
# The state of the service

The service has a configuration, a limiter for accepting commands, a drivetrain, a servo and two
sensors, and it counts how it answers.
-/

namespace RoverControl

/-- How many requests there were, and how they were answered. -/
structure Metrics where
  requests : Nat
  succeeded : Nat
  unauthenticated : Nat
  forbidden : Nat
  malformedAddress : Nat
  notFound : Nat
  validationFailures : Nat
  rateLimited : Nat
  queueFull : Nat
  hardwareFaults : Nat

namespace Metrics

def zero : Metrics := ⟨0, 0, 0, 0, 0, 0, 0, 0, 0, 0⟩

/-- Counts an answer by its status alone. -/
def countStatus (m : Metrics) (status : Int) : Metrics :=
  if status = 400 then { m with malformedAddress := m.malformedAddress + 1 }
  else if status = 401 then { m with unauthenticated := m.unauthenticated + 1 }
  else if status = 403 then { m with forbidden := m.forbidden + 1 }
  else if status = 404 then { m with notFound := m.notFound + 1 }
  else if status = 422 then { m with validationFailures := m.validationFailures + 1 }
  else if status = 429 then { m with rateLimited := m.rateLimited + 1 }
  else if status = 500 then { m with hardwareFaults := m.hardwareFaults + 1 }
  else if status = 503 then { m with queueFull := m.queueFull + 1 }
  else if 200 ≤ status && status < 300 then { m with succeeded := m.succeeded + 1 }
  else m

/-- Counts a request that was answered with a status. -/
def record (m : Metrics) (status : Int) : Metrics :=
  { m with requests := m.requests + 1 }.countStatus status

end Metrics

/-- The parts of the robot besides the motors. -/
structure Instruments where
  servo : Servo
  ultrasonic : Ultrasonic
  line : LineSensor

/-- The simulated parts of a robot that stands still. -/
def Instruments.standard : Instruments := ⟨Servo.new .standard, .standard, .standard⟩

structure Service where
  store : Config.Store
  /-- The limiter for accepting commands. -/
  ingress : TokenBucket Float
  drivetrain : Drivetrain
  instruments : Instruments
  metrics : Metrics

namespace Service

/-- A service that has just been set up, without a worker. -/
def new (store : Config.Store) (instruments : Instruments) (rig : Rig) : Service where
  store
  ingress := .new store.config.ingress rig.time.now
  drivetrain :=
    .new store.config.queueMaxsize (.new store.config.execution rig.time.now) rig
  instruments
  metrics := .zero

/-- The clock reading. -/
def now (s : Service) : Int := s.drivetrain.rig.time.now

def mapDrivetrain (s : Service) (f : Drivetrain → Drivetrain) : Service :=
  { s with drivetrain := f s.drivetrain }

end Service

end RoverControl
