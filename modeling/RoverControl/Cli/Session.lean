import RoverControl.Cli.Options
import RoverControl.Server.Step

/-!
# Sessions

A session is one run of the program: it reads the options, starts the worker, listens, serves the
visits until it is interrupted, and shuts down.  It logs every visit, and shows what has happened
so far every ten seconds and at the end.
-/

namespace RoverControl

namespace Cli

/-- A visit, and the time that passes until it begins. -/
structure TimedVisit where
  visit : Visit
  elapsed : Int

/-- The world in which the program runs: what fails, and who visits it before it is interrupted. -/
structure Surroundings where
  listenerFails : Option ListenerCall
  workerFails : Bool
  visits : List TimedVisit

/-- What a session leaves behind. -/
structure Transcript where
  log : Bytes
  success : Bool
  /-- The answers that were sent, one for each connection. -/
  answers : List Bytes
  listenerEvents : List ListenerEvent
  /-- The sockets that were closed, in order. -/
  closed : List Descriptor
  polls : Nat

/-! ## The log -/

/-- A number with two decimal places; a half goes to the even neighbour. -/
def twoPlaces (x : Float) : Bytes :=
  match Binary64.exactValue? x with
  | none => if x.isNaN then ascii "nan" else if x < 0 then ascii "-inf" else ascii "inf"
  | some v =>
    let hundredths :=
      Binary64.roundDiv ((100 * v.mantissa) <<< v.exponent.toNat) (1 <<< (-v.exponent).toNat)
    let cents := decimal (hundredths % 100)
    (if v.negative then ascii "-" else []) ++ decimal (hundredths / 100) ++ ascii "." ++
      (if cents.length < 2 then ascii "0" ++ cents else cents)

/-- The figures of a server. -/
def statistics (s : Server) : Bytes :=
  let m := s.service.metrics
  let d := s.service.drivetrain
  let motors := d.rig.motors
  ascii "\n--- Stats ---\n" ++
    ascii "Connections:     " ++ decimal s.counts.connections ++ ascii "\n" ++
    ascii "Requests:        " ++ decimal m.requests ++ ascii " (" ++ decimal m.succeeded ++
      ascii " ok)\n" ++
    ascii "Auth failures:   " ++ decimal m.unauthenticated ++ ascii " (401) / " ++
      decimal m.forbidden ++ ascii " (403) / " ++ decimal m.malformedAddress ++
      ascii " (400)\n" ++
    ascii "Validation:      " ++ decimal m.validationFailures ++ ascii " (422)\n" ++
    ascii "Rate limited:    " ++ decimal m.rateLimited ++ ascii " (429)\n" ++
    ascii "Queue full:      " ++ decimal m.queueFull ++ ascii " (503)\n" ++
    ascii "Queue depth:     " ++ decimal d.depth ++ ascii " / " ++ decimal d.backlog.capacity ++
      ascii "\n" ++
    ascii "Executed:        " ++ decimal d.counts.executed ++ ascii " (" ++
      decimal d.counts.executionFailures ++ ascii " failed, " ++ decimal d.counts.drained ++
      ascii " drained)\n" ++
    ascii "Execution waits: " ++ decimal d.limiter.waits ++ ascii "\n" ++
    ascii "Motors:          left=" ++ twoPlaces motors.left ++ ascii " right=" ++
      twoPlaces motors.right ++ (if motors.braking then ascii " braking" else []) ++
      (if motors.latched then ascii " ESTOP" else []) ++ ascii "\n" ++
    ascii "-------------\n\n"

/-- The line that a visit leaves in the log. -/
def visitLine (r : Report) : Bytes :=
  match r.status with
  | .served =>
    r.peer ++ ascii " " ++ r.method ++ ascii " " ++ r.path.before 0 ++ ascii " -> " ++
      decimalInt r.code ++ ascii "\n"
  | .rejected => r.peer ++ ascii " malformed request -> " ++ decimalInt r.code ++ ascii "\n"
  | .error =>
    ascii "Connection error: " ++ ((r.error.map fun e => ascii e.message).getD (ascii "Success")) ++
      ascii "\n"
  | .idle => []

/-- The address and port in a line of the log. -/
def endpoint (o : Options) : Bytes := o.bindAddress ++ ascii ":" ++ decimal o.port.toNat

/-! ## Serving -/

/-- The state of a session that is serving. -/
structure Serving where
  server : Server
  log : Bytes
  answers : List Bytes
  closed : List Descriptor
  /-- When the figures were last shown. -/
  lastStatistics : Int

/-- The time between two displays of the figures, in nanoseconds. -/
def statisticsInterval : Int := 10000000000

/-- The time from one clock reading to another: a number of 64 bits with a sign, which wraps
around. -/
def timeBetween (earlier later : Int) : Int := (later - earlier).bmod UInt64.size

/-- Serves one visit. -/
def Serving.visit (s : Serving) (v : TimedVisit) : Serving :=
  let server := s.server.mapRig (·.mapTime fun t => t.beginStep.elapse v.elapsed)
  let (report, server) := server.serve v.visit
  let log := s.log ++ visitLine report
  let answers := if report.accepted then s.answers ++ [report.sent] else s.answers
  let closed := s.closed ++ report.closed
  let now := server.service.now
  if statisticsInterval ≤ timeBetween s.lastStatistics now then
    ⟨server, log ++ statistics server, answers, closed, now⟩
  else ⟨server, log, answers, closed, s.lastStatistics⟩

/-- Serves the visits, and one more wait in which the interruption comes. -/
def Serving.visitAll (s : Serving) (visits : List TimedVisit) : Serving :=
  (visits.foldl Serving.visit s).visit ⟨.nobody, 0⟩

/-- A session that ends before it serves. -/
def failed (log : Bytes) (events : List ListenerEvent) (closed : List Descriptor) : Transcript :=
  ⟨log, false, [], events, closed, 0⟩

/-- Serves with a configuration that is valid. -/
def serveWith (o : Options) (store : Config.Store) (w : Surroundings) : Transcript :=
  let rig := Rig.new (Timeline.start none)
  let (started, service) := (Service.new store .standard rig).start w.workerFails
  if !started then failed (ascii "Failed to start command queue worker\n") [] []
  else
    let listening := listen w.listenerFails o.bindAddress o.port
    if !listening.ok then
      failed (ascii "Failed to listen on " ++ endpoint o ++ ascii "\n") listening.events
        (if listening.closed then [.listener] else [])
    else
      let greeting := ascii "Control server listening on " ++ endpoint o ++
        ascii " (simulated hardware)\nPress Ctrl+C to stop.\n\n"
      let serving :=
        Serving.visitAll ⟨Server.new service Server.standardIoTimeout, greeting, [], [], 0⟩ w.visits
      let (stopped, service) := serving.server.service.shutdown
      let server := { serving.server with service }
      let log := serving.log ++ ascii "\nShutting down, draining queue...\n" ++
        (if stopped then [] else ascii "Actuator refused final stop\n") ++ statistics server ++
        ascii "Goodbye.\n"
      ⟨log, true, serving.answers, listening.events, serving.closed ++ [.listener],
        w.visits.length + 1⟩

/-- One run of the program with these arguments. -/
def session (args : List Bytes) (w : Surroundings) : Transcript :=
  match Options.parse args with
  | .error e => failed e.message [] []
  | .ok o =>
    match o.config.validate with
    | .error e =>
      failed (ascii "Invalid configuration: " ++ ascii e.message ++ ascii "\n") [] []
    | .ok store => serveWith o store w

end Cli

end RoverControl
