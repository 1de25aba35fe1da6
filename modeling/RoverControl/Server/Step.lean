import RoverControl.Server.Basic

/-!
# Runs of a server

A run is a sequence of steps: requests made to the service itself, visits, the start and end of the
worker, faults and holds of the rig, and changes of time.
-/

namespace RoverControl

/-- The body of a request: a text that is yet to be read, or a value. -/
inductive RequestBody where
  | text (s : Bytes)
  | value (v : Json)

def RequestBody.decode : RequestBody → Except Json.Error Json
  | .text s => Json.parse s
  | .value v => .ok v

/-- What can be done with a server. -/
inductive Server.Step where
  | request (method path : Bytes) (headers : Headers) (body : RequestBody)
  | visit (v : Visit)
  | start (fails : Bool)
  | shutdown
  | hold
  | release
  | fail (parts : List Part)
  | time (t : Timeline.Step)
  | tokens

/-- What a step answers. -/
inductive Server.StepAnswer where
  | nothing
  | flag (b : Bool)
  | response (r : Http.Response)
  | unreadable (e : Json.Error)
  | report (r : Report)
  | tokens (ingress execution : Float)

namespace Server

def mapService (s : Server) (f : Service → Service) : Server := { s with service := f s.service }

def mapRig (s : Server) (f : Rig → Rig) : Server :=
  s.mapService (·.mapDrivetrain (·.mapRig f))

/-- Looks how many tokens the two limiters have. -/
def countTokens (s : Server) : StepAnswer × Server :=
  let now := s.service.now
  let (i, ingress) := s.service.ingress.available now
  let (e, limiter) := s.service.drivetrain.limiter.available now
  (.tokens i e, s.mapService fun service =>
    { service with ingress, drivetrain := { service.drivetrain with limiter } })

/-- Does a step that has begun. -/
def act (s : Server) : Step → StepAnswer × Server
  | .request method path headers body =>
    match body.decode with
    | .error e => (.unreadable e, s)
    | .ok body =>
      let (response, service) := s.service.handle method path body headers
      (.response response, { s with service })
  | .visit v =>
    let (report, s) := s.serve v
    (.report report, s)
  | .start fails =>
    let (ok, service) := s.service.start fails
    (.flag ok, { s with service })
  | .shutdown =>
    let (ok, service) := s.service.shutdown
    (.flag ok, { s with service })
  | .hold => (.nothing, s.mapService (·.mapDrivetrain Drivetrain.hold))
  | .release => (.nothing, s.mapService (·.mapDrivetrain Drivetrain.release))
  | .fail parts => (.nothing, s.mapRig ({ · with faults := parts }))
  | .time t => (.nothing, s.mapRig (·.mapTime (·.act t)))
  | .tokens => s.countTokens

/-- Begins a step and does it. -/
def step (s : Server) (step : Step) : StepAnswer × Server :=
  (s.mapRig (·.mapTime Timeline.beginStep)).act step

/-- The server after a sequence of steps. -/
def run (s : Server) (steps : List Step) : Server :=
  steps.foldl (fun s step => (s.step step).2) s

end Server

end RoverControl
