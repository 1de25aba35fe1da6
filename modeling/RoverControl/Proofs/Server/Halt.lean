import RoverControl.Proofs.Drivetrain.Tickets
import RoverControl.Proofs.Server.Order
import RoverControl.Proofs.Service.Reconfigure

/-!
# Stop, brake and emergency stop

Each of the three requests discards the commands that wait, whether or not the motors carry out its
call (`Service.drained_of_halts`).  None of these commands is ever driven, whatever happens after
it; of all that were accepted before, the worker goes on with the one that it has in hand, and with
no other (`Server.halt_cancels_waiting`).
-/

namespace RoverControl

open Drivetrain

/-- The routes that bring the motors to a halt. -/
inductive Route.Halts : Route → Prop
  | stop : Halts .stop
  | brake : Halts .brake
  | emergencyStop : Halts .emergencyStop

namespace Service

variable {s : Service} {route : Route}

theorem status_of_halts (h : route.Halts) (body : Json) :
    (s.runRoute body route).1.response.status = 200 ∨
      (s.runRoute body route).1.response.status = 500 := by
  have motor (ok : Bool) (status fault : String) :
      (motorOutcome ok status fault).response.status = 200 ∨
        (motorOutcome ok status fault).response.status = 500 := by
    rw [motorOutcome_status]
    cases ok <;> simp
  cases h <;> apply motor

/-- The queue is emptied, and what was in it is counted. -/
theorem drained_of_halts (h : route.Halts) (body : Json) :
    (s.runRoute body route).2.drivetrain.depth = 0 ∧
      (s.runRoute body route).2.drivetrain.counts.drained =
        s.drivetrain.counts.drained + s.drivetrain.depth := by
  cases h <;> exact ⟨rfl, rfl⟩

/-- The worker does nothing in the meantime. -/
theorem path_of_halts (h : route.Halts) (body : Json) :
    Path Move s.drivetrain.moment (s.handlerActions body route)
      (s.runRoute body route).2.drivetrain.moment := by
  cases h with
  | stop | brake => exact .cons (.operate rfl) (.single .discard)
  | emergencyStop => exact .cons .discard (.single (.operate rfl))

theorem accepted_of_halts (h : route.Halts) (body : Json) :
    accepted (s.handlerActions body route) = [] := by
  cases h <;> rfl

theorem afterAll_of_halts (h : route.Halts) (body : Json) (t : Tickets) :
    t.afterAll (s.handlerActions body route) = { t with waiting := [] } := by
  cases h <;> rfl

end Service

namespace Server

variable {s : Server} {step : Step} {m : Message} {route : Route}

/-- A message that is let in has the handler of its route run. -/
theorem step_of_route (hm : s.handed step = some m)
    (haccess : s.service.store.denial m.headers = none)
    (hroute : Route.find? m.method m.path = some route) :
    (s.step step).1.status? =
        some (s.begun.service.runRoute (Service.handlerBody m.body) route).1.response.status ∧
      (s.step step).2.drivetrain =
        (s.begun.service.runRoute (Service.handlerBody m.body) route).2.drivetrain := by
  have ha : s.begun.Answered step m := answered_of_handed ((s.handed_begun step).trans hm)
  have hhandle := Service.handle_of_route (s := s.begun.service) haccess hroute m.body
  constructor
  · rw [show (s.step step).1.status? = _ from ha.status?_eq, Service.handleMessage, hhandle]
  · show (s.begun.act step).2.service.drivetrain = _
    rw [ha.service_eq, Service.handleMessage, hhandle]

/-- A request to stop, to brake or for an emergency stop that is let in discards the commands that
wait, whether or not the motors carry out the call.  In every continuation no motor call is made for
one of these commands, and of the commands accepted before, only the one that the worker had in hand
is called for.  The same is so wherever the commands that wait are discarded, whatever operators and
the worker may do in whatever order. -/
theorem halt_cancels_waiting (hm : s.handed step = some m)
    (haccess : s.service.store.denial m.headers = none)
    (hroute : Route.find? m.method m.path = some route) (hhalts : route.Halts)
    (continuation : List Step) :
    let s' := (s.step step).2
    let cs := s.drivetrain.moment.pending
    let t := Tickets.ofMoment s.drivetrain.moment
    ((s.step step).1.status? = some 200 ∨ (s.step step).1.status? = some 500) ∧
      (s'.drivetrain.depth = 0 ∧
        s'.drivetrain.counts.drained = s.drivetrain.counts.drained + s.drivetrain.depth) ∧
      Names cs t s.drivetrain.moment ∧
      (∃ halt acts, Path Move s.drivetrain.moment halt s'.drivetrain.moment ∧
        s'.RunPath continuation acts ∧
        Cancelled cs t (t.afterAll halt) acts (s'.run continuation).drivetrain.moment) ∧
      ∀ pre ds acts m', Path Move s.drivetrain.moment (pre ++ .discard ds :: acts) m' →
        Cancelled (cs ++ accepted pre) (t.afterAll pre) ((t.afterAll pre).after (.discard ds)) acts
          m' := by
  intro s' cs t
  have hnames : Names cs t s.drivetrain.moment := names_ofMoment _
  obtain ⟨hstatus, hdrivetrain⟩ := step_of_route hm haccess hroute
  have hdrained := Service.drained_of_halts (s := s.begun.service) hhalts
    (Service.handlerBody m.body)
  have hpath := Service.path_of_halts (s := s.begun.service) hhalts (Service.handlerBody m.body)
  rw [← hdrivetrain] at hdrained hpath
  refine ⟨?_, hdrained, hnames, ?_, fun pre ds acts m' h => h.cancelled_of_discard hnames⟩
  · rw [hstatus, Option.some.injEq, Option.some.injEq]
    exact Service.status_of_halts hhalts _
  · obtain ⟨halt, hhalt, haccepted, hafter⟩ : ∃ halt,
        Path Move s.drivetrain.moment halt s'.drivetrain.moment ∧ accepted halt = [] ∧
          t.afterAll halt = { t with waiting := [] } :=
      ⟨_, .cons .begin hpath, Service.accepted_of_halts hhalts _,
        Service.afterAll_of_halts hhalts _ t⟩
    have hnames' := hhalt.names hnames
    rw [haccepted, hafter, List.append_nil] at hnames'
    obtain ⟨acts, hrun⟩ := s'.exists_runPath continuation
    refine ⟨halt, acts, hhalt, hrun, ?_⟩
    rw [hafter]
    exact hrun.path.cancelled hnames hnames'

/-- A development server on which the motors refuse to stop, while two commands wait and the drive
call of a third one is held. -/
def refusingToStop : Server :=
  standard.run [.start false, .hold, .post "/drive/differential" fullSpeedBody,
    .post "/drive/differential" fullSpeedBody, .post "/drive/differential" fullSpeedBody,
    .fail [.stop]]

/-- The stop is answered 500.  After it the worker is ended and started again, and another command
of the same speeds is accepted and driven. -/
theorem halt_cancels_waiting_refused :
    let stop := Step.post "/drive/stop" .null
    let m : Message := ⟨ascii "POST", ascii "/drive/stop", [(apiKeyHeader, ascii "local")], .null⟩
    let rest := [.release, .shutdown, .start false, .post "/drive/differential" fullSpeedBody]
    refusingToStop.handed stop = some m ∧
      refusingToStop.service.store.denial m.headers = none ∧
      Route.find? m.method m.path = some .stop ∧
      (refusingToStop.step stop).1.status? = some 500 ∧
      refusingToStop.drivetrain.depth = 2 ∧ (refusingToStop.step stop).2.drivetrain.depth = 0 ∧
      (refusingToStop.step stop).2.drivetrain.counts.drained = 2 ∧
      drives ((refusingToStop.step stop).2.history rest) = [(1, 1)] := by
  intro stop m rest
  have hm : refusingToStop.handed stop = some m := rfl
  have haccess : refusingToStop.service.store.denial m.headers = none :=
    Option.isNone_iff_eq_none.1 (by decide +kernel)
  have hroute : Route.find? m.method m.path = some .stop := by decide
  have hdepth : refusingToStop.drivetrain.depth = 2 := by decide +kernel
  have hnone : refusingToStop.drivetrain.counts.drained = 0 := by decide +kernel
  have hstatus : (refusingToStop.step stop).1.status? = some 500 := by decide +kernel
  have hdrives : drives ((refusingToStop.step stop).2.history rest) = [(1, 1)] := by
    decide +kernel
  obtain ⟨-, ⟨hempty, hdrained⟩, -⟩ := halt_cancels_waiting hm haccess hroute .stop rest
  rw [hnone, hdepth] at hdrained
  exact ⟨hm, haccess, hroute, hstatus, hdepth, hempty, hdrained, hdrives⟩

end Server

end RoverControl
