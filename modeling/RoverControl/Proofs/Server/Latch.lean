import RoverControl.Proofs.Server.Unfold

/-!
# The latch of the motors

An emergency stop leaves the motors latched and at rest (`Motors.Latched`), and no motor call but a
reset changes that, whether an operator makes it or the worker.  So once an emergency stop has been
answered 200 the motors stay at rest until a reset is (`Server.emergency_stop_holds`), even if a
drive call that was held is let pass in the meantime.
-/

namespace RoverControl

open Drivetrain

namespace Motors

/-- The motors are latched and at rest. -/
structure Latched (m : Motors) : Prop where
  latched : m.latched = true
  left : m.left = 0
  right : m.right = 0
  braking : m.braking = false

theorem latched_emergencyStop (m : Motors) : (m.apply .emergencyStop).Latched :=
  ⟨rfl, rfl, rfl, rfl⟩

/-- Latched motors ignore every call but a reset. -/
theorem Latched.apply {m : Motors} (h : m.Latched) {c : MotorCall} (hc : c ≠ .resetEmergencyStop) :
    (m.apply c).Latched ∧ (m.apply c).driveCount = m.driveCount := by
  have hignore : m.ignore.Latched := ⟨h.latched, h.left, h.right, h.braking⟩
  cases c with
  | drive =>
    rw [Motors.apply, if_pos h.latched]
    exact ⟨hignore, rfl⟩
  | stop =>
    rw [Motors.apply, if_pos h.latched]
    exact ⟨hignore, rfl⟩
  | brake =>
    rw [Motors.apply, if_pos h.latched]
    exact ⟨hignore, rfl⟩
  | emergencyStop => exact ⟨m.latched_emergencyStop, rfl⟩
  | resetEmergencyStop => exact absurd rfl hc

end Motors

namespace Drivetrain

/-- The motors are latched and at rest after they have driven `n` times. -/
def LatchedAfter (n : Nat) (m : Moment) : Prop :=
  m.drivetrain.rig.motors.Latched ∧ m.drivetrain.rig.motors.driveCount = n

theorem motors_of_carryOut {r r' : Rig} {c : MotorCall} {ok : Bool}
    (h : r.carryOut c = (ok, r')) : r'.motors = if ok then r.motors.apply c else r.motors := by
  unfold Rig.carryOut at h
  split at h <;> cases h <;> rfl

theorem motors_of_operate (d : Drivetrain) (c : MotorCall) :
    (d.operate c).2.rig.motors =
      if (d.operate c).1 then d.rig.motors.apply c else d.rig.motors :=
  motors_of_carryOut (r := d.rig.note .operator c) rfl

theorem latched_carryOut {n : Nat} {r r' : Rig} {c : MotorCall} {ok : Bool}
    (h : r.carryOut c = (ok, r')) (hc : ¬ (c = .resetEmergencyStop ∧ ok = true))
    (hr : r.motors.Latched ∧ r.motors.driveCount = n) :
    r'.motors.Latched ∧ r'.motors.driveCount = n := by
  rw [motors_of_carryOut h]
  cases ok with
  | false => exact hr
  | true =>
    obtain ⟨hl, hn⟩ := hr.1.apply fun hc' => hc ⟨hc', rfl⟩
    exact ⟨hl, hn.trans hr.2⟩

/-- Every move leaves latched motors so unless it is a reset that is carried out. -/
theorem Move.latchedAfter {n : Nat} {m m' : Moment} {a : Action} (h : Move m a m')
    (ha : a ≠ .operate .resetEmergencyStop true) (hm : LatchedAfter n m) : LatchedAfter n m' := by
  cases h with
  | adjust h =>
    unfold LatchedAfter
    rw [h.motors]
    exact hm
  | operate h =>
    refine latched_carryOut h ?_ hm
    rintro ⟨rfl, rfl⟩
    exact ha rfl
  | answer _ h => exact latched_carryOut h (fun hc => nomatch hc.1) hm
  | stop h => exact latched_carryOut h (fun hc => nomatch hc.1) hm
  | _ => exact hm

theorem Unfolds.latchedAfter {n : Nat} {m m' : Moment} {ops : List Action} (h : Unfolds m ops m')
    (hops : .operate .resetEmergencyStop true ∉ ops) (hm : LatchedAfter n m) :
    LatchedAfter n m' :=
  h.keeps_of_notMem Move.latchedAfter rfl hops hm

end Drivetrain

namespace Service

/-- An emergency stop that is carried out leaves the motors latched. -/
theorem latched_handleEmergencyStop {s : Service}
    (h : s.handleEmergencyStop.1.response.status = 200) :
    s.handleEmergencyStop.2.drivetrain.rig.motors.Latched := by
  change (motorOutcome (s.drivetrain.clear.operate .emergencyStop).1 _ _).response.status = 200 at h
  rw [motorOutcome_status] at h
  rcases hok : (s.drivetrain.clear.operate .emergencyStop).1 with _ | _
  · rw [hok] at h
    exact absurd h (by decide)
  · show (s.drivetrain.clear.operate .emergencyStop).2.rig.motors.Latched
    rw [motors_of_operate, if_pos hok]
    exact Motors.latched_emergencyStop _

theorem latched_handle {s : Service} {method path : Bytes} {body : Json} {headers : Headers}
    (hroute : Route.find? method path = some .emergencyStop)
    (h : (s.handle method path body headers).1.status = 200) :
    (s.handle method path body headers).2.drivetrain.rig.motors.Latched := by
  change (s.outcome method path body headers).1.response.status = 200 at h
  show (s.outcome method path body headers).2.drivetrain.rig.motors.Latched
  rcases s.outcome_cases method path body headers with ⟨-, e, ho⟩ | ⟨route, hr, -, ho⟩
  · rw [ho] at h
    exact absurd h (e.status_ne (by decide))
  · rw [ho] at h ⊢
    cases hr.symm.trans hroute
    exact latched_handleEmergencyStop h

end Service

namespace Server

/-- A step asks for a route and is answered with a status. -/
def Answers (s : Server) (step : Step) (route : Route) (status : Int) : Prop :=
  step.route? = some route ∧ (s.step step).1.status? = some status

instance (s : Server) (step : Step) (route : Route) (status : Int) :
    Decidable (s.Answers step route status) :=
  inferInstanceAs (Decidable (_ ∧ _))

/-- No reset is answered 200 in a run. -/
def NeverReset (s : Server) : List Step → Prop
  | [] => True
  | step :: rest => ¬ s.Answers step .reset 200 ∧ (s.step step).2.NeverReset rest

instance decidableNeverReset (s : Server) : (steps : List Step) → Decidable (s.NeverReset steps)
  | [] => isTrue trivial
  | step :: rest =>
    have := decidableNeverReset (s.step step).2 rest
    inferInstanceAs (Decidable (_ ∧ _))

theorem latched_of_answers {s : Server} {step : Step} (h : s.Answers step .emergencyStop 200) :
    (s.step step).2.drivetrain.rig.motors.Latched := by
  obtain ⟨hroute, hstatus⟩ := h
  rcases hm : s.begun.handed step with _ | m
  · exact absurd (status_of_not_handed hm hstatus) (by decide)
  · have ha := answered_of_handed hm
    obtain ⟨headers, hsent⟩ := message?_of_handed hm
    rw [Step.route?, hsent] at hroute
    show (s.begun.act step).2.service.drivetrain.rig.motors.Latched
    rw [ha.service_eq]
    exact Service.latched_handle hroute (Option.some.inj (ha.status?_eq.symm.trans hstatus))

theorem latchedAfter_step {n : Nat} {s : Server} {step : Step}
    (h : LatchedAfter n s.drivetrain.moment) (hreset : ¬ s.Answers step .reset 200) :
    LatchedAfter n (s.step step).2.drivetrain.moment := by
  refine (s.begun.act_unfolds step).latchedAfter ?_ h
  intro hm
  rcases operate_mem_actions hm with hc | ⟨-, hroute, hstatus⟩
  · rcases hc with hc | hc | hc <;> cases hc
  · exact hreset ⟨hroute, hstatus⟩

theorem latchedAfter_run {n : Nat} {s : Server} {steps : List Step}
    (h : LatchedAfter n s.drivetrain.moment) (hreset : s.NeverReset steps) :
    LatchedAfter n (s.run steps).drivetrain.moment := by
  induction steps generalizing s with
  | nil => exact h
  | cons step rest ih => exact ih (latchedAfter_step h hreset.1) hreset.2

/-- Once an emergency stop has been answered 200, the motors are latched and at rest and do not
drive again for as long as no reset is answered 200, whatever else is done. -/
theorem emergency_stop_holds {s : Server} {step : Step} {rest : List Step}
    (hstop : s.Answers step .emergencyStop 200) (hreset : (s.step step).2.NeverReset rest) :
    let motors := ((s.step step).2.run rest).drivetrain.rig.motors
    (motors.latched = true ∧ motors.left = 0 ∧ motors.right = 0 ∧ motors.braking = false) ∧
      motors.driveCount = (s.step step).2.drivetrain.rig.motors.driveCount := by
  intro motors
  obtain ⟨hl, hn⟩ := latchedAfter_run ⟨latched_of_answers hstop, rfl⟩ hreset
  exact ⟨⟨hl.latched, hl.left, hl.right, hl.braking⟩, hn⟩

/-- A development server with a drive call in flight. -/
def inFlight : Server :=
  standard.run [.start false, .hold, .post "/drive/differential" fullSpeedBody]

/-- The drive call is let pass after the emergency stop, and the worker is ended, started again and
given another command. -/
theorem emergency_stop_holds_in_flight :
    let stop := Step.post "/drive/emergency-stop" .null
    let rest := [.release, .shutdown, .start false, .post "/drive/differential" fullSpeedBody]
    inFlight.Answers stop .emergencyStop 200 ∧ (inFlight.step stop).2.NeverReset rest ∧
      ((inFlight.step stop).2.run rest).drivetrain.rig.motors.left = 0 := by
  intro stop rest
  have hstop : inFlight.Answers stop .emergencyStop 200 := by decide +kernel
  have hreset : (inFlight.step stop).2.NeverReset rest := by decide +kernel
  exact ⟨hstop, hreset, (emergency_stop_holds hstop hreset).1.2.1⟩

end Server

end RoverControl
