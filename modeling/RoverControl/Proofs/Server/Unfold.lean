import RoverControl.Proofs.Server.Visit
import RoverControl.Proofs.Service.Unfold

/-!
# Steps of a server as paths of its drivetrain

Every step of a server unfolds into moves of its drivetrain (`Server.act_unfolds`): a step that
brings a message does what the service does with it, and `Server.actions` tells what the others do.
From the message of a step and the status of its answer one can tell which command was accepted, if
any (`Server.accepted_actions`), and whether the latch of the motors was released
(`Server.operate_mem_actions`).
-/

namespace RoverControl

open Drivetrain

namespace Server

/-! ## Messages and answers -/

/-- The message that is sent in a step. -/
def Step.message? : Step → Option Message
  | .request method path headers body =>
    match body.decode with
    | .ok body => some ⟨method, path, headers, body⟩
    | .error _ => none
  | .visit v => v.message?
  | _ => none

/-- The status that a step is answered with. -/
def StepAnswer.status? : StepAnswer → Option Int
  | .response r => some r.status
  | .report r => some r.code
  | _ => none

/-- The message of a step that is handed to the service. -/
def handed (s : Server) : Step → Option Message
  | .request method path headers body => Step.message? (.request method path headers body)
  | .visit v => s.handedOf v
  | _ => none

theorem message?_of_handed {s : Server} {step : Step} {m : Message} (h : s.handed step = some m) :
    ∃ headers, step.message? = some { m with headers } := by
  cases step with
  | request => exact ⟨m.headers, h⟩
  | visit v =>
    obtain ⟨peer, m', -, hm', rfl⟩ := eq_forwarded_of_handedOf (s := s) h
    exact ⟨m'.headers, hm'⟩
  | _ => cases h

/-- The service does what a message asks for, and its answer is that of the step. -/
structure Answered (s : Server) (step : Step) (m : Message) : Prop where
  service_eq : (s.act step).2.service = (s.service.handleMessage m).2
  status?_eq : (s.act step).1.status? = some (s.service.handleMessage m).1.status

theorem answered_of_handed {s : Server} {step : Step} {m : Message} (h : s.handed step = some m) :
    s.Answered step m := by
  cases step with
  | request method path headers body =>
    simp only [handed, Step.message?] at h
    split at h
    · rename_i body hb
      cases h
      refine ⟨?_, ?_⟩ <;> simp only [act, hb] <;> rfl
    · cases h
  | visit v =>
    rcases s.serve_cases v with ⟨m', hm, hs⟩ | ⟨hm, -⟩
    · cases hm.symm.trans h
      exact ⟨hs.service_eq, congrArg some hs.code_eq⟩
    · cases hm.symm.trans h
  | _ => cases h

theorem status_of_not_handed {s : Server} {step : Step} (h : s.handed step = none) {status : Int}
    (hs : (s.act step).1.status? = some status) : status ∈ unservedCodes := by
  cases step with
  | request method path headers body =>
    simp only [handed, Step.message?] at h
    split at h
    · cases h
    · rename_i e hb
      simp only [act, hb] at hs
      cases hs
  | visit v =>
    rcases s.serve_cases v with ⟨m', hm, -⟩ | ⟨-, hv⟩
    · cases hm.symm.trans h
    · cases hs
      exact hv.code_mem
  | _ => cases hs

/-- A request with a body that cannot be read does nothing to the service. -/
theorem service_of_unreadable {s : Server} {method path : Bytes} {headers : Headers}
    {body : RequestBody} (h : s.handed (.request method path headers body) = none) :
    (s.act (.request method path headers body)).2.service = s.service := by
  simp only [handed, Step.message?] at h
  split at h
  · cases h
  · rename_i e hb
    simp only [act, hb]

/-- A visit that brings no message does nothing to the service. -/
theorem service_of_unheard {s : Server} {v : Visit} (h : s.handed (.visit v) = none) :
    (s.act (.visit v)).2.service = s.service := by
  rcases s.serve_cases v with ⟨m, hm, -⟩ | ⟨-, hv⟩
  · cases hm.symm.trans h
  · exact hv.service_eq

/-! ## Actions -/

/-- What a step that hands the service no message does to the drivetrain. -/
def ownActions (s : Server) : Step → List Action
  | .request .. | .visit _ => []
  | .start fails => s.service.drivetrain.startActions fails
  | .shutdown =>
    s.service.drivetrain.stopActions ++ [.operate .stop (s.service.drivetrain.stop.operate .stop).1]
  | .hold | .release | .fail _ | .time _ | .tokens => [.adjust]

/-- What a step that has begun does to the drivetrain besides what the worker does. -/
def actions (s : Server) (step : Step) : List Action :=
  match s.handed step with
  | some m => s.service.actions m.method m.path m.body m.headers
  | none => s.ownActions step

/-- The drivetrain of the service of a server. -/
abbrev drivetrain (s : Server) : Drivetrain := s.service.drivetrain

/-- A server in a step that has begun. -/
def begun (s : Server) : Server := s.mapRig (·.mapTime Timeline.beginStep)

theorem handed_begun (s : Server) (step : Step) : s.begun.handed step = s.handed step := by
  cases step <;> rfl

theorem ownActions_unfolds {s : Server} {step : Step} (h : s.handed step = none) :
    Unfolds s.drivetrain.moment (s.ownActions step) (s.act step).2.drivetrain.moment := by
  cases step with
  | request method path headers body =>
    rw [drivetrain, drivetrain, service_of_unreadable h]
    exact .refl
  | visit v =>
    rw [drivetrain, drivetrain, service_of_unheard h]
    exact .refl
  | start fails => exact start_unfolds s.drivetrain fails
  | shutdown => exact (stop_unfolds s.drivetrain).trans (operate_unfolds s.drivetrain.stop .stop)
  | hold => exact adjust_unfolds (s.drivetrain.alike_mapRig ({ · with held := true }) rfl rfl)
  | release => exact release_unfolds s.drivetrain
  | fail parts =>
    exact adjust_unfolds (s.drivetrain.alike_mapRig ({ · with faults := parts }) rfl rfl)
  | time t => exact adjust_unfolds (alike_timeAct s.drivetrain t)
  | tokens => exact adjust_unfolds (alike_refill s.drivetrain s.service.now)

/-- A step that has begun does to the drivetrain what its actions are. -/
theorem act_unfolds (s : Server) (step : Step) :
    Unfolds s.drivetrain.moment (s.actions step) (s.act step).2.drivetrain.moment := by
  unfold actions
  rcases hm : s.handed step with _ | m
  · exact ownActions_unfolds hm
  · rw [drivetrain, drivetrain, (answered_of_handed hm).service_eq]
    exact s.service.handle_unfolds m.method m.path m.body m.headers

/-! ## What the answers tell -/

/-- The command that a step has accepted, as its message and the status of its answer tell. -/
def Step.accepted? (step : Step) (answer : StepAnswer) : Option Command :=
  if answer.status? = some 202 then step.message?.bind fun m => Command.ofBody? m.body else none

/-- A step that hands the service no message has no command accepted and makes no motor call but
to stop. -/
theorem mem_ownActions {s : Server} {step : Step} {a : Action} (ha : a ∈ s.ownActions step) :
    (∀ c, a ≠ .accept c) ∧ a ≠ .begin ∧ ∀ c ok, a = .operate c ok → c = .stop := by
  cases step with
  | request => cases ha
  | visit => cases ha
  | start fails => simp [mem_startActions ha]
  | shutdown =>
    rcases List.mem_append.1 ha with ha | ha
    · rcases mem_stopActions ha with rfl | rfl | rfl <;> simp
    · simp [List.mem_singleton.1 ha]
  | _ => simp [List.mem_singleton.1 ha]

theorem accepted_ownActions (s : Server) (step : Step) : accepted (s.ownActions step) = [] := by
  refine List.filterMap_eq_nil_iff.2 fun a ha => ?_
  have := (mem_ownActions ha).1
  cases a with
  | accept c => exact absurd rfl (this c)
  | _ => rfl

theorem begin_notMem_actions (s : Server) (step : Step) : .begin ∉ s.actions step := by
  unfold actions
  rcases s.handed step with _ | m
  · exact fun ha => (mem_ownActions ha).2.1 rfl
  · exact s.service.begin_notMem_actions m.method m.path m.body m.headers

/-- A step that is answered 202 has accepted the command that the body of its message denotes, which
is in range; no other step has accepted any. -/
theorem accepted_actions (s : Server) (step : Step) :
    (∃ c, step.accepted? (s.act step).1 = some c ∧ c.InRange ∧ accepted (s.actions step) = [c]) ∨
    (step.accepted? (s.act step).1 = none ∧ (s.act step).1.status? ≠ some 202 ∧
      accepted (s.actions step) = []) := by
  unfold Step.accepted? actions
  rcases hm : s.handed step with _ | m
  · have hs : (s.act step).1.status? ≠ some 202 := fun h =>
      absurd (status_of_not_handed hm h) (by decide)
    exact Or.inr ⟨if_neg hs, hs, s.accepted_ownActions step⟩
  · have ha := answered_of_handed hm
    obtain ⟨headers, hsent⟩ := message?_of_handed hm
    rcases s.service.accepted_actions m.method m.path m.body m.headers with
      ⟨c, hbody, hrange, hs, hc⟩ | ⟨hs, hc⟩
    · have hs' : (s.act step).1.status? = some 202 := ha.status?_eq.trans (congrArg some hs)
      refine Or.inl ⟨c, ?_, hrange, hc⟩
      rw [if_pos hs', hsent]
      exact hbody
    · have hs' : (s.act step).1.status? ≠ some 202 := by
        rw [ha.status?_eq]
        exact fun h => hs (Option.some.inj h)
      exact Or.inr ⟨if_neg hs', hs', hc⟩

/-- What a step asks of the service, if its message is for one of the routes. -/
def Step.route? (step : Step) : Option Route :=
  step.message?.bind fun m => Route.find? m.method m.path

/-- A motor call of a step is none to drive, and releases the latch only if the step asks for that;
the answer then tells whether it was carried out. -/
theorem operate_mem_actions {s : Server} {step : Step} {c : MotorCall} {ok : Bool}
    (h : .operate c ok ∈ s.actions step) :
    (c = .stop ∨ c = .brake ∨ c = .emergencyStop) ∨
      c = .resetEmergencyStop ∧ step.route? = some .reset ∧
        (s.act step).1.status? = some (if ok then 200 else 500) := by
  unfold actions at h
  rcases hm : s.handed step with _ | m
  · rw [hm] at h
    exact Or.inl (Or.inl ((mem_ownActions h).2.2 c ok rfl))
  · rw [hm] at h
    rcases Service.operate_mem_actions h with hc | ⟨hc, hr, hs⟩
    · exact Or.inl hc
    · obtain ⟨headers, hsent⟩ := message?_of_handed hm
      refine Or.inr ⟨hc, ?_, (answered_of_handed hm).status?_eq.trans (congrArg some hs)⟩
      rw [Step.route?, hsent]
      exact hr

end Server

end RoverControl
