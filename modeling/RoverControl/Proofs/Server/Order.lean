import RoverControl.Proofs.Server.Unfold

/-!
# The order of commands, end to end

The drive calls of a run of a server are those of the commands that were answered 202, in that
order and at most one for each (`drives_in_order_of_acceptance`): a run is a path of the drivetrain
(`exists_runPath`), on which this is so whatever the operators and the worker do.
-/

namespace RoverControl

open Drivetrain

namespace Server

/-- What happens in a run, in order. -/
def history (s : Server) : List Step → List Event
  | [] => []
  | step :: rest => (s.step step).2.drivetrain.rig.time.events ++ (s.step step).2.history rest

/-- The commands that are accepted in a run, in order. -/
def acceptedIn (s : Server) : List Step → List Command
  | [] => []
  | step :: rest => (step.accepted? (s.step step).1).toList ++ (s.step step).2.acceptedIn rest

/-- The pairs of speeds that are passed to the motors. -/
def drives (events : List Event) : List (Float × Float) :=
  events.filterMap fun
    | .call _ (.drive left right) => some (left, right)
    | _ => none

theorem drives_append (es es' : List Event) : drives (es ++ es') = drives es ++ drives es' :=
  List.filterMap_append

/-! ## Runs as paths -/

/-- A path that a run takes the drivetrain on: it leaves the history of the run on record, and the
commands accepted on it are those of the run. -/
structure RunPath (s : Server) (steps : List Step) (acts : List Action) : Prop where
  path : Path Move s.drivetrain.moment acts (s.run steps).drivetrain.moment
  recorded_eq : recorded acts = s.history steps
  accepted_eq : accepted acts = s.acceptedIn steps
  operate_ne : ∀ {c ok}, .operate c ok ∈ acts → ∀ left right, c ≠ .drive left right

theorem accepted_eq_toList (s : Server) (step : Step) :
    accepted (s.actions step) = (step.accepted? (s.act step).1).toList := by
  rcases s.accepted_actions step with ⟨c, ha, -, hc⟩ | ⟨ha, -, hc⟩ <;> rw [ha, hc] <;> rfl

/-- A path on which operators do what the actions of a step are is one that a run of that step
takes. -/
theorem runPath_of_act {s : Server} {step : Step} {acts : List Action}
    (hp : Path Move s.begun.drivetrain.moment acts (s.step step).2.drivetrain.moment)
    (hops : operations acts = s.begun.actions step) : s.RunPath [step] (.begin :: acts) := by
  have hbegin : .begin ∉ acts := fun h =>
    s.begun.begin_notMem_actions step (hops ▸ mem_operations h rfl)
  refine ⟨.cons .begin hp, ?_, ?_, ?_⟩
  · have := hp.events hbegin
    exact this.symm.trans (List.append_nil _).symm
  · calc accepted (.begin :: acts)
        = accepted (s.begun.actions step) := by rw [← hops, accepted_operations]; rfl
      _ = (step.accepted? (s.step step).1).toList := s.begun.accepted_eq_toList step
      _ = s.acceptedIn [step] := (List.append_nil _).symm
  · intro c ok h left right
    have h : .operate c ok ∈ operations acts := mem_operations (by simpa using h) rfl
    rcases operate_mem_actions (hops ▸ h) with (rfl | rfl | rfl) | ⟨rfl, -⟩ <;>
      exact MotorCall.noConfusion

theorem exists_stepPath (s : Server) (step : Step) : ∃ acts, s.RunPath [step] acts := by
  obtain ⟨acts, hp, hops⟩ := s.begun.act_unfolds step
  exact ⟨.begin :: acts, runPath_of_act hp hops⟩

theorem RunPath.trans {s : Server} {step : Step} {rest : List Step} {acts acts' : List Action}
    (h : s.RunPath [step] acts) (h' : (s.step step).2.RunPath rest acts') :
    s.RunPath (step :: rest) (acts ++ acts') where
  path := h.path.append h'.path
  recorded_eq := by
    rw [recorded_append, h.recorded_eq, h'.recorded_eq, history, history, history, List.append_nil]
  accepted_eq := by
    rw [accepted_append, h.accepted_eq, h'.accepted_eq, acceptedIn, acceptedIn, acceptedIn,
      List.append_nil]
  operate_ne hm := (List.mem_append.1 hm).elim h.operate_ne h'.operate_ne

theorem exists_runPath (s : Server) (steps : List Step) : ∃ acts, s.RunPath steps acts := by
  induction steps generalizing s with
  | nil => exact ⟨[], .nil, rfl, rfl, fun h => nomatch h⟩
  | cons step rest ih =>
    obtain ⟨acts, h⟩ := s.exists_stepPath step
    obtain ⟨acts', h'⟩ := ih (s.step step).2
    exact ⟨acts ++ acts', h.trans h'⟩

/-! ## Accepted commands -/

theorem accepted?_of_status (s : Server) {step : Step} (h : (s.act step).1.status? = some 202) :
    ∃ c, step.accepted? (s.act step).1 = some c ∧ c.InRange := by
  rcases s.accepted_actions step with ⟨c, ha, hc, -⟩ | ⟨-, hs, -⟩
  · exact ⟨c, ha, hc⟩
  · exact absurd h hs

theorem inRange_of_accepted? (s : Server) {step : Step} {c : Command}
    (h : step.accepted? (s.act step).1 = some c) : c.InRange := by
  rcases s.accepted_actions step with ⟨c', ha, hc, -⟩ | ⟨ha, -⟩
  · cases ha.symm.trans h
    exact hc
  · cases ha.symm.trans h

theorem inRange_of_mem_acceptedIn (s : Server) (steps : List Step) :
    ∀ c ∈ s.acceptedIn steps, c.InRange := by
  induction steps generalizing s with
  | nil => exact fun c hc => nomatch hc
  | cons step rest ih =>
    intro c hc
    rcases List.mem_append.1 hc with hc | hc
    · exact s.begun.inRange_of_accepted? (Option.mem_toList.1 hc)
    · exact ih _ c hc

/-! ## Drive calls -/

/-- Where operators do not drive, the pairs of speeds on record are those of the commands that the
worker called for. -/
theorem drives_recorded {acts : List Action}
    (h : ∀ {c ok}, .operate c ok ∈ acts → ∀ left right, c ≠ .drive left right) :
    drives (recorded acts) = (called acts).map fun c => (c.left, c.right) := by
  induction acts with
  | nil => rfl
  | cons a acts ih =>
    rw [recorded_cons, drives_append, ih fun hm => h (List.mem_cons_of_mem _ hm)]
    cases a with
    | operate c ok =>
      cases c with
      | drive left right => exact absurd rfl (h List.mem_cons_self left right)
      | _ => rfl
    | wait | pause =>
      simp only [Action.event?, Action.sleepEvent?]
      split <;> rfl
    | _ => rfl

theorem called_sublist_accepted {d : Drivetrain} {acts : List Action} {m : Moment}
    (h : Path Move d.moment acts m) (hd : d.backlog.items = []) (hw : d.worker = .absent) :
    (called acts).Sublist (accepted acts) := by
  have hahead : d.moment.ahead = [] := by simp [Moment.ahead, moment, phase, hd, hw, Phase.uncalled]
  have hcalled := h.called_sublist
  rw [hahead, List.nil_append] at hcalled
  exact (List.sublist_append_left _ _).trans hcalled

/-- In every run the pairs of speeds passed to the motors are those of commands that were answered
202, in the order of acceptance and at most one for each.  Every step that is answered 202 has
accepted the command of its body, which is in range.  The worker has one command at a time, and
after the drive call of a command with a duration it sleeps for that time and stops the motors.
Order, one command at a time and stops are so whatever operators and the worker may do in whatever
order, also while a sleep or a drive call lasts. -/
theorem drives_in_order_of_acceptance (store : Config.Store) (instruments : Instruments) (rig : Rig)
    (ioTimeout : Int) (steps : List Step) :
    let start := new (Service.new store instruments rig) ioTimeout
    (drives (start.history steps)).Sublist
        ((start.acceptedIn steps).map fun c => (c.left, c.right)) ∧
      (∀ c ∈ start.acceptedIn steps, c.InRange) ∧
      (∀ pre step post, steps = pre ++ step :: post →
        ((start.run pre).step step).1.status? = some 202 →
          ∃ c, step.accepted? ((start.run pre).step step).1 = some c ∧ c.InRange) ∧
      (∃ acts, Path Move start.drivetrain.moment acts (start.run steps).drivetrain.moment ∧
        recorded acts = start.history steps ∧ accepted acts = start.acceptedIn steps ∧
        OneAtATime acts ∧ StopsInTime acts) ∧
      ∀ acts m, Path Move start.drivetrain.moment acts m →
        (called acts).Sublist (accepted acts) ∧
        ((∀ {c ok}, .operate c ok ∈ acts → ∀ left right, c ≠ .drive left right) →
          drives (recorded acts) = (called acts).map fun c => (c.left, c.right)) ∧
        OneAtATime acts ∧ (m.phase.AtRest → StopsInTime acts) := by
  intro start
  obtain ⟨acts, h⟩ := start.exists_runPath steps
  refine ⟨?_, start.inRange_of_mem_acceptedIn steps, ?_,
    ⟨acts, h.path, h.recorded_eq, h.accepted_eq, h.path.oneAtATime,
      h.path.stopsInTime (atRest_moment _)⟩, fun acts m hp => ?_⟩
  · rw [← h.recorded_eq, ← h.accepted_eq, drives_recorded h.operate_ne]
    exact (called_sublist_accepted h.path rfl rfl).map _
  · intro pre step post _ h202
    exact (start.run pre).begun.accepted?_of_status h202
  · exact ⟨called_sublist_accepted hp rfl rfl, drives_recorded, hp.oneAtATime, hp.stopsInTime⟩

end Server

end RoverControl
