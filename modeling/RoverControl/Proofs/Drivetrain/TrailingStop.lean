import RoverControl.Proofs.Drivetrain.Order

/-!
# Stops after commands with a duration

Once the drive call of a command with a duration has been carried out, the worker sleeps for that
time and stops the motors before it finishes the command, if the sleep ends well.  If the sleep
fails the command is finished at once and the motors are not stopped
(`stopped_iff_sleep_ends_well`): they go on driving although nothing is left to be done
(`driving_on_after_failed_sleep`).
-/

namespace RoverControl

namespace Drivetrain

/-! ## Histories -/

/-- What happens in a run, in order. -/
def history (d : Drivetrain) : List Step → List Event
  | [] => []
  | step :: rest => (d.step step).2.rig.time.events ++ (d.step step).2.history rest

theorem begin_notMem_actions (d : Drivetrain) (step : Step) : .begin ∉ d.actions step := by
  intro h
  cases step with
  | enqueue c =>
    have h := List.mem_singleton.1 h
    unfold enqueueAction at h
    split at h <;> cases h
  | start fails => exact nomatch mem_startActions h
  | stop => rcases mem_stopActions h with h | h | h <;> cases h
  | _ => exact nomatch List.mem_singleton.1 h

/-- A step is a path that leaves the events of the step on record. -/
theorem exists_stepPath (d : Drivetrain) (step : Step) :
    ∃ acts, Path Move d.moment acts (d.step step).2.moment ∧
      operations acts = .begin :: d.begun.actions step ∧
      recorded acts = (d.step step).2.rig.time.events := by
  obtain ⟨acts, hp, hops⟩ := act_unfolds d.begun step
  have hbegin : .begin ∉ acts := fun h =>
    d.begun.begin_notMem_actions step (hops ▸ mem_operations h rfl)
  refine ⟨.begin :: acts, .cons .begin hp, ?_, ?_⟩
  · rw [← hops]
    rfl
  · have hevents := hp.events hbegin
    exact hevents.symm

/-- A run is a path that leaves the history of the run on record. -/
theorem exists_runPath (d : Drivetrain) (steps : List Step) :
    ∃ acts, Path Move d.moment acts (d.run steps).moment ∧
      operations acts = d.runActions steps ∧ recorded acts = d.history steps := by
  induction steps generalizing d with
  | nil => exact ⟨[], .nil, rfl, rfl⟩
  | cons step rest ih =>
    obtain ⟨acts, hp, hops, hrec⟩ := d.exists_stepPath step
    obtain ⟨acts', hp', hops', hrec'⟩ := ih (d.step step).2
    refine ⟨acts ++ acts', hp.append hp', ?_, ?_⟩
    · rw [runActions, ← hops, ← hops']
      exact List.filter_append ..
    · rw [recorded_append, hrec, hrec', history]

/-! ## Which commands are followed by a stop -/

/-- Whenever the drive call for a command with a duration was carried out, the worker sleeps, stops
the motors and finishes the command, or a sleep that ends badly makes it finish the command without
a stop. -/
def StopsOrGivesUp (acts : List Action) : Prop :=
  ∀ {pre post c seconds}, acts = pre ++ .answer c true :: post → c.duration = some seconds →
    StopsAfter seconds c (work post) ∨ GivesUpAfter seconds c (work post)

theorem Path.stopsOrGivesUp {m m' : Moment} {acts : List Action} (h : Path Move m acts m')
    (hm' : m'.phase.AtRest) : StopsOrGivesUp acts := by
  rintro pre post c seconds rfl hc
  obtain ⟨m₁, -, h₁⟩ := h.exists_of_append
  exact h₁.work_of_driven hc hm'

/-- Whenever the drive call for a command with a duration is carried out, the next thing that the
worker does is to sleep for that time.  If the sleep ends well it stops the motors next, and only
then finishes the command and can take another one; if it ends badly the worker finishes the command
next and makes no stop call for it.  This is so in every run, whose history is on record, and
whatever operators and the worker may do in whatever order. -/
theorem stopped_iff_sleep_ends_well (maxsize : Nat) (limiter : TokenBucket Float) (rig : Rig) :
    let start := new maxsize limiter rig
    (∀ steps, ∃ acts, Path Move start.moment acts (start.run steps).moment ∧
        operations acts = start.runActions steps ∧ recorded acts = start.history steps ∧
        StopsOrGivesUp acts) ∧
      ∀ acts m, Path Move start.moment acts m → m.phase.AtRest → StopsOrGivesUp acts := by
  intro start
  refine ⟨fun steps => ?_, fun acts m hp hm => hp.stopsOrGivesUp hm⟩
  obtain ⟨acts, hp, hops, hrec⟩ := start.exists_runPath steps
  exact ⟨acts, hp, hops, hrec, hp.stopsOrGivesUp (atRest_moment _)⟩

/-- A command to drive at full speed for a second, given to a worker whose sleeper fails. -/
def failedSleep : List Step :=
  [.start false, .time (.sleeper .fail), .enqueue ⟨1, 1, some 1⟩]

/-- After a failed sleep everything is done, no stop call has been made, and the motors drive. -/
theorem driving_on_after_failed_sleep :
    let start := new 4 (.new ⟨1000, 100⟩ 0) (Rig.new (Timeline.start none))
    let d := start.run failedSleep
    start.history failedSleep = [.call .worker (.drive 1 1), .sleep 1000000000] ∧
      d.isIdle = true ∧ d.counts.executionFailures = 1 ∧
      d.rig.motors.left = 1 ∧ d.rig.motors.right = 1 := by
  decide +kernel

end Drivetrain

end RoverControl
