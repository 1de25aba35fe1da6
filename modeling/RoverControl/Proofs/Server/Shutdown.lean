import RoverControl.Proofs.Drivetrain.Endings
import RoverControl.Proofs.Server.Latch
import RoverControl.Proofs.Server.Order

/-!
# Shutdown

A shutdown lets the worker bring the command in its hands to an end, discards the commands that
wait, and has an operator stop the motors (`Drivetrain.stop_path`).  After it no command is pending
and nothing is left to do (`Drivetrain.Quiet`), which stays so until there is a request or a worker
is started (`Server.quiet_run`).  If the motors were stopped they stand still, also if it was the
latch that made them ignore the call, since latched motors stand still.
-/

namespace RoverControl

open Drivetrain

namespace Motors

/-- The motors stand still and do not brake. -/
structure Still (m : Motors) : Prop where
  left : m.left = 0
  right : m.right = 0
  braking : m.braking = false

/-- The motors stand still if they are latched. -/
def StillIfLatched (m : Motors) : Prop := m.latched = true → m.Still

variable {m : Motors}

theorem Still.ignore (h : m.Still) : m.ignore.Still := ⟨h.left, h.right, h.braking⟩

theorem Still.stop (h : m.Still) : (m.apply .stop).Still := by
  rw [Motors.apply]
  split
  · exact h.ignore
  · exact ⟨rfl, rfl, rfl⟩

theorem StillIfLatched.apply (h : m.StillIfLatched) (c : MotorCall) :
    (m.apply c).StillIfLatched := by
  have hignore : m.ignore.StillIfLatched := fun hl => (h hl).ignore
  have hfree {m' : Motors} (hm : ¬ m.latched = true) (hm' : m'.latched = m.latched) :
      m'.StillIfLatched := fun hl => absurd (hm'.symm.trans hl) hm
  cases c with
  | drive | stop | brake =>
    rw [Motors.apply]
    split
    · exact hignore
    · rename_i hm
      exact hfree hm rfl
  | emergencyStop => exact fun _ => ⟨rfl, rfl, rfl⟩
  | resetEmergencyStop => exact fun hl => absurd hl Bool.false_ne_true

/-- After a stop the motors stand still, whether it was ignored or not. -/
theorem StillIfLatched.stop (h : m.StillIfLatched) : (m.apply .stop).Still := by
  rw [Motors.apply]
  split
  · rename_i hl
    exact (h hl).ignore
  · exact ⟨rfl, rfl, rfl⟩

end Motors

namespace Drivetrain

/-! ## The motors -/

theorem stillIfLatched_carryOut {r r' : Rig} {c : MotorCall} {ok : Bool}
    (h : r.carryOut c = (ok, r')) (hr : r.motors.StillIfLatched) : r'.motors.StillIfLatched := by
  rw [motors_of_carryOut h]
  split
  · exact hr.apply c
  · exact hr

theorem Move.stillIfLatched {m m' : Moment} {a : Action} (h : Move m a m')
    (hm : m.drivetrain.rig.motors.StillIfLatched) :
    m'.drivetrain.rig.motors.StillIfLatched := by
  cases h with
  | adjust h =>
    rw [h.motors]
    exact hm
  | operate h => exact stillIfLatched_carryOut h hm
  | answer _ h => exact stillIfLatched_carryOut h hm
  | stop h => exact stillIfLatched_carryOut h hm
  | _ => exact hm

theorem faults_of_carryOut {r r' : Rig} {c : MotorCall} {ok : Bool} (h : r.carryOut c = (ok, r')) :
    r'.faults = r.faults ∧ ok = !r.faults.contains c.part := by
  unfold Rig.carryOut at h
  split at h <;> rename_i hc <;> cases h
  · exact ⟨rfl, by rw [hc]; rfl⟩
  · exact ⟨rfl, by rw [eq_false_of_ne_true hc]; rfl⟩

theorem faults_of_finish (r : Rig) (c : Command) : (r.finish c).2.faults = r.faults := by
  unfold Rig.finish
  rcases h : r.carryOut c.driveCall with ⟨_ | _, r'⟩
  · exact (faults_of_carryOut h).1
  · dsimp only
    split
    · exact (faults_of_carryOut h).1
    · split
      · rename_i time _
        refine (faults_of_carryOut (r := { r' with time }.note .worker .stop) rfl).1.trans ?_
        exact (faults_of_carryOut h).1
      · exact (faults_of_carryOut h).1

theorem faults_of_stop (d : Drivetrain) : d.stop.rig.faults = d.rig.faults := by
  unfold stop
  dsimp only
  split
  · exact faults_of_finish _ _
  · rfl

theorem carriedOut_of_operate (d : Drivetrain) (c : MotorCall) :
    (d.operate c).1 = !d.rig.faults.contains c.part :=
  (faults_of_carryOut (r := d.rig.note .operator c) rfl).2

/-! ## Ending the worker -/

/-- The worker brings the command that it holds to an end without taking another one. -/
theorem letPass_path {d : Drivetrain} {c : Command} (hw : d.worker = .driving c) : ∃ acts,
    Path Move d.moment acts ((d.mapRig ({ · with held := false })).finish c).moment ∧
      operations acts = [.adjust] ∧ taken acts = [] ∧ called acts = [] := by
  obtain ⟨acts, hp, hops⟩ := letPass_unfolds hw
  have haccepted : accepted acts = [] := by rw [← accepted_operations, hops]; rfl
  have htaken : (taken acts).length + d.depth ≤ d.depth + (accepted acts).length :=
    hp.taken_length_le
  have hcalled := hp.called_sublist.length_le
  have hahead : d.moment.ahead = d.backlog.items := by rw [moment_of_driving hw]; rfl
  have hahead' : ((d.mapRig ({ · with held := false })).finish c).moment.ahead =
      d.backlog.items := by rw [moment_of_idle rfl]; rfl
  -- as many commands wait as before, so none has been taken, nor called for
  rw [haccepted, List.length_nil] at htaken
  rw [haccepted, hahead, hahead', List.length_append, List.append_nil] at hcalled
  exact ⟨acts, hp, hops, List.eq_nil_of_length_eq_zero (by omega),
    List.eq_nil_of_length_eq_zero (by omega)⟩

theorem dismiss_path (d : Drivetrain) : Path Move ⟨d, .free⟩ [.dismiss, .discard d.backlog.items]
    ({ d with worker := .absent }.clear).moment :=
  .cons .dismiss (.single .discard)

/-- The worker that is ended makes no further drive call and takes no further command, and all the
commands that wait are discarded. -/
theorem stop_path (d : Drivetrain) : ∃ acts,
    Path Move d.moment (acts ++ [.dismiss, .discard d.backlog.items]) d.stop.moment ∧
      operations (acts ++ [.dismiss, .discard d.backlog.items]) = d.stopActions ∧
      taken acts = [] ∧ called acts = [] := by
  unfold stop stopActions
  rcases hw : d.worker with _ | _ | c
  · rw [moment_eq_of_ne_driving (by simp [hw])]
    exact ⟨[], dismiss_path d, rfl, rfl, rfl⟩
  · rw [moment_of_idle hw]
    exact ⟨[], dismiss_path d, rfl, rfl, rfl⟩
  · obtain ⟨acts, hp, hops, hacts⟩ := letPass_path hw
    rw [moment_of_idle (d := finish _ c) rfl] at hp
    exact ⟨acts, hp.append (dismiss_path _), by rw [operations_append, hops]; rfl, hacts⟩

theorem stillIfLatched_stop {d : Drivetrain} (h : d.rig.motors.StillIfLatched) :
    d.stop.rig.motors.StillIfLatched := by
  obtain ⟨acts, hp, -⟩ := stop_path d
  exact hp.keeps (I := fun m => m.drivetrain.rig.motors.StillIfLatched) Move.stillIfLatched h

/-- Nothing is left to do: there is no worker, and no command waits or is unfinished. -/
structure Quiet (d : Drivetrain) : Prop where
  worker : d.worker = .absent
  items : d.backlog.items = []
  unfinished : d.unfinished = 0

variable {d d' : Drivetrain}

theorem quiet_stop (h : Balanced d.moment) : (d.begun.stop).Quiet := ⟨rfl, rfl, h.stop⟩

theorem Quiet.alike (h : d.Quiet) (halike : d.Alike d') : d'.Quiet :=
  ⟨halike.worker.trans h.worker, halike.items.trans h.items,
    halike.unfinished.trans h.unfinished⟩

theorem Quiet.phase (h : d.Quiet) : d.phase = .free := by rw [Drivetrain.phase, h.worker]

theorem Quiet.stop (h : d.Quiet) : d.stop.Quiet ∧ d.stop.rig = d.rig := by
  unfold Drivetrain.stop
  rw [h.worker]
  refine ⟨⟨rfl, rfl, ?_⟩, rfl⟩
  show d.unfinished - d.depth = 0
  rw [h.unfinished, Nat.zero_sub]

theorem release_of_absent (h : d.worker = .absent) :
    d.release = d.mapRig ({ · with held := false }) := by
  have hworker : (d.mapRig ({ · with held := false })).worker = .absent := h
  unfold Drivetrain.release
  simp only [hworker]

end Drivetrain

namespace Server

/-! ## Quiet steps -/

/-- A step that hands the service no message and starts no worker. -/
def Step.IsQuiet (step : Step) : Prop :=
  (∀ s : Server, s.handed step = none) ∧ ∀ fails, step ≠ .start fails

/-- The motor calls of a quiet step: a further shutdown stops the motors again. -/
def Step.quietCalls : Step → List (Caller × MotorCall)
  | .shutdown => [(.operator, .stop)]
  | _ => []

/-- The motor calls on record. -/
def motorCalls (events : List Event) : List (Caller × MotorCall) :=
  events.filterMap fun
    | .call caller c => some (caller, c)
    | .sleep _ => none

theorem motorCalls_append (es es' : List Event) :
    motorCalls (es ++ es') = motorCalls es ++ motorCalls es' := List.filterMap_append

variable {s : Server} {step : Step}

/-- Where nothing is left to do, a quiet step other than a shutdown does nothing. -/
theorem alike_of_quiet (hd : s.drivetrain.Quiet) (hquiet : step.IsQuiet)
    (hstep : step ≠ .shutdown) : s.drivetrain.Alike (s.act step).2.drivetrain := by
  cases step with
  | request method path headers body =>
    rw [drivetrain, drivetrain, service_of_unreadable (hquiet.1 s)]
    exact .refl _
  | visit v =>
    rw [drivetrain, drivetrain, service_of_unheard (hquiet.1 s)]
    exact .refl _
  | start fails => exact absurd rfl (hquiet.2 fails)
  | shutdown => exact absurd rfl hstep
  | hold => exact s.drivetrain.alike_mapRig ({ · with held := true }) rfl rfl
  | release =>
    show s.drivetrain.Alike s.drivetrain.release
    rw [release_of_absent hd.worker]
    exact s.drivetrain.alike_mapRig ({ · with held := false }) rfl rfl
  | fail parts => exact s.drivetrain.alike_mapRig ({ · with faults := parts }) rfl rfl
  | time t => exact alike_timeAct s.drivetrain t
  | tokens => exact alike_refill s.drivetrain s.service.now

/-- What a quiet step leaves of a server with nothing left to do. -/
theorem quiet_step (hd : s.drivetrain.Quiet) (hquiet : step.IsQuiet) :
    (s.step step).2.drivetrain.Quiet ∧
      motorCalls (s.step step).2.drivetrain.rig.time.events = step.quietCalls ∧
      (s.drivetrain.rig.motors.Still → (s.step step).2.drivetrain.rig.motors.Still) := by
  have hbegun : s.begun.drivetrain.Quiet := ⟨hd.worker, hd.items, hd.unfinished⟩
  by_cases hstep : step = .shutdown
  · subst hstep
    obtain ⟨hstop, hrig⟩ := hbegun.stop
    refine ⟨⟨hstop.worker, hstop.items, hstop.unfinished⟩, ?_, fun hm => ?_⟩
    · show motorCalls (s.begun.drivetrain.stop.operate .stop).2.rig.time.events = _
      have hevents : (s.begun.drivetrain.stop.operate .stop).2.rig.time.events = _ :=
        events_of_call (r := s.begun.drivetrain.stop.rig) rfl
      rw [hevents, hrig]
      rfl
    · show (s.begun.drivetrain.stop.operate .stop).2.rig.motors.Still
      rw [motors_of_operate, hrig]
      split
      · exact hm.stop
      · exact hm
  · have halike : s.begun.drivetrain.Alike (s.step step).2.drivetrain :=
      alike_of_quiet hbegun hquiet hstep
    refine ⟨hbegun.alike halike, ?_, ?_⟩
    · rw [halike.events]
      cases step <;> first | rfl | exact absurd rfl hstep
    · rw [halike.motors]
      exact id

/-- Once nothing is left to do, this stays so in every run of quiet steps, and the motors are not
called but to stop them again at a further shutdown. -/
theorem quiet_run {steps : List Step} (hd : s.drivetrain.Quiet)
    (hquiet : ∀ step ∈ steps, step.IsQuiet) :
    (s.run steps).drivetrain.Quiet ∧
      motorCalls (s.history steps) = steps.flatMap Step.quietCalls ∧
      (s.drivetrain.rig.motors.Still → (s.run steps).drivetrain.rig.motors.Still) := by
  induction steps generalizing s with
  | nil => exact ⟨hd, rfl, id⟩
  | cons step rest ih =>
    obtain ⟨hstep, hcalls, hstill⟩ := quiet_step hd (hquiet step List.mem_cons_self)
    obtain ⟨hrest, hcalls', hstill'⟩ := ih hstep fun step h =>
      hquiet step (List.mem_cons_of_mem _ h)
    refine ⟨hrest, ?_, hstill' ∘ hstill⟩
    rw [history, motorCalls_append, hcalls, hcalls', List.flatMap_cons]

/-! ## Shutdowns -/

/-- What happens in a shutdown: no drive call is made, and no command is taken before those that
wait are discarded. -/
theorem exists_shutdownPath (s : Server) : ∃ front back,
    s.RunPath [.shutdown] (front ++ .discard s.drivetrain.backlog.items :: back) ∧
      taken front = [] ∧ called (front ++ .discard s.drivetrain.backlog.items :: back) = [] := by
  obtain ⟨acts, hp, hops, htaken, hcalled⟩ := stop_path s.begun.drivetrain
  let halt : Action := .operate .stop (s.begun.drivetrain.stop.operate .stop).1
  have hhalt : Move s.begun.drivetrain.stop.moment halt (s.step .shutdown).2.drivetrain.moment :=
    .operate rfl
  have hops' : operations (acts ++ [.dismiss, .discard s.drivetrain.backlog.items] ++ [halt]) =
      s.begun.actions .shutdown := by
    rw [operations_append]
    exact congrArg (· ++ operations [halt]) hops
  have hrun := runPath_of_act (hp.append (.single hhalt)) hops'
  have hsplit : acts ++ [.dismiss, .discard s.drivetrain.backlog.items] ++ [halt] =
      acts ++ [.dismiss] ++ .discard s.drivetrain.backlog.items :: [halt] := by simp
  refine ⟨.begin :: acts ++ [.dismiss], [halt], ?_, ?_, ?_⟩
  · rw [List.cons_append, List.cons_append, ← hsplit]
    exact hrun
  · rw [List.cons_append, taken_cons, taken_append, htaken]
    rfl
  · rw [List.cons_append, List.cons_append, ← List.singleton_append, called_append, called_append,
      called_append, hcalled]
    rfl

theorem stillIfLatched_run (s : Server) (steps : List Step)
    (hs : s.drivetrain.rig.motors.StillIfLatched) :
    (s.run steps).drivetrain.rig.motors.StillIfLatched := by
  obtain ⟨acts, h⟩ := s.exists_runPath steps
  exact h.path.keeps (I := fun m => m.drivetrain.rig.motors.StillIfLatched) Move.stillIfLatched hs

theorem balanced_run (s : Server) (steps : List Step) (hs : Balanced s.drivetrain.moment) :
    Balanced (s.run steps).drivetrain.moment := by
  obtain ⟨acts, h⟩ := s.exists_runPath steps
  exact h.path.keeps Balanced.move hs

theorem carriedOut_of_shutdown (s : Server) :
    (s.begun.drivetrain.stop.operate .stop).1 = !s.drivetrain.rig.faults.contains .stop := by
  rw [carriedOut_of_operate, faults_of_stop]
  rfl

theorem quiet_shutdown (h : Balanced s.drivetrain.moment) :
    (s.step .shutdown).2.drivetrain.Quiet := by
  have hstop := quiet_stop h
  exact ⟨hstop.worker, hstop.items, hstop.unfinished⟩

theorem still_shutdown (h : s.drivetrain.rig.motors.StillIfLatched)
    (hstop : (!s.drivetrain.rig.faults.contains .stop) = true) :
    (s.step .shutdown).2.drivetrain.rig.motors.Still := by
  show (s.begun.drivetrain.stop.operate .stop).2.rig.motors.Still
  rw [motors_of_operate, if_pos (s.carriedOut_of_shutdown.trans hstop)]
  exact (stillIfLatched_stop (d := s.begun.drivetrain) h).stop

/-- A shutdown returns whether the motors were stopped, which they refuse only if their part fails.
If it was so they stand still, and in any case there is no worker, nothing waits or is unfinished,
and no drive call is made.  This stays so in every run without a request or the start of a worker,
in which there is no motor call but for one at each further shutdown.  Every command that was
accepted before has ended once, as the counts of the queue tell: executed, failed or drained.  Of
those that waited when the shutdown was asked for none is ever called for, before or after. -/
theorem shutdown_leaves_at_rest (store : Config.Store) (instruments : Instruments) (time : Timeline)
    (ioTimeout : Int) (steps : List Step) :
    let start := new (Service.new store instruments (Rig.new time)) ioTimeout
    let s := start.run steps
    let s' := (s.step .shutdown).2
    let stopped := !s.drivetrain.rig.faults.contains .stop
    let t := Tickets.ofMoment start.drivetrain.moment
    (s.step .shutdown).1 = .flag stopped ∧
      (s'.drivetrain.Quiet ∧ (stopped = true → s'.drivetrain.rig.motors.Still) ∧
        drives (s.history [.shutdown]) = []) ∧
      (∀ rest, (∀ step ∈ rest, step.IsQuiet) →
        (s'.run rest).drivetrain.Quiet ∧
        (stopped = true → (s'.run rest).drivetrain.rig.motors.Still) ∧
        motorCalls (s'.history rest) = rest.flatMap Step.quietCalls) ∧
      ∃ before during, start.RunPath steps before ∧ s.RunPath [.shutdown] during ∧
        (let ends := t.endings (before ++ during)
        (ends.map Prod.fst).Perm (List.range (start.acceptedIn steps).length) ∧
          s'.drivetrain.counts.executed = (ends.map Prod.snd).count .executed ∧
          s'.drivetrain.counts.executionFailures = (ends.map Prod.snd).count .failed ∧
          s'.drivetrain.counts.drained = (ends.map Prod.snd).count .drained) ∧
        (t.afterAll before).waiting.map ((start.acceptedIn steps)[·]?) =
          s.drivetrain.backlog.items.map some ∧
        ∀ rest, ∃ after, s'.RunPath rest after ∧
          Unreached [] t (before ++ during ++ after) (t.afterAll before).waiting := by
  intro start s s' stopped t
  have hnames : Names [] t start.drivetrain.moment := names_ofMoment start.drivetrain.moment
  have hquiet : s'.drivetrain.Quiet :=
    quiet_shutdown (start.balanced_run steps (balanced_new _ _ _))
  have hstill : stopped = true → s'.drivetrain.rig.motors.Still :=
    still_shutdown (start.stillIfLatched_run steps fun hl => nomatch hl)
  obtain ⟨before, hbefore⟩ := start.exists_runPath steps
  obtain ⟨front, back, hduring, htaken, hcalled⟩ := s.exists_shutdownPath
  refine ⟨congrArg StepAnswer.flag s.carriedOut_of_shutdown, ⟨hquiet, hstill, ?_⟩,
    fun rest hrest => ?_, before, _, hbefore, hduring, ?_, ?_, fun rest => ?_⟩
  · rw [← hduring.recorded_eq, drives_recorded hduring.operate_ne, hcalled]
    rfl
  · obtain ⟨hq, hcalls, hm⟩ := quiet_run hquiet hrest
    exact ⟨hq, hm ∘ hstill, hcalls⟩
  · have hp := hbefore.path.append hduring.path
    have hends := hp.ends hnames
    have hheld := (hp.names hnames).held_eq_nil hquiet.items hquiet.phase
    have hnone : s.acceptedIn [.shutdown] = [] := rfl
    refine ⟨?_, ?_, ?_, ?_⟩
    · have hperm := hends.perm_range rfl rfl hheld
      rwa [accepted_append, hbefore.accepted_eq, hduring.accepted_eq, hnone,
        List.append_nil] at hperm
    · exact hends.executed.trans (Nat.zero_add _)
    · exact hends.failed.trans (Nat.zero_add _)
    · exact hends.drained.trans (Nat.zero_add _)
  · have := (hbefore.path.names hnames).waiting
    rwa [List.nil_append, hbefore.accepted_eq] at this
  · obtain ⟨after, hafter⟩ := s'.exists_runPath rest
    refine ⟨after, hafter, ?_⟩
    have hp := (hbefore.path.append hduring.path).append hafter.path
    have hsplit : before ++ (front ++ .discard s.drivetrain.backlog.items :: back) ++ after =
        before ++ front ++ .discard s.drivetrain.backlog.items :: (back ++ after) := by simp
    rw [hsplit] at hp ⊢
    exact hp.unreached hnames htaken

end Server

end RoverControl
