import RoverControl.Proofs.Drivetrain.Unfold

/-!
# The order of commands

On every path the drive calls are those of accepted commands, in the order of acceptance and at
most one for each (`Path.called_sublist`).  The worker takes no command before it has finished the
one in its hands (`Path.oneAtATime`), and after a command with a duration has been driven it sleeps,
and makes a stop call next if the sleep ends well (`Path.stopsInTime`).  What is on record is what
the actions of a path leave there (`Path.events`).
-/

namespace RoverControl

namespace Drivetrain

/-- The commands that were accepted. -/
def accepted (acts : List Action) : List Command :=
  acts.filterMap fun
    | .accept c => some c
    | _ => none

/-- The commands whose drive calls were made. -/
def called (acts : List Action) : List Command :=
  acts.filterMap fun
    | .call c => some c
    | _ => none

theorem accepted_append (acts acts' : List Action) :
    accepted (acts ++ acts') = accepted acts ++ accepted acts' := List.filterMap_append

theorem accepted_cons (a : Action) (acts : List Action) :
    accepted (a :: acts) = accepted [a] ++ accepted acts := accepted_append [a] acts

theorem called_append (acts acts' : List Action) :
    called (acts ++ acts') = called acts ++ called acts' := List.filterMap_append

theorem recorded_append (acts acts' : List Action) :
    recorded (acts ++ acts') = recorded acts ++ recorded acts' := List.filterMap_append

theorem accepted_operations (acts : List Action) : accepted (operations acts) = accepted acts := by
  induction acts with
  | nil => rfl
  | cons a acts ih =>
    rcases hw : a.isWorkers with _ | _
    · rw [operations, List.filter_cons_of_pos (by simp [hw]), accepted_cons, accepted_cons a acts]
      exact congrArg _ ih
    · rw [operations, List.filter_cons_of_neg (by simp [hw]), accepted_cons a acts]
      have : accepted [a] = [] := by cases a <;> first | rfl | cases hw
      rw [this]
      exact ih

/-! ## First in, first out -/

/-- The command of which the drive call is yet to be made. -/
def Phase.uncalled : Phase → List Command
  | waiting c => [c]
  | _ => []

/-- The commands of which drive calls may yet be made, the next one first. -/
def Moment.ahead (m : Moment) : List Command := m.phase.uncalled ++ m.drivetrain.backlog.items

theorem uncalled_afterAnswer (c : Command) (ok : Bool) :
    (Phase.afterAnswer c ok).uncalled = [] := by
  unfold Phase.afterAnswer
  split <;> rfl

/-- A move brings accepted commands in at the end and calls them from the front. -/
theorem Move.called_sublist {m m' : Moment} {a : Action} (h : Move m a m') :
    (called [a] ++ m'.ahead).Sublist (m.ahead ++ accepted [a]) := by
  cases h with
  | adjust h => simp [Moment.ahead, called, accepted, h.items]
  | accept h => simp [Moment.ahead, called, accepted, BoundedQueue.items_of_push h]
  | refuse h => simp [Moment.ahead, called, accepted, BoundedQueue.items_of_refused h]
  | discard => simp [Moment.ahead, called, accepted, clear, BoundedQueue.clear]
  | take _ h => simp [Moment.ahead, called, accepted, Phase.uncalled, h]
  | waitFault => simp [Moment.ahead, called, accepted, Phase.uncalled, resume]
  | call => simp [Moment.ahead, called, accepted, Phase.uncalled, resume, mapRig]
  | answer =>
    rw [Moment.ahead, uncalled_afterAnswer]
    simp [Moment.ahead, called, accepted, Phase.uncalled]
  | _ =>
    simp [Moment.ahead, called, accepted, Phase.uncalled, mapRig, resume, atTime, record]

theorem Path.called_sublist {m m' : Moment} {acts : List Action} (h : Path Move m acts m') :
    (called acts ++ m'.ahead).Sublist (m.ahead ++ accepted acts) := by
  -- what is ahead after a move is what is ahead before the rest of the path
  induction h with
  | @nil m => simp [called, accepted]
  | @cons m a m' acts m'' h _ ih =>
    calc called ([a] ++ acts) ++ m''.ahead
        = called [a] ++ (called acts ++ m''.ahead) := by rw [called_append, List.append_assoc]
      List.Sublist _ (called [a] ++ (m'.ahead ++ accepted acts)) := ih.append_left _
      _ = called [a] ++ m'.ahead ++ accepted acts := (List.append_assoc ..).symm
      List.Sublist _ (m.ahead ++ accepted [a] ++ accepted acts) := h.called_sublist.append_right _
      _ = m.ahead ++ accepted ([a] ++ acts) := by rw [accepted_append, List.append_assoc]

/-! ## One command at a time -/

/-- The command that the worker has in hand. -/
def Phase.command? : Phase → Option Command
  | free => none
  | waiting c | calling c | pausing c _ | stopping c | ending c _ => some c

theorem command?_afterAnswer (c : Command) (ok : Bool) :
    (Phase.afterAnswer c ok).command? = some c := by
  unfold Phase.afterAnswer
  split <;> rfl

theorem Move.command? {m m' : Moment} {a : Action} {c : Command} (h : Move m a m')
    (hm : m.phase.command? = some c) : (∃ ok, a = .finish c ok) ∨ m'.phase.command? = some c := by
  cases h with
  | engage => cases hm
  | dismiss => cases hm
  | take => cases hm
  | answer =>
    rw [command?_afterAnswer]
    exact Or.inr hm
  | finish =>
    cases hm
    exact Or.inl ⟨_, rfl⟩
  | _ => exact Or.inr hm

theorem Path.finish_mem_of_take {m m' : Moment} {c c' : Command} {mid post : List Action}
    (h : Path Move m (mid ++ .take c' :: post) m') (hm : m.phase.command? = some c) :
    ∃ ok, .finish c ok ∈ mid := by
  induction mid generalizing m with
  | nil =>
    cases h with
    | cons h _ =>
      cases h
      cases hm
  | cons a mid ih =>
    cases h with
    | cons h t =>
      rcases h.command? hm with ⟨ok, rfl⟩ | hm'
      · exact ⟨ok, by simp⟩
      · obtain ⟨ok, hok⟩ := ih t hm'
        exact ⟨ok, List.mem_cons_of_mem _ hok⟩

theorem Move.command?_take {m m' : Moment} {c : Command} (h : Move m (.take c) m') :
    m'.phase.command? = some c := by
  cases h
  rfl

/-- A command that was taken is finished before the worker takes another one. -/
def OneAtATime (acts : List Action) : Prop :=
  ∀ {pre mid post c c'}, acts = pre ++ .take c :: (mid ++ .take c' :: post) →
    ∃ ok, .finish c ok ∈ mid

theorem Path.oneAtATime {m m' : Moment} {acts : List Action} (h : Path Move m acts m') :
    OneAtATime acts := by
  rintro pre mid post c c' rfl
  obtain ⟨m₁, -, h₁⟩ := h.exists_of_append
  cases h₁ with
  | cons htake t => exact t.finish_mem_of_take htake.command?_take

/-! ## Commands with a duration -/

theorem Move.phase_of_operation {m m' : Moment} {a : Action} (h : Move m a m')
    (ha : a.isWorkers = false) : m'.phase = m.phase := by
  cases h <;> first | rfl | cases ha

/-- What follows a sleep for the duration of a command. -/
def Phase.afterPause (c : Command) : Option Timeline.SleepFault → Phase
  | none => stopping c
  | some _ => ending c false

theorem Move.of_pausing {m m' : Moment} {a : Action} {c : Command} {seconds : Float}
    (h : Move m a m') (hm : m.phase = .pausing c seconds) (ha : a.isWorkers = true) :
    ∃ fault, a = .pause c (Quantity.sleepTime seconds) fault ∧ m'.phase = .afterPause c fault := by
  cases h with
  | pause =>
    cases hm
    exact ⟨none, rfl, rfl⟩
  | @pauseFault _ _ _ why =>
    cases hm
    exact ⟨some why, rfl, rfl⟩
  | _ => first | exact absurd ha Bool.false_ne_true | exact nomatch hm

theorem Move.of_stopping {m m' : Moment} {a : Action} {c : Command} (h : Move m a m')
    (hm : m.phase = .stopping c) (ha : a.isWorkers = true) :
    ∃ ok, a = .stop c ok ∧ m'.phase = .ending c ok := by
  cases h with
  | @stop _ _ ok =>
    cases hm
    exact ⟨ok, rfl, rfl⟩
  | _ => first | exact absurd ha Bool.false_ne_true | exact nomatch hm

theorem Move.of_ending {m m' : Moment} {a : Action} {c : Command} {ok : Bool} (h : Move m a m')
    (hm : m.phase = .ending c ok) (ha : a.isWorkers = true) : a = .finish c ok := by
  cases h with
  | finish =>
    cases hm
    rfl
  | _ => first | exact absurd ha Bool.false_ne_true | exact nomatch hm

theorem work_cons_operation {a : Action} (ha : a.isWorkers = false) (acts : List Action) :
    work (a :: acts) = work acts := List.filter_cons_of_neg (by simp [ha])

theorem work_cons_work {a : Action} (ha : a.isWorkers = true) (acts : List Action) :
    work (a :: acts) = a :: work acts := List.filter_cons_of_pos ha

/-- A worker that is not at rest at the beginning of a path, and is at its end, has made a move: the
first one it made found it in the phase of the beginning. -/
theorem Path.exists_work {m m' : Moment} {acts : List Action} (h : Path Move m acts m')
    (hm : ¬ m.phase.AtRest) (hm' : m'.phase.AtRest) :
    ∃ m₁ a m₂ post, m₁.phase = m.phase ∧ Move m₁ a m₂ ∧ a.isWorkers = true ∧
      Path Move m₂ post m' ∧ work acts = a :: work post := by
  induction h with
  | nil => exact absurd hm' hm
  | @cons m a m₁ acts _ h t ih =>
    rcases ha : a.isWorkers with _ | _
    · have hphase : m₁.phase = m.phase := h.phase_of_operation ha
      obtain ⟨m₂, b, m₃, post, hm₂, hb, hw, hp, hacts⟩ := ih (hphase ▸ hm) hm'
      exact ⟨m₂, b, m₃, post, hm₂.trans hphase, hb, hw, hp,
        (work_cons_operation ha acts).trans hacts⟩
    · exact ⟨m, a, m₁, acts, rfl, h, ha, t, work_cons_work ha acts⟩

theorem Path.work_of_ending {m m' : Moment} {acts : List Action} {c : Command} {ok : Bool}
    (h : Path Move m acts m') (hm : m.phase = .ending c ok) (hm' : m'.phase.AtRest) :
    ∃ rest, work acts = .finish c ok :: rest := by
  obtain ⟨m₁, a, m₂, post, hm₁, ha, hw, -, hacts⟩ := h.exists_work (by simp [hm, Phase.AtRest]) hm'
  rw [hacts, ha.of_ending (hm₁.trans hm) hw]
  exact ⟨work post, rfl⟩

theorem Path.work_of_stopping {m m' : Moment} {acts : List Action} {c : Command}
    (h : Path Move m acts m') (hm : m.phase = .stopping c) (hm' : m'.phase.AtRest) :
    ∃ ok rest, work acts = .stop c ok :: .finish c ok :: rest := by
  obtain ⟨m₁, a, m₂, post, hm₁, ha, hw, hp, hacts⟩ := h.exists_work (by simp [hm, Phase.AtRest]) hm'
  obtain ⟨ok, rfl, hm₂⟩ := ha.of_stopping (hm₁.trans hm) hw
  obtain ⟨rest, hpost⟩ := hp.work_of_ending hm₂ hm'
  exact ⟨ok, rest, by rw [hacts, hpost]⟩

/-- The worker sleeps for these seconds, and then stops the motors and finishes the command, as
executed if they were stopped. -/
def StopsAfter (seconds : Float) (c : Command) (acts : List Action) : Prop :=
  ∃ ok rest, acts = .pause c (Quantity.sleepTime seconds) none :: .stop c ok :: .finish c ok :: rest

/-- The sleep for these seconds ends badly, and the worker finishes the command, as not executed,
without stopping the motors. -/
def GivesUpAfter (seconds : Float) (c : Command) (acts : List Action) : Prop :=
  ∃ why rest, acts = .pause c (Quantity.sleepTime seconds) (some why) :: .finish c false :: rest

theorem Path.work_of_pausing {m m' : Moment} {acts : List Action} {c : Command} {seconds : Float}
    (h : Path Move m acts m') (hm : m.phase = .pausing c seconds) (hm' : m'.phase.AtRest) :
    StopsAfter seconds c (work acts) ∨ GivesUpAfter seconds c (work acts) := by
  obtain ⟨m₁, a, m₂, post, hm₁, ha, hw, hp, hacts⟩ := h.exists_work (by simp [hm, Phase.AtRest]) hm'
  obtain ⟨fault, rfl, hm₂⟩ := ha.of_pausing (hm₁.trans hm) hw
  rcases fault with _ | why
  · obtain ⟨ok, rest, hpost⟩ := hp.work_of_stopping hm₂ hm'
    exact Or.inl ⟨ok, rest, by rw [hacts, hpost]⟩
  · obtain ⟨rest, hpost⟩ := hp.work_of_ending hm₂ hm'
    exact Or.inr ⟨why, rest, by rw [hacts, hpost]⟩

/-- A worker whose drive call for a command with a duration has been carried out sleeps next for
that time, and stops the motors after that if the sleep ends well. -/
theorem Path.work_of_driven {m m' : Moment} {post : List Action} {c : Command} {seconds : Float}
    (h : Path Move m (.answer c true :: post) m') (hc : c.duration = some seconds)
    (hm' : m'.phase.AtRest) :
    StopsAfter seconds c (work post) ∨ GivesUpAfter seconds c (work post) := by
  cases h with
  | cons h t =>
    refine t.work_of_pausing ?_ hm'
    cases h
    simp only [Phase.afterAnswer, hc]

/-- Whenever the drive call for a command with a duration was carried out, the next thing that the
worker does is to sleep for that time; if the sleep ends well, the next is to stop the motors. -/
def StopsInTime (acts : List Action) : Prop :=
  ∀ {pre post c seconds}, acts = pre ++ .answer c true :: post → c.duration = some seconds →
    ∃ fault rest, work post = .pause c (Quantity.sleepTime seconds) fault :: rest ∧
      (fault = none → ∃ ok rest', rest = .stop c ok :: rest')

theorem Path.stopsInTime {m m' : Moment} {acts : List Action} (h : Path Move m acts m')
    (hm' : m'.phase.AtRest) : StopsInTime acts := by
  rintro pre post c seconds rfl hc
  obtain ⟨m₁, -, h₁⟩ := h.exists_of_append
  rcases h₁.work_of_driven hc hm' with ⟨ok, rest, hw⟩ | ⟨why, rest, hw⟩
  · exact ⟨none, _, hw, fun _ => ⟨ok, _, rfl⟩⟩
  · exact ⟨some why, _, hw, fun hf => nomatch hf⟩

theorem atRest_moment (d : Drivetrain) : d.moment.phase.AtRest := by
  show d.phase.AtRest
  unfold phase
  split <;> trivial

/-! ## The record -/

theorem events_of_call {r r' : Rig} {caller : Caller} {c : MotorCall} {ok : Bool}
    (h : r.call caller c = (ok, r')) : r'.time.events = r.time.events ++ [.call caller c] := by
  unfold Rig.call Rig.carryOut at h
  split at h <;> cases h <;> rfl

theorem events_of_carryOut {r r' : Rig} {c : MotorCall} {ok : Bool} (h : r.carryOut c = (ok, r')) :
    r'.time.events = r.time.events := by
  unfold Rig.carryOut at h
  split at h <;> cases h <;> rfl

theorem events_of_woke {t t' : Timeline} {n : Int} (h : t.sleep n = .woke t') :
    t'.events = t.events ++ [.sleep n] := by
  unfold Timeline.sleep at h
  split at h
  · cases h
  · dsimp only at h
    split at h <;> cases h <;> rfl

theorem events_of_fault {t t' : Timeline} {n : Int} {why : Timeline.SleepFault}
    (h : t.sleep n = .fault why t') :
    t'.events = t.events ++ (Action.sleepEvent? n (some why)).toList := by
  unfold Timeline.sleep at h
  split at h
  · cases h
    simp [Action.sleepEvent?]
  · dsimp only at h
    split at h <;> cases h <;> rfl

theorem recorded_cons (a : Action) (acts : List Action) :
    recorded (a :: acts) = a.event?.toList ++ recorded acts := by
  rcases h : a.event? with _ | e
  · exact List.filterMap_cons_none h
  · exact List.filterMap_cons_some h

/-- A move adds to the record what its action leaves there; only the beginning of a step takes
away from it. -/
theorem Move.events {m m' : Moment} {a : Action} (h : Move m a m') (ha : a ≠ .begin) :
    m'.drivetrain.rig.time.events = m.drivetrain.rig.time.events ++ a.event?.toList := by
  cases h with
  | begin => exact absurd rfl ha
  | adjust h => exact h.events.trans (List.append_nil _).symm
  | operate h => exact events_of_call h
  | wait _ hs => exact events_of_woke hs
  | waitFault _ hs => exact events_of_fault hs
  | call => rfl
  | answer _ h => exact (events_of_carryOut h).trans (List.append_nil _).symm
  | pause h => exact events_of_woke h
  | pauseFault h => exact events_of_fault h
  | stop h => exact events_of_call h
  | _ => exact (List.append_nil _).symm

theorem Path.events {m m' : Moment} {acts : List Action} (h : Path Move m acts m')
    (hacts : .begin ∉ acts) :
    m'.drivetrain.rig.time.events = m.drivetrain.rig.time.events ++ recorded acts := by
  induction h with
  | nil => exact (List.append_nil _).symm
  | @cons m a _ acts _ h _ ih =>
    rw [ih fun ha => hacts (List.mem_cons_of_mem _ ha), h.events fun ha => hacts (by simp [ha]),
      List.append_assoc, recorded_cons]

end Drivetrain

end RoverControl
