import RoverControl.Proofs.Drivetrain.Order

/-!
# The accounts of the queue

Every command that is accepted waits, is in the hands of the worker, or has been executed, well or
not, or discarded (`Path.pending_perm`).  A moment is `Balanced` if the counts say so, and every
move keeps them balanced (`Balanced.move`), whoever makes it and whatever the worker is doing at
the time.
-/

namespace RoverControl

namespace Drivetrain

/-- The counts of a moment agree with what waits and what the worker has in hand. -/
structure Balanced (m : Moment) : Prop where
  unfinished : m.drivetrain.unfinished = m.drivetrain.depth + m.phase.inHand
  enqueued : m.drivetrain.counts.enqueued =
    m.drivetrain.counts.executed + m.drivetrain.counts.executionFailures +
      m.drivetrain.counts.drained + m.drivetrain.unfinished

theorem balanced_new (maxsize : Nat) (limiter : TokenBucket Float) (rig : Rig) :
    Balanced (new maxsize limiter rig).moment := ⟨rfl, rfl⟩

theorem inHand_afterAnswer (c : Command) (ok : Bool) : (Phase.afterAnswer c ok).inHand = 1 := by
  unfold Phase.afterAnswer
  split <;> rfl

theorem record_executed (d : Drivetrain) (ok : Bool) :
    (d.record ok).counts.executed + (d.record ok).counts.executionFailures =
      d.counts.executed + d.counts.executionFailures + 1 := by
  cases ok <;> simp only [record, Bool.false_eq_true, if_true, if_false] <;> omega

theorem record_enqueued (d : Drivetrain) (ok : Bool) :
    (d.record ok).counts.enqueued = d.counts.enqueued := by cases ok <;> rfl

theorem record_drained (d : Drivetrain) (ok : Bool) :
    (d.record ok).counts.drained = d.counts.drained := by cases ok <;> rfl

/-- No move marks more commands as done than are unfinished: what it marks is exactly what their
number falls by, and what it admits is exactly what it grows by. -/
theorem Balanced.unfinished_add_settled {m m' : Moment} {a : Action} (hm : Balanced m)
    (h : Move m a m') :
    m'.drivetrain.unfinished + a.settled = m.drivetrain.unfinished + a.admitted := by
  obtain ⟨hu, -⟩ := hm
  cases h with
  | adjust h => exact h.unfinished
  -- only these two subtract, and what they subtract is waiting or in hand
  | @discard d p =>
    have hle : d.depth ≤ d.unfinished := hu ▸ Nat.le_add_right _ _
    exact Nat.sub_add_cancel hle
  | @finish d c ok =>
    have hle : 1 ≤ d.unfinished := hu ▸ Nat.le_add_left _ _
    exact Nat.sub_add_cancel hle
  | _ => rfl

/-- Every move keeps the accounts balanced. -/
theorem Balanced.move {m m' : Moment} {a : Action} (h : Move m a m') (hm : Balanced m) :
    Balanced m' := by
  have settled := hm.unfinished_add_settled h
  obtain ⟨hu, he⟩ := hm
  cases h with
  | adjust h =>
    refine ⟨?_, ?_⟩
    · simp only [depth, BoundedQueue.size, h.unfinished, h.items] at hu ⊢
      exact hu
    · rw [h.counts, h.unfinished]
      exact he
  | accept h =>
    have := BoundedQueue.size_of_push h
    refine ⟨?_, ?_⟩ <;> simp only [depth] at hu he ⊢ <;> omega
  | refuse h =>
    refine ⟨?_, he⟩
    simp only [depth, BoundedQueue.size, BoundedQueue.items_of_refused h] at hu ⊢
    exact hu
  | @discard d p =>
    change d.unfinished = d.depth + p.inHand at hu
    change d.clear.unfinished + d.depth = d.unfinished at settled
    refine ⟨?_, ?_⟩
    · show d.clear.unfinished = 0 + p.inHand
      omega
    · show d.counts.enqueued = d.counts.executed + d.counts.executionFailures +
        (d.counts.drained + d.depth) + d.clear.unfinished
      dsimp only at he
      omega
  | take _ h =>
    refine ⟨?_, he⟩
    simp only [depth, BoundedQueue.size, h, List.length_cons, Phase.inHand] at hu ⊢
    omega
  | answer => exact ⟨hu.trans (by rw [inHand_afterAnswer]; rfl), he⟩
  | @finish d c ok =>
    have total := record_executed d ok
    change d.unfinished = d.depth + 1 at hu
    change (d.record ok).unfinished + 1 = d.unfinished at settled
    refine ⟨?_, ?_⟩
    · show (d.record ok).unfinished = d.depth + 0
      omega
    · rw [record_enqueued, record_drained]
      dsimp only at he ⊢
      omega
  | _ => exact ⟨hu, he⟩

/-- The idle test tells whether nothing waits and the worker has nothing in hand. -/
theorem Balanced.isIdle_iff {m : Moment} (h : Balanced m) :
    m.drivetrain.isIdle = true ↔ m.drivetrain.depth = 0 ∧ m.phase = .free := by
  have hp : m.phase.inHand = 0 ↔ m.phase = .free := by
    cases m.phase <;> simp [Phase.inHand]
  rw [isIdle, beq_iff_eq, h.unfinished, Nat.add_eq_zero_iff, hp]

/-- A move that keeps exact accounts, between moments at which the idle test is right. -/
structure AccountedMove (m : Moment) (a : Action) (m' : Moment) : Prop where
  move : Move m a m'
  balanced : Balanced m'
  unfinished_add_settled :
    m'.drivetrain.unfinished + a.settled = m.drivetrain.unfinished + a.admitted
  isIdle_iff : m'.drivetrain.isIdle = true ↔ m'.drivetrain.depth = 0 ∧ m'.phase = .free

theorem Balanced.accountedPath {m m' : Moment} {acts : List Action} (hm : Balanced m)
    (h : Path Move m acts m') : Path AccountedMove m acts m' := by
  refine h.strengthen (I := Balanced) (fun h hm => hm.move h) (fun h hm => ?_) hm
  exact ⟨h, hm.move h, hm.unfinished_add_settled h, (hm.move h).isIdle_iff⟩

/-! ## Command by command -/

/-- The commands that an action is the end of. -/
def Action.ended : Action → List Command
  | discard cs => cs
  | finish c _ => [c]
  | _ => []

/-- The commands that wait or are in hand. -/
def Moment.pending (m : Moment) : List Command :=
  m.phase.command?.toList ++ m.drivetrain.backlog.items

/-- A move ends commands that are pending, and those that it leaves pending were so before or have
been accepted. -/
theorem Move.pending_perm {m m' : Moment} {a : Action} (h : Move m a m') :
    (a.ended ++ m'.pending).Perm (m.pending ++ accepted [a]) := by
  cases h with
  | adjust h => simp [Moment.pending, Action.ended, accepted, h.items]
  | accept h => simp [Moment.pending, Action.ended, accepted, BoundedQueue.items_of_push h]
  | refuse h => simp [Moment.pending, Action.ended, accepted, BoundedQueue.items_of_refused h]
  | @discard d p =>
    show (d.backlog.items ++ (p.command?.toList ++ [])).Perm
      (p.command?.toList ++ d.backlog.items ++ [])
    rw [List.append_nil, List.append_nil]
    exact List.perm_append_comm
  | take _ h => simp [Moment.pending, Action.ended, accepted, Phase.command?, h]
  | answer =>
    rw [Moment.pending, command?_afterAnswer]
    simp [Moment.pending, Action.ended, accepted, Phase.command?]
  | _ =>
    simp [Moment.pending, Action.ended, accepted, Phase.command?, mapRig, resume, atTime, record]

/-- Every command that was pending or accepted has been ended once, or is pending still. -/
theorem Path.pending_perm {m m' : Moment} {acts : List Action} (h : Path Move m acts m') :
    (acts.flatMap Action.ended ++ m'.pending).Perm (m.pending ++ accepted acts) := by
  induction h with
  | @nil m => simp [accepted]
  | @cons m a m' acts m'' h _ ih =>
    rw [List.flatMap_cons, List.append_assoc, accepted_cons, ← List.append_assoc m.pending]
    refine (ih.append_left a.ended).trans ?_
    rw [← List.append_assoc]
    exact h.pending_perm.append_right _

/-! ## Runs -/

theorem Unfolds.balanced {m m' : Moment} {ops : List Action} (h : Unfolds m ops m')
    (hm : Balanced m) : Balanced m' := by
  obtain ⟨acts, hp, -⟩ := h
  exact hp.keeps (fun h hm => hm.move h) hm

theorem balanced_run (maxsize : Nat) (limiter : TokenBucket Float) (rig : Rig) (steps : List Step) :
    Balanced ((new maxsize limiter rig).run steps).moment :=
  (run_unfolds _ steps).balanced (balanced_new maxsize limiter rig)

theorem stop_empty (d : Drivetrain) : d.stop.depth = 0 ∧ d.stop.worker = .absent := ⟨rfl, rfl⟩

/-- Ending the worker leaves nothing unfinished. -/
theorem Balanced.stop {d : Drivetrain} (hd : Balanced d.moment) :
    (d.step .stop).2.unfinished = 0 := by
  have hb := (step_unfolds d .stop).balanced hd
  obtain ⟨hdepth, hworker⟩ := stop_empty d.begun
  change (d.step .stop).2.depth = 0 at hdepth
  change (d.step .stop).2.worker = .absent at hworker
  have hphase : (d.step .stop).2.phase = .free := by rw [phase, hworker]
  calc (d.step .stop).2.unfinished
      = (d.step .stop).2.depth + (d.step .stop).2.phase.inHand := hb.unfinished
    _ = 0 := by rw [hdepth, hphase]; rfl

/-- After every step of every run the commands are accounted for: those that are unfinished wait or
are in hand, those that were accepted are executed, well or not, discarded or unfinished, and the
idle test is right.  The run is a path on which every accepted command is ended once or still
pending, and nothing is ever marked as done that is not unfinished; the latter is so whatever
operators and the worker may do in whatever order.  After the worker is ended there is none, and
nothing waits or is unfinished. -/
theorem commands_accounted (maxsize : Nat) (limiter : TokenBucket Float) (rig : Rig)
    (steps : List Step) :
    let start := new maxsize limiter rig
    let d := start.run steps
    (d.unfinished = d.depth + d.phase.inHand ∧
      d.counts.enqueued = d.counts.executed + d.counts.executionFailures + d.counts.drained +
        d.unfinished ∧
      (d.isIdle = true ↔ d.depth = 0 ∧ d.phase = .free)) ∧
    ((∃ acts, Path AccountedMove start.moment acts d.moment ∧
        operations acts = start.runActions steps ∧
        (acts.flatMap Action.ended ++ d.moment.pending).Perm (accepted acts)) ∧
      ∀ acts m, Path Move start.moment acts m → Path AccountedMove start.moment acts m) ∧
    let stopped := (d.step .stop).2
    stopped.depth = 0 ∧ stopped.unfinished = 0 ∧ stopped.worker = .absent := by
  intro start d
  have hstart : Balanced start.moment := balanced_new maxsize limiter rig
  have hd : Balanced d.moment := balanced_run maxsize limiter rig steps
  refine ⟨⟨hd.unfinished, hd.enqueued, hd.isIdle_iff⟩,
    ⟨?_, fun acts m hp => hstart.accountedPath hp⟩, ?_⟩
  · obtain ⟨acts, hp, hops⟩ := run_unfolds start steps
    exact ⟨acts, hstart.accountedPath hp, hops, hp.pending_perm⟩
  · obtain ⟨hdepth, hworker⟩ := stop_empty d.begun
    exact ⟨hdepth, hd.stop, hworker⟩

end Drivetrain

end RoverControl
