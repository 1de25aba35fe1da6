import RoverControl.Proofs.Drivetrain.Unfold

/-!
# The backlog

The queue of a drivetrain changes in turns, which are taken one at a time: a command is offered to
it, the worker takes the oldest one, those that wait are cleared, or their number is bounded anew
(`Does`).  A `Course` strings turns together, with anything in between that leaves the queue alone,
so that it may be any order in which operators and the worker come to act.  On every course the
commands that arrived are those that have left, in order, and then those that wait
(`Course.accounted`), and a command is let in exactly if fewer wait than the bound in force says
(`Course.withinBound`).  The steps of a drivetrain are courses, too (`run_courses`).
-/

namespace RoverControl

namespace Drivetrain

/-! ## Offering a command -/

/-- What is done at once with a command that is offered, before the worker gets to act. -/
def receive (d : Drivetrain) (c : Command) : Option Nat × Drivetrain :=
  match d.backlog.push c with
  | (false, backlog) =>
    (none, { d with
      backlog
      counts := { d.counts with rejectedFull := d.counts.rejectedFull + 1 } })
  | (true, backlog) =>
    (some backlog.size, { d with
      backlog
      unfinished := d.unfinished + 1
      counts := { d.counts with enqueued := d.counts.enqueued + 1 } })

/-- A drivetrain that has let a command in. -/
def letIn (d : Drivetrain) (c : Command) : Drivetrain := { d with
  backlog := { d.backlog with items := d.backlog.items ++ [c] }
  unfinished := d.unfinished + 1
  counts := { d.counts with enqueued := d.counts.enqueued + 1 } }

/-- A drivetrain that has turned a command away: two counts of refusals are all that changes. -/
def turnAway (d : Drivetrain) : Drivetrain := { d with
  backlog := { d.backlog with rejected := d.backlog.rejected + 1 }
  counts := { d.counts with rejectedFull := d.counts.rejectedFull + 1 } }

theorem receive_of_lt {d : Drivetrain} (h : d.depth < d.backlog.capacity) (c : Command) :
    d.receive c = (some (d.depth + 1), d.letIn c) := by
  unfold receive
  rw [BoundedQueue.push_of_lt h]
  simp only [BoundedQueue.size, List.length_append, List.length_singleton]
  rfl

theorem receive_of_le {d : Drivetrain} (h : d.backlog.capacity ≤ d.depth) (c : Command) :
    d.receive c = (none, d.turnAway) := by
  unfold receive
  rw [BoundedQueue.push_of_le h]
  rfl

/-- Queueing a command is offering it, after which the worker does what it can. -/
theorem enqueue_eq (d : Drivetrain) (c : Command) :
    d.enqueue c = match d.receive c with
      | (none, d) => (none, d)
      | (some depth, d) => (some depth, d.settle) := by
  rcases h : d.backlog.push c with ⟨_ | _, backlog⟩ <;> simp only [enqueue, receive, h]

theorem enqueue_of_lt {d : Drivetrain} (h : d.depth < d.backlog.capacity) (c : Command) :
    d.enqueue c = (some (d.depth + 1), (d.letIn c).settle) := by
  rw [enqueue_eq, receive_of_lt h]

theorem enqueue_of_le {d : Drivetrain} (h : d.backlog.capacity ≤ d.depth) (c : Command) :
    d.enqueue c = (none, d.turnAway) := by
  rw [enqueue_eq, receive_of_le h]

/-! ## Turns -/

/-- What is done to the queue at once. -/
inductive Turn where
  /-- A command is offered; the answer is the number that wait then, or nothing. -/
  | offer (c : Command) (answer : Option Nat)
  /-- The worker takes a command. -/
  | take (c : Command)
  /-- The commands that wait are discarded. -/
  | clear (cs : List Command)
  /-- The queue is to hold at most so many commands. -/
  | setMaxsize (maxsize : Nat)

namespace Turn

/-- The commands that a turn brings in. -/
def arrivals : Turn → List Command
  | offer c (some _) => [c]
  | _ => []

/-- The commands that leave in a turn, the oldest one first. -/
def departures : Turn → List Command
  | take c => [c]
  | clear cs => cs
  | _ => []

/-- Whether a command is turned away in a turn. -/
def isRefusal : Turn → Bool
  | offer _ none => true
  | _ => false

/-- The bound in force after a turn; a bound of zero is refused. -/
def bound (maxsize : Nat) : Turn → Nat
  | setMaxsize n => if n = 0 then maxsize else n
  | _ => maxsize

/-- Whether a turn is one of the worker. -/
def isWorkers : Turn → Bool
  | take _ => true
  | _ => false

end Turn

/-- What a turn does. -/
inductive Does : Drivetrain → Turn → Drivetrain → Prop where
  | offer {d c answer d'} (h : d.receive c = (answer, d')) : Does d (.offer c answer) d'
  | take {d c backlog} (h : d.backlog.pop = some (c, backlog)) : Does d (.take c) { d with backlog }
  | clear {d} : Does d (.clear d.backlog.items) d.clear
  | setMaxsize {d maxsize} : Does d (.setMaxsize maxsize) ((d.setMaxsize maxsize).getD d)

/-- A drivetrain with the queue of another one, which has turned away as many commands. -/
structure SameQueue (d d' : Drivetrain) : Prop where
  backlog : d'.backlog = d.backlog
  rejectedFull : d'.counts.rejectedFull = d.counts.rejectedFull

/-- A course leads from one drivetrain to another by turns in order. -/
inductive Course : Drivetrain → List Turn → Drivetrain → Prop where
  | nil {d} : Course d [] d
  | turn {d t d' ts d''} (h : Does d t d') (rest : Course d' ts d'') : Course d (t :: ts) d''
  | aside {d d' ts d''} (h : SameQueue d d') (rest : Course d' ts d'') : Course d ts d''

/-! ## What a course comes to -/

variable {d d' d'' : Drivetrain} {t : Turn} {ts ts' : List Turn}

/-- The commands that arrive in a sequence of turns. -/
def arrivals (ts : List Turn) : List Command := ts.flatMap Turn.arrivals

/-- The commands that leave in a sequence of turns, in order. -/
def departures (ts : List Turn) : List Command := ts.flatMap Turn.departures

/-- The number of commands that are turned away. -/
def refusals (ts : List Turn) : Nat := ts.countP Turn.isRefusal

/-- The bound in force after a sequence of turns. -/
def boundAfter (maxsize : Nat) (ts : List Turn) : Nat := ts.foldl Turn.bound maxsize

/-- Commands leave in the order in which they arrived, those that have not left wait, and bound and
refusals are as the turns tell. -/
structure Accounted (d : Drivetrain) (ts : List Turn) (d' : Drivetrain) : Prop where
  items : d.backlog.items ++ arrivals ts = departures ts ++ d'.backlog.items
  capacity : d'.backlog.capacity = boundAfter d.backlog.capacity ts
  rejected : d'.backlog.rejected = d.backlog.rejected + refusals ts
  rejectedFull : d'.counts.rejectedFull = d.counts.rejectedFull + refusals ts

theorem SameQueue.accounted (h : SameQueue d d') : Accounted d [] d' where
  items := by rw [h.backlog]; exact List.append_nil _
  capacity := congrArg _ h.backlog
  rejected := congrArg _ h.backlog
  rejectedFull := h.rejectedFull

theorem arrivals_append (ts ts' : List Turn) :
    arrivals (ts ++ ts') = arrivals ts ++ arrivals ts' := List.flatMap_append

theorem departures_append (ts ts' : List Turn) :
    departures (ts ++ ts') = departures ts ++ departures ts' := List.flatMap_append

theorem refusals_append (ts ts' : List Turn) :
    refusals (ts ++ ts') = refusals ts + refusals ts' := List.countP_append

theorem Accounted.trans (h : Accounted d ts d') (h' : Accounted d' ts' d'') :
    Accounted d (ts ++ ts') d'' where
  items :=
    calc d.backlog.items ++ arrivals (ts ++ ts')
        = d.backlog.items ++ arrivals ts ++ arrivals ts' := by
          rw [arrivals_append, List.append_assoc]
      _ = departures ts ++ (d'.backlog.items ++ arrivals ts') := by rw [h.items, List.append_assoc]
      _ = departures (ts ++ ts') ++ d''.backlog.items := by
          rw [h'.items, departures_append, List.append_assoc]
  capacity := by rw [h'.capacity, h.capacity, boundAfter, boundAfter, boundAfter, List.foldl_append]
  rejected := by rw [h'.rejected, h.rejected, refusals_append, Nat.add_assoc]
  rejectedFull := by rw [h'.rejectedFull, h.rejectedFull, refusals_append, Nat.add_assoc]

/-- A command that is offered is let in exactly if there is room. -/
theorem receive_cases (d : Drivetrain) (c : Command) :
    (d.depth < d.backlog.capacity ∧ d.receive c = (some (d.depth + 1), d.letIn c)) ∨
      (d.backlog.capacity ≤ d.depth ∧ d.receive c = (none, d.turnAway)) := by
  rcases Nat.lt_or_ge d.depth d.backlog.capacity with h | h
  · exact Or.inl ⟨h, receive_of_lt h c⟩
  · exact Or.inr ⟨h, receive_of_le h c⟩

theorem setMaxsize_of_ne {maxsize : Nat} (h : maxsize ≠ 0) (d : Drivetrain) :
    d.setMaxsize maxsize = some { d with backlog := { d.backlog with capacity := maxsize } } :=
  if_neg h

theorem Does.accounted (h : Does d t d') : Accounted d [t] d' := by
  cases h with
  | @offer c _ _ h =>
    rcases d.receive_cases c with ⟨-, ha⟩ | ⟨-, ha⟩
    · cases h.symm.trans ha
      exact ⟨rfl, rfl, rfl, rfl⟩
    · cases h.symm.trans ha
      exact ⟨List.append_nil _, rfl, rfl, rfl⟩
  | take h =>
    obtain ⟨rest, hitems, rfl⟩ := BoundedQueue.exists_cons_of_pop h
    exact ⟨by rw [hitems]; exact List.append_nil _, rfl, rfl, rfl⟩
  | clear =>
    exact ⟨(List.append_nil (d.backlog.items ++ [])).symm, rfl, rfl, rfl⟩
  | @setMaxsize maxsize =>
    by_cases hm : maxsize = 0
    · subst hm
      exact ⟨List.append_nil _, rfl, rfl, rfl⟩
    · rw [setMaxsize_of_ne hm]
      exact ⟨List.append_nil _, (if_neg hm).symm, rfl, rfl⟩

theorem Course.accounted (h : Course d ts d') : Accounted d ts d' := by
  induction h with
  | nil => exact SameQueue.accounted ⟨rfl, rfl⟩
  | turn h _ ih => exact h.accounted.trans ih
  | aside h _ ih => exact h.accounted.trans ih

/-! ## What is answered on a course -/

theorem Does.isSome_answer_iff {c : Command} {answer : Option Nat}
    (h : Does d (.offer c answer) d') :
    (answer.isSome = true ↔ d.depth < d.backlog.capacity) ∧
      ∀ n ∈ answer, n = d.depth + 1 ∧ n ≤ d.backlog.capacity := by
  cases h with
  | offer h =>
    rcases d.receive_cases c with ⟨hlt, ha⟩ | ⟨hle, ha⟩
    · cases h.symm.trans ha
      refine ⟨by simp [hlt], fun n hn => ?_⟩
      cases hn
      exact ⟨rfl, hlt⟩
    · cases h.symm.trans ha
      simp [hle]

/-- A course can be stopped at any of its turns. -/
theorem Course.exists_does (h : Course d (ts ++ t :: ts') d'') :
    ∃ d₁ d₂, Course d ts d₁ ∧ Does d₁ t d₂ := by
  generalize hts : ts ++ t :: ts' = turns at h
  induction h generalizing ts with
  | nil => simp at hts
  | @turn d u d' turns d'' h rest ih =>
    rcases ts with _ | ⟨u', ts⟩
    · cases hts
      exact ⟨d, d', .nil, h⟩
    · cases hts
      obtain ⟨d₁, d₂, hts, ht⟩ := ih rfl
      exact ⟨d₁, d₂, .turn h hts, ht⟩
  | aside h _ ih =>
    obtain ⟨d₁, d₂, hts, ht⟩ := ih hts
    exact ⟨d₁, d₂, .aside h hts, ht⟩

/-- Every command that is offered is let in exactly if fewer commands wait at the time than the
bound in force says, and is answered with the number that wait then. -/
def WithinBound (maxsize : Nat) (turns : List Turn) : Prop :=
  ∀ {pre c answer post}, turns = pre ++ .offer c answer :: post →
    let waiting := (arrivals pre).length - (departures pre).length
    (answer.isSome = true ↔ waiting < boundAfter maxsize pre) ∧
      ∀ n ∈ answer, n = waiting + 1 ∧ n ≤ boundAfter maxsize pre

theorem Course.withinBound (h : Course d ts d') (hd : d.backlog.items = []) :
    WithinBound d.backlog.capacity ts := by
  rintro pre c answer post rfl
  obtain ⟨d₁, d₂, hpre, hoffer⟩ := h.exists_does
  have hitems := hpre.accounted.items
  rw [hd, List.nil_append] at hitems
  have hdepth : (arrivals pre).length - (departures pre).length = d₁.depth := by
    rw [hitems, List.length_append, Nat.add_sub_cancel_left]
    rfl
  rw [hdepth, ← hpre.accounted.capacity]
  exact hoffer.isSome_answer_iff

/-! ## Operations as courses -/

/-- The turns that are not the worker's. -/
def operatorTurns (ts : List Turn) : List Turn := ts.filter (!·.isWorkers)

/-- A course leads from one drivetrain to another on which the turns of operators are `ops`. -/
def Courses (d : Drivetrain) (ops : List Turn) (d' : Drivetrain) : Prop :=
  ∃ ts, Course d ts d' ∧ operatorTurns ts = ops

theorem Course.append (h : Course d ts d') (h' : Course d' ts' d'') :
    Course d (ts ++ ts') d'' := by
  induction h with
  | nil => exact h'
  | turn h _ ih => exact .turn h (ih h')
  | aside h _ ih => exact .aside h (ih h')

namespace Courses

variable {ops ops' : List Turn}

theorem refl (d : Drivetrain) : Courses d [] d := ⟨[], .nil, rfl⟩

theorem trans (h : Courses d ops d') (h' : Courses d' ops' d'') : Courses d (ops ++ ops') d'' := by
  obtain ⟨ts, hts, rfl⟩ := h
  obtain ⟨ts', hts', rfl⟩ := h'
  exact ⟨ts ++ ts', hts.append hts', List.filter_append ..⟩

theorem of_operator (h : Does d t d') (ht : t.isWorkers = false) : Courses d [t] d' :=
  ⟨[t], .turn h .nil, by simp [operatorTurns, ht]⟩

theorem of_worker (h : Does d t d') (ht : t.isWorkers = true) : Courses d [] d' :=
  ⟨[t], .turn h .nil, by simp [operatorTurns, ht]⟩

theorem of_same (h : SameQueue d d') : Courses d [] d' := ⟨[], .aside h .nil, rfl⟩

theorem then_work (h : Courses d ops d') (h' : Courses d' [] d'') : Courses d ops d'' := by
  simpa using h.trans h'

theorem after_same (h : SameQueue d d') (h' : Courses d' ops d'') : Courses d ops d'' :=
  (of_same h).trans h'

end Courses

theorem sameQueue_finish (d : Drivetrain) (c : Command) : SameQueue d (d.finish c) := by
  unfold finish record
  refine ⟨rfl, ?_⟩
  dsimp only
  split <;> rfl

/-- A drive call that is held is let pass, and its command is finished. -/
theorem sameQueue_letPass (d : Drivetrain) (c : Command) :
    SameQueue d ((d.mapRig ({ · with held := false })).finish c) :=
  have finish := sameQueue_finish (d.mapRig ({ · with held := false })) c
  ⟨finish.backlog, finish.rejectedFull⟩

theorem sameQueue_execute (d : Drivetrain) (c : Command) : SameQueue d (d.execute c) := by
  refine ⟨d.execute_backlog c, ?_⟩
  unfold execute
  dsimp only
  split
  · rfl
  · split
    · rfl
    · exact (sameQueue_finish _ c).rejectedFull

theorem executeAll_courses {cs : List Command} (h : d.backlog.items = cs) :
    Courses d [] (d.executeAll cs) := by
  induction cs generalizing d with
  | nil => exact .refl d
  | cons c rest ih =>
    rw [executeAll]
    have take := Courses.of_worker (.take (BoundedQueue.pop_of_cons h)) rfl
    have execute := take.then_work (.of_same (sameQueue_execute _ c))
    dsimp only
    split
    · refine execute.trans (ih ?_)
      rw [execute_backlog]
    · exact execute

theorem settle_courses (d : Drivetrain) : Courses d [] d.settle := by
  unfold settle
  split
  · exact executeAll_courses rfl
  · exact .refl d

theorem enqueue_courses (d : Drivetrain) (c : Command) :
    Courses d [.offer c (d.enqueue c).1] (d.enqueue c).2 := by
  rw [enqueue_eq]
  rcases h : d.receive c with ⟨_ | depth, d'⟩
  · exact .of_operator (.offer h) rfl
  · exact (Courses.of_operator (.offer h) rfl).then_work (settle_courses d')

theorem start_courses (d : Drivetrain) (fails : Bool) : Courses d [] (d.start fails).2 := by
  unfold start
  split
  · split
    · exact .refl d
    · have engage : SameQueue d { d with worker := .idle } := ⟨rfl, rfl⟩
      exact .after_same engage (settle_courses _)
  · exact .refl d

theorem stop_courses (d : Drivetrain) : Courses d [.clear d.backlog.items] d.stop := by
  -- without a worker the queue is still as it was, and is cleared next
  have dismissed (d' : Drivetrain) (h : SameQueue d d') :
      Courses d [.clear d.backlog.items] { d' with worker := .absent }.clear := by
    rw [← h.backlog]
    have dismiss : SameQueue d { d' with worker := .absent } := ⟨h.backlog, h.rejectedFull⟩
    exact .after_same dismiss (.of_operator .clear rfl)
  unfold stop
  rcases d.worker with _ | _ | c
  · exact dismissed d ⟨rfl, rfl⟩
  · exact dismissed d ⟨rfl, rfl⟩
  · exact dismissed _ (sameQueue_letPass d c)

theorem release_courses (d : Drivetrain) : Courses d [] d.release := by
  unfold release
  dsimp only
  split
  · rename_i c _
    exact .after_same (sameQueue_letPass d c) (settle_courses _)
  · exact .of_same ⟨rfl, rfl⟩

/-- The turns that an operator takes in a step. -/
def turns (d : Drivetrain) : Step → List Turn
  | .enqueue c => [.offer c (d.enqueue c).1]
  | .clear | .stop => [.clear d.backlog.items]
  | .setMaxsize maxsize => [.setMaxsize maxsize]
  | .configure _ | .start _ | .operate _ | .hold | .release | .fail _ | .time _ => []

theorem orRefuse_snd (d : Drivetrain) (d? : Option Drivetrain) : (d.orRefuse d?).2 = d?.getD d := by
  cases d? <;> rfl

theorem act_courses (d : Drivetrain) (step : Step) : Courses d (d.turns step) (d.act step).2 := by
  cases step with
  | enqueue c =>
    have h := enqueue_courses d c
    rcases he : d.enqueue c with ⟨_ | depth, d'⟩ <;> simp only [act, turns, he] at h ⊢ <;> exact h
  | clear => exact .of_operator .clear rfl
  | setMaxsize maxsize =>
    rw [act, orRefuse_snd]
    exact .of_operator .setMaxsize rfl
  | configure limit =>
    rw [act, orRefuse_snd, configure]
    cases d.limiter.configure limit <;> exact .of_same ⟨rfl, rfl⟩
  | start fails => exact start_courses d fails
  | stop => exact stop_courses d
  | release => exact release_courses d
  | operate | hold | fail | time => exact .of_same ⟨rfl, rfl⟩

/-- The turns that operators take in a run. -/
def runTurns (d : Drivetrain) : List Step → List Turn
  | [] => []
  | step :: rest => d.begun.turns step ++ (d.step step).2.runTurns rest

theorem run_courses (d : Drivetrain) (steps : List Step) :
    Courses d (d.runTurns steps) (d.run steps) := by
  induction steps generalizing d with
  | nil => exact .refl d
  | cons step rest ih =>
    have begin : SameQueue d d.begun := ⟨rfl, rfl⟩
    have step := Courses.after_same begin (act_courses d.begun step)
    exact step.trans (ih _)

/-! ## The law of the backlog -/

/-- Whatever operators and the worker do in whatever order, a command that is offered is let in
exactly if fewer commands wait than the bound in force says, and is answered with the number that
wait then; and the commands let in are, in order, those that have left the queue and then those
that wait.  Every run is such a course.  Of a command that is turned away nothing is left but two
counts, a bound of zero is refused without effect, and any other one changes nothing but the bound,
however many commands wait. -/
theorem backlog_bounded_in_order (maxsize : Nat) (limiter : TokenBucket Float) (rig : Rig) :
    let start := new maxsize limiter rig
    (∀ turns d, Course start turns d →
      WithinBound maxsize turns ∧ arrivals turns = departures turns ++ d.backlog.items ∧
        d.backlog.capacity = boundAfter maxsize turns ∧
        d.backlog.rejected = refusals turns ∧ d.counts.rejectedFull = refusals turns) ∧
    (∀ steps, ∃ turns, Course start turns (start.run steps) ∧
      operatorTurns turns = start.runTurns steps) ∧
    ∀ d : Drivetrain,
      (∀ c, d.depth < d.backlog.capacity →
        (d.step (.enqueue c)).1 = .accepted (d.depth + 1)) ∧
      (∀ c, d.backlog.capacity ≤ d.depth →
        d.step (.enqueue c) = (.queueFull, d.begun.turnAway)) ∧
      d.step (.setMaxsize 0) = (.flag false, d.begun) ∧
      ∀ n, n ≠ 0 → d.step (.setMaxsize n) =
        (.flag true, { d.begun with backlog := { d.backlog with capacity := n } }) := by
  intro start
  refine ⟨fun turns d h => ?_, start.run_courses, fun d => ⟨fun c h => ?_, fun c h => ?_, rfl, ?_⟩⟩
  · have accounted := h.accounted
    refine ⟨h.withinBound rfl, accounted.items, accounted.capacity, ?_, ?_⟩
    · rw [accounted.rejected]
      exact Nat.zero_add _
    · rw [accounted.rejectedFull]
      exact Nat.zero_add _
  · show (d.begun.act (.enqueue c)).1 = _
    rw [act, enqueue_of_lt (d := d.begun) h]
    rfl
  · show d.begun.act (.enqueue c) = _
    rw [act, enqueue_of_le (d := d.begun) h]
  · intro n hn
    show d.begun.act (.setMaxsize n) = _
    rw [act, setMaxsize_of_ne hn]
    rfl

end Drivetrain

end RoverControl
