import RoverControl.Proofs.Drivetrain.Move

/-!
# Operations as paths

`Unfolds m ops m'` says that a path leads from `m` to `m'` on which the operators do `ops`, and
the worker does whatever it does.  Every operation on a drivetrain unfolds in this sense, with the
actions of its operator told in full; so does every step, which begins with `Action.begin`
(`step_unfolds`), and every run (`run_unfolds`).
-/

namespace RoverControl

namespace Drivetrain

theorem mem_operations {acts : List Action} {a : Action} (h : a ∈ acts) (ha : a.isWorkers = false) :
    a ∈ operations acts := List.mem_filter.2 ⟨h, by simp [ha]⟩

/-- A path leads from one moment to another on which the operators do `ops`. -/
def Unfolds (m : Moment) (ops : List Action) (m' : Moment) : Prop :=
  ∃ acts, Path Move m acts m' ∧ operations acts = ops

namespace Unfolds

variable {m m' m'' : Moment} {a : Action} {ops ops' : List Action}

theorem refl : Unfolds m [] m := ⟨[], .nil, rfl⟩

theorem trans (h : Unfolds m ops m') (h' : Unfolds m' ops' m'') : Unfolds m (ops ++ ops') m'' := by
  obtain ⟨acts, hp, rfl⟩ := h
  obtain ⟨acts', hp', rfl⟩ := h'
  exact ⟨acts ++ acts', hp.append hp', by simp [operations]⟩

theorem then_work (h : Unfolds m ops m') (h' : Unfolds m' [] m'') : Unfolds m ops m'' := by
  simpa using h.trans h'

theorem of_move (h : Move m a m') (ha : a.isWorkers = false) : Unfolds m [a] m' :=
  ⟨[a], .single h, by simp [operations, ha]⟩

theorem of_work (h : Move m a m') (ha : a.isWorkers = true) : Unfolds m [] m' :=
  ⟨[a], .single h, by simp [operations, ha]⟩

/-- What every action but one of the operators keeps holds if they do not do that one. -/
theorem keeps_of_notMem {I : Moment → Prop} {bad : Action}
    (hI : ∀ {m a m'}, Move m a m' → a ≠ bad → I m → I m') (hbad : bad.isWorkers = false)
    (h : Unfolds m ops m') (hops : bad ∉ ops) (hm : I m) : I m' := by
  obtain ⟨acts, hp, rfl⟩ := h
  exact hp.keeps_of_notMem hI (fun hacts => hops (mem_operations hacts hbad)) hm

end Unfolds

theorem moment_eq_of_ne_driving {d : Drivetrain} (h : ∀ c, d.worker ≠ .driving c) :
    d.moment = ⟨d, .free⟩ := by
  rcases hw : d.worker with _ | _ | c
  · simp [moment, phase, hw]
  · simp [moment, phase, hw]
  · exact absurd hw (h c)

theorem moment_of_idle {d : Drivetrain} (h : d.worker = .idle) : d.moment = ⟨d, .free⟩ :=
  moment_eq_of_ne_driving (by simp [h])

theorem moment_of_driving {d : Drivetrain} {c : Command} (h : d.worker = .driving c) :
    d.moment = ⟨d, .calling c⟩ := by
  simp [moment, phase, h]

theorem moment_eq_of_worker {d d' : Drivetrain} (h : d'.worker = d.worker) :
    d'.moment = ⟨d', d.phase⟩ := by
  simp [moment, phase, h]

/-! ## The worker -/

/-- The worker sleeps until it has a token and makes its drive call, or a sleep ends badly. -/
theorem await_unfolds (d : Drivetrain) (c : Command) (b : TokenBucket Float) (t : Timeline) :
    Unfolds ⟨d.resume b t, .waiting c⟩ []
      (match (b.await t).fault with
      | none =>
        ⟨(d.resume (b.await t).bucket (b.await t).time).mapRig (·.note .worker c.driveCall),
          .calling c⟩
      | some _ => ⟨d.resume (b.await t).bucket (b.await t).time, .ending c false⟩) := by
  fun_induction TokenBucket.await b t with
  | case1 b t b' h => exact .of_work (.call (d := d.resume b t) h) rfl
  | case2 b t n b' h t' hs ih =>
    exact (Unfolds.of_work (.wait (d := d.resume b t) h hs) rfl).trans ih
  | case3 b t n b' h why t' hs => exact .of_work (.waitFault (d := d.resume b t) h hs) rfl

/-- Once the gate is open, the worker finishes the command whose drive call is on record. -/
theorem finish_unfolds {d : Drivetrain} (c : Command) (h : d.rig.held = false) :
    Unfolds ⟨d, .calling c⟩ [] (d.finish c).moment := by
  rw [moment_of_idle (d := d.finish c) rfl]
  rcases ha : d.rig.carryOut c.driveCall with ⟨_ | _, rig⟩
  · have answer := Unfolds.of_work (.answer h ha) rfl
    refine answer.then_work ?_
    simp only [finish, Rig.finish, ha]
    exact .of_work .finish rfl
  · have answer := Unfolds.of_work (.answer h ha) rfl
    refine answer.then_work ?_
    rcases hd : c.duration with _ | seconds
    · simp only [finish, Rig.finish, ha, hd, Phase.afterAnswer]
      exact .of_work .finish rfl
    · rcases hs : rig.time.sleep (Quantity.sleepTime seconds) with time | ⟨why, time⟩
      · simp only [finish, Rig.finish, ha, hd, hs, Phase.afterAnswer]
        have pause := Unfolds.of_work
          (.pause (d := { d with rig, worker := .idle }) (c := c) hs) rfl
        exact (pause.trans (.of_work (.stop rfl) rfl)).trans (.of_work .finish rfl)
      · simp only [finish, Rig.finish, ha, hd, hs, Phase.afterAnswer]
        have pause := Unfolds.of_work
          (.pauseFault (d := { d with rig, worker := .idle }) (c := c) hs) rfl
        exact pause.trans (.of_work .finish rfl)

theorem execute_unfolds {d : Drivetrain} (c : Command) (h : d.worker = .idle) :
    Unfolds ⟨d, .waiting c⟩ [] (d.execute c).moment := by
  have await := await_unfolds d c d.limiter d.rig.time
  unfold execute
  rcases hf : (d.limiter.await d.rig.time).fault with _ | why
  · simp only [hf] at await ⊢
    refine await.trans ?_
    split
    · rename_i hh
      exact .of_work (.block hh) rfl
    · rename_i hh
      exact finish_unfolds c (eq_false_of_ne_true hh)
  · simp only [hf] at await ⊢
    refine await.trans ?_
    rw [moment_of_idle (by exact h)]
    exact .of_work .finish rfl

theorem execute_backlog (d : Drivetrain) (c : Command) : (d.execute c).backlog = d.backlog := by
  unfold execute
  dsimp only
  split
  · rfl
  · split <;> rfl

theorem executeAll_unfolds {d : Drivetrain} {cs : List Command} (h : d.worker = .idle)
    (hcs : d.backlog.items = cs) : Unfolds d.moment [] (d.executeAll cs).moment := by
  induction cs generalizing d with
  | nil => exact .refl
  | cons c rest ih =>
    rw [moment_of_idle h, executeAll]
    refine (Unfolds.of_work (.take h hcs) rfl).trans ?_
    refine (execute_unfolds c (by exact h)).trans ?_
    split
    · rename_i hw
      exact ih hw (by rw [execute_backlog])
    · exact .refl

theorem settle_unfolds (d : Drivetrain) : Unfolds d.moment [] d.settle.moment := by
  unfold settle
  split
  · rename_i h
    exact executeAll_unfolds h rfl
  · exact .refl

/-! ## Adjustments -/

theorem Alike.refl (d : Drivetrain) : d.Alike d := ⟨rfl, rfl, rfl, rfl, rfl, rfl, rfl, rfl, rfl⟩

theorem Alike.trans {d d' d'' : Drivetrain} (h : d.Alike d') (h' : d'.Alike d'') : d.Alike d'' where
  items := h'.items.trans h.items
  unfinished := h'.unfinished.trans h.unfinished
  counts := h'.counts.trans h.counts
  worker := h'.worker.trans h.worker
  admits := h'.admits.trans h.admits
  drops := h'.drops.trans h.drops
  waits := h'.waits.trans h.waits
  motors := h'.motors.trans h.motors
  events := h'.events.trans h.events

/-- The rig may change in anything but its motors and its record. -/
theorem alike_mapRig (d : Drivetrain) (f : Rig → Rig) (hm : (f d.rig).motors = d.rig.motors)
    (he : (f d.rig).time.events = d.rig.time.events) : d.Alike (d.mapRig f) :=
  ⟨rfl, rfl, rfl, rfl, rfl, rfl, rfl, hm, he⟩

/-- The limiter may change in anything but its counts. -/
theorem alike_limiter (d : Drivetrain) {limiter : TokenBucket Float}
    (ha : limiter.admits = d.limiter.admits) (hd : limiter.drops = d.limiter.drops)
    (hw : limiter.waits = d.limiter.waits) : d.Alike { d with limiter } :=
  ⟨rfl, rfl, rfl, rfl, ha, hd, hw, rfl, rfl⟩

theorem alike_setMaxsize {d d' : Drivetrain} {maxsize : Nat} (h : d.setMaxsize maxsize = some d') :
    d.Alike d' := by
  unfold setMaxsize at h
  split at h
  · cases h
  · cases h
    exact ⟨rfl, rfl, rfl, rfl, rfl, rfl, rfl, rfl, rfl⟩

theorem alike_configure {d : Drivetrain} {limit : RateLimit Float} {limiter : TokenBucket Float}
    (h : d.limiter.configure limit = some limiter) : d.Alike { d with limiter } := by
  unfold TokenBucket.configure at h
  split at h
  · cases h
    exact d.alike_limiter rfl rfl rfl
  · cases h

theorem alike_refill (d : Drivetrain) (now : Int) :
    d.Alike { d with limiter := d.limiter.refill now } := by
  unfold TokenBucket.refill
  dsimp only
  split <;> exact d.alike_limiter rfl rfl rfl

theorem alike_timeAct (d : Drivetrain) (t : Timeline.Step) :
    d.Alike (d.mapRig (·.mapTime (·.act t))) := by
  cases t <;> exact d.alike_mapRig _ rfl rfl

/-! ## Operators -/

theorem adjust_unfolds {d d' : Drivetrain} (h : d.Alike d') :
    Unfolds d.moment [.adjust] d'.moment := by
  rw [moment_eq_of_worker h.worker]
  exact .of_move (.adjust h) rfl

/-- What an operator does when it asks for a command to be queued. -/
def enqueueAction (c : Command) : Option Nat → Action
  | some _ => .accept c
  | none => .refuse c

theorem enqueue_unfolds (d : Drivetrain) (c : Command) :
    Unfolds d.moment [enqueueAction c (d.enqueue c).1] (d.enqueue c).2.moment := by
  unfold enqueue
  split
  · rename_i backlog h
    exact .of_move (.refuse h) rfl
  · rename_i backlog h
    refine Unfolds.then_work ?_ (settle_unfolds _)
    exact .of_move (.accept h) rfl

theorem clear_unfolds (d : Drivetrain) :
    Unfolds d.moment [.discard d.backlog.items] d.clear.moment :=
  .of_move .discard rfl

theorem operate_unfolds (d : Drivetrain) (c : MotorCall) :
    Unfolds d.moment [.operate c (d.operate c).1] (d.operate c).2.moment :=
  .of_move (.operate rfl) rfl

/-- What an operator does when it asks for a worker: nothing if there is one or none can be had. -/
def startActions (d : Drivetrain) (fails : Bool) : List Action :=
  match d.worker, fails with
  | .absent, false => [.engage]
  | _, _ => []

theorem mem_startActions {d : Drivetrain} {fails : Bool} {a : Action}
    (h : a ∈ d.startActions fails) : a = .engage := by
  unfold startActions at h
  split at h
  · exact List.mem_singleton.1 h
  · cases h

theorem start_unfolds (d : Drivetrain) (fails : Bool) :
    Unfolds d.moment (d.startActions fails) (d.start fails).2.moment := by
  unfold start startActions
  rcases hw : d.worker with _ | _ | c
  · cases fails
    · rw [moment_eq_of_ne_driving (by simp [hw])]
      exact (Unfolds.of_move (.engage hw) rfl).then_work (settle_unfolds { d with worker := .idle })
    · exact .refl
  · exact .refl
  · exact .refl

/-- What an operator does to end the worker: a drive call that is held is let pass before. -/
def stopActions (d : Drivetrain) : List Action :=
  match d.worker with
  | .driving _ => [.adjust, .dismiss, .discard d.backlog.items]
  | _ => [.dismiss, .discard d.backlog.items]

theorem mem_stopActions {d : Drivetrain} {a : Action} (h : a ∈ d.stopActions) :
    a = .adjust ∨ a = .dismiss ∨ a = .discard d.backlog.items := by
  unfold stopActions at h
  split at h
  · simpa using h
  · exact Or.inr (by simpa using h)

theorem dismiss_unfolds (d : Drivetrain) :
    Unfolds ⟨d, .free⟩ [.dismiss, .discard d.backlog.items]
      ({ d with worker := .absent }.clear).moment :=
  (Unfolds.of_move .dismiss rfl).trans (.of_move .discard rfl)

theorem open_unfolds (d : Drivetrain) :
    Unfolds d.moment [.adjust] (d.mapRig ({ · with held := false })).moment :=
  adjust_unfolds (d.alike_mapRig ({ · with held := false }) rfl rfl)

/-- A drive call that is held is let pass, and the worker finishes its command. -/
theorem letPass_unfolds {d : Drivetrain} {c : Command} (hw : d.worker = .driving c) :
    Unfolds d.moment [.adjust] ((d.mapRig ({ · with held := false })).finish c).moment := by
  refine (open_unfolds d).then_work ?_
  rw [moment_of_driving (d := d.mapRig _) hw]
  exact finish_unfolds c rfl

theorem stop_unfolds (d : Drivetrain) : Unfolds d.moment d.stopActions d.stop.moment := by
  unfold stop stopActions
  rcases hw : d.worker with _ | _ | c
  · rw [moment_eq_of_ne_driving (by simp [hw])]
    exact dismiss_unfolds d
  · rw [moment_of_idle hw]
    exact dismiss_unfolds d
  · refine (letPass_unfolds hw).trans ?_
    rw [moment_of_idle rfl]
    exact dismiss_unfolds _

theorem release_unfolds (d : Drivetrain) : Unfolds d.moment [.adjust] d.release.moment := by
  unfold release
  dsimp only
  split
  · rename_i c hw
    exact (letPass_unfolds (d := d) hw).then_work (settle_unfolds _)
  · exact open_unfolds d

/-! ## Steps and runs -/

/-- What the operator does in a step that has begun. -/
def actions (d : Drivetrain) : Step → List Action
  | .enqueue c => [enqueueAction c (d.enqueue c).1]
  | .clear => [.discard d.backlog.items]
  | .start fails => d.startActions fails
  | .stop => d.stopActions
  | .operate c => [.operate c (d.operate c).1]
  | .setMaxsize _ | .configure _ | .hold | .release | .fail _ | .time _ => [.adjust]

theorem orRefuse_unfolds {d : Drivetrain} {d? : Option Drivetrain} (h : ∀ d' ∈ d?, d.Alike d') :
    Unfolds d.moment [.adjust] (d.orRefuse d?).2.moment := by
  rcases d? with _ | d'
  · exact adjust_unfolds (.refl d)
  · exact adjust_unfolds (h d' rfl)

theorem act_unfolds (d : Drivetrain) (step : Step) :
    Unfolds d.moment (d.actions step) (d.act step).2.moment := by
  cases step with
  | enqueue c =>
    have h := enqueue_unfolds d c
    rcases he : d.enqueue c with ⟨_ | depth, d'⟩ <;> simp only [act, actions, he] at h ⊢ <;> exact h
  | clear => exact clear_unfolds d
  | setMaxsize maxsize => exact orRefuse_unfolds fun d' h => alike_setMaxsize h
  | configure limit =>
    refine orRefuse_unfolds fun d' h => ?_
    obtain ⟨limiter, hl, rfl⟩ := Option.map_eq_some_iff.1 h
    exact alike_configure hl
  | start fails => exact start_unfolds d fails
  | stop => exact stop_unfolds d
  | operate c => exact operate_unfolds d c
  | hold => exact adjust_unfolds (d.alike_mapRig ({ · with held := true }) rfl rfl)
  | release => exact release_unfolds d
  | fail parts => exact adjust_unfolds (d.alike_mapRig ({ · with faults := parts }) rfl rfl)
  | time t => exact adjust_unfolds (alike_timeAct d t)

/-- The drivetrain in a step that has begun. -/
def begun (d : Drivetrain) : Drivetrain := d.mapRig (·.mapTime Timeline.beginStep)

theorem begin_unfolds (d : Drivetrain) : Unfolds d.moment [.begin] d.begun.moment :=
  .of_move .begin rfl

/-- A step unfolds into its beginning and what its operation is made of. -/
theorem step_unfolds (d : Drivetrain) (step : Step) :
    Unfolds d.moment (.begin :: d.begun.actions step) (d.step step).2.moment :=
  (begin_unfolds d).trans (act_unfolds d.begun step)

/-- What operators do in a run. -/
def runActions (d : Drivetrain) : List Step → List Action
  | [] => []
  | step :: rest => .begin :: d.begun.actions step ++ (d.step step).2.runActions rest

theorem run_unfolds (d : Drivetrain) (steps : List Step) :
    Unfolds d.moment (d.runActions steps) (d.run steps).moment := by
  induction steps generalizing d with
  | nil => exact .refl
  | cons step rest ih => exact (step_unfolds d step).trans (ih (d.step step).2)

end Drivetrain

end RoverControl
