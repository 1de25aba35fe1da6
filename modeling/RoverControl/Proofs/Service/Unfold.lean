import RoverControl.Proofs.Drivetrain.Order
import RoverControl.Service.Dispatch

/-!
# Requests as paths of the drivetrain

`Service.actions` tells what a request does to the drivetrain, and `handle_unfolds` that the
drivetrain unfolds so.  A command is accepted exactly if the answer is 202 (`accepted_actions`), no
request makes a drive call of its own, and the latch of the motors is released only by a reset that
is answered 200 (`operate_mem_actions`).
-/

namespace RoverControl

open Drivetrain

namespace Service

/-- What the body of a drive request does to the drivetrain. -/
def driveActions (s : Service) (body : Json) : List Action :=
  match readCommand body with
  | .error _ => []
  | .ok c => if (s.ingress.allow s.now).1 then [enqueueAction c (s.drivetrain.enqueue c).1] else []

/-- What the handler of a route does to the drivetrain. -/
def handlerActions (s : Service) (body : Json) : Route → List Action
  | .drive => s.driveActions body
  | .stop => [.operate .stop (s.drivetrain.operate .stop).1, .discard s.drivetrain.backlog.items]
  | .brake => [.operate .brake (s.drivetrain.operate .brake).1, .discard s.drivetrain.backlog.items]
  | .emergencyStop =>
    [.discard s.drivetrain.backlog.items, .operate .emergencyStop
      (s.drivetrain.clear.operate .emergencyStop).1]
  | .reset => [.operate .resetEmergencyStop (s.drivetrain.operate .resetEmergencyStop).1]
  | .patchConfig => [.adjust]
  | .panTilt | .ultrasonic | .line | .getConfig => []

/-- What a request does to the drivetrain. -/
def actions (s : Service) (method path : Bytes) (body : Json) (headers : Headers) : List Action :=
  match s.store.denial headers with
  | some _ => []
  | none =>
    match Route.find? method path with
    | none => []
    | some route => s.handlerActions (if body.isNull then .object [] else body) route

/-! ## Handlers -/

theorem handleDrive_unfolds (s : Service) (body : Json) :
    Unfolds s.drivetrain.moment (s.driveActions body) (s.handleDrive body).2.drivetrain.moment := by
  unfold handleDrive driveActions
  rcases readCommand body with e | c
  · exact .refl
  · have h := enqueue_unfolds s.drivetrain c
    dsimp only
    rcases s.ingress.allow s.now with ⟨_ | _, ingress⟩
    · exact .refl
    · rw [if_pos rfl]
      dsimp only
      rcases he : s.drivetrain.enqueue c with ⟨_ | depth, d⟩ <;> rw [he] at h <;> exact h

theorem operateThenClear_unfolds (d : Drivetrain) (c : MotorCall) :
    Unfolds d.moment [.operate c (d.operate c).1, .discard d.backlog.items]
      (d.operate c).2.clear.moment :=
  (operate_unfolds d c).trans (clear_unfolds (d.operate c).2)

theorem alike_configureField {d : Drivetrain} {limit? : Option (RateLimit Float)}
    {limiter : TokenBucket Float} (h : configureField d.limiter limit? = some limiter) :
    d.Alike { d with limiter } := by
  rcases limit? with _ | limit
  · cases h
    exact .refl d
  · exact alike_configure h

theorem alike_resizeField {d d' : Drivetrain} {maxsize? : Option Nat}
    (h : resizeField d maxsize? = some d') : d.Alike d' := by
  rcases maxsize? with _ | maxsize
  · cases h
    exact .refl d
  · exact alike_setMaxsize h

theorem handlePatchConfig_alike (s : Service) (body : Json) :
    s.drivetrain.Alike (s.handlePatchConfig body).2.drivetrain := by
  unfold handlePatchConfig
  rcases Config.Patch.ofJson body with e | patch
  · exact .refl _
  · dsimp only
    rcases configureField s.ingress patch.ingress with _ | ingress
    · exact .refl _
    · dsimp only
      rcases hl : configureField s.drivetrain.limiter patch.execution with _ | limiter
      · exact .refl _
      · dsimp only
        have first := alike_configureField hl
        rcases hr : resizeField { s.drivetrain with limiter } patch.queueMaxsize with _ | d
        · exact first
        · exact first.trans (alike_resizeField hr)

theorem handlePanTilt_drivetrain (s : Service) (body : Json) :
    (s.handlePanTilt body).2.drivetrain = s.drivetrain := by
  unfold handlePanTilt
  repeat' split
  all_goals rfl

theorem handleUltrasonic_drivetrain (s : Service) :
    s.handleUltrasonic.2.drivetrain = s.drivetrain := by
  unfold handleUltrasonic
  split <;> rfl

theorem handleLine_drivetrain (s : Service) : s.handleLine.2.drivetrain = s.drivetrain := by
  unfold handleLine
  split <;> rfl

theorem runRoute_unfolds (s : Service) (body : Json) (route : Route) :
    Unfolds s.drivetrain.moment (s.handlerActions body route)
      (s.runRoute body route).2.drivetrain.moment := by
  cases route with
  | drive => exact handleDrive_unfolds s body
  | stop => exact operateThenClear_unfolds s.drivetrain .stop
  | brake => exact operateThenClear_unfolds s.drivetrain .brake
  | emergencyStop =>
    exact (clear_unfolds s.drivetrain).trans (operate_unfolds s.drivetrain.clear .emergencyStop)
  | reset => exact operate_unfolds s.drivetrain .resetEmergencyStop
  | panTilt =>
    rw [runRoute, handlePanTilt_drivetrain]
    exact .refl
  | ultrasonic =>
    rw [runRoute, handleUltrasonic_drivetrain]
    exact .refl
  | line =>
    rw [runRoute, handleLine_drivetrain]
    exact .refl
  | getConfig => exact .refl
  | patchConfig => exact adjust_unfolds (handlePatchConfig_alike s body)

/-! ## Requests -/

/-- The body that a handler is given. -/
def handlerBody (body : Json) : Json := if body.isNull then .object [] else body

/-- A request is rejected and does nothing, or the handler of its route is run. -/
theorem outcome_cases (s : Service) (method path : Bytes) (body : Json) (headers : Headers) :
    (s.actions method path body headers = [] ∧
      ∃ e, s.outcome method path body headers = (.error e, s)) ∨
    ∃ route, Route.find? method path = some route ∧
      s.actions method path body headers = s.handlerActions (handlerBody body) route ∧
      s.outcome method path body headers = s.runRoute (handlerBody body) route := by
  unfold outcome actions
  rcases s.store.denial headers with _ | denial
  · rcases Route.find? method path with _ | route
    · exact Or.inl ⟨rfl, _, rfl⟩
    · exact Or.inr ⟨route, rfl, rfl, rfl⟩
  · exact Or.inl ⟨rfl, denial, rfl⟩

theorem outcome_unfolds (s : Service) (method path : Bytes) (body : Json) (headers : Headers) :
    Unfolds s.drivetrain.moment (s.actions method path body headers)
      (s.outcome method path body headers).2.drivetrain.moment := by
  rcases s.outcome_cases method path body headers with ⟨ha, e, ho⟩ | ⟨route, -, ha, ho⟩
  · rw [ha, ho]
    exact .refl
  · rw [ha, ho]
    exact runRoute_unfolds s (handlerBody body) route

theorem handle_unfolds (s : Service) (method path : Bytes) (body : Json) (headers : Headers) :
    Unfolds s.drivetrain.moment (s.actions method path body headers)
      (s.handle method path body headers).2.drivetrain.moment :=
  outcome_unfolds s method path body headers

/-! ## Commands in bodies -/

end Service

namespace Command

/-- The command that a body denotes, if it has two speeds; a duration that is not a number is left
out. -/
def ofBody? (body : Json) : Option Command := do
  let left ← (body.find? (ascii "left_speed")).bind Json.number?
  let right ← (body.find? (ascii "right_speed")).bind Json.number?
  return ⟨left, right, (body.find? (ascii "duration_s")).bind Json.number?⟩

/-- Both speeds of a command are at most full speed, forwards or backwards. -/
structure InRange (c : Command) : Prop where
  left : -1 ≤ c.left ∧ c.left ≤ 1
  right : -1 ≤ c.right ∧ c.right ≤ 1

end Command

theorem readSpeed_ok {body : Json} {name : Bytes} {x : Float} (h : readSpeed body name = .ok x) :
    (body.find? name).bind Json.number? = some x ∧ -1 ≤ x ∧ x ≤ 1 := by
  unfold readSpeed at h
  split at h
  · cases h
  · rename_i y hy
    split at h
    · rename_i hr
      cases h
      exact ⟨hy, hr⟩
    · cases h

theorem readDuration_ok {body : Json} {duration : Option Float}
    (h : readDuration body = .ok duration) :
    (body.find? (ascii "duration_s")).bind Json.number? = duration := by
  unfold readDuration at h
  rcases hd : body.find? (ascii "duration_s") with _ | v
  · rw [hd] at h
    cases h
    rfl
  · rw [hd] at h
    cases v with
    | number x =>
      simp only [Option.filter, Json.isNull, Bool.not_false, if_true, Json.number?] at h
      split at h <;> cases h
      rfl
    | null =>
      cases h
      rfl
    | _ => cases h

theorem readCommand_ok {body : Json} {c : Command} (h : readCommand body = .ok c) :
    Command.ofBody? body = some c ∧ c.InRange := by
  unfold readCommand at h
  split at h
  · cases h
  · rename_i left hl
    split at h
    · cases h
    · rename_i right hr
      split at h
      · cases h
      · rename_i duration hd
        cases h
        obtain ⟨el, rl⟩ := readSpeed_ok hl
        obtain ⟨er, rr⟩ := readSpeed_ok hr
        refine ⟨?_, rl, rr⟩
        rw [Command.ofBody?, el, er, readDuration_ok hd]
        rfl

/-! ## What the answer tells -/

theorem Rejection.le_status (e : Rejection) : 400 ≤ e.response.status := by
  show 400 ≤ e.kind.status
  cases e.kind <;> decide

theorem Rejection.status_ne (e : Rejection) {status : Int} (h : status < 400) :
    e.response.status ≠ status := by
  have := e.le_status
  omega

theorem motorOutcome_status (ok : Bool) (status fault : String) :
    (motorOutcome ok status fault).response.status = if ok then 200 else 500 := by
  cases ok <;> rfl

namespace Service

theorem status_handleDrive (s : Service) (body : Json) :
    (∃ c, readCommand body = .ok c ∧ (s.handleDrive body).1.response.status = 202 ∧
      s.driveActions body = [.accept c]) ∨
    ((s.handleDrive body).1.response.status ≠ 202 ∧ accepted (s.driveActions body) = []) := by
  unfold handleDrive driveActions
  rcases readCommand body with e | c
  · exact Or.inr ⟨e.status_ne (by decide), rfl⟩
  · dsimp only
    rcases s.ingress.allow s.now with ⟨_ | _, ingress⟩
    · exact Or.inr ⟨Rejection.status_ne _ (by decide), rfl⟩
    · rw [if_pos rfl]
      dsimp only
      rcases s.drivetrain.enqueue c with ⟨_ | depth, d⟩
      · exact Or.inr ⟨Rejection.status_ne _ (by decide), rfl⟩
      · exact Or.inl ⟨c, rfl, rfl, rfl⟩

/-- Only drive requests are answered 202, and no other request has a command accepted. -/
theorem status_runRoute (s : Service) (body : Json) {route : Route} (h : route ≠ .drive) :
    (s.runRoute body route).1.response.status ≠ 202 ∧
      accepted (s.handlerActions body route) = [] := by
  have motor : ∀ ok status fault, (motorOutcome ok status fault).response.status ≠ 202 := by
    intro ok status fault
    rw [motorOutcome_status]
    cases ok <;> decide
  cases route with
  | drive => exact absurd rfl h
  | stop => exact ⟨motor _ _ _, rfl⟩
  | brake => exact ⟨motor _ _ _, rfl⟩
  | emergencyStop => exact ⟨motor _ _ _, rfl⟩
  | reset => exact ⟨motor _ _ _, rfl⟩
  | panTilt =>
    refine ⟨?_, rfl⟩
    rw [runRoute, handlePanTilt]
    repeat' split
    all_goals first | exact Rejection.status_ne _ (by decide) | (intro h; cases h)
  | ultrasonic =>
    refine ⟨?_, rfl⟩
    rw [runRoute, handleUltrasonic]
    split
    · exact Rejection.status_ne _ (by decide)
    · intro h
      cases h
  | line =>
    refine ⟨?_, rfl⟩
    rw [runRoute, handleLine]
    split
    · exact Rejection.status_ne _ (by decide)
    · intro h
      cases h
  | getConfig =>
    refine ⟨?_, rfl⟩
    intro h
    cases h
  | patchConfig =>
    refine ⟨?_, rfl⟩
    rw [runRoute, handlePatchConfig]
    repeat' first | split | dsimp only
    all_goals first | exact Rejection.status_ne _ (by decide) | (intro h; cases h)

/-- An answer of 202 accepts the command that the body denotes, which is in range; no other answer
accepts any. -/
theorem accepted_actions (s : Service) (method path : Bytes) (body : Json) (headers : Headers) :
    (∃ c, Command.ofBody? body = some c ∧ c.InRange ∧
      (s.handle method path body headers).1.status = 202 ∧
      accepted (s.actions method path body headers) = [c]) ∨
    ((s.handle method path body headers).1.status ≠ 202 ∧
      accepted (s.actions method path body headers) = []) := by
  show (∃ c, _ ∧ _ ∧ (s.outcome method path body headers).1.response.status = 202 ∧ _) ∨
    ((s.outcome method path body headers).1.response.status ≠ 202 ∧ _)
  rcases s.outcome_cases method path body headers with ⟨ha, e, ho⟩ | ⟨route, -, ha, ho⟩
  · rw [ha, ho]
    exact Or.inr ⟨e.status_ne (by decide), rfl⟩
  · rw [ha, ho]
    by_cases hr : route = .drive
    · subst hr
      rcases s.status_handleDrive (handlerBody body) with ⟨c, hc, hs, hd⟩ | h
      · have hb : handlerBody body = body := by
          cases body with
          | null => cases hc
          | _ => rfl
        rw [hb] at hc hs hd ⊢
        obtain ⟨hbody, hrange⟩ := readCommand_ok hc
        refine Or.inl ⟨c, hbody, hrange, hs, ?_⟩
        rw [handlerActions, hd]
        rfl
      · exact Or.inr h
    · exact Or.inr (s.status_runRoute _ hr)

theorem mem_driveActions {s : Service} {body : Json} {a : Action} (h : a ∈ s.driveActions body) :
    ∃ c, a = .accept c ∨ a = .refuse c := by
  unfold driveActions enqueueAction at h
  repeat' split at h
  all_goals simp at h
  · exact ⟨_, Or.inl h⟩
  · exact ⟨_, Or.inr h⟩

theorem operate_mem_handlerActions {s : Service} {body : Json} {route : Route} {c : MotorCall}
    {ok : Bool} (h : .operate c ok ∈ s.handlerActions body route) :
    (c = .stop ∨ c = .brake ∨ c = .emergencyStop) ∨
      c = .resetEmergencyStop ∧ route = .reset ∧
        ok = (s.drivetrain.operate .resetEmergencyStop).1 := by
  cases route with
  | drive =>
    obtain ⟨c', hc | hc⟩ := mem_driveActions h <;> cases hc
  | stop | brake | emergencyStop | reset =>
    simp only [handlerActions, List.mem_cons, List.not_mem_nil, or_false, Action.operate.injEq,
      reduceCtorEq, false_or] at h
    obtain ⟨rfl, rfl⟩ := h
    simp
  | patchConfig => simp [handlerActions] at h
  | panTilt | ultrasonic | line | getConfig => cases h

/-- A motor call of a request is none to drive, and releases the latch only if the request asks for
that; the answer then tells whether it was carried out. -/
theorem operate_mem_actions {s : Service} {method path : Bytes} {body : Json} {headers : Headers}
    {c : MotorCall} {ok : Bool} (h : .operate c ok ∈ s.actions method path body headers) :
    (c = .stop ∨ c = .brake ∨ c = .emergencyStop) ∨
      c = .resetEmergencyStop ∧ Route.find? method path = some .reset ∧
        (s.handle method path body headers).1.status = if ok then 200 else 500 := by
  show _ ∨ _ ∧ _ ∧ (s.outcome method path body headers).1.response.status = _
  rcases s.outcome_cases method path body headers with ⟨ha, -⟩ | ⟨route, hr, ha, ho⟩
  · rw [ha] at h
    cases h
  · rw [ha] at h
    rw [ho]
    rcases operate_mem_handlerActions h with hc | ⟨hc, rfl, rfl⟩
    · exact Or.inl hc
    · exact Or.inr ⟨hc, hr, motorOutcome_status _ _ _⟩

theorem begin_notMem_handlerActions (s : Service) (body : Json) (route : Route) :
    .begin ∉ s.handlerActions body route := by
  cases route with
  | drive =>
    intro h
    obtain ⟨c, hc | hc⟩ := mem_driveActions h <;> cases hc
  | _ => simp [handlerActions]

theorem begin_notMem_actions (s : Service) (method path : Bytes) (body : Json) (headers : Headers) :
    .begin ∉ s.actions method path body headers := by
  rcases s.outcome_cases method path body headers with ⟨ha, -⟩ | ⟨route, -, ha, -⟩
  · rw [ha]
    exact List.not_mem_nil
  · rw [ha]
    exact s.begin_notMem_handlerActions _ route

end Service

end RoverControl
