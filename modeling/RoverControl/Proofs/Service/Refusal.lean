import RoverControl.Proofs.Service.Access
import RoverControl.Proofs.Service.Reconfigure

/-!
# Requests that are refused

A handler carries a request out, reports a fault of the hardware, or refuses the request
(`Handled`); what refusing it leaves of the service depends on the reason alone
(`Service.refusing`).  So a request that is refused changes nothing but the counts, unless it had
to ask the limiter for accepting commands, or the queue (`Service.refusal_is_harmless`).
-/

namespace RoverControl

/-- The counts after a request that was refused for a reason: it is counted once, and once more for
the reason. -/
def Metrics.refusing (m : Metrics) (kind : Rejection.Kind) : Metrics :=
  let m := { m with requests := m.requests + 1 }
  match kind with
  | .validation => { m with validationFailures := m.validationFailures + 1 }
  | .authentication => { m with unauthenticated := m.unauthenticated + 1 }
  | .authorization => { m with forbidden := m.forbidden + 1 }
  | .malformedClientAddress => { m with malformedAddress := m.malformedAddress + 1 }
  | .queueFull => { m with queueFull := m.queueFull + 1 }
  | .ingressRateLimited => { m with rateLimited := m.rateLimited + 1 }
  | .routeNotFound => { m with notFound := m.notFound + 1 }
  | .hardwareFault => { m with hardwareFaults := m.hardwareFaults + 1 }

theorem Metrics.record_status (m : Metrics) (kind : Rejection.Kind) :
    m.record kind.status = m.refusing kind := by
  cases kind <;> rfl

theorem Rejection.Kind.status_injective {kind kind' : Rejection.Kind}
    (h : kind.status = kind'.status) : kind = kind' := by
  cases kind <;> cases kind' <;> first | rfl | cases h

namespace Service

/-- What refusing a request for a reason leaves of a service, apart from its counts.  The limiter
for accepting commands has been asked and has dropped the command, or it has spent a token on the
command and the queue has turned it away; for any other reason nothing was done. -/
def refusing (s : Service) (kind : Rejection.Kind) : Service :=
  let asked := s.ingress.refill s.now
  match kind with
  | .ingressRateLimited => { s with ingress := { asked with drops := asked.drops + 1 } }
  | .queueFull => { s with
      ingress := { asked with tokens := asked.tokens - 1, admits := asked.admits + 1 }
      drivetrain := { s.drivetrain with
        backlog := { s.drivetrain.backlog with rejected := s.drivetrain.backlog.rejected + 1 }
        counts := { s.drivetrain.counts with
          rejectedFull := s.drivetrain.counts.rejectedFull + 1 } } }
  | _ => s

/-- What comes of a request that reaches a handler. -/
inductive Handled (s : Service) : Outcome × Service → Prop
  | done {r : Http.Response} {s' : Service} (h : r.status = 200 ∨ r.status = 202) :
      Handled s (.ok r, s')
  | fault (detail : String) (s' : Service) : Handled s (.error (.hardwareFault detail), s')
  | refused {e : Rejection}
      (h : e.kind = .validation ∨ e.kind = .ingressRateLimited ∨ e.kind = .queueFull) :
      Handled s (.error e, s.refusing e.kind)

end Service

/-! ## Bodies that are not valid -/

theorem kind_of_readSpeed {body : Json} {name : Bytes} {e : Rejection}
    (h : readSpeed body name = .error e) : e.kind = .validation := by
  unfold readSpeed at h
  repeat' split at h
  all_goals cases h
  all_goals rfl

theorem kind_of_readDuration {body : Json} {e : Rejection} (h : readDuration body = .error e) :
    e.kind = .validation := by
  unfold readDuration at h
  repeat' split at h
  all_goals cases h
  all_goals rfl

theorem kind_of_readCommand {body : Json} {e : Rejection} (h : readCommand body = .error e) :
    e.kind = .validation := by
  unfold readCommand at h
  split at h
  · rename_i e' he
    cases h
    exact kind_of_readSpeed he
  · split at h
    · rename_i e' he
      cases h
      exact kind_of_readSpeed he
    · split at h
      · rename_i e' he
        cases h
        exact kind_of_readDuration he
      · cases h

theorem kind_of_readAngle {body : Json} {name : Bytes} {limit : Nat} {e : Rejection}
    (h : readAngle body name limit = .error e) : e.kind = .validation := by
  unfold readAngle at h
  dsimp only at h
  repeat' split at h
  all_goals cases h
  all_goals rfl

namespace Service

/-! ## Handlers -/

theorem handled_of_validation (s : Service) {e : Rejection} (h : e.kind = .validation) :
    Handled s (.error e, s) := by
  have hrefused : Handled s (.error e, s.refusing e.kind) := .refused (Or.inl h)
  rwa [h] at hrefused

/-- A limiter that refuses a token has been refilled and counts a drop. -/
theorem ingress_of_dropped {b b' : TokenBucket Float} {now : Int} (h : b.allow now = (false, b')) :
    b' = { b.refill now with drops := (b.refill now).drops + 1 } := by
  unfold TokenBucket.allow at h
  dsimp only at h
  split at h
  · cases h
  · cases h
    rfl

/-- A limiter that gives a token away has been refilled and has one token less. -/
theorem ingress_of_admitted {b b' : TokenBucket Float} {now : Int} (h : b.allow now = (true, b')) :
    b' = { b.refill now with
      tokens := (b.refill now).tokens - 1, admits := (b.refill now).admits + 1 } := by
  unfold TokenBucket.allow TokenBucket.take? at h
  dsimp only at h
  split at h
  · rename_i b'' hb
    cases h
    split at hb
    · cases hb
      rfl
    · cases hb
  · cases h

theorem handled_handleDrive (s : Service) (body : Json) : Handled s (s.handleDrive body) := by
  unfold handleDrive
  split
  · rename_i e he
    exact s.handled_of_validation (kind_of_readCommand he)
  · rename_i c _
    split
    · rename_i ingress hallow
      rw [ingress_of_dropped hallow]
      exact .refused (Or.inr (Or.inl rfl))
    · rename_i ingress hallow
      rw [ingress_of_admitted hallow]
      unfold Drivetrain.enqueue
      rcases hpush : s.drivetrain.backlog.push c with ⟨_ | _, backlog⟩
      · unfold BoundedQueue.push at hpush
        split at hpush
        · cases hpush
          exact .refused (Or.inr (Or.inr rfl))
        · cases hpush
      · exact .done (Or.inr rfl)

theorem handled_motorOutcome (s s' : Service) (ok : Bool) (status fault : String) :
    Handled s (motorOutcome ok status fault, s') := by
  cases ok with
  | false => exact .fault fault s'
  | true => exact .done (Or.inl rfl)

theorem handled_handlePanTilt (s : Service) (body : Json) : Handled s (s.handlePanTilt body) := by
  unfold handlePanTilt
  split
  · rename_i e he
    exact s.handled_of_validation (kind_of_readAngle he)
  · split
    · rename_i e he
      exact s.handled_of_validation (kind_of_readAngle he)
    · split
      · exact .fault _ s
      · exact .done (Or.inl rfl)

theorem handled_handleUltrasonic (s : Service) : Handled s s.handleUltrasonic := by
  unfold handleUltrasonic
  split
  · exact .fault _ s
  · exact .done (Or.inl rfl)

theorem handled_handleLine (s : Service) : Handled s s.handleLine := by
  unfold handleLine
  split
  · exact .fault _ s
  · exact .done (Or.inl rfl)

theorem handled_handlePatchConfig (s : Service) (body : Json) :
    Handled s (s.handlePatchConfig body) := by
  rcases s.handlePatchConfig_cases body with ⟨e, -, h⟩ | ⟨p, -, h⟩
  · rw [h]
    exact s.handled_of_validation rfl
  · rw [h]
    exact .done (Or.inl rfl)

theorem handled_runRoute (s : Service) (body : Json) (route : Route) :
    Handled s (s.runRoute body route) := by
  cases route with
  | drive => exact s.handled_handleDrive body
  | stop | brake | emergencyStop | reset => apply handled_motorOutcome
  | panTilt => exact s.handled_handlePanTilt body
  | ultrasonic => exact s.handled_handleUltrasonic
  | line => exact s.handled_handleLine
  | getConfig => exact .done (Or.inl rfl)
  | patchConfig => exact s.handled_handlePatchConfig body

/-! ## Requests -/

/-- The answer that tells an outcome, and the service that has counted it. -/
def tell (o : Outcome × Service) : Http.Response × Service :=
  (o.1.response, { o.2 with metrics := o.2.metrics.record o.1.response.status })

theorem handle_eq_tell (s : Service) (method path : Bytes) (body : Json) (headers : Headers) :
    s.handle method path body headers = tell (s.outcome method path body headers) := rfl

theorem metrics_refusing (s : Service) (kind : Rejection.Kind) :
    (s.refusing kind).metrics = s.metrics := by
  cases kind <;> rfl

theorem refusing_of_denial {s : Service} {headers : Headers} {e : Rejection}
    (h : s.store.denial headers = some e) : s.refusing e.kind = s := by
  rcases Config.Store.status_of_denial h with hs | hs | hs
  · have hk : e.kind = .authentication := Rejection.Kind.status_injective hs
    rw [hk]
    rfl
  · have hk : e.kind = .malformedClientAddress := Rejection.Kind.status_injective hs
    rw [hk]
    rfl
  · have hk : e.kind = .authorization := Rejection.Kind.status_injective hs
    rw [hk]
    rfl

/-- A request is carried out, meets a fault of the hardware, or is refused. -/
theorem outcome_refused_or_not (s : Service) (method path : Bytes) (body : Json)
    (headers : Headers) :
    (∃ r s', s.outcome method path body headers = (.ok r, s') ∧
      (r.status = 200 ∨ r.status = 202)) ∨
    (∃ detail s', s.outcome method path body headers = (.error (.hardwareFault detail), s')) ∨
    ∃ e, s.outcome method path body headers = (.error e, s.refusing e.kind) := by
  unfold outcome
  split
  · rename_i e he
    exact Or.inr (Or.inr ⟨e, by rw [refusing_of_denial he]⟩)
  · split
    · exact Or.inr (Or.inr ⟨_, rfl⟩)
    · rename_i route _
      have handled := s.handled_runRoute (if body.isNull then .object [] else body) route
      generalize s.runRoute (if body.isNull then .object [] else body) route = o at handled
      cases handled with
      | done h => exact Or.inl ⟨_, _, rfl, h⟩
      | fault detail s' => exact Or.inr (Or.inl ⟨detail, s', rfl⟩)
      | refused _ => exact Or.inr (Or.inr ⟨_, rfl⟩)

/-- A request that is answered with the status of a reason to refuse it gets an object with the
detail alone, and leaves of the service what that reason leaves, counted once for the reason: the
limiter for accepting commands is asked for 429 and 503 only, the queue counts a rejection for 503
only, and nothing else is changed by any of them. -/
theorem refusal_is_harmless (s : Service) (method path : Bytes) (body : Json) (headers : Headers)
    {kind : Rejection.Kind} (hkind : kind ≠ .hardwareFault)
    (h : (s.handle method path body headers).1.status = kind.status) :
    ∃ detail, s.handle method path body headers =
      (⟨kind.status, .object [(ascii "detail", .string detail)]⟩,
        { s.refusing kind with metrics := s.metrics.refusing kind }) := by
  rw [handle_eq_tell] at h ⊢
  rcases s.outcome_refused_or_not method path body headers with
    ⟨r, s', ho, hr⟩ | ⟨detail, s', ho⟩ | ⟨e, ho⟩ <;> rw [ho] at h ⊢
  · have hle : 400 ≤ kind.status := Rejection.le_status ⟨kind, []⟩
    have hstatus : r.status = kind.status := h
    omega
  · have hstatus : Rejection.Kind.hardwareFault.status = kind.status := h
    exact absurd (Rejection.Kind.status_injective hstatus).symm hkind
  · have hk : e.kind = kind := Rejection.Kind.status_injective h
    subst hk
    refine ⟨e.detail, ?_⟩
    rw [← Metrics.record_status, ← metrics_refusing s]
    rfl

/-- A service whose queue has been made shorter than the line in it. -/
def overfull : Service :=
  crowded.reconfigured ⟨none, none, some 1, none, []⟩

/-- The queue turns a command away. -/
theorem refusal_is_harmless_overfull :
    let body : Json :=
      .object [(ascii "left_speed", .number 1), (ascii "right_speed", .number 1)]
    let after := overfull.handle (ascii "POST") (ascii "/drive/differential") body
      [(apiKeyHeader, ascii "local")]
    Rejection.Kind.queueFull ≠ .hardwareFault ∧ after.1.status = 503 ∧
      after.2.drivetrain.backlog.items = overfull.drivetrain.backlog.items ∧
      after.2.drivetrain.backlog.rejected = 1 ∧ after.2.ingress.admits = 4 := by
  intro body after
  have hkind : Rejection.Kind.queueFull ≠ .hardwareFault := by decide
  have hstatus : (overfull.handle (ascii "POST") (ascii "/drive/differential") body
      [(apiKeyHeader, ascii "local")]).1.status = Rejection.Kind.queueFull.status := by
    decide +kernel
  obtain ⟨detail, h⟩ := refusal_is_harmless overfull (ascii "POST") (ascii "/drive/differential")
    body [(apiKeyHeader, ascii "local")] hkind hstatus
  have hafter : after = _ := h
  have hrejected : overfull.drivetrain.backlog.rejected = 0 := by decide +kernel
  have hadmits : (overfull.ingress.refill overfull.now).admits = 3 := by decide +kernel
  refine ⟨hkind, ?_, ?_, ?_, ?_⟩ <;> rw [hafter]
  · rfl
  · simp only [refusing]
  · simp only [refusing, hrejected]
  · simp only [refusing, hadmits]

end Service

end RoverControl
