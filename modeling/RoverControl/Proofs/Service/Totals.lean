import RoverControl.Proofs.Drivetrain.Totals
import RoverControl.Proofs.Service.Refusal

/-!
# Totals of the service

The service counts its answers by their statuses, the limiter for accepting commands counts tokens
and drops, and the queue counts the commands that it takes in and turns away.  All these totals
are told by the statuses of the answers alone (`Service.Adds`): a request that is answered 202 has
taken one token and queued one command, one that is answered 503 has taken a token, too, and found
the queue full, and one that is answered 429 was dropped by the limiter (`Service.adds_handle`).
-/

namespace RoverControl

open Drivetrain

namespace Metrics

/-- The requests that were answered in one of the ways that are told apart. -/
def answered (m : Metrics) : Nat :=
  m.succeeded + m.unauthenticated + m.forbidden + m.malformedAddress + m.notFound +
    m.validationFailures + m.rateLimited + m.queueFull + m.hardwareFaults

/-- The statuses of the answers of the service. -/
def statuses : List Int := [200, 202, 400, 401, 403, 404, 422, 429, 500, 503]

theorem requests_record (m : Metrics) (status : Int) :
    (m.record status).requests = m.requests + 1 := by
  unfold record countStatus
  repeat' split
  all_goals rfl

/-- An answer is counted once, by its status. -/
theorem answered_record (m : Metrics) : ∀ status ∈ statuses,
    (m.record status).answered = m.answered + 1 ∧
      (m.record status).queueFull = m.queueFull + [status].count 503 ∧
      (m.record status).rateLimited = m.rateLimited + [status].count 429 := by
  simp only [statuses, List.forall_mem_cons]
  refine ⟨?_, ?_, ?_, ?_, ?_, ?_, ?_, ?_, ?_, ?_, by simp⟩ <;>
    refine ⟨?_, rfl, rfl⟩ <;> simp [record, countStatus, answered] <;> omega

end Metrics

theorem Rejection.Kind.status_mem (kind : Rejection.Kind) : kind.status ∈ Metrics.statuses := by
  cases kind <;> decide

namespace Service

/-! ## Handlers -/

/-- What answering a request with a status has added to the totals, before the answer is counted. -/
structure Tally (s : Service) (status : Int) (s' : Service) : Prop where
  metrics : s'.metrics = s.metrics
  drops : s'.ingress.drops = s.ingress.drops + [status].count 429
  admits : s'.ingress.admits = s.ingress.admits + ([status].count 202 + [status].count 503)
  waits : s'.ingress.waits = s.ingress.waits
  spent : status = 202 ∨ status = 503 → s'.ingress = (s.ingress.refill s.now).spend
  enqueued : s'.drivetrain.counts.enqueued =
    s.drivetrain.counts.enqueued + [status].count 202
  rejectedFull : s'.drivetrain.counts.rejectedFull =
    s.drivetrain.counts.rejectedFull + [status].count 503

variable {s s' : Service} {status : Int}

/-- A handler that asks for no token and queues no command adds nothing. -/
theorem tally_of_untouched (hmetrics : s'.metrics = s.metrics)
    (hingress : s.ingress.SameCounts s'.ingress)
    (henqueued : s'.drivetrain.counts.enqueued = s.drivetrain.counts.enqueued)
    (hrejected : s'.drivetrain.counts.rejectedFull = s.drivetrain.counts.rejectedFull)
    (hstatus : status ∉ [202, 429, 503]) : Tally s status s' := by
  simp only [List.mem_cons, List.not_mem_nil, or_false, not_or] at hstatus
  obtain ⟨h202, h429, h503⟩ := hstatus
  have hcount {code : Int} (h : status ≠ code) : [status].count code = 0 :=
    List.count_eq_zero.2 fun hmem => h (List.mem_singleton.1 hmem).symm
  refine ⟨hmetrics, ?_, ?_, hingress.waits, fun h => (h.elim h202 h503).elim, ?_, ?_⟩
  · rw [hcount h429, hingress.drops, Nat.add_zero]
  · rw [hcount h202, hcount h503, hingress.admits, Nat.add_zero]
  · rw [hcount h202, henqueued, Nat.add_zero]
  · rw [hcount h503, hrejected, Nat.add_zero]

theorem tally_refl (s : Service) (hstatus : status ∉ [202, 429, 503]) : Tally s status s :=
  tally_of_untouched rfl ⟨rfl, rfl, rfl⟩ rfl rfl hstatus

theorem tally_of_validation (s : Service) {e : Rejection} (h : e.kind = .validation) :
    Tally s e.response.status s := by
  have hstatus : e.response.status = 422 := congrArg Rejection.Kind.status h
  rw [hstatus]
  exact s.tally_refl (by decide)

theorem tally_handleDrive (s : Service) (body : Json) :
    Tally s (s.handleDrive body).1.response.status (s.handleDrive body).2 := by
  unfold handleDrive
  rcases hcommand : readCommand body with e | c
  · exact s.tally_of_validation (kind_of_readCommand hcommand)
  · dsimp only
    have hrefill := s.ingress.sameCounts_refill s.now
    rcases hallow : s.ingress.allow s.now with ⟨_ | _, ingress⟩
    · cases ingress_of_dropped hallow
      refine ⟨rfl, congrArg (· + 1) hrefill.drops, hrefill.admits, hrefill.waits, ?_, rfl, rfl⟩
      rintro (h | h) <;> cases h
    · cases ingress_of_admitted hallow
      have htotals := (enqueue_unfolds s.drivetrain c).enqueued
      dsimp only
      rcases henqueue : s.drivetrain.enqueue c with ⟨_ | depth, d⟩ <;> rw [henqueue] at htotals
      · exact ⟨rfl, hrefill.drops, congrArg (· + 1) hrefill.admits, hrefill.waits, fun _ => rfl,
          htotals.1, htotals.2⟩
      · exact ⟨rfl, hrefill.drops, congrArg (· + 1) hrefill.admits, hrefill.waits, fun _ => rfl,
          htotals.1, htotals.2⟩

theorem tally_runRoute (s : Service) (body : Json) (route : Route) :
    Tally s (s.runRoute body route).1.response.status (s.runRoute body route).2 := by
  have done : (200 : Int) ∉ [202, 429, 503] := by decide
  have fault : (500 : Int) ∉ [202, 429, 503] := by decide
  have motor (ok : Bool) (status fault : String) :
      (motorOutcome ok status fault).response.status ∉ [202, 429, 503] := by
    rw [motorOutcome_status]
    cases ok <;> decide
  cases route with
  | drive => exact s.tally_handleDrive body
  | stop | brake | emergencyStop | reset =>
    exact tally_of_untouched rfl ⟨rfl, rfl, rfl⟩ rfl rfl (motor _ _ _)
  | panTilt =>
    rw [runRoute, handlePanTilt]
    split
    · rename_i e he
      exact s.tally_of_validation (kind_of_readAngle he)
    · split
      · rename_i e he
        exact s.tally_of_validation (kind_of_readAngle he)
      · split
        · exact s.tally_refl fault
        · exact tally_of_untouched rfl ⟨rfl, rfl, rfl⟩ rfl rfl done
  | ultrasonic =>
    rw [runRoute, handleUltrasonic]
    split
    · exact s.tally_refl fault
    · exact tally_of_untouched rfl ⟨rfl, rfl, rfl⟩ rfl rfl done
  | line =>
    rw [runRoute, handleLine]
    split
    · exact s.tally_refl fault
    · exact tally_of_untouched rfl ⟨rfl, rfl, rfl⟩ rfl rfl done
  | getConfig => exact s.tally_refl done
  | patchConfig =>
    rw [runRoute]
    rcases s.handlePatchConfig_cases body with ⟨e, -, ho⟩ | ⟨p, -, ho⟩ <;> rw [ho]
    · exact s.tally_of_validation rfl
    · exact tally_of_untouched rfl ⟨rfl, rfl, rfl⟩ rfl rfl done

/-! ## Requests -/

theorem tally_outcome (s : Service) (method path : Bytes) (body : Json) (headers : Headers) :
    Tally s (s.outcome method path body headers).1.response.status
      (s.outcome method path body headers).2 := by
  have missing : (404 : Int) ∉ [202, 429, 503] := by decide
  unfold outcome
  split
  · rename_i e he
    refine s.tally_refl ?_
    rcases Config.Store.status_of_denial he with hs | hs | hs <;>
      simp only [Outcome.response, hs] <;> decide
  · split
    · exact s.tally_refl missing
    · exact s.tally_runRoute _ _

theorem status_outcome_mem (s : Service) (method path : Bytes) (body : Json) (headers : Headers) :
    (s.outcome method path body headers).1.response.status ∈ Metrics.statuses := by
  rcases s.outcome_refused_or_not method path body headers with
    ⟨r, s', ho, hr | hr⟩ | ⟨detail, s', ho⟩ | ⟨e, ho⟩ <;> rw [ho]
  · simp only [Outcome.response, hr]
    decide
  · simp only [Outcome.response, hr]
    decide
  · exact Rejection.Kind.status_mem .hardwareFault
  · exact e.kind.status_mem

/-- What requests that are answered with these statuses have added to the totals. -/
structure Adds (s : Service) (statuses : List Int) (s' : Service) : Prop where
  requests : s'.metrics.requests = s.metrics.requests + statuses.length
  answered : s'.metrics.answered = s.metrics.answered + statuses.length
  queueFull : s'.metrics.queueFull = s.metrics.queueFull + statuses.count 503
  rateLimited : s'.metrics.rateLimited = s.metrics.rateLimited + statuses.count 429
  drops : s'.ingress.drops = s.ingress.drops + statuses.count 429
  admits : s'.ingress.admits = s.ingress.admits + (statuses.count 202 + statuses.count 503)
  waits : s'.ingress.waits = s.ingress.waits
  enqueued : s'.drivetrain.counts.enqueued = s.drivetrain.counts.enqueued + statuses.count 202
  rejectedFull : s'.drivetrain.counts.rejectedFull =
    s.drivetrain.counts.rejectedFull + statuses.count 503

theorem Adds.trans {s s' s'' : Service} {statuses statuses' : List Int} (h : Adds s statuses s')
    (h' : Adds s' statuses' s'') : Adds s (statuses ++ statuses') s'' where
  requests := by rw [h'.requests, h.requests, List.length_append, Nat.add_assoc]
  answered := by rw [h'.answered, h.answered, List.length_append, Nat.add_assoc]
  queueFull := by rw [h'.queueFull, h.queueFull, List.count_append, Nat.add_assoc]
  rateLimited := by rw [h'.rateLimited, h.rateLimited, List.count_append, Nat.add_assoc]
  drops := by rw [h'.drops, h.drops, List.count_append, Nat.add_assoc]
  admits := by
    rw [h'.admits, h.admits, List.count_append, List.count_append]
    omega
  waits := h'.waits.trans h.waits
  enqueued := by rw [h'.enqueued, h.enqueued, List.count_append, Nat.add_assoc]
  rejectedFull := by rw [h'.rejectedFull, h.rejectedFull, List.count_append, Nat.add_assoc]

/-- A request adds to the totals what the status of its answer tells. -/
theorem adds_handle (s : Service) (method path : Bytes) (body : Json) (headers : Headers) :
    Adds s [(s.handle method path body headers).1.status]
      (s.handle method path body headers).2 := by
  have htally := s.tally_outcome method path body headers
  obtain ⟨hanswered, hqueueFull, hrateLimited⟩ :=
    s.metrics.answered_record _ (s.status_outcome_mem method path body headers)
  rw [handle_eq_tell, tell]
  refine ⟨?_, ?_, ?_, ?_, htally.drops, htally.admits, htally.waits, htally.enqueued,
    htally.rejectedFull⟩ <;> rw [htally.metrics]
  · exact Metrics.requests_record _ _
  · exact hanswered
  · exact hqueueFull
  · exact hrateLimited

/-- A request that is answered 202 or 503 has taken one token from the limiter for accepting
commands. -/
theorem spend_of_status {method path : Bytes} {body : Json} {headers : Headers}
    (h : (s.handle method path body headers).1.status = 202 ∨
      (s.handle method path body headers).1.status = 503) :
    (s.handle method path body headers).2.ingress = (s.ingress.refill s.now).spend :=
  (s.tally_outcome method path body headers).spent h

end Service

end RoverControl
