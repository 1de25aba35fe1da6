import RoverControl.Proofs.Server.Order
import RoverControl.Proofs.Service.Totals

/-!
# The totals of a run

The statuses that the service answered with tell all totals of its parts (`Server.adds_run`), and
the drive calls on record tell how many tokens the limiter of execution has handed out.  So after
every step the counts of the service, of its two limiters and of its queue agree
(`Server.counts_in_agreement`).
-/

namespace RoverControl

open Drivetrain

namespace Server

/-- The statuses that the steps of a run are answered with, in order. -/
def statuses (s : Server) : List Step → List Int
  | [] => []
  | step :: rest => (s.step step).1.status?.toList ++ (s.step step).2.statuses rest

/-- The statuses of the answers that the service gives in a run, in order. -/
def replies (s : Server) : List Step → List Int
  | [] => []
  | step :: rest =>
    ((s.handed step).bind fun _ => (s.step step).1.status?).toList ++ (s.step step).2.replies rest

/-- Only the service answers 202. -/
theorem count_replies (s : Server) (steps : List Step) :
    (s.replies steps).count 202 = (s.statuses steps).count 202 := by
  induction steps generalizing s with
  | nil => rfl
  | cons step rest ih =>
    rw [replies, statuses, List.count_append, List.count_append, ih]
    congr 1
    rcases hm : s.handed step with _ | m
    · have h202 : 202 ∉ (s.step step).1.status?.toList := fun h => absurd
        (status_of_not_handed (s := s.begun) ((s.handed_begun step).trans hm)
          (Option.mem_toList.1 h)) (by decide)
      rw [List.count_eq_zero.2 h202]
      rfl
    · rfl

/-! ## Steps -/

theorem refused_ownActions (s : Server) (step : Step) : refused (s.ownActions step) = [] := by
  refine List.filterMap_eq_nil_iff.2 fun a ha => ?_
  cases step with
  | request => cases ha
  | visit => cases ha
  | start fails => rw [mem_startActions ha]
  | shutdown =>
    rcases List.mem_append.1 ha with ha | ha
    · rcases mem_stopActions ha with rfl | rfl | rfl <;> rfl
    · rw [List.mem_singleton.1 ha]
  | _ => rw [List.mem_singleton.1 ha]

/-- A step that hands the service no message adds nothing to the totals. -/
theorem adds_act_own {s : Server} {step : Step} (h : s.handed step = none) :
    Service.Adds s.service [] (s.act step).2.service := by
  have hqueue := (ownActions_unfolds h).enqueued
  rw [accepted_ownActions, refused_ownActions] at hqueue
  obtain ⟨hmetrics, hingress⟩ : (s.act step).2.service.metrics = s.service.metrics ∧
      s.service.ingress.SameCounts (s.act step).2.service.ingress := by
    cases step with
    | request method path headers body =>
      rw [service_of_unreadable h]
      exact ⟨rfl, rfl, rfl, rfl⟩
    | visit v =>
      rw [service_of_unheard h]
      exact ⟨rfl, rfl, rfl, rfl⟩
    | tokens => exact ⟨rfl, TokenBucket.sameCounts_refill _ _⟩
    | _ => exact ⟨rfl, rfl, rfl, rfl⟩
  refine ⟨?_, ?_, ?_, ?_, hingress.drops, hingress.admits, hingress.waits, hqueue.1, hqueue.2⟩ <;>
    rw [hmetrics] <;> rfl

theorem adds_step (s : Server) (step : Step) :
    Service.Adds s.service (s.replies [step]) (s.step step).2.service := by
  have hbegin : Service.Adds s.service [] s.begun.service :=
    ⟨rfl, rfl, rfl, rfl, rfl, rfl, rfl, rfl, rfl⟩
  have hreplies : s.replies [step] =
      ((s.begun.handed step).bind fun _ => (s.begun.act step).1.status?).toList := by
    rw [handed_begun]
    exact List.append_nil _
  rw [hreplies]
  rcases hm : s.begun.handed step with _ | m
  · exact hbegin.trans (adds_act_own hm)
  · have ha := answered_of_handed hm
    rw [Option.bind_some, ha.status?_eq, show (s.step step).2.service = _ from ha.service_eq]
    exact hbegin.trans (s.begun.service.adds_handle m.method m.path m.body m.headers)

/-- The statuses that the service answered with in a run tell what it has added to the totals. -/
theorem adds_run (s : Server) (steps : List Step) :
    Service.Adds s.service (s.replies steps) (s.run steps).service := by
  induction steps generalizing s with
  | nil => exact ⟨rfl, rfl, rfl, rfl, rfl, rfl, rfl, rfl, rfl⟩
  | cons step rest ih =>
    have hstep := s.adds_step step
    rw [replies, replies, List.append_nil] at hstep
    exact hstep.trans (ih (s.step step).2)

/-- A step that is answered 202 or 503 has taken one token from the limiter for accepting
commands. -/
theorem spend_of_status {s : Server} {step : Step}
    (h : (s.step step).1.status? = some 202 ∨ (s.step step).1.status? = some 503) :
    (s.step step).2.service.ingress = (s.service.ingress.refill s.service.now).spend := by
  rcases hm : s.begun.handed step with _ | m
  · rcases h with h | h <;> exact absurd (status_of_not_handed hm h) (by decide)
  · have ha := answered_of_handed hm
    rw [show (s.step step).1.status? = _ from ha.status?_eq, Option.some.injEq,
      Option.some.injEq] at h
    rw [show (s.step step).2.service = _ from ha.service_eq]
    exact Service.spend_of_status h

/-! ## Runs -/

/-- The limiter of execution hands out one token for every drive call on record, and drops none. -/
theorem execution_run (s : Server) (steps : List Step) :
    (s.run steps).drivetrain.limiter.admits =
        s.drivetrain.limiter.admits + (drives (s.history steps)).length ∧
      (s.run steps).drivetrain.limiter.drops = s.drivetrain.limiter.drops := by
  obtain ⟨acts, h⟩ := s.exists_runPath steps
  rw [← h.recorded_eq, drives_recorded h.operate_ne, List.length_map]
  exact ⟨h.path.totals.admits, h.path.totals.drops⟩

/-- In every run the counts of the service, of its limiters and of its queue agree.  Every request
was answered in one way; the answers 202 are the commands that were queued, the answers 503 those
that the queue turned away, and the answers 429 those that the limiter for accepting commands
dropped; that limiter has handed out a token for each of the first two, and the limiter of execution
one for each drive call.  A token that is handed out is taken from the refilled bucket; for the
drive calls this is so whatever operators and the worker may do in whatever order. -/
theorem counts_in_agreement (store : Config.Store) (instruments : Instruments) (rig : Rig)
    (ioTimeout : Int) (steps : List Step) :
    let start := new (Service.new store instruments rig) ioTimeout
    let s := (start.run steps).service
    s.metrics.requests = s.metrics.succeeded + s.metrics.unauthenticated + s.metrics.forbidden +
        s.metrics.malformedAddress + s.metrics.notFound + s.metrics.validationFailures +
        s.metrics.rateLimited + s.metrics.queueFull + s.metrics.hardwareFaults ∧
      (start.statuses steps).count 202 = s.drivetrain.counts.enqueued ∧
      s.metrics.queueFull = s.drivetrain.counts.rejectedFull ∧
      s.metrics.rateLimited = s.ingress.drops ∧
      s.ingress.admits = s.drivetrain.counts.enqueued + s.drivetrain.counts.rejectedFull ∧
      s.ingress.waits = 0 ∧ s.drivetrain.limiter.drops = 0 ∧
      s.drivetrain.limiter.admits = (drives (start.history steps)).length ∧
      (∀ step, ((start.run steps).step step).1.status? = some 202 →
        ((start.run steps).step step).2.service.ingress = (s.ingress.refill s.now).spend) ∧
      ∀ acts m, Path Move start.drivetrain.moment acts m →
        m.drivetrain.limiter.admits = (called acts).length ∧ m.drivetrain.limiter.drops = 0 ∧
        ∀ pre c post, acts = pre ++ .call c :: post → ∃ m₁ m₂, Path Move start.drivetrain.moment
          pre m₁ ∧ Move m₁ (.call c) m₂ ∧ Path Move m₂ post m ∧
          m₂.drivetrain.limiter =
            (m₁.drivetrain.limiter.refill m₁.drivetrain.rig.time.now).spend := by
  intro start s
  have hadds := start.adds_run steps
  obtain ⟨hadmits, hdrops⟩ := start.execution_run steps
  have henqueued : s.drivetrain.counts.enqueued = (start.replies steps).count 202 :=
    hadds.enqueued.trans (Nat.zero_add _)
  have hrejected : s.drivetrain.counts.rejectedFull = (start.replies steps).count 503 :=
    hadds.rejectedFull.trans (Nat.zero_add _)
  have hlimited : s.metrics.rateLimited = (start.replies steps).count 429 :=
    hadds.rateLimited.trans (Nat.zero_add _)
  refine ⟨hadds.requests.trans hadds.answered.symm, ?_, ?_, ?_, ?_, hadds.waits, hdrops,
    hadmits.trans (Nat.zero_add _), fun step => spend_of_status ∘ Or.inl, ?_⟩
  · rw [henqueued, count_replies]
  · rw [hrejected]
    exact hadds.queueFull.trans (Nat.zero_add _)
  · rw [hlimited]
    exact (hadds.drops.trans (Nat.zero_add _)).symm
  · rw [henqueued, hrejected]
    exact hadds.admits.trans (Nat.zero_add _)
  · intro acts m hp
    refine ⟨hp.totals.admits.trans (Nat.zero_add _), hp.totals.drops, ?_⟩
    rintro pre c post rfl
    obtain ⟨m₁, hpre, hrest⟩ := hp.exists_of_append
    cases hrest with
    | cons hmove hpost => exact ⟨m₁, _, hpre, hmove, hpost, hmove.spend_of_call⟩

end Server

end RoverControl
