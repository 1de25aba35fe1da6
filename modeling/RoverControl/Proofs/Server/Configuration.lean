import RoverControl.Proofs.Rate.Uses
import RoverControl.Proofs.Server.Unfold
import RoverControl.Proofs.Service.Reconfigure

/-!
# The configuration in use

The limits and the length of the queue stand twice in a service: in its store, and in the limiters
and the queue.  No move of the drivetrain but an adjustment changes its settings, and no request but
a patch changes those of the service, which changes both copies at once.  So in every run from a
valid configuration the store stays valid and the copies agree
(`Server.configuration_in_agreement`).
-/

namespace RoverControl

open Drivetrain

/-! ## Queues -/

theorem BoundedQueue.capacity_of_push {α : Type} {q q' : BoundedQueue α} {a : α} {ok : Bool}
    (h : q.push a = (ok, q')) : q'.capacity = q.capacity := by
  unfold push at h
  split at h <;> cases h <;> rfl

namespace Drivetrain

variable {m m' : Moment} {ops : List Action}

/-- The limit of execution and the length of the queue. -/
def settings (d : Drivetrain) : RateLimit Float × Nat := (d.limiter.limit, d.backlog.capacity)

/-- No move but an adjustment changes the settings. -/
theorem Move.settings {a : Action} (h : Move m a m') (ha : a ≠ .adjust) :
    m'.drivetrain.settings = m.drivetrain.settings := by
  cases h with
  | adjust => exact absurd rfl ha
  | accept h => exact Prod.ext rfl (BoundedQueue.capacity_of_push h)
  | refuse h => exact Prod.ext rfl (BoundedQueue.capacity_of_push h)
  | wait h => exact Prod.ext (TokenBucket.limit_of_wait h) rfl
  | waitFault h => exact Prod.ext (TokenBucket.limit_of_wait h) rfl
  | call h => exact Prod.ext (TokenBucket.limit_of_taken h) rfl
  | _ => rfl

theorem Unfolds.settings (h : Unfolds m ops m') (hops : .adjust ∉ ops) :
    m'.drivetrain.settings = m.drivetrain.settings :=
  h.keeps_of_notMem (I := (·.drivetrain.settings = m.drivetrain.settings))
    (fun h ha hm => (h.settings ha).trans hm) rfl hops rfl

theorem settings_start (d : Drivetrain) (fails : Bool) : (d.start fails).2.settings = d.settings :=
  (start_unfolds d fails).settings fun h => nomatch mem_startActions h

/-- A drive call that is held is let pass, and its command is finished. -/
theorem settings_letPass (d : Drivetrain) (c : Command) :
    ((d.mapRig ({ · with held := false })).finish c).settings = d.settings :=
  (finish_unfolds (d := d.mapRig ({ · with held := false })) c rfl).settings List.not_mem_nil

theorem settings_stop (d : Drivetrain) : d.stop.settings = d.settings := by
  unfold stop
  split
  · rename_i c _
    exact settings_letPass d c
  · rfl

theorem settings_settle (d : Drivetrain) : d.settle.settings = d.settings :=
  (settle_unfolds d).settings List.not_mem_nil

theorem settings_release (d : Drivetrain) : d.release.settings = d.settings := by
  unfold release
  dsimp only
  split
  · rename_i c _
    exact (settings_settle _).trans (settings_letPass d c)
  · rfl

end Drivetrain

/-! ## Requests -/

namespace Service

/-- What a service is configured with: the store, the limit for accepting commands, and the settings
of the drivetrain. -/
def settings (s : Service) : Config.Store × RateLimit Float × RateLimit Float × Nat :=
  (s.store, s.ingress.limit, s.drivetrain.settings)

theorem adjust_notMem_handlerActions (s : Service) (body : Json) {route : Route}
    (h : route ≠ .patchConfig) : .adjust ∉ s.handlerActions body route := by
  cases route with
  | patchConfig => exact absurd rfl h
  | drive =>
    intro ha
    obtain ⟨c, hc | hc⟩ := mem_driveActions ha <;> cases hc
  | _ => simp [handlerActions]

theorem handleDrive_store (s : Service) (body : Json) :
    (s.handleDrive body).2.store = s.store ∧
      (s.handleDrive body).2.ingress.limit = s.ingress.limit := by
  have hlimit := s.ingress.limit_allow s.now
  unfold handleDrive
  rcases readCommand body with e | c
  · exact ⟨rfl, rfl⟩
  · dsimp only
    rcases hallow : s.ingress.allow s.now with ⟨_ | _, ingress⟩ <;> rw [hallow] at hlimit
    · exact ⟨rfl, hlimit⟩
    · dsimp only
      rcases s.drivetrain.enqueue c with ⟨_ | depth, d⟩ <;> exact ⟨rfl, hlimit⟩

/-- No request but a patch changes the settings. -/
theorem settings_runRoute (s : Service) (body : Json) {route : Route} (h : route ≠ .patchConfig) :
    (s.runRoute body route).2.settings = s.settings := by
  have hdrivetrain := (s.runRoute_unfolds body route).settings
    (s.adjust_notMem_handlerActions body h)
  have hstore : (s.runRoute body route).2.store = s.store ∧
      (s.runRoute body route).2.ingress.limit = s.ingress.limit := by
    cases route with
    | patchConfig => exact absurd rfl h
    | drive => exact s.handleDrive_store body
    | panTilt =>
      rw [runRoute, handlePanTilt]
      repeat' split
      all_goals exact ⟨rfl, rfl⟩
    | ultrasonic =>
      rw [runRoute, handleUltrasonic]
      split <;> exact ⟨rfl, rfl⟩
    | line =>
      rw [runRoute, handleLine]
      split <;> exact ⟨rfl, rfl⟩
    | _ => exact ⟨rfl, rfl⟩
  exact Prod.ext hstore.1 (Prod.ext hstore.2 hdrivetrain)

/-- The configuration in the store is valid and has these keys, and it is what the limiters and the
queue are configured with. -/
structure Configured (keys : List Bytes) (s : Service) : Prop where
  valid : s.store.config.validate = .ok s.store
  apiKeys : s.store.config.apiKeys = keys
  ingress : s.ingress.limit = s.store.config.ingress
  execution : s.drivetrain.limiter.limit = s.store.config.execution
  queueMaxsize : s.drivetrain.backlog.capacity = s.store.config.queueMaxsize

namespace Configured

variable {keys : List Bytes} {s s' : Service}

theorem of_settings (h : Configured keys s) (hs : s'.settings = s.settings) :
    Configured keys s' := by
  simp only [settings, Drivetrain.settings, Prod.mk.injEq] at hs
  obtain ⟨hstore, hingress, hexecution, hmaxsize⟩ := hs
  refine ⟨?_, ?_, ?_, ?_, ?_⟩
  · rw [hstore]
    exact h.valid
  · rw [hstore]
    exact h.apiKeys
  · rw [hstore, hingress]
    exact h.ingress
  · rw [hstore, hexecution]
    exact h.execution
  · rw [hstore, hmaxsize]
    exact h.queueMaxsize

theorem reconfigured (h : Configured keys s) {p : Config.Patch} (hp : p.Usable) :
    Configured keys (s.reconfigured p) where
  valid := Config.Store.validate_apply h.valid hp
  apiKeys := h.apiKeys
  ingress := congrArg p.ingress.getD h.ingress
  execution := congrArg p.execution.getD h.execution
  queueMaxsize := congrArg p.queueMaxsize.getD h.queueMaxsize

theorem runRoute (h : Configured keys s) (body : Json) (route : Route) :
    Configured keys (s.runRoute body route).2 := by
  by_cases hroute : route = .patchConfig
  · subst hroute
    rcases s.handlePatchConfig_cases body with ⟨e, -, ho⟩ | ⟨p, hp, ho⟩
    · rw [Service.runRoute, ho]
      exact h
    · rw [Service.runRoute, ho]
      exact h.reconfigured hp.usable
  · exact h.of_settings (s.settings_runRoute body hroute)

theorem handle (h : Configured keys s) (method path : Bytes) (body : Json) (headers : Headers) :
    Configured keys (s.handle method path body headers).2 := by
  have houtcome : Configured keys (s.outcome method path body headers).2 := by
    rcases s.outcome_cases method path body headers with ⟨-, e, ho⟩ | ⟨route, -, -, ho⟩
    · rw [ho]
      exact h
    · rw [ho]
      exact h.runRoute (handlerBody body) route
  exact houtcome.of_settings rfl

end Configured

/-- A service that has been set up with a valid configuration. -/
theorem configured_new {c : Config} {store : Config.Store} (h : c.validate = .ok store)
    (instruments : Instruments) (rig : Rig) :
    Configured c.apiKeys (new store instruments rig) := by
  obtain ⟨-, rfl, -⟩ := Config.validate_eq_ok_iff.1 h
  exact ⟨h, rfl, rfl, rfl, rfl⟩

end Service

/-! ## Steps and runs -/

namespace Server

open Service

/-- A step that hands the service no message changes no settings. -/
theorem settings_act {s : Server} {step : Step} (h : s.handed step = none) :
    (s.act step).2.service.settings = s.service.settings := by
  have hsame (d : Drivetrain) (hd : d.settings = s.drivetrain.settings) :
      { s.service with drivetrain := d }.settings = s.service.settings :=
    Prod.ext rfl (Prod.ext rfl hd)
  cases step with
  | request method path headers body => rw [service_of_unreadable h]
  | visit v => rw [service_of_unheard h]
  | start fails => exact hsame _ (settings_start s.drivetrain fails)
  | shutdown => exact hsame _ (settings_stop s.drivetrain)
  | release => exact hsame _ (settings_release s.drivetrain)
  | tokens =>
    exact Prod.ext rfl (Prod.ext (TokenBucket.limit_refill _ _)
      (Prod.ext (TokenBucket.limit_refill _ _) rfl))
  | _ => rfl

theorem configured_step {keys : List Bytes} {s : Server} (h : Configured keys s.service)
    (step : Step) : Configured keys (s.step step).2.service := by
  have hbegun : Configured keys s.begun.service := h.of_settings rfl
  show Configured keys (s.begun.act step).2.service
  rcases hm : s.begun.handed step with _ | m
  · exact hbegun.of_settings (settings_act hm)
  · rw [(answered_of_handed hm).service_eq]
    exact hbegun.handle m.method m.path m.body m.headers

theorem configured_run {keys : List Bytes} {s : Server} (h : Configured keys s.service)
    (steps : List Step) : Configured keys (s.run steps).service := by
  induction steps generalizing s with
  | nil => exact h
  | cons step rest ih => exact ih (configured_step h step)

/-- In every run from a valid configuration, the configuration in the store stays valid with the
blocks that are in use, the limiters and the queue are configured as it says, and its keys stay the
same. -/
theorem configuration_in_agreement {c : Config} {store : Config.Store} (h : c.validate = .ok store)
    (instruments : Instruments) (rig : Rig) (ioTimeout : Int) (steps : List Step) :
    let s := ((new (Service.new store instruments rig) ioTimeout).run steps).service
    s.store.config.validate = .ok s.store ∧
      s.ingress.limit = s.store.config.ingress ∧
      s.drivetrain.limiter.limit = s.store.config.execution ∧
      s.drivetrain.backlog.capacity = s.store.config.queueMaxsize ∧
      s.store.config.apiKeys = c.apiKeys := by
  intro s
  have hs : Configured c.apiKeys s := configured_run (configured_new h instruments rig) steps
  exact ⟨hs.valid, hs.ingress, hs.execution, hs.queueMaxsize, hs.apiKeys⟩

/-- A request to a server for development that shortens its queue and changes a limit. -/
def Step.shorten : Step :=
  .request (ascii "PATCH") (ascii "/config") [(apiKeyHeader, ascii "local")] (.value (.object [
    (Config.LimitField.execution.name, .object
      [(ascii "rate_per_second", .number 2), (ascii "burst", .number 7)]),
    (ascii "queue_maxsize", .number 3)]))

theorem configuration_in_agreement_shortened :
    let store : Config.Store := ⟨.standard, [⟨.v4 127 0 0 0, 8⟩]⟩
    let start := new (Service.new store .standard (Rig.new (Timeline.start none))) standardIoTimeout
    let s := (start.run [.start false, .hold, .post "/drive/differential" fullSpeedBody,
      .shorten, .shutdown]).service
    Config.standard.validate = .ok store ∧
      s.drivetrain.backlog.capacity = 3 ∧ s.store.config.queueMaxsize = 3 ∧
      s.drivetrain.limiter.limit.burst = 7 ∧ s.store.config.execution.burst = 7 := by
  intro store start s
  have hvalid : Config.standard.validate = .ok store :=
    Config.validate_eq_ok_iff.2
      ⟨⟨by decide, by decide, by decide +kernel, by decide +kernel, by decide⟩, rfl, by decide⟩
  have hcapacity : s.drivetrain.backlog.capacity = 3 := by decide +kernel
  have hburst : s.drivetrain.limiter.limit.burst = 7 := by decide +kernel
  obtain ⟨-, -, hexecution, hmaxsize, -⟩ := configuration_in_agreement hvalid .standard
    (Rig.new (Timeline.start none)) standardIoTimeout
    [.start false, .hold, .post "/drive/differential" fullSpeedBody, .shorten, .shutdown]
  refine ⟨hvalid, hcapacity, ?_, hburst, ?_⟩
  · rw [← hcapacity, hmaxsize]
  · rw [← hburst, hexecution]

end Server

end RoverControl
