import RoverControl.Proofs.Config.Validation
import RoverControl.Proofs.Service.Unfold

/-!
# Changing the configuration

A patch that has been read can be used, so neither of the limiters nor the queue refuses its part
of it, and the handler carries the patch out as a whole: it gives the store and the parts that the
store governs their new settings and leaves everything else as it is (`Service.reconfigured`).  So
every setting is the old one where the body has nothing for it, and what the body says where it has
(`Service.Resettled`).  A request with a body that denotes no patch does nothing but count
(`Service.patch_all_or_nothing`).
-/

namespace RoverControl

open Config

namespace Service

/-- The service with the settings of a patch, in the store and in the parts that it governs. -/
def reconfigured (s : Service) (p : Patch) : Service := { s with
  store := {
    config := { s.store.config with
      allowedNetworks := p.allowedNetworks.getD s.store.config.allowedNetworks
      ingress := p.ingress.getD s.store.config.ingress
      execution := p.execution.getD s.store.config.execution
      queueMaxsize := p.queueMaxsize.getD s.store.config.queueMaxsize }
    networks := if p.allowedNetworks.isSome then p.networks else s.store.networks }
  ingress := { s.ingress with limit := p.ingress.getD s.ingress.limit }
  drivetrain := { s.drivetrain with
    backlog := { s.drivetrain.backlog with
      capacity := p.queueMaxsize.getD s.drivetrain.backlog.capacity }
    limiter := { s.drivetrain.limiter with
      limit := p.execution.getD s.drivetrain.limiter.limit } } }

theorem store_apply (s : Service) (p : Patch) : s.store.apply p = (s.reconfigured p).store := rfl

/-! ## What a body makes of the settings -/

/-- A setting stays as it is if there is no value for it, and else is what the value denotes. -/
def Follows {α : Type} (v? : Option Json) (Denotes : Json → α → Prop) (old new : α) : Prop :=
  match v? with
  | none => new = old
  | some v => Denotes v new

/-- Every setting of a service, in the store and in the part that the store governs, follows the
member of a payload that tells it; one that is absent or null tells nothing.  No member tells the
keys. -/
structure Resettled (payload : Json) (s s' : Service) : Prop where
  apiKeys : s'.store.config.apiKeys = s.store.config.apiKeys
  ingress : Follows (Patch.present? payload LimitField.ingress.name) Patch.DenotesLimit
    s.store.config.ingress s'.store.config.ingress
  ingressLimiter : Follows (Patch.present? payload LimitField.ingress.name) Patch.DenotesLimit
    s.ingress.limit s'.ingress.limit
  execution : Follows (Patch.present? payload LimitField.execution.name) Patch.DenotesLimit
    s.store.config.execution s'.store.config.execution
  executionLimiter : Follows (Patch.present? payload LimitField.execution.name) Patch.DenotesLimit
    s.drivetrain.limiter.limit s'.drivetrain.limiter.limit
  queueMaxsize : Follows (Patch.present? payload (ascii "queue_maxsize")) Patch.DenotesMaxsize
    s.store.config.queueMaxsize s'.store.config.queueMaxsize
  capacity : Follows (Patch.present? payload (ascii "queue_maxsize")) Patch.DenotesMaxsize
    s.drivetrain.backlog.capacity s'.drivetrain.backlog.capacity
  networks : Follows (Patch.present? payload (ascii "allowed_networks"))
    (fun v networks => Patch.DenotesNetworks v networks.1 networks.2)
    (s.store.config.allowedNetworks, s.store.networks)
    (s'.store.config.allowedNetworks, s'.store.networks)

theorem follows_none {α : Type} {Denotes : Json → α → Prop} {old new : α}
    (h : Follows none Denotes old new) : new = old := h

theorem follows_getD {α : Type} {v? : Option Json} {Denotes : Json → α → Prop} {new? : Option α}
    (h : Option.Rel Denotes v? new?) (old : α) : Follows v? Denotes old (new?.getD old) := by
  cases h with
  | none => rfl
  | some h => exact h

/-- The texts of the networks and their blocks change together. -/
theorem follows_networks {v? : Option Json} {texts? : Option (List Bytes)}
    {blocks : List Net.Block} (h : Option.Rel (Patch.DenotesNetworks · · blocks) v? texts?)
    (texts : List Bytes) (old : List Net.Block) :
    Follows v? (fun v networks => Patch.DenotesNetworks v networks.1 networks.2) (texts, old)
      (texts?.getD texts, if texts?.isSome then blocks else old) := by
  cases h with
  | none => rfl
  | some h => exact h

/-- A payload that tells neither limit and no networks leaves the rest of the stored
configuration. -/
theorem Resettled.config_eq {payload : Json} {s s' : Service} (h : Resettled payload s s')
    (hlimit : ∀ field : LimitField, Patch.present? payload field.name = none)
    (hnetworks : Patch.present? payload (ascii "allowed_networks") = none) {maxsize : Nat}
    (hmaxsize : s'.store.config.queueMaxsize = maxsize) :
    s'.store.config = { s.store.config with queueMaxsize := maxsize } := by
  have hpair := follows_none (hnetworks ▸ h.networks)
  refine Config.ext h.apiKeys (congrArg Prod.fst hpair) ?_ ?_ hmaxsize
  · exact follows_none (hlimit .ingress ▸ h.ingress)
  · exact follows_none (hlimit .execution ▸ h.execution)

theorem resettled_reconfigured {payload : Json} {p : Patch} (h : Patch.Denotes payload p)
    (s : Service) : Resettled payload s (s.reconfigured p) where
  apiKeys := rfl
  ingress := follows_getD h.ingress _
  ingressLimiter := follows_getD h.ingress _
  execution := follows_getD h.execution _
  executionLimiter := follows_getD h.execution _
  queueMaxsize := follows_getD h.queueMaxsize _
  capacity := follows_getD h.queueMaxsize _
  networks := follows_networks h.allowedNetworks _ _

/-! ## Carrying a patch out -/

theorem configureField_of_isValid {b : TokenBucket Float} {limit? : Option (RateLimit Float)}
    (h : ∀ l ∈ limit?, l.isValid = true) :
    configureField b limit? = some { b with limit := limit?.getD b.limit } := by
  rcases limit? with _ | limit
  · rfl
  · exact if_pos (h limit rfl)

theorem resizeField_of_ne {d : Drivetrain} {maxsize? : Option Nat} (h : ∀ n ∈ maxsize?, n ≠ 0) :
    resizeField d maxsize? = some { d with
      backlog := { d.backlog with capacity := maxsize?.getD d.backlog.capacity } } := by
  rcases maxsize? with _ | maxsize
  · rfl
  · exact if_neg (h maxsize rfl)

theorem handlePatchConfig_of_error {s : Service} {body : Json} {e : Patch.Error}
    (h : Patch.ofJson body = .error e) :
    s.handlePatchConfig body = (.error (.validation e.message), s) := by
  unfold handlePatchConfig
  rw [h]

theorem handlePatchConfig_of_denotes {s : Service} {body : Json} {p : Patch}
    (h : Patch.Denotes body p) :
    s.handlePatchConfig body =
      (.ok ⟨200, (s.reconfigured p).store.config.snapshot⟩, s.reconfigured p) := by
  unfold handlePatchConfig
  simp only [Patch.ofJson_eq_ok_iff.2 h, configureField_of_isValid h.usable.ingress,
    configureField_of_isValid h.usable.execution, resizeField_of_ne h.usable.queueMaxsize_ne,
    store_apply]
  rfl

theorem handlePatchConfig_cases (s : Service) (body : Json) :
    (∃ e, Patch.ofJson body = .error e ∧
      s.handlePatchConfig body = (.error (.validation e.message), s)) ∨
    ∃ p, Patch.Denotes body p ∧
      s.handlePatchConfig body =
        (.ok ⟨200, (s.reconfigured p).store.config.snapshot⟩, s.reconfigured p) := by
  rcases h : Patch.ofJson body with e | p
  · exact Or.inl ⟨e, rfl, handlePatchConfig_of_error h⟩
  · have hp := Patch.ofJson_eq_ok_iff.1 h
    exact Or.inr ⟨p, hp, handlePatchConfig_of_denotes hp⟩

theorem handle_of_route {s : Service} {method path : Bytes} {headers : Headers} {route : Route}
    (haccess : s.store.denial headers = none) (hroute : Route.find? method path = some route)
    (body : Json) :
    s.handle method path body headers =
      ((s.runRoute (handlerBody body) route).1.response,
        { (s.runRoute (handlerBody body) route).2 with
          metrics := (s.runRoute (handlerBody body) route).2.metrics.record
            (s.runRoute (handlerBody body) route).1.response.status }) := by
  have ho : s.outcome method path body headers = s.runRoute (handlerBody body) route := by
    unfold outcome
    rw [haccess, hroute]
    rfl
  unfold handle
  rw [ho]

/-- A request to change the configuration that is let in is answered 422 if its body denotes no
patch, and then does nothing but count; else the body denotes a patch, which neither a limiter nor
the queue refuses, and the request is answered 200 with the new settings.  Then it changes nothing
but the settings, and these follow the body: what the body does not have stays as it is, in the
store and in the limiters and the queue alike, and so do the keys. -/
theorem patch_all_or_nothing {s : Service} {method path : Bytes} {headers : Headers}
    (haccess : s.store.denial headers = none)
    (hroute : Route.find? method path = some .patchConfig) (body : Json) :
    (∃ e, Patch.ofJson (handlerBody body) = .error e ∧
      s.handle method path body headers =
        (⟨422, Http.detailBody e.message⟩,
          { s with
            metrics := { s.metrics with
              requests := s.metrics.requests + 1
              validationFailures := s.metrics.validationFailures + 1 } })) ∨
    ∃ p, Patch.Denotes (handlerBody body) p ∧
      ((configureField s.ingress p.ingress).isSome ∧
        (configureField s.drivetrain.limiter p.execution).isSome ∧
        ∀ limiter, (resizeField { s.drivetrain with limiter } p.queueMaxsize).isSome) ∧
      s.handle method path body headers =
        (⟨200, (s.reconfigured p).store.config.snapshot⟩,
          { s.reconfigured p with
            metrics := { s.metrics with
              requests := s.metrics.requests + 1
              succeeded := s.metrics.succeeded + 1 } }) ∧
      Resettled (handlerBody body) s (s.handle method path body headers).2 := by
  rw [handle_of_route haccess hroute, runRoute]
  rcases s.handlePatchConfig_cases (handlerBody body) with ⟨e, he, ho⟩ | ⟨p, hp, ho⟩
  · rw [ho]
    exact Or.inl ⟨e, he, rfl⟩
  · have hsettled := resettled_reconfigured hp s
    rw [ho]
    refine Or.inr ⟨p, hp, ⟨?_, ?_, fun limiter => ?_⟩, rfl, { hsettled with }⟩
    · rw [configureField_of_isValid hp.usable.ingress]
      rfl
    · rw [configureField_of_isValid hp.usable.execution]
      rfl
    · rw [resizeField_of_ne hp.usable.queueMaxsize_ne]
      rfl

/-- A service for development in which two commands wait while the drive call of a third one is
held. -/
def crowded : Service :=
  let store : Store := ⟨.standard, [⟨.v4 127 0 0 0, 8⟩]⟩
  let started := ((new store .standard (Rig.new (Timeline.start none))).start false).2
  let drive (s : Service) : Service :=
    (s.handleDrive (.object [(ascii "left_speed", .number 1), (ascii "right_speed", .number 1)])).2
  drive (drive (drive (started.mapDrivetrain Drivetrain.hold)))

/-- The queue is made shorter than the line in it, in the store too; the limit for accepting
commands is null, and nothing is said of the networks. -/
theorem patch_crowded :
    let body : Json := .object
      [(LimitField.ingress.name, .null), (ascii "queue_maxsize", .number 1)]
    let headers : Headers := [(apiKeyHeader, ascii "local")]
    let after := crowded.handle (ascii "PATCH") (ascii "/config") body headers
    crowded.store.denial headers = none ∧ crowded.drivetrain.backlog.size = 2 ∧
      after.1.status = 200 ∧
      after.2.store.config = { crowded.store.config with queueMaxsize := 1 } ∧
      after.2.store.networks = crowded.store.networks ∧
      after.2.drivetrain.backlog.capacity = 1 ∧
      after.2.drivetrain.backlog.items = crowded.drivetrain.backlog.items ∧
      after.2.drivetrain.worker = crowded.drivetrain.worker ∧
      after.2.ingress = crowded.ingress := by
  intro body headers after
  have hsize : crowded.drivetrain.backlog.size = 2 := by decide +kernel
  have hstatus : after.1.status = 200 := by decide +kernel
  have hmaxsize : after.2.store.config.queueMaxsize = 1 := by decide +kernel
  have hcapacity : after.2.drivetrain.backlog.capacity = 1 := by decide +kernel
  have haccess : crowded.store.denial headers = none :=
    Option.isNone_iff_eq_none.1 (by decide +kernel)
  have hroute : Route.find? (ascii "PATCH") (ascii "/config") = some .patchConfig := by decide
  rcases patch_all_or_nothing haccess hroute body with ⟨e, -, h⟩ | ⟨p, -, -, h, hsettled⟩
  · have hafter : after = _ := h
    rw [hafter] at hstatus
    cases hstatus
  · have hafter : after = _ := h
    have hsettled : Resettled body crowded after.2 := hsettled
    have hlimit : ∀ field : LimitField, Patch.present? body field.name = none := by
      rintro (_ | _) <;> rfl
    have habsent : Patch.present? body (ascii "allowed_networks") = none := rfl
    obtain ⟨-, hnetworks⟩ := Prod.mk.inj (follows_none (habsent ▸ hsettled.networks))
    have hingress := follows_none (hlimit .ingress ▸ hsettled.ingressLimiter)
    refine ⟨haccess, hsize, hstatus, ?_, hnetworks, hcapacity, ?_, ?_, ?_⟩
    · exact hsettled.config_eq hlimit habsent hmaxsize
    · rw [hafter]
      simp only [reconfigured]
    · rw [hafter]
      simp only [reconfigured]
    · have htokens : after.2.ingress = { crowded.ingress with limit := after.2.ingress.limit } := by
        rw [hafter]
        simp only [reconfigured]
      rw [htokens, hingress]

end Service

end RoverControl
