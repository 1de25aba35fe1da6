import RoverControl.Proofs.Service.Access
import RoverControl.Proofs.Service.Reconfigure

/-!
# Services with other keys

`Service.withKeys` gives a service other keys and leaves all else as it is.  The keys are read in
one place, where a request is let in or denied, and nothing ever writes them.  So a request that
shows a key of both services or of neither has both of them answer and change alike
(`Service.handle_withKeys`).
-/

namespace RoverControl

/-- A request does not tell the keys from the others: the key it shows is one of both or of
neither. -/
def Headers.ShowAlike (keys keys' : List Bytes) (headers : Headers) : Prop :=
  ∀ k ∈ headers.find? apiKeyHeader, (k ∈ keys ↔ k ∈ keys')

instance (keys keys' : List Bytes) (headers : Headers) :
    Decidable (headers.ShowAlike keys keys') :=
  inferInstanceAs (Decidable (∀ k ∈ headers.find? apiKeyHeader, (k ∈ keys ↔ k ∈ keys')))

namespace Config.Store

def withKeys (store : Store) (keys : List Bytes) : Store :=
  { store with config := { store.config with apiKeys := keys } }

theorem denial_withKeys {store : Store} {keys : List Bytes} {headers : Headers}
    (h : headers.ShowAlike store.config.apiKeys keys) :
    (store.withKeys keys).denial headers = store.denial headers := by
  have hkey : (headers.find? apiKeyHeader).any (store.withKeys keys).hasKey =
      (headers.find? apiKeyHeader).any store.hasKey := by
    rcases hk : headers.find? apiKeyHeader with _ | k
    · rfl
    · rw [Option.any_some, Option.any_some, hasKey, hasKey, Bool.eq_iff_iff,
        List.contains_iff_mem, List.contains_iff_mem]
      exact (h k hk).symm
  unfold denial
  rw [hkey]
  rfl

/-- Stores of valid configurations that differ in nothing but the keys differ in nothing else. -/
theorem eq_withKeys {c : Config} {keys : List Bytes} {store store' : Store}
    (h : c.validate = .ok store) (h' : { c with apiKeys := keys }.validate = .ok store') :
    store' = store.withKeys keys := by
  obtain ⟨-, hconfig, hnetworks⟩ := Config.validate_eq_ok_iff.1 h
  obtain ⟨-, hconfig', hnetworks'⟩ := Config.validate_eq_ok_iff.1 h'
  rcases store with ⟨config, networks⟩
  rcases store' with ⟨config', networks'⟩
  subst hconfig hconfig'
  cases hnetworks.symm.trans hnetworks'
  rfl

end Config.Store

/-- The servo after it has moved to some positions, one after the other. -/
def Servo.follow (servo : Servo) (moves : List (Float × Float)) : Servo :=
  moves.foldl (fun servo move => servo.moveTo move.1 move.2) servo

@[simp]
theorem Servo.follow_nil (servo : Servo) : servo.follow [] = servo := rfl

theorem Servo.follow_append (servo : Servo) (moves moves' : List (Float × Float)) :
    servo.follow (moves ++ moves') = (servo.follow moves).follow moves' := List.foldl_append

namespace Service

def withKeys (s : Service) (keys : List Bytes) : Service :=
  { s with store := s.store.withKeys keys }

variable {s : Service} {keys : List Bytes}

/-- What a service answers and becomes, with other keys. -/
def rekey {α : Type} (keys : List Bytes) (r : α × Service) : α × Service := (r.1, r.2.withKeys keys)

theorem handleDrive_withKeys (s : Service) (keys : List Bytes) (body : Json) :
    (s.withKeys keys).handleDrive body = rekey keys (s.handleDrive body) := by
  unfold handleDrive
  rcases readCommand body with e | c
  · rfl
  · simp only [now, withKeys]
    rcases s.ingress.allow s.drivetrain.rig.time.now with ⟨_ | _, ingress⟩
    · rfl
    · dsimp only
      rcases s.drivetrain.enqueue c with ⟨_ | depth, d⟩ <;> rfl

theorem handlePanTilt_withKeys (s : Service) (keys : List Bytes) (body : Json) :
    (s.withKeys keys).handlePanTilt body = rekey keys (s.handlePanTilt body) := by
  unfold handlePanTilt
  rcases readAngle body (ascii "pan_deg") 90 with e | pan
  · rfl
  · dsimp only
    rcases readAngle body (ascii "tilt_deg") 45 with e | tilt
    · rfl
    · dsimp only
      by_cases hf : s.drivetrain.rig.faults.contains .servo = true
      · rw [if_pos hf, if_pos (by exact hf)]
        rfl
      · rw [if_neg hf, if_neg (by exact hf)]
        rfl

theorem handlePatchConfig_withKeys (s : Service) (keys : List Bytes) (body : Json) :
    (s.withKeys keys).handlePatchConfig body = rekey keys (s.handlePatchConfig body) := by
  rcases h : Config.Patch.ofJson body with e | p
  · rw [handlePatchConfig_of_error h, handlePatchConfig_of_error h]
    rfl
  · have hp := Config.Patch.ofJson_eq_ok_iff.1 h
    rw [handlePatchConfig_of_denotes hp, handlePatchConfig_of_denotes hp]
    rfl

/-- No handler asks for the keys. -/
theorem runRoute_withKeys (s : Service) (keys : List Bytes) (body : Json) (route : Route) :
    (s.withKeys keys).runRoute body route = rekey keys (s.runRoute body route) := by
  cases route with
  | drive => exact s.handleDrive_withKeys keys body
  | patchConfig => exact s.handlePatchConfig_withKeys keys body
  | panTilt => exact s.handlePanTilt_withKeys keys body
  | ultrasonic =>
    simp only [runRoute, handleUltrasonic, withKeys]
    rcases s.instruments.ultrasonic.read with _ | ⟨reading, ultrasonic⟩ <;> rfl
  | line =>
    simp only [runRoute, handleLine, withKeys]
    rcases s.instruments.line.next with _ | ⟨reading, line⟩ <;> rfl
  | _ => rfl

/-- A request that does not tell the keys from the others is answered alike. -/
theorem handle_withKeys {headers : Headers}
    (h : headers.ShowAlike s.store.config.apiKeys keys) (method path : Bytes) (body : Json) :
    (s.withKeys keys).handle method path body headers =
      rekey keys (s.handle method path body headers) := by
  have houtcome : (s.withKeys keys).outcome method path body headers =
      rekey keys (s.outcome method path body headers) := by
    unfold outcome
    rw [show (s.withKeys keys).store.denial headers = s.store.denial headers from
      Config.Store.denial_withKeys h]
    rcases s.store.denial headers with _ | e
    · rcases Route.find? method path with _ | route
      · rfl
      · exact s.runRoute_withKeys keys _ route
    · rfl
  unfold handle
  rw [houtcome]
  rfl

/-! ## The servo -/

/-- The position that the servo is asked for in a body, if both angles can be read. -/
def position? (body : Json) : Option (Float × Float) :=
  match readAngle body (ascii "pan_deg") 90, readAngle body (ascii "tilt_deg") 45 with
  | .ok pan, .ok tilt => some (pan, tilt)
  | _, _ => none

/-- The position that a service has the servo move to for a request, if it is let in. -/
def servoCall? (s : Service) (method path : Bytes) (body : Json) (headers : Headers) :
    Option (Float × Float) :=
  match s.store.denial headers, Route.find? method path with
  | none, some .panTilt => position? (handlerBody body)
  | _, _ => none

/-- What the servo carries out of a call: nothing if it refuses its calls. -/
def carriedOut (s : Service) (call? : Option (Float × Float)) : Option (Float × Float) :=
  if s.drivetrain.rig.faults.contains .servo then none else call?

theorem servo_handlePanTilt (s : Service) (body : Json) :
    (s.handlePanTilt body).2.instruments.servo =
      s.instruments.servo.follow (s.carriedOut (position? body)).toList := by
  unfold handlePanTilt position?
  rcases readAngle body (ascii "pan_deg") 90 with e | pan
  · simp [carriedOut]
  · dsimp only
    rcases readAngle body (ascii "tilt_deg") 45 with e | tilt
    · simp [carriedOut]
    · dsimp only [carriedOut]
      split <;> rfl

/-- Only the routes of the instruments use them. -/
theorem instruments_runRoute (s : Service) (body : Json) {route : Route} (hservo : route ≠ .panTilt)
    (hultrasonic : route ≠ .ultrasonic) (hline : route ≠ .line) :
    (s.runRoute body route).2.instruments = s.instruments := by
  cases route with
  | panTilt => exact absurd rfl hservo
  | ultrasonic => exact absurd rfl hultrasonic
  | line => exact absurd rfl hline
  | drive =>
    rw [runRoute, handleDrive]
    repeat' split
    all_goals rfl
  | patchConfig =>
    rcases s.handlePatchConfig_cases body with ⟨e, -, ho⟩ | ⟨p, -, ho⟩ <;> rw [runRoute, ho]
    rfl
  | _ => rfl

theorem servo_runRoute (s : Service) (body : Json) {route : Route} (h : route ≠ .panTilt) :
    (s.runRoute body route).2.instruments.servo = s.instruments.servo := by
  cases route with
  | panTilt => exact absurd rfl h
  | ultrasonic =>
    rw [runRoute, handleUltrasonic]
    split <;> rfl
  | line =>
    rw [runRoute, handleLine]
    split <;> rfl
  | _ => rw [s.instruments_runRoute] <;> decide

/-- The servo moves when it is called, and only then. -/
theorem servo_handle (s : Service) (method path : Bytes) (body : Json) (headers : Headers) :
    (s.handle method path body headers).2.instruments.servo =
      s.instruments.servo.follow (s.carriedOut (s.servoCall? method path body headers)).toList := by
  show (s.outcome method path body headers).2.instruments.servo = _
  have hnone : s.instruments.servo.follow (s.carriedOut none).toList = s.instruments.servo := by
    simp [carriedOut]
  unfold outcome servoCall?
  rcases s.store.denial headers with _ | e
  · rcases Route.find? method path with _ | route
    · exact hnone.symm
    · by_cases hroute : route = .panTilt
      · subst hroute
        exact s.servo_handlePanTilt (handlerBody body)
      · refine (s.servo_runRoute (handlerBody body) hroute).trans ?_
        cases route <;> first | exact hnone.symm | exact absurd rfl hroute
  · exact hnone.symm

end Service

end RoverControl
