import RoverControl.Proofs.Hardware.Ultrasonic
import RoverControl.Proofs.Server.Keys

/-!
# The ultrasonic sensor of a server

The sensor of a server is called for each request for a distance that is let in, and by nothing else
(`Server.ultrasonic_run`).  An answer with a valid distance tells a history that ends with it
(`Service.reading_ends_history`).
-/

namespace RoverControl

/-- Distances are asked for under one path, with the method in capital or small letters. -/
theorem Route.find?_ultrasonic {method : Bytes} (h : method.toUpper = ascii "GET") :
    Route.find? method (ascii "/telemetry/ultrasonic") = some .ultrasonic := by
  unfold Route.find?
  rw [h]
  decide

namespace Service

variable (s : Service)

/-! ## Requests -/

/-- A request for a distance that is let in. -/
def measures (method path : Bytes) (headers : Headers) : Bool :=
  (s.store.denial headers).isNone && decide (Route.find? method path = some .ultrasonic)

theorem ultrasonic_handleUltrasonic :
    s.handleUltrasonic.2.instruments.ultrasonic = s.instruments.ultrasonic.afterRead := by
  unfold handleUltrasonic Ultrasonic.afterRead
  rcases s.instruments.ultrasonic.read with _ | ⟨reading, ultrasonic⟩ <;> rfl

theorem ultrasonic_runRoute (body : Json) {route : Route} (h : route ≠ .ultrasonic) :
    (s.runRoute body route).2.instruments.ultrasonic = s.instruments.ultrasonic := by
  cases route with
  | ultrasonic => exact absurd rfl h
  | panTilt =>
    rw [runRoute, handlePanTilt]
    repeat' split
    all_goals rfl
  | line =>
    rw [runRoute, handleLine]
    split <;> rfl
  | _ => rw [s.instruments_runRoute] <;> decide

/-- The sensor is called once for a request that measures, and not at all for another. -/
theorem ultrasonic_handle (method path : Bytes) (body : Json) (headers : Headers) :
    (s.handle method path body headers).2.instruments.ultrasonic =
      (s.instruments.ultrasonic.calls (s.measures method path headers).toNat).2 := by
  show (s.outcome method path body headers).2.instruments.ultrasonic = _
  unfold outcome measures
  rcases s.store.denial headers with _ | e
  · rcases Route.find? method path with _ | route
    · rfl
    · by_cases hroute : route = .ultrasonic
      · subst hroute
        exact s.ultrasonic_handleUltrasonic
      · refine (s.ultrasonic_runRoute (handlerBody body) hroute).trans ?_
        simp [hroute, Ultrasonic.calls]
  · rfl

/-! ## Answers -/

/-- What is told of a valid reading. -/
def validReading (distance : Float) : Json := .object (readingMembers ⟨distance, true⟩)

/-- The answer to a request for a distance, if it tells a valid one, tells a history that ends with
the same. -/
theorem reading_ends_history {s : Service} {method path : Bytes}
    (hroute : Route.find? method path = some .ultrasonic)
    (hsize : 0 < s.instruments.ultrasonic.historySize) {body : Json} {headers : Headers}
    (hvalid : (s.handle method path body headers).1.body.find? (ascii "valid") =
      some (.bool true)) :
    ∃ distance earlier,
      (s.handle method path body headers).1.body.find? (ascii "distance_m") =
          some (.number distance) ∧
        (s.handle method path body headers).1.body.find? (ascii "history") =
          some (.array (earlier ++ [validReading distance])) := by
  rcases hdenial : s.store.denial headers with _ | e
  · rw [handle_of_route hdenial hroute] at hvalid ⊢
    dsimp only [runRoute] at hvalid ⊢
    rcases hread : s.instruments.ultrasonic.read with _ | ⟨⟨distance, valid⟩, sensor⟩
    · simp only [handleUltrasonic, hread] at hvalid
      cases hvalid
    · simp only [handleUltrasonic, hread] at hvalid ⊢
      have hv : valid = true := by
        cases valid
        · cases hvalid
        · rfl
      subst hv
      obtain ⟨earlier, hhistory⟩ := Ultrasonic.history_of_read hread rfl hsize
      refine ⟨distance, earlier.map fun r => Json.object (readingMembers r), rfl, ?_⟩
      rw [hhistory, List.map_append]
      rfl
  · rw [handle_of_denial hdenial] at hvalid
    cases hvalid

end Service

namespace Server

variable (s : Server)

/-! ## Runs -/

/-- A step that brings a request for a distance, which is let in. -/
def measures (step : Step) : Bool :=
  (s.handed step).any fun m => s.service.measures m.method m.path m.headers

/-- The number of requests for a distance that are let in during a run. -/
def measurements (s : Server) : List Step → Nat
  | [] => 0
  | step :: rest => (s.measures step).toNat + (s.step step).2.measurements rest

theorem ultrasonic_step (step : Step) :
    (s.step step).2.service.instruments.ultrasonic =
      (s.service.instruments.ultrasonic.calls (s.measures step).toNat).2 := by
  show (s.begun.act step).2.service.instruments.ultrasonic = _
  unfold measures
  rcases hm : s.handed step with _ | m
  · rw [instruments_act_own (s := s.begun) ((s.handed_begun step).trans hm)]
    rfl
  · rw [(answered_of_handed (s := s.begun) ((s.handed_begun step).trans hm)).service_eq]
    exact s.begun.service.ultrasonic_handle m.method m.path m.body m.headers

/-- The sensor is called as often as a distance is measured, and otherwise left alone. -/
theorem ultrasonic_run (steps : List Step) :
    (s.run steps).service.instruments.ultrasonic =
      (s.service.instruments.ultrasonic.calls (s.measurements steps)).2 := by
  induction steps generalizing s with
  | nil => rfl
  | cons step rest ih =>
    show ((s.step step).2.run rest).service.instruments.ultrasonic = _
    rw [ih, ultrasonic_step, measurements, Ultrasonic.calls_add]

/-! ## The sensor of a server that has been set up -/

/-- A sensor with a script answers its calls with the distances of the script, which begins anew
whenever it ends; a reading is valid if the distance is positive, and the history is the latest of
the valid readings, as many as there is room for, the oldest one first.  A sensor with an empty
script never responds and remembers nothing.  In every run of a server, which answers one request at
a time, the sensor is called once for each request for a distance that is let in.  If there is room
for a reading and an answer tells a valid distance, the history that it tells ends with this
distance. -/
theorem distances_replayed_and_remembered (script : List Float) (size : Nat) :
    let sensor := Ultrasonic.new script size
    (script ≠ [] → ∀ n,
      let answers := (sensor.calls n).1
      let history := (sensor.calls n).2.history
      answers.length = n ∧
      (∀ i < n, ∃ x, script[i % script.length]? = some x ∧
        answers[i]? = some (some ⟨x, decide (0 < x)⟩)) ∧
      history <:+ Ultrasonic.validReadings answers ∧
      history.length = min size (Ultrasonic.validReadings answers).length) ∧
    (script = [] → ∀ n,
      (sensor.calls n).1 = List.replicate n none ∧ (sensor.calls n).2.history = []) ∧
    ∀ store servo line rig ioTimeout steps,
      let start := new (Service.new store ⟨servo, sensor, line⟩ rig) ioTimeout
      let service := (start.run steps).service
      service.instruments.ultrasonic = (sensor.calls (start.measurements steps)).2 ∧
      (0 < size → ∀ method body headers, method.toUpper = ascii "GET" →
        let answer := (service.handle method (ascii "/telemetry/ultrasonic") body headers).1.body
        answer.find? (ascii "valid") = some (.bool true) →
          ∃ distance earlier, answer.find? (ascii "distance_m") = some (.number distance) ∧
            answer.find? (ascii "history") =
              some (.array (earlier ++ [Service.validReading distance]))) := by
  intro sensor
  refine ⟨fun hscript n => ?_, fun hscript n => ?_, ?_⟩
  · have hcalled : Ultrasonic.Called script size n (sensor.calls n).1 (sensor.calls n).2 :=
      Ultrasonic.called_calls hscript n
    exact ⟨sensor.length_answers n, fun i hi => hcalled.answer hscript hi, hcalled.latest⟩
  · subst hscript
    exact ⟨congrArg Prod.fst (Ultrasonic.calls_nil size n),
      congrArg (·.2.history) (Ultrasonic.calls_nil size n)⟩
  · intro store servo line rig ioTimeout steps start service
    have hrun : service.instruments.ultrasonic = (sensor.calls (start.measurements steps)).2 :=
      start.ultrasonic_run steps
    refine ⟨hrun, ?_⟩
    intro hsize method body headers hmethod answer hvalid
    have hroom : 0 < service.instruments.ultrasonic.historySize := by
      rw [hrun, Ultrasonic.historySize_calls]
      exact hsize
    exact Service.reading_ends_history (Route.find?_ultrasonic hmethod) hroom hvalid

end Server

end RoverControl
