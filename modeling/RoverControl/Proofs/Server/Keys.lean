import RoverControl.Proofs.Server.Order
import RoverControl.Proofs.Service.Keys

/-!
# Servers with other keys

Two servers that differ in nothing but their keys take every step alike as long as no request shows
a key that only one of them has (`Server.step_withKeys`).  So in every such run they give the same
answers, make the same calls, and still differ in nothing but their keys
(`Server.keys_leave_no_trace`).
-/

namespace RoverControl

theorem Headers.ShowAlike.of_find? {keys keys' : List Bytes} {headers headers' : Headers}
    (h : headers.ShowAlike keys keys')
    (hfind : headers'.find? apiKeyHeader = headers.find? apiKeyHeader) :
    headers'.ShowAlike keys keys' := fun k hk => h k (hfind ▸ hk)

namespace Server

def withKeys (s : Server) (keys : List Bytes) : Server := s.mapService (·.withKeys keys)

/-- The keys of a server. -/
abbrev keys (s : Server) : List Bytes := s.service.store.config.apiKeys

/-- What a server answers and becomes, with other keys. -/
def rekey {α : Type} (keys : List Bytes) (r : α × Server) : α × Server := (r.1, r.2.withKeys keys)

/-- A step does not tell the keys from the others: if it brings a message, the key that the message
shows is one of both or of neither. -/
def Step.ShowsAlike (keys keys' : List Bytes) (step : Step) : Prop :=
  ∀ m ∈ step.message?, m.headers.ShowAlike keys keys'

instance (keys keys' : List Bytes) (step : Step) : Decidable (step.ShowsAlike keys keys') :=
  inferInstanceAs (Decidable (∀ m ∈ step.message?, m.headers.ShowAlike keys keys'))

variable {s : Server} {keys : List Bytes}

/-! ## Visits -/

/-- The service is shown the key that was sent. -/
theorem find?_apiKey_forwardedHeaders (store : Config.Store) (peer : Bytes) (headers : Headers) :
    (forwardedHeaders store peer headers).find? apiKeyHeader = headers.find? apiKeyHeader := by
  have hne : Headers.sameName forwardedForHeader apiKeyHeader = false := by decide
  unfold forwardedHeaders
  split
  · exact Headers.find?_add_of_ne hne peer headers
  · exact Headers.find?_assign_of_ne hne _ headers

theorem answer_withKeys {service : Service} {read : Except Http.Error Http.Request}
    (h : ∀ request body, read = .ok request → decodeBody request.body = .ok body →
      request.headers.ShowAlike service.store.config.apiKeys keys) (peer : Bytes) :
    answer (service.withKeys keys) peer read = Service.rekey keys (answer service peer read) := by
  unfold answer
  rcases read with e | request
  · rfl
  · dsimp only
    rcases hbody : decodeBody request.body with e | body
    · rfl
    · have hshow := (h request body rfl hbody).of_find?
        (find?_apiKey_forwardedHeaders service.store peer request.headers)
      have hhandle := Service.handle_withKeys hshow request.method request.path body
      exact congrArg (fun r => (Answer.mk r.1 (some (request.method, request.path)), r.2)) hhandle

theorem converse_withKeys {v : Visit}
    (h : ∀ m ∈ v.message?, m.headers.ShowAlike s.keys keys) (peer : Bytes) :
    (s.withKeys keys).converse v peer = rekey keys (s.converse v peer) := by
  rcases hread : (readRequest [] v.receipts).request with e | read
  · simp only [converse, hread]
    rfl
  · have hanswer : answer (s.withKeys keys).service peer read =
        Service.rekey keys (answer s.service peer read) := by
      refine answer_withKeys (fun request body hrequest hbody => ?_) peer
      subst hrequest
      have hm : v.message? = some ⟨request.method, request.path, request.headers, body⟩ := by
        simp only [Visit.message?, hread, hbody]
      exact h _ hm
    simp only [converse, hread]
    rw [hanswer]
    rcases answer s.service peer read with ⟨a, service⟩
    dsimp only [Service.rekey]
    by_cases herror : (sendAll a.response.format v.takes).error.isSome = true <;>
      simp only [herror, if_true] <;> rfl

theorem serve_withKeys {v : Visit} (h : ∀ m ∈ v.message?, m.headers.ShowAlike s.keys keys) :
    (s.withKeys keys).serve v = rekey keys (s.serve v) := by
  rcases hpoll : v.poll with _ | _ | e
  · rcases hpeer : v.peer with e | peer
    · simp only [serve, hpoll, hpeer]
      split <;> rfl
    · rw [serve_of_peer _ hpoll hpeer, serve_of_peer _ hpoll hpeer]
      have hconverse : (s.withKeys keys).connected.converse v (peerText peer) =
          rekey keys (s.connected.converse v (peerText peer)) :=
        converse_withKeys (s := s.connected) h (peerText peer)
      rw [hconverse]
      rfl
  · simp only [serve, hpoll]
    rfl
  · simp only [serve, hpoll]
    split <;> rfl

/-! ## Steps -/

theorem act_withKeys {step : Step} (h : step.ShowsAlike s.keys keys) :
    (s.withKeys keys).act step = rekey keys (s.act step) := by
  cases step with
  | request method path headers body' =>
    rcases hbody : body'.decode with e | body
    · simp only [act, hbody]
      rfl
    · have hm : Step.message? (.request method path headers body') =
          some ⟨method, path, headers, body⟩ := by simp only [Step.message?, hbody]
      have hhandle := Service.handle_withKeys (h _ hm) method path body
      simp only [act, hbody]
      exact congrArg (fun r => (StepAnswer.response r.1, { s with service := r.2 })) hhandle
  | visit v =>
    exact congrArg (fun r => (StepAnswer.report r.1, r.2)) (serve_withKeys h)
  | _ => rfl

/-- A server takes a step that does not tell its keys from others as it would with the others. -/
theorem step_withKeys {step : Step} (h : step.ShowsAlike s.keys keys) :
    (s.withKeys keys).step step = rekey keys (s.step step) := act_withKeys (s := s.begun) h

/-- No step changes the keys. -/
theorem keys_step (s : Server) (step : Step) : (s.step step).2.keys = s.keys := by
  have hsame : (s.withKeys s.keys).step step = rekey s.keys (s.step step) :=
    step_withKeys fun _ _ _ _ => Iff.rfl
  exact congrArg (fun r => r.2.keys) hsame

/-! ## Calls of the servo -/

/-- The position that the servo is asked for in a step. -/
def servoCall? (s : Server) (step : Step) : Option (Float × Float) :=
  (s.handed step).bind fun m => s.service.servoCall? m.method m.path m.body m.headers

/-- A step that hands the service no message does not use the instruments. -/
theorem instruments_act_own {step : Step} (h : s.handed step = none) :
    (s.act step).2.service.instruments = s.service.instruments := by
  cases step with
  | request method path headers body => rw [service_of_unreadable h]
  | visit v => rw [service_of_unheard h]
  | _ => rfl

/-- The position that the servo moves to in a step. -/
def servoMove? (s : Server) (step : Step) : Option (Float × Float) :=
  s.service.carriedOut (s.servoCall? step)

/-- The servo moves in a step where it is asked to and does not refuse, and only then. -/
theorem servo_step (s : Server) (step : Step) :
    (s.step step).2.service.instruments.servo =
      s.service.instruments.servo.follow (s.servoMove? step).toList := by
  show (s.begun.act step).2.service.instruments.servo = _
  unfold servoMove? servoCall?
  rcases hm : s.handed step with _ | m
  · rw [instruments_act_own (s := s.begun) ((s.handed_begun step).trans hm)]
    rw [Option.bind_none, Service.carriedOut, ite_self]
    rfl
  · rw [(answered_of_handed (s := s.begun) ((s.handed_begun step).trans hm)).service_eq]
    exact s.begun.service.servo_handle m.method m.path m.body m.headers

theorem toList_servoMove?_sublist (s : Server) (step : Step) :
    (s.servoMove? step).toList.Sublist (s.servoCall? step).toList := by
  unfold servoMove? Service.carriedOut
  split
  · exact List.nil_sublist _
  · exact List.Sublist.refl _

theorem handed_withKeys (s : Server) (keys : List Bytes) (step : Step) :
    (s.withKeys keys).handed step = s.handed step := by
  cases step <;> rfl

/-- What is handed to the service shows the key that was sent. -/
theorem Step.ShowsAlike.handed {step : Step} {keys' : List Bytes} (h : step.ShowsAlike keys keys')
    {m : Message} (hm : s.handed step = some m) : m.headers.ShowAlike keys keys' := by
  cases step with
  | request => exact h m hm
  | visit v =>
    obtain ⟨peer, sent, -, hsent, rfl⟩ := eq_forwarded_of_handedOf (s := s) hm
    exact (h sent hsent).of_find? (find?_apiKey_forwardedHeaders _ _ _)
  | _ => cases hm

theorem servoCall?_withKeys {step : Step} (h : step.ShowsAlike s.keys keys) :
    (s.withKeys keys).servoCall? step = s.servoCall? step := by
  unfold servoCall?
  rw [handed_withKeys]
  rcases hm : s.handed step with _ | m
  · rfl
  · show (s.service.withKeys keys).servoCall? m.method m.path m.body m.headers = _
    unfold Service.servoCall?
    rw [show (s.service.withKeys keys).store.denial m.headers = _ from
      Config.Store.denial_withKeys (h.handed hm)]
    rfl

theorem servoMove?_withKeys {step : Step} (h : step.ShowsAlike s.keys keys) :
    (s.withKeys keys).servoMove? step = s.servoMove? step := by
  unfold servoMove?
  rw [servoCall?_withKeys h]
  rfl

/-! ## Runs -/

/-- The answers of a run, in order. -/
def answers (s : Server) : List Step → List StepAnswer
  | [] => []
  | step :: rest => (s.step step).1 :: (s.step step).2.answers rest

/-- The positions that the servo is asked for in a run, in order. -/
def servoCalls (s : Server) : List Step → List (Float × Float)
  | [] => []
  | step :: rest => (s.servoCall? step).toList ++ (s.step step).2.servoCalls rest

/-- The positions that the servo moves to in a run, in order: those that it is asked for and does
not refuse. -/
def servoMoves (s : Server) : List Step → List (Float × Float)
  | [] => []
  | step :: rest => (s.servoMove? step).toList ++ (s.step step).2.servoMoves rest

theorem servoMoves_sublist (s : Server) (steps : List Step) :
    (s.servoMoves steps).Sublist (s.servoCalls steps) := by
  induction steps generalizing s with
  | nil => exact List.Sublist.refl _
  | cons step rest ih => exact (s.toList_servoMove?_sublist step).append (ih _)

/-- After a run the servo is where its moves have taken it. -/
theorem servo_run (s : Server) (steps : List Step) :
    (s.run steps).service.instruments.servo =
      s.service.instruments.servo.follow (s.servoMoves steps) := by
  induction steps generalizing s with
  | nil => rfl
  | cons step rest ih =>
    show ((s.step step).2.run rest).service.instruments.servo = _
    rw [ih, s.servo_step, servoMoves, Servo.follow_append]

/-- Two servers give the same answers and make the same calls in a run, and end alike but for their
keys. -/
structure RunsAlike (s s' : Server) (steps : List Step) : Prop where
  answers : s'.answers steps = s.answers steps
  history : s'.history steps = s.history steps
  servoCalls : s'.servoCalls steps = s.servoCalls steps
  servoMoves : s'.servoMoves steps = s.servoMoves steps
  run : s'.run steps = (s.run steps).withKeys s'.keys

theorem runsAlike_withKeys {steps : List Step} (h : ∀ step ∈ steps, step.ShowsAlike s.keys keys) :
    RunsAlike s (s.withKeys keys) steps := by
  induction steps generalizing s with
  | nil => exact ⟨rfl, rfl, rfl, rfl, rfl⟩
  | cons step rest ih =>
    have hstep := h step List.mem_cons_self
    have hnext := step_withKeys hstep
    have hrest : RunsAlike (s.step step).2 ((s.step step).2.withKeys keys) rest := by
      refine ih fun step' hmem => ?_
      rw [s.keys_step step]
      exact h step' (List.mem_cons_of_mem _ hmem)
    refine ⟨?_, ?_, ?_, ?_, ?_⟩
    · rw [Server.answers, hnext, Server.answers]
      exact congrArg _ hrest.answers
    · rw [Server.history, hnext, Server.history]
      exact congrArg _ hrest.history
    · rw [Server.servoCalls, hnext, servoCall?_withKeys hstep, Server.servoCalls]
      exact congrArg _ hrest.servoCalls
    · rw [Server.servoMoves, hnext, servoMove?_withKeys hstep, Server.servoMoves]
      exact congrArg _ hrest.servoMoves
    · show ((s.withKeys keys).step step).2.run rest = _
      rw [hnext]
      exact hrest.run

/-- Two servers that differ in nothing but their keys give the same answers, make the same motor and
servo calls, and remain different in nothing but their keys, as long as every key that is shown is
one of both or of neither.  The servo calls are what moves the servo: of these calls some are
refused, and the servo is where the others have taken it.  Servers that have been set up with valid
configurations that differ in nothing but the keys are of that kind. -/
theorem keys_leave_no_trace {s : Server} {keys : List Bytes} {steps : List Step}
    (h : ∀ step ∈ steps, step.ShowsAlike s.keys keys) :
    let s' := s.withKeys keys
    (s'.answers steps = s.answers steps ∧ s'.history steps = s.history steps ∧
      s'.servoCalls steps = s.servoCalls steps ∧ s'.run steps = (s.run steps).withKeys keys) ∧
    (s'.servoMoves steps = s.servoMoves steps ∧
      (s.servoMoves steps).Sublist (s.servoCalls steps) ∧
      (s.run steps).service.instruments.servo =
        s.service.instruments.servo.follow (s.servoMoves steps)) ∧
    ∀ (c : Config) store store', c.validate = .ok store →
      { c with apiKeys := keys }.validate = .ok store' → ∀ instruments rig ioTimeout,
        new (Service.new store' instruments rig) ioTimeout =
          (new (Service.new store instruments rig) ioTimeout).withKeys keys := by
  intro s'
  have halike := runsAlike_withKeys h
  refine ⟨⟨halike.answers, halike.history, halike.servoCalls, halike.run⟩,
    ⟨halike.servoMoves, s.servoMoves_sublist steps, s.servo_run steps⟩, ?_⟩
  intro c store store' hvalid hvalid' instruments rig ioTimeout
  rw [Config.Store.eq_withKeys hvalid hvalid']
  rfl

/-- A server for development and one with a further key are shown the key of both and one of
neither. -/
theorem keys_leave_no_trace_spare :
    let keys := [ascii "local", ascii "spare"]
    let position : Json :=
      .object [(ascii "pan_deg", .number 30), (ascii "tilt_deg", .number 10)]
    let steps := [.start false, .post "/drive/differential" fullSpeedBody,
      .request (ascii "GET") (ascii "/config") [(apiKeyHeader, ascii "nobody")] (.value .null),
      .request (ascii "GET") (ascii "/config") [(apiKeyHeader, ascii "local")] (.value .null),
      .post "/pan-tilt/position" position]
    (∀ step ∈ steps, step.ShowsAlike standard.keys keys) ∧
      ((standard.withKeys keys).answers steps).map StepAnswer.status? =
        [none, some 202, some 401, some 200, some 200] ∧
      drives ((standard.withKeys keys).history steps) = [(1, 1)] ∧
      (standard.withKeys keys).servoMoves steps = [(30, 10)] := by
  intro keys position steps
  have hsteps : ∀ step ∈ steps, step.ShowsAlike standard.keys keys := by decide +kernel
  have hstatuses : (standard.answers steps).map StepAnswer.status? =
      [none, some 202, some 401, some 200, some 200] := by decide +kernel
  have hdrives : drives (standard.history steps) = [(1, 1)] := by decide +kernel
  have hmoves : standard.servoMoves steps = [(30, 10)] := by decide +kernel
  obtain ⟨⟨hanswers, hhistory, -, -⟩, ⟨hservo, -, -⟩, -⟩ := keys_leave_no_trace hsteps
  refine ⟨hsteps, ?_, ?_, ?_⟩
  · rw [hanswers, hstatuses]
  · rw [hhistory, hdrives]
  · rw [hservo, hmoves]

end Server

end RoverControl
