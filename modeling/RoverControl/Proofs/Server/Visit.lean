import RoverControl.Server.Step

/-!
# What comes of a visit

A visit brings at most one message, which is what the bytes received say if they make up a request
with a body that can be read.  The server hands the message to the service with the headers that
`forwardedHeaders` gives it, and does nothing to the service if there is none (`serve_cases`).
-/

namespace RoverControl

/-- A request as it was sent. -/
structure Message where
  method : Bytes
  path : Bytes
  headers : Headers
  body : Json

/-- The message that a visitor who is heard to the end sends. -/
def Visit.message? (v : Visit) : Option Message :=
  match (readRequest [] v.receipts).request with
  | .ok (.ok request) =>
    match Server.decodeBody request.body with
    | .ok body => some ⟨request.method, request.path, request.headers, body⟩
    | .error _ => none
  | _ => none

/-- The answer to a message, and the service after it. -/
def Service.handleMessage (s : Service) (m : Message) : Http.Response × Service :=
  s.handle m.method m.path m.body m.headers

/-- The text of the address of a peer, empty if it is of an unknown family. -/
def peerText (peer : Option Net.Address) : Bytes := (peer.map (·.text)).getD []

namespace Server

/-- A message as the service is shown it. -/
def forwarded (store : Config.Store) (peer : Option Net.Address) (m : Message) : Message :=
  { m with headers := forwardedHeaders store (peerText peer) m.headers }

/-- The message of a visit that is handed to the service. -/
def handedOf (s : Server) (v : Visit) : Option Message :=
  match v.poll, v.peer with
  | .ready, .ok peer => v.message?.map (forwarded s.service.store peer)
  | _, _ => none

theorem eq_forwarded_of_handedOf {s : Server} {v : Visit} {m : Message}
    (h : s.handedOf v = some m) : ∃ peer m', v.peer = .ok peer ∧ v.message? = some m' ∧
      m = forwarded s.service.store peer m' := by
  unfold handedOf at h
  split at h
  · rename_i peer _ hpeer
    obtain ⟨m', hm', rfl⟩ := Option.map_eq_some_iff.1 h
    exact ⟨peer, m', hpeer, hm', rfl⟩
  · cases h

/-- The answers that a visitor is given without the service: none at all, or why what they sent is
not a request. -/
def unservedCodes : List Int := [0, 400, 413, 431, 501, 505]

theorem zero_mem_unservedCodes : (0 : Int) ∈ unservedCodes := by decide

theorem status_mem_unservedCodes (e : Http.Error) : e.status ∈ unservedCodes := by
  cases e <;> decide

/-- The service does what a message asks for, and its answer is that of the visit. -/
structure Served (s : Server) (v : Visit) (m : Message) : Prop where
  service_eq : (s.serve v).2.service = (s.service.handleMessage m).2
  code_eq : (s.serve v).1.code = (s.service.handleMessage m).1.status

/-- Nothing is done to the service. -/
structure Unserved (s : Server) (v : Visit) : Prop where
  service_eq : (s.serve v).2.service = s.service
  code_mem : (s.serve v).1.code ∈ unservedCodes

theorem converse_of_error (s : Server) {v : Visit} (peer : Bytes) {e : SocketError}
    (h : (readRequest [] v.receipts).request = .error e) :
    (s.converse v peer).2.service = s.service ∧ (s.converse v peer).1.code = 0 := by
  simp only [converse, h, countError, and_self]

theorem converse_of_read (s : Server) {v : Visit} (peer : Bytes)
    {read : Except Http.Error Http.Request} (h : (readRequest [] v.receipts).request = .ok read) :
    (s.converse v peer).2.service = (answer s.service peer read).2 ∧
      (s.converse v peer).1.code = (answer s.service peer read).1.response.status := by
  simp only [converse, h, and_true]
  split <;> rfl

theorem converse_of_message (s : Server) {v : Visit} (peer : Option Net.Address) {m : Message}
    (h : v.message? = some m) :
    (s.converse v (peerText peer)).2.service =
        (s.service.handleMessage (forwarded s.service.store peer m)).2 ∧
      (s.converse v (peerText peer)).1.code =
        (s.service.handleMessage (forwarded s.service.store peer m)).1.status := by
  unfold Visit.message? at h
  split at h
  · rename_i request hr
    split at h
    · rename_i body hb
      cases h
      obtain ⟨hs, hc⟩ := converse_of_read s (peerText peer) hr
      simp only [answer, hb] at hs hc
      exact ⟨hs, hc⟩
    · cases h
  · cases h

theorem converse_of_nothing (s : Server) {v : Visit} (peer : Bytes) (h : v.message? = none) :
    (s.converse v peer).2.service = s.service ∧ (s.converse v peer).1.code ∈ unservedCodes := by
  rcases hr : (readRequest [] v.receipts).request with e | e | request
  · obtain ⟨hs, hc⟩ := converse_of_error s peer hr
    rw [hs, hc]
    exact ⟨rfl, zero_mem_unservedCodes⟩
  · obtain ⟨hs, hc⟩ := converse_of_read s peer hr
    rw [hs, hc]
    exact ⟨rfl, status_mem_unservedCodes e⟩
  · obtain ⟨hs, hc⟩ := converse_of_read s peer hr
    rw [hs, hc]
    rcases hb : decodeBody request.body with e | body
    · simp only [answer, hb, true_and]
      exact status_mem_unservedCodes .incomplete
    · simp only [Visit.message?, hr, hb, reduceCtorEq] at h

/-- A server that has accepted one more connection. -/
def connected (s : Server) : Server :=
  { s with counts := { s.counts with connections := s.counts.connections + 1 } }

theorem serve_of_peer (s : Server) {v : Visit} {peer : Option Net.Address} (hpoll : v.poll = .ready)
    (hpeer : v.peer = .ok peer) :
    s.serve v = ((s.connected.converse v (peerText peer)).1.close,
      (s.connected.converse v (peerText peer)).2) := by
  simp only [serve, hpoll, hpeer]
  rfl

/-- The service does what the message of a visit asks for, or there is none and nothing is done. -/
theorem serve_cases (s : Server) (v : Visit) :
    (∃ m, s.handedOf v = some m ∧ s.Served v m) ∨ (s.handedOf v = none ∧ s.Unserved v) := by
  rcases hpoll : v.poll with _ | _ | e
  · rcases hpeer : v.peer with e | peer
    · refine Or.inr ⟨by simp only [handedOf, hpoll, hpeer], ?_, ?_⟩ <;>
        simp only [serve, hpoll, hpeer] <;> split
      all_goals first | rfl | exact zero_mem_unservedCodes
    · have hserve := s.serve_of_peer hpoll hpeer
      rcases hm : v.message? with _ | m
      · obtain ⟨hs, hc⟩ := converse_of_nothing s.connected (peerText peer) hm
        refine Or.inr ⟨by simp only [handedOf, hpoll, hpeer, hm, Option.map_none], ?_, ?_⟩ <;>
          rw [hserve]
        · exact hs
        · exact hc
      · obtain ⟨hs, hc⟩ := converse_of_message s.connected peer hm
        refine Or.inl ⟨forwarded s.service.store peer m, ?_, ?_, ?_⟩
        · simp only [handedOf, hpoll, hpeer, hm, Option.map_some]
        all_goals rw [hserve]
        · exact hs
        · exact hc
  · refine Or.inr ⟨by simp only [handedOf, hpoll], ?_, ?_⟩ <;> simp only [serve, hpoll]
    exact zero_mem_unservedCodes
  · refine Or.inr ⟨by simp only [handedOf, hpoll], ?_, ?_⟩ <;> simp only [serve, hpoll] <;> split
    all_goals first | rfl | exact zero_mem_unservedCodes

/-! ## A server for development -/

/-- A server with the configuration for development, without a worker. -/
def standard : Server :=
  let store : Config.Store := ⟨.standard, [⟨.v4 127 0 0 0, 8⟩]⟩
  new (Service.new store .standard (Rig.new (Timeline.start none))) standardIoTimeout

/-- A request to it that holds its key. -/
def Step.post (path : String) (body : Json) : Step :=
  .request (ascii "POST") (ascii path) [(apiKeyHeader, ascii "local")] (.value body)

/-- The body of a command to drive at full speed. -/
def fullSpeedBody : Json :=
  .object [(ascii "left_speed", .number 1), (ascii "right_speed", .number 1)]

end Server

end RoverControl
