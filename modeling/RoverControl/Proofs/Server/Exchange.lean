import RoverControl.Proofs.Server.Reading
import RoverControl.Proofs.Server.Visit
import RoverControl.Proofs.Service.Totals

/-!
# Visits under any behaviour of the sockets

A visit makes finitely many calls to receive and to send, whatever they bring.  What was received
alone decides the answer (`Server.Replies`), and what is sent is a beginning of that answer, all of
it unless a call to send fails.  `Server.visit_accounted_for` adds up what a visit comes to: the
sockets, the service, the answer, the status and the counts of the server.
-/

namespace RoverControl

/-- One of these calls fails, and is not merely interrupted. -/
def Fails {α : Type} (calls : List (Except SocketError α)) (e : SocketError) : Prop :=
  .error e ∈ calls ∧ e ≠ .interrupted

theorem not_fails_nil {α : Type} (e : SocketError) : ¬ Fails (α := α) [] e :=
  fun h => List.not_mem_nil h.1

theorem fails_cons_ok_iff {α : Type} {a : α} {calls : List (Except SocketError α)}
    {e : SocketError} : Fails (.ok a :: calls) e ↔ Fails calls e := by
  simp [Fails]

theorem fails_cons_interrupted_iff {α : Type} {calls : List (Except SocketError α)}
    {e : SocketError} : Fails (.error .interrupted :: calls) e ↔ Fails calls e := by
  simp only [Fails, List.mem_cons, Except.error.injEq, or_and_right, and_not_self_iff, ne_eq,
    false_or]

theorem fails_singleton_iff {α : Type} {e e' : SocketError} (h : e ≠ .interrupted) :
    Fails (α := α) [.error e] e' ↔ e' = e := by
  simp only [Fails, List.mem_singleton, Except.error.injEq]
  exact ⟨And.left, fun he => ⟨he, he ▸ h⟩⟩

/-! ## Receiving -/

open Http.Request (parse)

/-- What reading comes to, where `calls` are the calls to receive that were made and `heard` is what
there is to read after them: a request or the reason why it is none, or the error of a call that
failed before there was a request. -/
inductive ReadsAs (calls : List (Except SocketError Bytes)) (heard : Bytes) :
    Except SocketError (Except Http.Error Http.Request) → Prop
  | heard (h : ∀ e, ¬ Fails calls e) : ReadsAs calls heard (.ok (parse heard))
  | failed {e : SocketError} (h : ∀ e', Fails calls e' ↔ e' = e)
      (hparse : parse heard = .error .incomplete) : ReadsAs calls heard (.error e)

theorem ReadsAs.congr {calls calls' : List (Except SocketError Bytes)} {heard heard' : Bytes}
    {request : Except SocketError (Except Http.Error Http.Request)}
    (h : ReadsAs calls heard request) (hcalls : ∀ e, Fails calls' e ↔ Fails calls e)
    (hheard : heard' = heard) : ReadsAs calls' heard' request := by
  subst hheard
  cases h with
  | heard h => exact .heard fun e he => h e ((hcalls e).1 he)
  | failed h hparse => exact .failed (fun e => (hcalls e).trans (h e)) hparse

/-- Reading ends with a piece that makes up something. -/
theorem readsAs_last (buffer piece : Bytes) :
    ReadsAs [.ok piece] (buffer ++ received [.ok piece]) (.ok (parse (buffer ++ piece))) := by
  have hreceived : received [.ok piece] = piece := List.append_nil piece
  rw [hreceived]
  exact .heard fun e he => not_fails_nil e (fails_cons_ok_iff.1 he)

theorem readRequest_calls_le (buffer : Bytes) (receipts : List (Except SocketError Bytes)) :
    (readRequest buffer receipts).calls ≤ receipts.length + 1 := by
  fun_induction readRequest buffer receipts <;> simp_all [Reading.succ]

/-- Reading tells what the bytes received make up, unless a call fails before they make up
anything. -/
theorem readRequest_readsAs {buffer : Bytes} (hbuffer : parse buffer = .error .incomplete)
    (receipts : List (Except SocketError Bytes)) :
    ReadsAs (receipts.take (readRequest buffer receipts).calls)
      (buffer ++ received (receipts.take (readRequest buffer receipts).calls))
      (readRequest buffer receipts).request := by
  fun_induction readRequest buffer receipts with
  | case1 buffer =>
    rw [List.take_nil, received, List.flatMap_nil, List.append_nil]
    exact .heard not_fails_nil
  | case2 buffer rest ih =>
    exact (ih hbuffer).congr (fun e => fails_cons_interrupted_iff) rfl
  | case3 buffer e rest he =>
    have hheard : buffer ++ received [.error e] = buffer := List.append_nil buffer
    refine .failed (fun e' => fails_singleton_iff he) ?_
    exact (congrArg parse hheard).trans hbuffer
  | case4 buffer rest =>
    have hlast := readsAs_last buffer []
    rwa [List.append_nil buffer] at hlast
  | case5 buffer piece rest _ hparse _ =>
    have hlast := readsAs_last buffer piece
    rwa [hparse] at hlast
  | case6 buffer piece rest _ hparse _ ih =>
    exact (ih hparse).congr (fun e => fails_cons_ok_iff) (List.append_assoc ..).symm
  | case7 buffer piece rest => exact readsAs_last buffer piece

/-! ## Sending -/

/-- What sending a text comes to, where `calls` are the calls to send that were made: what was sent
is a beginning of the text, and all of it unless a call failed. -/
structure SendsFrom (data : Bytes) (calls : List (Except SocketError Nat)) (s : Sending) :
    Prop where
  sent_isPrefix : s.sent <+: data
  sent_eq_iff : s.sent = data ↔ ∀ e, ¬ Fails calls e
  error_eq_iff : ∀ e, s.error = some e ↔ Fails calls e

theorem SendsFrom.of_all {data : Bytes} {calls : List (Except SocketError Nat)} {n : Nat}
    (h : ∀ e, ¬ Fails calls e) : SendsFrom data calls ⟨data, n, none⟩ where
  sent_isPrefix := List.prefix_rfl
  sent_eq_iff := iff_of_true rfl h
  error_eq_iff e := iff_of_false (fun he => nomatch he) (h e)

theorem sendAll_calls_le (data : Bytes) (takes : List (Except SocketError Nat)) :
    (sendAll data takes).calls ≤ takes.length + 1 := by
  fun_induction sendAll data takes with
  | case4 data rest _ _ ih => exact Nat.succ_le_succ ih
  | case6 data rest _ n _ ih => exact Nat.succ_le_succ ih
  | _ => simp

theorem sendAll_sendsFrom (data : Bytes) (takes : List (Except SocketError Nat)) :
    SendsFrom data (takes.take (sendAll data takes).calls) (sendAll data takes) := by
  fun_induction sendAll data takes with
  | case1 | case2 | case3 => exact .of_all not_fails_nil
  | case4 data rest _ s ih =>
    obtain ⟨hsent, hall, herror⟩ := ih
    exact ⟨hsent, hall.trans (forall_congr' fun e => not_congr fails_cons_interrupted_iff.symm),
      fun e => (herror e).trans fails_cons_interrupted_iff.symm⟩
  | case5 data rest hdata e he =>
    have hfails (e' : SocketError) : Fails (α := Nat) [.error e] e' ↔ e' = e :=
      fails_singleton_iff he
    refine ⟨List.nil_prefix, iff_of_false (Ne.symm hdata) fun h => h e ((hfails e).2 rfl), ?_⟩
    intro e'
    rw [Option.some.injEq, eq_comm]
    exact (hfails e').symm
  | case6 data rest _ n s ih =>
    obtain ⟨hsent, hall, herror⟩ := ih
    -- what is left to send is what follows the bytes that were taken
    have hsplit : data.take n ++ data.drop n = data := List.take_append_drop n data
    refine ⟨?_, ?_, fun e => (herror e).trans fails_cons_ok_iff.symm⟩
    · have hdata := (List.prefix_append_right_inj (data.take n)).2 hsent
      rwa [hsplit] at hdata
    · calc data.take n ++ s.sent = data
          ↔ data.take n ++ s.sent = data.take n ++ data.drop n := by rw [hsplit]
        _ ↔ s.sent = data.drop n := List.append_right_inj _
        _ ↔ ∀ e, ¬ Fails _ e := hall
        _ ↔ ∀ e, ¬ Fails _ e := forall_congr' fun e => not_congr fails_cons_ok_iff.symm

/-! ## What is asked for -/

/-- What was heard is a request whose body is empty or a value, and this is its message. -/
inductive Asks (heard : Bytes) : Message → Prop
  | bare {r : Http.Request} (h : parse heard = .ok r) (hbody : r.body = []) :
      Asks heard ⟨r.method, r.path, r.headers, .null⟩
  | value {r : Http.Request} {body : Json} (h : parse heard = .ok r) (hbody : r.body ≠ [])
      (hvalue : Json.parse r.body = .ok body) : Asks heard ⟨r.method, r.path, r.headers, body⟩

theorem not_asks_of_error {heard : Bytes} {e : Http.Error} (h : parse heard = .error e)
    (m : Message) : ¬ Asks heard m := by
  intro hm
  cases hm with
  | bare h' => cases h.symm.trans h'
  | value h' => cases h.symm.trans h'

theorem asks_iff_of_parse {heard : Bytes} {r : Http.Request} (h : parse heard = .ok r)
    {m : Message} : Asks heard m ↔ ∃ body, Server.decodeBody r.body = .ok body ∧
      ⟨r.method, r.path, r.headers, body⟩ = m := by
  constructor
  · intro hm
    cases hm with
    | bare h' hbody =>
      cases h.symm.trans h'
      exact ⟨.null, if_pos hbody, rfl⟩
    | value h' hbody hvalue =>
      cases h.symm.trans h'
      exact ⟨_, (if_neg hbody).trans hvalue, rfl⟩
  · rintro ⟨body, hbody, rfl⟩
    unfold Server.decodeBody at hbody
    split at hbody
    · rename_i hnil
      cases hbody
      exact .bare h hnil
    · rename_i hne
      exact .value h hne hbody

/-- The bytes that a server which accepts the connection receives in a visit. -/
def Visit.heard (v : Visit) : Bytes :=
  received (v.receipts.take (readRequest [] v.receipts).calls)

theorem Visit.readsAs (v : Visit) :
    ReadsAs (v.receipts.take (readRequest [] v.receipts).calls) v.heard
      (readRequest [] v.receipts).request :=
  readRequest_readsAs rfl v.receipts

/-- What is handed on of a visit is what was heard, if it is a message. -/
theorem Visit.message?_eq_some_iff {v : Visit} {m : Message} :
    v.message? = some m ↔ Asks v.heard m := by
  have hreads := v.readsAs
  unfold message?
  generalize (readRequest [] v.receipts).request = request at hreads ⊢
  cases hreads with
  | failed _ hparse => exact iff_of_false (fun h => nomatch h) (not_asks_of_error hparse m)
  | heard _ =>
    rcases hparse : parse v.heard with e | r
    · exact iff_of_false (fun h => nomatch h) (not_asks_of_error hparse m)
    · rw [asks_iff_of_parse hparse]
      dsimp only
      rcases Server.decodeBody r.body with e | body <;> simp

/-- A connection is accepted from a peer, whose address is none if it is of an unknown family. -/
def Visit.Connects (v : Visit) (peer : Option Net.Address) : Prop :=
  v.poll = .ready ∧ v.peer = .ok peer

theorem Visit.Connects.unique {v : Visit} {peer peer' : Option Net.Address} (h : v.Connects peer)
    (h' : v.Connects peer') : peer' = peer := Except.ok.inj (h'.2.symm.trans h.2)

theorem Visit.not_connects_of_poll {v : Visit} (h : v.poll ≠ .ready) (peer : Option Net.Address) :
    ¬ v.Connects peer := fun hpeer => h hpeer.1

theorem Visit.not_connects_of_error {v : Visit} {e : SocketError} (h : v.peer = .error e)
    (peer : Option Net.Address) : ¬ v.Connects peer := by
  intro hpeer
  cases h.symm.trans hpeer.2

/-- The wait for a connection fails, or there is one that cannot be accepted; it is no fault if the
wait was interrupted or the connection is gone. -/
inductive Visit.Misses (v : Visit) : SocketError → Prop
  | wait {e : SocketError} (h : v.poll = .failed e) (he : e ≠ .interrupted) : Misses v e
  | accept {e : SocketError} (hpoll : v.poll = .ready) (h : v.peer = .error e)
      (he : e ≠ .interrupted) (he' : e ≠ .wouldBlock) : Misses v e

theorem Visit.Connects.not_misses {v : Visit} {peer : Option Net.Address} (h : v.Connects peer)
    (e : SocketError) : ¬ v.Misses e := by
  intro he
  cases he with
  | wait hpoll => cases hpoll.symm.trans h.1
  | accept _ hpeer => cases hpeer.symm.trans h.2

namespace Server

theorem handedOf_eq_some_iff {s : Server} {v : Visit} {m : Message} :
    s.handedOf v = some m ↔ ∃ peer sent, v.Connects peer ∧ Asks v.heard sent ∧
      m = forwarded s.service.store peer sent := by
  constructor
  · intro h
    unfold handedOf at h
    split at h
    · rename_i peer hpoll hpeer
      obtain ⟨sent, hsent, rfl⟩ := Option.map_eq_some_iff.1 h
      exact ⟨peer, sent, ⟨hpoll, hpeer⟩, Visit.message?_eq_some_iff.1 hsent, rfl⟩
    · cases h
  · rintro ⟨peer, sent, ⟨hpoll, hpeer⟩, hsent, rfl⟩
    simp only [handedOf, hpoll, hpeer, Visit.message?_eq_some_iff.2 hsent, Option.map_some]

/-! ## Answers -/

/-- The answer to what was heard from a peer, and the service after it: the service is asked once if
there is a message, and is left alone if there is none. -/
inductive Replies (service : Service) (peer : Option Net.Address) (heard : Bytes) :
    Answer → Service → Prop
  | asked {m : Message} (h : Asks heard m) :
      Replies service peer heard
        ⟨(service.handleMessage (forwarded service.store peer m)).1, some (m.method, m.path)⟩
        (service.handleMessage (forwarded service.store peer m)).2
  | unframed {e : Http.Error} (h : parse heard = .error e) :
      Replies service peer heard ⟨⟨e.status, Http.detailBody (ascii e.message)⟩, none⟩ service
  | unreadable {r : Http.Request} {e : Json.Error} (h : parse heard = .ok r)
      (hbody : r.body ≠ []) (hvalue : Json.parse r.body = .error e) :
      Replies service peer heard
        ⟨⟨400, Http.detailBody (ascii "Invalid JSON body: " ++ ascii e.message)⟩, none⟩ service

theorem answer_of_decodeBody (service : Service) (peer : Option Net.Address) {r : Http.Request}
    {body : Json} (h : decodeBody r.body = .ok body) :
    let m := forwarded service.store peer ⟨r.method, r.path, r.headers, body⟩
    answer service (peerText peer) (.ok r) =
      (⟨(service.handleMessage m).1, some (r.method, r.path)⟩, (service.handleMessage m).2) := by
  simp only [answer, h]
  rfl

theorem replies_answer (service : Service) (peer : Option Net.Address) (heard : Bytes) :
    Replies service peer heard (answer service (peerText peer) (parse heard)).1
      (answer service (peerText peer) (parse heard)).2 := by
  rcases hparse : parse heard with e | r
  · exact .unframed hparse
  · rcases hbody : decodeBody r.body with e | body
    · simp only [answer, hbody]
      unfold decodeBody at hbody
      split at hbody
      · cases hbody
      · rename_i hne
        exact .unreadable hparse hne hbody
    · have hm := (asks_iff_of_parse hparse).2 ⟨body, hbody, rfl⟩
      rw [answer_of_decodeBody service peer hbody]
      exact .asked hm

/-! ## Courses -/

/-- The report of a visit that is answered. -/
def Answer.report (a : Answer) (v : Visit) (peer : Option Net.Address) : Report :=
  let sending := sendAll a.response.format v.takes
  { status :=
      if sending.error.isSome then .error else if a.dispatched.isSome then .served else .rejected
    code := a.response.status
    method := (a.dispatched.getD ([], [])).1
    path := (a.dispatched.getD ([], [])).2
    peer := peerText peer
    error := sending.error
    sent := sending.sent
    receives := (readRequest [] v.receipts).calls
    sends := sending.calls
    accepted := true
    closed := [.connection] }

/-- The counts of a server that has accepted a connection and answered on it. -/
def Answer.counts (a : Answer) (v : Visit) (counts : ServerCounts) : ServerCounts where
  connections := counts.connections + 1
  served := counts.served + a.dispatched.isSome.toNat
  rejected := counts.rejected + (!a.dispatched.isSome).toNat
  errors := counts.errors + (sendAll a.response.format v.takes).error.isSome.toNat

/-- The report of a visit in which receiving fails. -/
def unheard (v : Visit) (peer : Option Net.Address) (e : SocketError) : Report :=
  ⟨.error, 0, [], [], peerText peer, some e, [], (readRequest [] v.receipts).calls, 0, true,
    [.connection]⟩

/-- The courses that a visit can take, each with its report and the server after it. -/
inductive Course (s : Server) (v : Visit) : Report × Server → Prop
  | nobody (hconnects : ∀ peer, ¬ v.Connects peer) (hmisses : ∀ e, ¬ v.Misses e) :
      Course s v (.noConnection .idle none, s)
  | missed {e : SocketError} (hconnects : ∀ peer, ¬ v.Connects peer)
      (hmisses : ∀ e', v.Misses e' ↔ e' = e) :
      Course s v (.noConnection .error (some e), s.countError)
  | unheard {peer : Option Net.Address} {e : SocketError} (h : v.Connects peer)
      (hfails : ∀ e', Fails (v.receipts.take (readRequest [] v.receipts).calls) e' ↔ e' = e)
      (hparse : parse v.heard = .error .incomplete) :
      Course s v (Server.unheard v peer e, s.connected.countError)
  | answered {peer : Option Net.Address} {a : Answer} {service : Service} (h : v.Connects peer)
      (hreads : ∀ e, ¬ Fails (v.receipts.take (readRequest [] v.receipts).calls) e)
      (ha : Replies s.service peer v.heard a service) :
      Course s v (a.report v peer, { s with service, counts := a.counts v s.counts })

theorem counts_of_answer (s : Server) (service : Service) (a : Answer) (v : Visit) :
    let counts := s.connected.counts
    let settled : Server := { s with
      service
      counts :=
        if a.dispatched.isSome then { counts with served := counts.served + 1 }
        else { counts with rejected := counts.rejected + 1 } }
    (if (sendAll a.response.format v.takes).error.isSome then settled.countError else settled) =
      { s with service, counts := a.counts v s.counts } := by
  unfold Answer.counts
  generalize (sendAll a.response.format v.takes).error = error
  rcases a with ⟨response, _ | d⟩ <;> rcases error with _ | e <;> rfl

theorem converse_answered (s : Server) {v : Visit} (peer : Option Net.Address)
    {read : Except Http.Error Http.Request} (h : (readRequest [] v.receipts).request = .ok read) :
    let a := (answer s.service (peerText peer) read).1
    (s.connected.converse v (peerText peer)).1.close = a.report v peer ∧
      (s.connected.converse v (peerText peer)).2 =
        { s with service := (answer s.service (peerText peer) read).2
                 counts := a.counts v s.counts } := by
  intro a
  simp only [converse, h]
  exact ⟨rfl, s.counts_of_answer _ a v⟩

theorem converse_unheard (s : Server) {v : Visit} (peer : Option Net.Address) {e : SocketError}
    (h : (readRequest [] v.receipts).request = .error e) :
    s.converse v (peerText peer) =
      ({ unheard v peer e with closed := [] }, s.countError) := by
  simp only [converse, h]
  rfl

/-- A visit without a connection is idle, or else it is known what went wrong. -/
theorem course_of_missing {s : Server} {v : Visit} (hconnects : ∀ peer, ¬ v.Connects peer)
    {e : SocketError} {p : Prop} [Decidable p] (hmisses : ∀ e', v.Misses e' ↔ e' = e ∧ ¬ p) :
    Course s v (if p then (.noConnection .idle none, s)
      else (.noConnection .error (some e), s.countError)) := by
  split
  · rename_i h
    exact .nobody hconnects fun e' he => ((hmisses e').1 he).2 h
  · rename_i h
    exact .missed hconnects fun e' => (hmisses e').trans (and_iff_left h)

/-- Every visit takes one of the courses. -/
theorem serve_course (s : Server) (v : Visit) : Course s v (s.serve v) := by
  rcases hpoll : v.poll with _ | _ | e
  · rcases hpeer : v.peer with e | peer
    · simp only [serve, hpoll, hpeer]
      refine course_of_missing (Visit.not_connects_of_error hpeer) fun e' => ⟨?_, ?_⟩
      · rintro (⟨h, -⟩ | ⟨-, h, he, he'⟩)
        · cases hpoll.symm.trans h
        · cases hpeer.symm.trans h
          simp [he, he']
      · rintro ⟨rfl, h⟩
        simp only [Bool.or_eq_true, decide_eq_true_eq, not_or] at h
        exact .accept hpoll hpeer h.1 h.2
    · have hconnects : v.Connects peer := ⟨hpoll, hpeer⟩
      have hreads := v.readsAs
      rw [s.serve_of_peer hpoll hpeer]
      rcases hrequest : (readRequest [] v.receipts).request with e | read <;>
        rw [hrequest] at hreads
      · cases hreads with
        | failed hfails hparse =>
          rw [converse_unheard _ peer hrequest]
          exact .unheard hconnects hfails hparse
      · obtain ⟨hreport, hserver⟩ := s.converse_answered peer hrequest
        rw [hreport, hserver]
        cases hreads with
        | heard hfails => exact .answered hconnects hfails (replies_answer s.service peer v.heard)
  · simp only [serve, hpoll]
    refine .nobody (Visit.not_connects_of_poll (by simp [hpoll])) ?_
    rintro e (⟨h, -⟩ | ⟨h, -⟩) <;> cases hpoll.symm.trans h
  · simp only [serve, hpoll]
    refine course_of_missing (Visit.not_connects_of_poll (by simp [hpoll])) fun e' => ⟨?_, ?_⟩
    · rintro (⟨h, he⟩ | ⟨h, -⟩)
      · cases hpoll.symm.trans h
        exact ⟨rfl, he⟩
      · cases hpoll.symm.trans h
    · rintro ⟨rfl, h⟩
      exact .wait hpoll h

/-! ## What a visit comes to -/

theorem handedOf_of_not_connects {s : Server} {v : Visit} (h : ∀ peer, ¬ v.Connects peer) :
    s.handedOf v = none := by
  refine Option.eq_none_iff_forall_ne_some.2 fun m hm => ?_
  obtain ⟨peer, -, hpeer, -⟩ := handedOf_eq_some_iff.1 hm
  exact h peer hpeer

theorem handedOf_of_not_asks {s : Server} {v : Visit} (h : ∀ m, ¬ Asks v.heard m) :
    s.handedOf v = none := by
  refine Option.eq_none_iff_forall_ne_some.2 fun m hm => ?_
  obtain ⟨-, sent, -, hsent, -⟩ := handedOf_eq_some_iff.1 hm
  exact h sent hsent

/-- The service is asked in an answer exactly if there is a message to hand on. -/
theorem Replies.handed {s : Server} {v : Visit} {peer : Option Net.Address} {a : Answer}
    {service : Service} (ha : Replies s.service peer v.heard a service) (h : v.Connects peer) :
    a.dispatched.isSome = (s.handedOf v).isSome ∧
      service = (s.handedOf v).elim s.service fun m => (s.service.handleMessage m).2 := by
  cases ha with
  | asked hm =>
    rw [handedOf_eq_some_iff.2 ⟨peer, _, h, hm, rfl⟩]
    exact ⟨rfl, rfl⟩
  | unframed hparse =>
    rw [handedOf_of_not_asks (not_asks_of_error hparse)]
    exact ⟨rfl, rfl⟩
  | unreadable hparse hbody hvalue =>
    have hnot : ∀ m, ¬ Asks v.heard m := by
      intro m hm
      obtain ⟨body, hbody', -⟩ := (asks_iff_of_parse hparse).1 hm
      cases ((if_neg hbody).trans hvalue).symm.trans hbody'
    rw [handedOf_of_not_asks hnot]
    exact ⟨rfl, rfl⟩

namespace Course

variable {s : Server} {v : Visit} {result : Report × Server}

theorem calls_le (h : Course s v result) :
    result.1.receives ≤ v.receipts.length + 1 ∧ result.1.sends ≤ v.takes.length + 1 := by
  cases h with
  | nobody | missed => exact ⟨Nat.zero_le _, Nat.zero_le _⟩
  | unheard => exact ⟨readRequest_calls_le [] v.receipts, Nat.zero_le _⟩
  | answered => exact ⟨readRequest_calls_le [] v.receipts, sendAll_calls_le _ v.takes⟩

theorem sockets (h : Course s v result) :
    (result.1.accepted = true ↔ ∃ peer, v.Connects peer) ∧
      result.1.closed = if result.1.accepted then [.connection] else [] := by
  cases h with
  | nobody hconnects | missed hconnects =>
    exact ⟨iff_of_false (fun h => nomatch h) fun ⟨peer, h⟩ => hconnects peer h, rfl⟩
  | unheard h | answered h => exact ⟨iff_of_true rfl ⟨_, h⟩, rfl⟩

/-- What a visitor asks for is what was received. -/
theorem received_eq (h : Course s v result) {peer : Option Net.Address} (hpeer : v.Connects peer) :
    received (v.receipts.take result.1.receives) = v.heard := by
  cases h with
  | nobody hconnects | missed hconnects => exact absurd hpeer (hconnects peer)
  | unheard | answered => rfl

theorem service_eq (h : Course s v result) :
    result.2.service =
      (s.handedOf v).elim s.service fun m => (s.service.handleMessage m).2 := by
  cases h with
  | nobody hconnects | missed hconnects => rw [handedOf_of_not_connects hconnects]; rfl
  | unheard _ _ hparse => rw [handedOf_of_not_asks (not_asks_of_error hparse)]; rfl
  | answered h _ ha => exact (ha.handed h).2

theorem requests_eq (h : Course s v result) :
    result.2.service.metrics.requests =
      s.service.metrics.requests + (s.handedOf v).isSome.toNat := by
  rw [h.service_eq]
  rcases s.handedOf v with _ | m
  · rfl
  · exact (s.service.adds_handle m.method m.path m.body m.headers).requests

/-- What is sent belongs to one answer, and is all of it unless a call to send fails.  A visit that
is answered without the service is counted as rejected. -/
theorem sent (h : Course s v result) {peer : Option Net.Address} (hpeer : v.Connects peer)
    (hreads : ∀ e, ¬ Fails (v.receipts.take result.1.receives) e) :
    (∃ a, Replies s.service peer v.heard a result.2.service ∧
      result.1.code = a.response.status ∧
      SendsFrom a.response.format (v.takes.take result.1.sends)
        ⟨result.1.sent, result.1.sends, result.1.error⟩) ∧
      result.2.counts.rejected = s.counts.rejected + (!(s.handedOf v).isSome).toNat := by
  cases h with
  | nobody hconnects | missed hconnects => exact absurd hpeer (hconnects peer)
  | unheard _ hfails => exact absurd ((hfails _).2 rfl) (hreads _)
  | answered h _ ha =>
    cases h.unique hpeer
    rw [← (ha.handed h).1]
    exact ⟨⟨_, ha, rfl, sendAll_sendsFrom _ v.takes⟩, rfl⟩

/-- A visit in which nobody connects, or a call to receive fails, is not handed on and changes
neither the service nor the counts of answers. -/
theorem unsent (h : Course s v result)
    (hnone : (∀ peer, ¬ v.Connects peer) ∨ ∃ e, Fails (v.receipts.take result.1.receives) e) :
    (s.handedOf v = none ∧ result.2.service = s.service ∧
        result.2.counts.served = s.counts.served ∧
        result.2.counts.rejected = s.counts.rejected) ∧
      (result.1.status = .idle ∨ result.1.status = .error) ∧ result.1.code = 0 ∧
      result.1.sent = [] := by
  cases h with
  | nobody hconnects =>
    exact ⟨⟨handedOf_of_not_connects hconnects, rfl, rfl, rfl⟩, Or.inl rfl, rfl, rfl⟩
  | missed hconnects =>
    exact ⟨⟨handedOf_of_not_connects hconnects, rfl, rfl, rfl⟩, Or.inr rfl, rfl, rfl⟩
  | unheard _ _ hparse =>
    exact ⟨⟨handedOf_of_not_asks (not_asks_of_error hparse), rfl, rfl, rfl⟩, Or.inr rfl, rfl, rfl⟩
  | answered h hreads =>
    rcases hnone with hnone | ⟨e, he⟩
    · exact absurd h (hnone _)
    · exact absurd he (hreads e)

theorem error_eq_iff (h : Course s v result) (e : SocketError) :
    result.1.error = some e ↔ v.Misses e ∨ Fails (v.receipts.take result.1.receives) e ∨
      Fails (v.takes.take result.1.sends) e := by
  cases h with
  | nobody _ hmisses =>
    refine iff_of_false (fun h => nomatch h) ?_
    rintro (h | h | h)
    · exact hmisses e h
    · exact not_fails_nil e h
    · exact not_fails_nil e h
  | missed _ hmisses =>
    constructor
    · rintro ⟨⟩
      exact Or.inl ((hmisses e).2 rfl)
    · rintro (h | h | h)
      · exact congrArg some ((hmisses e).1 h).symm
      · exact absurd h (not_fails_nil e)
      · exact absurd h (not_fails_nil e)
  | unheard hconnects hfails =>
    constructor
    · rintro ⟨⟩
      exact Or.inr (Or.inl ((hfails e).2 rfl))
    · rintro (h | h | h)
      · exact absurd h (hconnects.not_misses e)
      · exact congrArg some ((hfails e).1 h).symm
      · exact absurd h (not_fails_nil e)
  | @answered peer a service hconnects hreads =>
    have hsends := (sendAll_sendsFrom a.response.format v.takes).error_eq_iff e
    refine hsends.trans ⟨fun h => Or.inr (Or.inr h), ?_⟩
    rintro (h | h | h)
    · exact absurd h (hconnects.not_misses e)
    · exact absurd h (hreads e)
    · exact h

theorem status_eq (h : Course s v result) :
    result.1.status =
      if result.1.error.isSome then .error
      else if (s.handedOf v).isSome then .served
      else if result.1.accepted then .rejected
      else .idle := by
  cases h with
  | nobody hconnects => rw [handedOf_of_not_connects hconnects]; rfl
  | missed | unheard => rfl
  | answered h _ ha => rw [← (ha.handed h).1]; rfl

theorem error_eq_none (h : Course s v result)
    (hstatus : result.1.status = .served ∨ result.1.status = .rejected) :
    result.1.error = none := by
  rw [h.status_eq] at hstatus
  split at hstatus
  · simp at hstatus
  · rename_i herror
    exact Option.not_isSome_iff_eq_none.1 herror

/-- A visit is counted by its connection, by whether it was answered by the service, and by its
error. -/
theorem counts_eq (h : Course s v result) :
    result.2.counts.connections = s.counts.connections + result.1.accepted.toNat ∧
      result.2.counts.served = s.counts.served + (s.handedOf v).isSome.toNat ∧
      result.2.counts.errors = s.counts.errors + result.1.error.isSome.toNat := by
  cases h with
  | nobody hconnects | missed hconnects =>
    rw [handedOf_of_not_connects hconnects]
    exact ⟨rfl, rfl, rfl⟩
  | unheard _ _ hparse =>
    rw [handedOf_of_not_asks (not_asks_of_error hparse)]
    exact ⟨rfl, rfl, rfl⟩
  | answered h _ ha =>
    rw [← (ha.handed h).1]
    exact ⟨rfl, rfl, rfl⟩

end Course

/-- Whatever the sockets do in a visit, it ends after finitely many calls, and this is what it comes
to.  The connection is closed once if one was accepted, and the listener is left open.  The service
is asked once if what was received is a request with a body that is empty or a value, and else
nothing in it changes; nor is anything handed on if a call to receive fails.  What is sent is a
beginning of the answer to what was received, all of it unless a call to send fails, and a visit
ends as served or rejected only if it is all of it.  The status, the error and the four counts tell
what happened: a connection that was accepted is counted as served or rejected, or as an error if
receiving fails, and other errors are counted only for the wait, for accepting and for sending. -/
theorem visit_accounted_for (s : Server) (v : Visit) :
    let report := (s.serve v).1
    let s' := (s.serve v).2
    let reads := v.receipts.take report.receives
    let writes := v.takes.take report.sends
    let handed := s.handedOf v
    (report.receives ≤ v.receipts.length + 1 ∧ report.sends ≤ v.takes.length + 1) ∧
      ((report.accepted = true ↔ ∃ peer, v.Connects peer) ∧
        report.closed = if report.accepted then [.connection] else []) ∧
      ((∀ m, handed = some m ↔ ∃ peer sent, v.Connects peer ∧ Asks (received reads) sent ∧
          m = forwarded s.service.store peer sent) ∧
        s'.service = (handed.elim s.service fun m => (s.service.handleMessage m).2) ∧
        s'.service.metrics.requests = s.service.metrics.requests + handed.isSome.toNat) ∧
      (∀ peer, v.Connects peer → (∀ e, ¬ Fails reads e) →
        (∃ a, Replies s.service peer (received reads) a s'.service ∧
          report.code = a.response.status ∧ report.sent <+: a.response.format ∧
          (report.sent = a.response.format ↔ ∀ e, ¬ Fails writes e) ∧
          (report.status = .served ∨ report.status = .rejected →
            report.sent = a.response.format)) ∧
        s'.counts.rejected = s.counts.rejected + (!handed.isSome).toNat) ∧
      ((∀ peer, ¬ v.Connects peer) ∨ (∃ e, Fails reads e) →
        (handed = none ∧ s'.service = s.service ∧ s'.counts.served = s.counts.served ∧
          s'.counts.rejected = s.counts.rejected) ∧
        (report.status = .idle ∨ report.status = .error) ∧ report.code = 0 ∧ report.sent = []) ∧
      (∀ e, report.error = some e ↔ v.Misses e ∨ Fails reads e ∨ Fails writes e) ∧
      (report.status = if report.error.isSome then .error else if handed.isSome then .served
        else if report.accepted then .rejected else .idle) ∧
      s'.counts.connections = s.counts.connections + report.accepted.toNat ∧
      s'.counts.served = s.counts.served + handed.isSome.toNat ∧
      s'.counts.errors = s.counts.errors + report.error.isSome.toNat := by
  intro report s' reads writes handed
  have h : Course s v (report, s') := s.serve_course v
  refine ⟨h.calls_le, h.sockets, ⟨fun m => ?_, h.service_eq, h.requests_eq⟩,
    fun peer hpeer hreads => ?_, h.unsent, h.error_eq_iff, h.status_eq, h.counts_eq⟩
  · rw [handedOf_eq_some_iff]
    refine exists_congr fun peer => exists_congr fun sent => and_congr_right fun hpeer => ?_
    rw [show received reads = v.heard from h.received_eq hpeer]
  · obtain ⟨⟨a, ha, hcode, hsends⟩, hrejected⟩ := h.sent hpeer hreads
    rw [show received reads = v.heard from h.received_eq hpeer]
    refine ⟨⟨a, ha, hcode, hsends.sent_isPrefix, hsends.sent_eq_iff, fun hstatus => ?_⟩, hrejected⟩
    have herror : report.error = none := h.error_eq_none hstatus
    refine hsends.sent_eq_iff.2 fun e he => ?_
    cases herror.symm.trans ((hsends.error_eq_iff e).2 he)

end Server

end RoverControl
