import RoverControl.Proofs.Http.Delimited
import RoverControl.Proofs.Json.Size
import RoverControl.Proofs.Server.Exchange
import RoverControl.Proofs.Service.Gate

/-!
# Bounds of reading

Reading goes on after pieces that leave a request incomplete and after interruptions (`GoesOn`), and
the first other call ends it (`Ends`).  An incomplete text is short, so reading ends before much
more than the longest request has been received, even if a visitor never stops sending
(`exists_end_of_endless`), and the limit on what is kept is never reached
(`readRequest_eq_readUnguarded`).  The body of a request is never too large to be read as a value,
so no visitor is told that it is (`Server.reading_bounded`).
-/

namespace RoverControl

open Http.Request (parse)

/-! ## Where reading ends -/

/-- After what is in the buffer, reading goes on over all of these calls. -/
inductive GoesOn : Bytes → List (Except SocketError Bytes) → Prop
  | nil {buffer} : GoesOn buffer []
  | interrupted {buffer rest} (h : GoesOn buffer rest) :
      GoesOn buffer (.error .interrupted :: rest)
  | piece {buffer p rest} (hp : p ≠ []) (hparse : parse (buffer ++ p) = .error .incomplete)
      (h : GoesOn (buffer ++ p) rest) : GoesOn buffer (.ok p :: rest)

/-- After what is in the buffer, a call ends reading with a result. -/
inductive Ends (buffer : Bytes) :
    Except SocketError Bytes → Except SocketError (Except Http.Error Http.Request) → Prop
  | closed : Ends buffer (.ok []) (.ok (parse buffer))
  | failed {e} (he : e ≠ .interrupted) : Ends buffer (.error e) (.error e)
  | piece {p} (hp : p ≠ []) (hparse : parse (buffer ++ p) ≠ .error .incomplete) :
      Ends buffer (.ok p) (.ok (parse (buffer ++ p)))

variable {buffer : Bytes} {front receipts : List (Except SocketError Bytes)}
  {last : Except SocketError Bytes} {request : Except SocketError (Except Http.Error Http.Request)}

theorem GoesOn.incomplete (h : GoesOn buffer front) (hbuffer : parse buffer = .error .incomplete) :
    parse (buffer ++ received front) = .error .incomplete := by
  induction h with
  | nil => rwa [received, List.flatMap_nil, List.append_nil]
  | interrupted _ ih => exact ih hbuffer
  | @piece buffer p rest _ hparse _ ih =>
    have hreceived : received (.ok p :: rest) = p ++ received rest := rfl
    rw [hreceived, ← List.append_assoc]
    exact ih hparse

/-- What goes on is read in front of what follows it. -/
theorem GoesOn.readRequest_append (h : GoesOn buffer front)
    (rest : List (Except SocketError Bytes)) :
    readRequest buffer (front ++ rest) =
      ⟨(readRequest (buffer ++ received front) rest).request,
        front.length + (readRequest (buffer ++ received front) rest).calls⟩ := by
  induction h with
  | nil => simp [received]
  | interrupted _ ih =>
    rw [List.cons_append, readRequest, if_pos rfl, ih, Reading.succ]
    simp only [List.length_cons, Reading.mk.injEq]
    exact ⟨rfl, by rw [Nat.add_right_comm]; rfl⟩
  | @piece buffer p front hp hparse _ ih =>
    have hshort := Http.Request.length_of_incomplete hparse
    have hreceived : received (.ok p :: front) = p ++ received front := rfl
    rw [List.cons_append, readRequest.eq_4 _ _ _ hp, hparse]
    dsimp only
    rw [if_neg (by rw [maxRequestBytes]; omega), ih, Reading.succ, hreceived, ← List.append_assoc]
    simp only [List.length_cons, Reading.mk.injEq, true_and]
    rw [Nat.add_right_comm]

theorem Ends.readRequest_cons (h : Ends buffer last request)
    (rest : List (Except SocketError Bytes)) :
    readRequest buffer (last :: rest) = ⟨request, 1⟩ := by
  cases h with
  | closed => rw [readRequest]
  | failed he => rw [readRequest, if_neg he]
  | @piece p hp hparse =>
    rw [readRequest.eq_4 _ _ _ hp]
    split
    · rename_i hincomplete
      exact absurd hincomplete hparse
    · rfl

/-- Reading ends with the first call over which it does not go on, whatever follows. -/
theorem Ends.readRequest_append (hfront : GoesOn buffer front)
    (hlast : Ends (buffer ++ received front) last request)
    (rest : List (Except SocketError Bytes)) :
    readRequest buffer (front ++ last :: rest) = ⟨request, front.length + 1⟩ := by
  rw [hfront.readRequest_append, hlast.readRequest_cons]

/-- Reading goes on over all calls, or one of them ends it. -/
theorem goesOn_or_ends (buffer : Bytes) (receipts : List (Except SocketError Bytes)) :
    GoesOn buffer receipts ∨
      ∃ front last rest request, receipts = front ++ last :: rest ∧ GoesOn buffer front ∧
        Ends (buffer ++ received front) last request := by
  induction receipts generalizing buffer with
  | nil => exact Or.inl .nil
  | cons receipt rest ih =>
    have hnow {request} (h : Ends buffer receipt request) :
        ∃ front last rest' request, receipt :: rest = front ++ last :: rest' ∧
          GoesOn buffer front ∧ Ends (buffer ++ received front) last request :=
      ⟨[], receipt, rest, request, rfl, .nil, by rwa [received, List.flatMap_nil, List.append_nil]⟩
    rcases receipt with e | p
    · by_cases he : e = .interrupted
      · subst he
        refine (ih buffer).imp .interrupted ?_
        rintro ⟨front, last, rest', request, rfl, hfront, hlast⟩
        exact ⟨.error .interrupted :: front, last, rest', request, rfl, .interrupted hfront, hlast⟩
      · exact Or.inr (hnow (.failed he))
    · by_cases hp : p = []
      · subst hp
        exact Or.inr (hnow .closed)
      · by_cases hparse : parse (buffer ++ p) = .error .incomplete
        · refine (ih (buffer ++ p)).imp (.piece hp hparse) ?_
          rintro ⟨front, last, rest', request, rfl, hfront, hlast⟩
          refine ⟨.ok p :: front, last, rest', request, rfl, .piece hp hparse hfront, ?_⟩
          have hreceived : received (.ok p :: front) = p ++ received front := rfl
          rwa [hreceived, ← List.append_assoc]
        · exact Or.inr (hnow (.piece hp hparse))

/-- All calls are made and one more, or reading ends with the last one that is made. -/
theorem calls_cases (buffer : Bytes) (receipts : List (Except SocketError Bytes)) :
    (GoesOn buffer receipts ∧ receipts.length < (readRequest buffer receipts).calls) ∨
      ∃ front last, receipts.take (readRequest buffer receipts).calls = front ++ [last] ∧
        GoesOn buffer front ∧
        Ends (buffer ++ received front) last (readRequest buffer receipts).request := by
  rcases goesOn_or_ends buffer receipts with
    hgoes | ⟨front, last, rest, request, rfl, hfront, hlast⟩
  · have hall := hgoes.readRequest_append []
    rw [List.append_nil] at hall
    rw [hall]
    exact Or.inl ⟨hgoes, Nat.lt_succ_self _⟩
  · rw [hlast.readRequest_append hfront rest]
    refine Or.inr ⟨front, last, ?_, hfront, hlast⟩
    rw [List.append_cons, List.take_left' (by simp)]

/-- Reading tells that a text is incomplete only where the visitor has closed their side. -/
theorem Ends.closed_of_incomplete (h : Ends buffer last request)
    (hrequest : request = .ok (.error .incomplete)) : last = .ok [] := by
  cases h with
  | closed => rfl
  | failed => cases hrequest
  | piece _ hparse => exact absurd (Except.ok.inj hrequest) hparse

theorem closed_of_incomplete {receipts : List (Except SocketError Bytes)}
    (h : (readRequest buffer receipts).request = .ok (.error .incomplete)) :
    receipts.length < (readRequest buffer receipts).calls ∨
      .ok [] ∈ receipts.take (readRequest buffer receipts).calls := by
  rcases calls_cases buffer receipts with ⟨-, hlt⟩ | ⟨front, last, htake, -, hlast⟩
  · exact Or.inl hlt
  · rw [htake, hlast.closed_of_incomplete h]
    exact Or.inr (List.mem_append_right _ List.mem_cons_self)

/-! ## How much is received -/

/-- Each call to receive brings at most what one call can bring. -/
def InPieces (receipts : List (Except SocketError Bytes)) : Prop :=
  ∀ p, .ok p ∈ receipts → p.length ≤ Visit.chunkBytes

theorem GoesOn.length_lt (h : GoesOn buffer front) (hbuffer : parse buffer = .error .incomplete) :
    (buffer ++ received front).length < Http.maxHeadBytes + Http.maxBodyBytes :=
  Http.Request.length_of_incomplete (h.incomplete hbuffer)

/-- Less is received than the longest request and one more piece. -/
theorem length_received_lt (hbuffer : parse buffer = .error .incomplete)
    {receipts : List (Except SocketError Bytes)} (h : InPieces receipts) :
    (buffer ++ received (receipts.take (readRequest buffer receipts).calls)).length <
      Http.maxHeadBytes + Http.maxBodyBytes + Visit.chunkBytes := by
  rcases calls_cases buffer receipts with ⟨hgoes, hlt⟩ | ⟨front, last, htake, hfront, -⟩
  · rw [List.take_of_length_le (Nat.le_of_lt hlt)]
    exact Nat.lt_add_right _ (hgoes.length_lt hbuffer)
  · have hfront := hfront.length_lt hbuffer
    have hlast : (received [last]).length ≤ Visit.chunkBytes := by
      rcases last with e | p
      · exact Nat.zero_le _
      · have hp : received [.ok p] = p := List.append_nil p
        rw [hp]
        refine h p (List.mem_of_mem_take (i := (readRequest buffer receipts).calls) ?_)
        rw [htake]
        exact List.mem_append_right _ List.mem_cons_self
    rw [htake, received_append, ← List.append_assoc, List.length_append]
    omega

theorem length_le_length_flatten {pieces : List Bytes} (h : [] ∉ pieces) :
    pieces.length ≤ pieces.flatten.length := by
  induction pieces with
  | nil => exact Nat.zero_le _
  | cons p rest ih =>
    rw [List.mem_cons, not_or] at h
    have hp := List.length_pos_iff.2 (Ne.symm h.1)
    have hrest := ih h.2
    rw [List.flatten_cons, List.length_cons, List.length_append]
    omega

/-- The first pieces of an endless sequence. -/
def firstPieces (pieces : ℕ → Bytes) (n : ℕ) : List Bytes := (List.range n).map pieces

theorem take_firstPieces (pieces : ℕ → Bytes) {n m : ℕ} (h : n ≤ m) :
    (firstPieces pieces m).take n = firstPieces pieces n := by
  rw [firstPieces, ← List.map_take, List.take_range, Nat.min_eq_left h, firstPieces]

/-- Of pieces that never end and are not empty, only the first are ever received. -/
theorem exists_end_of_endless {pieces : ℕ → Bytes} (hne : ∀ i, pieces i ≠ []) :
    ∃ n result, result ≠ .error .incomplete ∧
      ∀ rest, readRequest [] ((firstPieces pieces n).map .ok ++ rest) = ⟨.ok result, n⟩ := by
  have hnil : ∀ n, [] ∉ firstPieces pieces n := by
    intro n h
    obtain ⟨i, -, hi⟩ := List.mem_map.1 h
    exact hne i hi
  let most := Http.maxHeadBytes + Http.maxBodyBytes
  rcases goesOn_or_ends [] ((firstPieces pieces most).map .ok) with
    hgoes | ⟨front, last, rest, request, heq, hfront, hlast⟩
  · -- as many pieces bring at least as many bytes, which cannot be incomplete
    have hlt := hgoes.length_lt rfl
    have hle := length_le_length_flatten (hnil most)
    rw [firstPieces, List.length_map, List.length_range] at hle
    rw [List.nil_append, received_map_ok] at hlt
    exact absurd hlt (Nat.not_lt.2 hle)
  · have hlength := congrArg List.length heq
    simp only [List.length_map, firstPieces, List.length_range, List.length_append,
      List.length_cons] at hlength
    have hfirst : (firstPieces pieces (front.length + 1)).map .ok = front ++ [last] := by
      rw [← take_firstPieces pieces (show front.length + 1 ≤ most by omega), List.map_take, heq,
        List.append_cons, List.take_left' (by simp)]
    have hlastMem : last ∈ (firstPieces pieces (front.length + 1)).map .ok :=
      hfirst ▸ List.mem_append_right _ List.mem_cons_self
    obtain ⟨p, hp, rfl⟩ := List.mem_map.1 hlastMem
    have hread (rest : List (Except SocketError Bytes)) :
        readRequest [] ((firstPieces pieces (front.length + 1)).map .ok ++ rest) =
          ⟨request, front.length + 1⟩ := by
      rw [hfirst, List.append_assoc]
      exact hlast.readRequest_append hfront rest
    cases hlast with
    | closed => exact absurd hp (hnil _)
    | piece _ hparse => exact ⟨_, _, hparse, hread⟩

/-! ## The limit on what is kept -/

/-- Reading that does not look at how much it has received. -/
def readUnguarded (buffer : Bytes) : List (Except SocketError Bytes) → Reading
  | [] => ⟨.ok (parse buffer), 1⟩
  | .error e :: rest =>
    if e = .interrupted then (readUnguarded buffer rest).succ else ⟨.error e, 1⟩
  | .ok [] :: _ => ⟨.ok (parse buffer), 1⟩
  | .ok piece :: rest =>
    match parse (buffer ++ piece) with
    | .error .incomplete => (readUnguarded (buffer ++ piece) rest).succ
    | result => ⟨.ok result, 1⟩

/-- The limit on what is kept is never reached. -/
theorem readRequest_eq_readUnguarded (buffer : Bytes)
    (receipts : List (Except SocketError Bytes)) :
    readRequest buffer receipts = readUnguarded buffer receipts := by
  fun_induction readRequest buffer receipts with
  | case1 | case4 => rw [readUnguarded]
  | case2 buffer rest ih => rw [readUnguarded, if_pos rfl, ih]
  | case3 buffer e rest he => rw [readUnguarded, if_neg he]
  | case5 buffer piece rest _ hparse hlong =>
    have hshort := Http.Request.length_of_incomplete hparse
    rw [maxRequestBytes] at hlong
    omega
  | case6 buffer piece rest hpiece hparse _ ih => rw [readUnguarded.eq_4 _ _ _ hpiece, hparse, ih]
  | case7 buffer piece rest hpiece hresult =>
    rw [readUnguarded.eq_4 _ _ _ hpiece]
    split
    · rename_i hparse
      exact absurd hparse hresult
    · rfl

/-! ## Pieces of visits -/

namespace Visit

theorem length_le_of_mem_piecesFrom {fuel : ℕ} {s p : Bytes} (h : p ∈ piecesFrom fuel s) :
    p.length ≤ chunkBytes := by
  induction fuel generalizing s with
  | zero => cases h
  | succ fuel ih =>
    rw [piecesFrom] at h
    split at h
    · cases h
    · rcases List.mem_cons.1 h with rfl | h
      · exact List.length_take_le _ _
      · exact ih h

theorem inPieces_receipts (v : Visit) : InPieces v.receipts := by
  intro p hp
  obtain ⟨arrival, -, hp⟩ := List.mem_flatMap.1 hp
  rcases arrival with e | s
  · cases List.mem_singleton.1 hp
  · obtain ⟨p', hp', heq⟩ := List.mem_map.1 hp
    cases heq
    exact length_le_of_mem_piecesFrom hp'

end Visit

/-! ## Bodies -/

theorem length_body_le {raw : Bytes} {r : Http.Request} (h : parse raw = .ok r) :
    r.body.length ≤ Json.maxInputBytes := by
  obtain ⟨head, lines, body, -, -, -, hread⟩ := Http.Request.parse_eq_ok_iff.1 h
  obtain ⟨first, headerLines, method, target, fields, -, -, -, -, -, hlength, rfl⟩ :=
    Http.readRequest_eq_ok_iff.1 hread
  exact hlength

namespace Server

theorem decodeBody_ne_inputTooLarge {raw : Bytes} {r : Http.Request} (h : parse raw = .ok r) :
    decodeBody r.body ≠ .error .inputTooLarge := by
  intro hbody
  unfold decodeBody at hbody
  split at hbody
  · cases hbody
  · exact absurd (Json.parse_eq_inputTooLarge_iff.1 hbody) (Nat.not_lt.2 (length_body_le h))

/-- The answer to a body that is too large to be read as a value. -/
def tooLargeResponse : Http.Response :=
  ⟨400, Http.detailBody
    (ascii "Invalid JSON body: " ++ ascii Json.Error.inputTooLarge.message)⟩

theorem body_of_status_eq_400 {service : Service} {method path : Bytes} {body : Json}
    {headers : Headers} (h : (service.handle method path body headers).1.status = 400) :
    (service.handle method path body headers).1.body =
      Http.detailBody (ascii "Invalid client IP") := by
  rcases hdenial : service.store.denial headers with _ | e
  · rw [Service.handle_of_admitted hdenial] at h
    exact absurd (Or.inr (Or.inl h)) (service.dispatch_status_not_denied method path body)
  · rw [Service.handle_of_denial hdenial] at h ⊢
    unfold Config.Store.denial at hdenial
    split at hdenial
    · cases hdenial
      cases h
    · split at hdenial
      · cases hdenial
        rfl
      · split at hdenial <;> cases hdenial
        cases h

/-- No answer says that the body is too large to be read as a value. -/
theorem Replies.render_ne {service service' : Service} {peer : Option Net.Address} {heard : Bytes}
    {a : Answer} (h : Replies service peer heard a service') (hstatus : a.response.status = 400) :
    a.response.body.render ≠ tooLargeResponse.body.render := by
  cases h with
  | asked =>
    have hbody := body_of_status_eq_400 hstatus
    dsimp only [Service.handleMessage] at hbody ⊢
    rw [hbody]
    decide
  | unframed =>
    have all : ∀ e : Http.Error,
        (Http.detailBody (ascii e.message)).render ≠ tooLargeResponse.body.render := by
      intro e
      cases e <;> decide
    exact all _
  | @unreadable r e hparse _ hvalue =>
    have hlength := length_body_le hparse
    cases e with
    | inputTooLarge =>
      exact absurd (Json.parse_eq_inputTooLarge_iff.1 hvalue) (Nat.not_lt.2 hlength)
    | _ => decide

/-- Whatever a visitor sends, they are not told that the body is too large. -/
theorem sent_ne_tooLargeResponse (s : Server) (v : Visit) :
    (s.serve v).1.sent ≠ tooLargeResponse.format := by
  have hcourse := s.serve_course v
  generalize s.serve v = result at hcourse
  have hnil : [] ≠ tooLargeResponse.format := by simp [Http.Response.format, ascii]
  cases hcourse with
  | nobody | missed | unheard => exact hnil
  | @answered peer a service _ _ ha =>
    intro hsent
    have hprefix := (sendAll_sendsFrom a.response.format v.takes).sent_isPrefix
    rw [show (sendAll a.response.format v.takes).sent = tooLargeResponse.format from hsent]
      at hprefix
    obtain ⟨hstatus, hbody⟩ := Http.eq_of_format_isPrefix hprefix
    exact ha.render_ne hstatus.symm hbody.symm

/-- Reading is bounded whatever a visitor sends.  An incomplete text is shorter than the longest
head and the longest body together.  So less than that and one more piece is received, however the
pieces come, and reading is over even if they never end; it tells that a text is incomplete only
where the visitor has closed their side, and the limit on what is kept is never reached.  The body
of a request is never too large to be read as a value, and no visitor is answered that it is. -/
theorem reading_bounded :
    (∀ raw, parse raw = .error .incomplete →
      raw.length < Http.maxHeadBytes + Http.maxBodyBytes) ∧
    (∀ receipts, InPieces receipts →
      (received (receipts.take (readRequest [] receipts).calls)).length <
        Http.maxHeadBytes + Http.maxBodyBytes + Visit.chunkBytes) ∧
    (∀ pieces : ℕ → Bytes, (∀ i, pieces i ≠ [] ∧ (pieces i).length ≤ Visit.chunkBytes) →
      ∃ n result, result ≠ .error .incomplete ∧
        (firstPieces pieces n).flatten.length <
          Http.maxHeadBytes + Http.maxBodyBytes + Visit.chunkBytes ∧
        ∀ rest, readRequest [] ((firstPieces pieces n).map .ok ++ rest) = ⟨.ok result, n⟩) ∧
    (∀ receipts, readRequest [] receipts = readUnguarded [] receipts ∧
      ((readRequest [] receipts).request = .ok (.error .incomplete) →
        receipts.length < (readRequest [] receipts).calls ∨
          .ok [] ∈ receipts.take (readRequest [] receipts).calls)) ∧
    (∀ raw r, parse raw = .ok r →
      r.body.length ≤ Json.maxInputBytes ∧ decodeBody r.body ≠ .error .inputTooLarge) ∧
    ∀ (s : Server) (v : Visit), InPieces v.receipts ∧
      (s.serve v).1.sent ≠ tooLargeResponse.format := by
  have hempty : parse [] = .error .incomplete := rfl
  refine ⟨fun raw h => Http.Request.length_of_incomplete h, fun receipts h => ?_,
    fun pieces h => ?_, fun receipts => ⟨readRequest_eq_readUnguarded [] receipts,
      closed_of_incomplete⟩, fun raw r h => ⟨length_body_le h, decodeBody_ne_inputTooLarge h⟩,
    fun s v => ⟨v.inPieces_receipts, s.sent_ne_tooLargeResponse v⟩⟩
  · exact length_received_lt hempty h
  · obtain ⟨n, result, hresult, hread⟩ := exists_end_of_endless fun i => (h i).1
    refine ⟨n, result, hresult, ?_, hread⟩
    have hpieces : InPieces ((firstPieces pieces n).map .ok) := by
      intro p hp
      obtain ⟨p', hp', heq⟩ := List.mem_map.1 hp
      cases heq
      obtain ⟨i, -, rfl⟩ := List.mem_map.1 hp'
      exact (h i).2
    have hlt := length_received_lt hempty hpieces
    have hall := hread []
    rw [List.append_nil] at hall
    rw [hall, List.take_of_length_le (by simp [firstPieces]), received_map_ok] at hlt
    exact hlt

/-- What a visitor sends who never ends a line. -/
def flood : ℕ → Bytes := fun _ => List.replicate Visit.chunkBytes 0x41

/-- A request with a body. -/
def posted : Bytes := ascii "POST /drive/stop HTTP/1.1\r\nContent-Length: 2\r\n\r\n\x7b\x7d"

theorem reading_bounded_of_flood :
    (parse (ascii "GET") = .error .incomplete ∧
      (ascii "GET").length < Http.maxHeadBytes + Http.maxBodyBytes) ∧
    (InPieces [.ok posted] ∧
      (received ([.ok posted].take (readRequest [] [.ok posted]).calls)).length <
        Http.maxHeadBytes + Http.maxBodyBytes + Visit.chunkBytes) ∧
    ((∀ i, flood i ≠ [] ∧ (flood i).length ≤ Visit.chunkBytes) ∧
      ∃ n result, result ≠ .error .incomplete ∧ (firstPieces flood n).flatten.length <
          Http.maxHeadBytes + Http.maxBodyBytes + Visit.chunkBytes ∧
        ∀ rest, readRequest [] ((firstPieces flood n).map .ok ++ rest) = ⟨.ok result, n⟩) ∧
    ((readRequest [] [.ok (ascii "GET")]).request = .ok (.error .incomplete) ∧
      [Except.ok (ε := SocketError) (ascii "GET")].length <
        (readRequest [] [.ok (ascii "GET")]).calls) ∧
    ∃ r, parse posted = .ok r ∧ r.body.length ≤ Json.maxInputBytes ∧
      decodeBody r.body ≠ .error .inputTooLarge := by
  obtain ⟨short, few, endless, ending, bodies, -⟩ := reading_bounded
  have hpiece : InPieces [.ok posted] := by
    intro p hp
    cases List.mem_singleton.1 hp
    decide
  have hflood : ∀ i, flood i ≠ [] ∧ (flood i).length ≤ Visit.chunkBytes := by
    refine fun i => ⟨fun h => ?_, ?_⟩
    · exact absurd (List.replicate_eq_nil_iff _ |>.1 h) (by decide)
    · rw [flood, List.length_replicate]
  have hincomplete : (readRequest [] [.ok (ascii "GET")]).request = .ok (.error .incomplete) := rfl
  obtain ⟨r, hr⟩ : ∃ r, parse posted = .ok r := ⟨_, rfl⟩
  refine ⟨⟨rfl, short _ rfl⟩, ⟨hpiece, few _ hpiece⟩, ⟨hflood, endless flood hflood⟩,
    ⟨hincomplete, ?_⟩, r, hr, bodies _ r hr⟩
  exact ((ending _).2 hincomplete).resolve_right (by decide)

end Server

end RoverControl
