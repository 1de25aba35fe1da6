import RoverControl.Proofs.Http.Framing
import RoverControl.Server.Socket

/-!
# Reading in pieces

A request is read as it would be if all its bytes came at once, however they are divided into the
pieces that are received (`read_however_delivered`).  Only where more bytes follow a request it
depends on the pieces whether they are noticed.
-/

namespace RoverControl

/-- The calls to receive bring a text, in pieces that are not empty and with interruptions, and then
the end of the stream. -/
inductive Delivers : List (Except SocketError Bytes) → Bytes → Prop where
  | ended : Delivers [] []
  | closed {rest} : Delivers (.ok [] :: rest) []
  | interrupted {rest s} (h : Delivers rest s) : Delivers (.error .interrupted :: rest) s
  | piece {p rest s} (hp : p ≠ []) (h : Delivers rest s) : Delivers (.ok p :: rest) (p ++ s)

/-! ## What a visit brings -/

namespace Visit

theorem flatten_piecesFrom {fuel : Nat} {s : Bytes} (h : s.length ≤ fuel * chunkBytes) :
    (piecesFrom fuel s).flatten = s := by
  induction fuel generalizing s with
  | zero =>
    rw [Nat.zero_mul, Nat.le_zero] at h
    exact (List.length_eq_zero_iff.1 h).symm
  | succ fuel ih =>
    by_cases hs : s = []
    · rw [piecesFrom, if_pos hs, hs]
      rfl
    · have hdrop : (s.drop chunkBytes).length ≤ fuel * chunkBytes := by
        rw [List.length_drop]
        rw [Nat.succ_mul] at h
        omega
      rw [piecesFrom, if_neg hs, List.flatten_cons, ih hdrop, List.take_append_drop]

theorem flatten_pieces (s : Bytes) : (pieces s).flatten = s := by
  refine flatten_piecesFrom ?_
  simp only [chunkBytes]
  omega

theorem nil_notMem_piecesFrom (fuel : Nat) (s : Bytes) : [] ∉ piecesFrom fuel s := by
  induction fuel generalizing s with
  | zero => exact List.not_mem_nil
  | succ fuel ih =>
    rw [piecesFrom]
    split
    · exact List.not_mem_nil
    · rename_i hs
      rw [List.mem_cons, not_or]
      refine ⟨fun h => hs ?_, ih _⟩
      rcases List.take_eq_nil_iff.1 h.symm with h | h
      · exact absurd h (by decide)
      · exact h

end Visit

theorem Delivers.append_pieces {pieces : List Bytes} (hpieces : [] ∉ pieces)
    {receipts : List (Except SocketError Bytes)} {s : Bytes} (h : Delivers receipts s) :
    Delivers (pieces.map .ok ++ receipts) (pieces.flatten ++ s) := by
  induction pieces with
  | nil => exact h
  | cons p rest ih =>
    rw [List.mem_cons, not_or] at hpieces
    rw [List.flatten_cons, List.append_assoc]
    exact .piece (Ne.symm hpieces.1) (ih hpieces.2)

/-- The bytes that arrive during a visit. -/
def Visit.arrived (v : Visit) : Bytes :=
  v.arrivals.flatMap fun
    | .error _ => []
    | .ok s => s

/-- A visit whose calls to receive are at most interrupted delivers what arrives. -/
theorem Visit.delivers_receipts (v : Visit)
    (h : ∀ e, .error e ∈ v.arrivals → e = .interrupted) : Delivers v.receipts v.arrived := by
  unfold receipts arrived
  generalize v.arrivals = arrivals at h ⊢
  induction arrivals with
  | nil => exact .ended
  | cons arrival rest ih =>
    have ih := ih fun e he => h e (List.mem_cons_of_mem _ he)
    rw [List.flatMap_cons, List.flatMap_cons]
    cases arrival with
    | error e =>
      cases h e List.mem_cons_self
      exact .interrupted ih
    | ok s =>
      have hdelivers := ih.append_pieces (nil_notMem_piecesFrom (s.length / chunkBytes + 1) s)
      have hs := flatten_pieces s
      unfold pieces at hs
      rw [hs] at hdelivers
      exact hdelivers

/-- The bytes that calls to receive bring. -/
def received (receipts : List (Except SocketError Bytes)) : Bytes :=
  receipts.flatMap fun
    | .error _ => []
    | .ok s => s

theorem received_append (front back : List (Except SocketError Bytes)) :
    received (front ++ back) = received front ++ received back := List.flatMap_append

theorem received_map_ok (pieces : List Bytes) :
    received (pieces.map .ok) = pieces.flatten := by
  induction pieces with
  | nil => rfl
  | cons p rest ih => exact congrArg (p ++ ·) ih

theorem Visit.received_receipts (v : Visit) : received v.receipts = v.arrived := by
  unfold receipts arrived
  induction v.arrivals with
  | nil => rfl
  | cons arrival rest ih =>
    rw [List.flatMap_cons, List.flatMap_cons, received_append, ih]
    cases arrival with
    | error e => rfl
    | ok s =>
      dsimp only
      rw [received_map_ok, flatten_pieces]

/-! ## Reading -/

open Http.Request (parse)

/-- A piece is added to what was read before, and reading goes on as long as that is incomplete: it
is never so long that reading is given up. -/
theorem readRequest_piece (buffer : Bytes) {piece : Bytes} (hpiece : piece ≠ [])
    (rest : List (Except SocketError Bytes)) :
    (readRequest buffer (.ok piece :: rest)).request =
      match parse (buffer ++ piece) with
      | .error .incomplete => (readRequest (buffer ++ piece) rest).request
      | result => .ok result := by
  rw [readRequest]
  · rcases hp : parse (buffer ++ piece) with e | r
    · cases e with
      | incomplete =>
        have := Http.Request.length_of_incomplete hp
        dsimp only
        rw [if_neg (by rw [maxRequestBytes]; omega)]
        rfl
      | _ => rfl
    · rfl
  · exact hpiece

/-- A request that is read was received, after what had been read before. -/
theorem exists_prefix_of_read {receipts : List (Except SocketError Bytes)} {buffer : Bytes}
    {r : Http.Request} (h : (readRequest buffer receipts).request = .ok (.ok r)) :
    ∃ s, s <+: received receipts ∧ parse (buffer ++ s) = .ok r := by
  have here {receipts} {buffer : Bytes} (hparse : parse buffer = .ok r) :
      ∃ s, s <+: received receipts ∧ parse (buffer ++ s) = .ok r :=
    ⟨[], List.nil_prefix, by rw [List.append_nil, hparse]⟩
  induction receipts generalizing buffer with
  | nil => exact here (Except.ok.inj h)
  | cons receipt rest ih =>
    rcases receipt with e | _ | ⟨c, piece⟩
    · rw [readRequest] at h
      split at h
      · exact ih h
      · cases h
    · exact here (Except.ok.inj h)
    · rw [readRequest_piece buffer (List.cons_ne_nil c piece)] at h
      have hreceived : received (.ok (c :: piece) :: rest) = (c :: piece) ++ received rest := rfl
      rw [hreceived]
      split at h
      · obtain ⟨s, hs, hparse⟩ := ih h
        refine ⟨(c :: piece) ++ s, (List.prefix_append_right_inj _).2 hs, ?_⟩
        rw [← List.append_assoc, hparse]
      · exact ⟨c :: piece, List.prefix_append _ _, Except.ok.inj h⟩

theorem readRequest_of_delivers {receipts : List (Except SocketError Bytes)} {s buffer : Bytes}
    (h : Delivers receipts s) (hbuffer : parse buffer = .error .incomplete) :
    (readRequest buffer receipts).request = .ok (parse (buffer ++ s)) ∨
      ∃ pre post r, buffer ++ s = pre ++ post ∧ post ≠ [] ∧ parse pre = .ok r ∧
        (readRequest buffer receipts).request = .ok (.ok r) := by
  induction h generalizing buffer with
  | ended => exact Or.inl (by rw [readRequest, List.append_nil])
  | closed => exact Or.inl (by rw [readRequest, List.append_nil])
  | interrupted _ ih =>
    rw [readRequest, if_pos rfl]
    exact ih hbuffer
  | @piece p rest s hp hrest ih =>
    rw [readRequest_piece buffer hp, ← List.append_assoc]
    rcases hparse : parse (buffer ++ p) with e | r
    · by_cases he : e = .incomplete
      · subst he
        exact ih hparse
      · refine Or.inl ?_
        rw [Http.Request.parse_append_of_error hparse he]
        cases e <;> first | rfl | exact absurd rfl he
    · by_cases hs : s = []
      · refine Or.inl ?_
        rw [hs, List.append_nil, hparse]
      · exact Or.inr ⟨buffer ++ p, s, r, rfl, hs, hparse, rfl⟩

/-- However a text is delivered, it is read as it is when it comes at once.  The one exception is a
text that goes on after a request, which is the only beginning of the text that is one: either the
rest is noticed, or the request is read.  Behind this stand two laws: every fault but an incomplete
text is final, and whatever stops before the end of a request is incomplete. -/
theorem read_however_delivered :
    (∀ receipts s, Delivers receipts s →
      (parse s ≠ .error .trailingData → (readRequest [] receipts).request = .ok (parse s)) ∧
      (parse s = .error .trailingData → ∃ pre r,
        (pre <+: s ∧ pre ≠ s ∧ parse pre = .ok r) ∧
        (∀ pre' r', pre' <+: s → pre' ≠ s → parse pre' = .ok r' → pre' = pre) ∧
        ((readRequest [] receipts).request = .ok (.error .trailingData) ∨
          (readRequest [] receipts).request = .ok (.ok r)))) ∧
      (∀ raw more e, parse raw = .error e → e ≠ .incomplete → parse (raw ++ more) = .error e) ∧
      ∀ raw more r, parse (raw ++ more) = .ok r → more ≠ [] → parse raw = .error .incomplete := by
  refine ⟨fun receipts s h => ?_, fun raw more e h he => ?_, fun raw more r h hmore => ?_⟩
  · have hnil : parse [] = .error .incomplete := rfl
    have hread := readRequest_of_delivers h hnil
    rw [List.nil_append] at hread
    refine ⟨fun hs => ?_, fun hs => ?_⟩
    · rcases hread with hread | ⟨pre, post, r, rfl, hpost, hr, -⟩
      · exact hread
      · exact absurd (Http.Request.parse_append_of_ok hr hpost) hs
    · obtain ⟨pre, post, r, rfl, hpost, hr⟩ := Http.Request.exists_request_of_trailing hs
      have hpre : pre <+: pre ++ post := List.prefix_append pre post
      have unique : ∀ pre' r', pre' <+: pre ++ post → parse pre' = .ok r' → pre' = pre :=
        fun pre' r' hpre' hr' => Http.Request.prefix_unique hpre hr hpre' hr'
      refine ⟨pre, r, ⟨hpre, ?_, hr⟩, fun pre' r' hpre' _ => unique pre' r' hpre', ?_⟩
      · exact fun heq => hpost (List.append_right_eq_self.1 heq.symm)
      · rcases hread with hread | ⟨pre', post', r', heq, -, hr', hread⟩
        · exact Or.inl (hread.trans (congrArg _ hs))
        · cases unique pre' r' (heq ▸ List.prefix_append pre' post') hr'
          cases hr.symm.trans hr'
          exact Or.inr hread
  · exact Http.Request.parse_append_of_error h he more
  · exact Http.Request.parse_of_append_ok h hmore

/-- A visitor who sends a request and goes on, and whose sending is interrupted in between. -/
def talkative : Visit where
  poll := .ready
  peer := .ok (some (.v4 127 0 0 1))
  arrivals := [.ok (ascii "GET /config HTTP/1.1\r\n"), .error .interrupted, .ok (ascii "\r\n"),
    .ok (ascii "GET")]
  takes := []

theorem read_talkative :
    Delivers talkative.receipts talkative.arrived ∧
      parse talkative.arrived = .error .trailingData ∧
      (∃ r, parse (ascii "GET /config HTTP/1.1\r\n\r\n") = .ok r ∧
        ((readRequest [] talkative.receipts).request = .ok (.error .trailingData) ∨
          (readRequest [] talkative.receipts).request = .ok (.ok r))) ∧
      parse (ascii "GET /config HTTP/1.1\r\n") = .error .incomplete ∧
      parse (ascii "GET\n\n" ++ ascii "GET") = .error .malformedRequestLine := by
  have hdelivers : Delivers talkative.receipts talkative.arrived := by
    refine talkative.delivers_receipts fun e he => ?_
    simpa [talkative] using he
  have htrailing : parse talkative.arrived = .error .trailingData := rfl
  obtain ⟨r, hr⟩ : ∃ r, parse (ascii "GET /config HTTP/1.1\r\n\r\n") = .ok r := ⟨_, rfl⟩
  obtain ⟨reading, final, stopping⟩ := read_however_delivered
  obtain ⟨pre, r', ⟨-, -, hr'⟩, unique, hread⟩ := (reading _ _ hdelivers).2 htrailing
  have hpre := unique (ascii "GET /config HTTP/1.1\r\n\r\n") r (by decide) (by decide) hr
  rw [← hpre] at hr'
  exact ⟨hdelivers, htrailing, ⟨r', hr', hread⟩,
    stopping _ (ascii "\r\n") r hr (by decide), final _ (ascii "GET") _ rfl (by decide)⟩

end RoverControl
