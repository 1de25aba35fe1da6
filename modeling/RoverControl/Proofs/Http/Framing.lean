import RoverControl.Http.Request

/-!
# Requests and what follows them

The head of a request ends with the first empty line, so it is the same whatever follows
(`splitHead_eq_some_iff`), and what its lines say settles all but the length of the body
(`readRequest_cases`).  Hence a text that is incomplete is short (`length_of_incomplete`), every
other fault is final (`parse_append_of_error`), what stands before the end of a request is
incomplete (`parse_of_append_ok`), and what goes on after it is a fault (`parse_append_of_ok`).
-/

namespace RoverControl

namespace Http

/-! ## Heads -/

/-- A text that ends with its first empty line, and the lines before that one. -/
def IsHead (head : Bytes) (lines : List Bytes) : Prop := splitHead head = some (lines, [])

theorem splitHeadFrom_append {line raw body : Bytes} {lines : List Bytes}
    (h : splitHeadFrom line raw = some (lines, body)) (more : Bytes) :
    splitHeadFrom line (raw ++ more) = some (lines, body ++ more) := by
  induction raw generalizing line lines with
  | nil => cases h
  | cons c rest ih =>
    rw [splitHeadFrom] at h
    rw [List.cons_append, splitHeadFrom]
    by_cases hc : c = Ascii.newline
    · rw [if_pos hc] at h ⊢
      by_cases hl : finishLine line = []
      · rw [if_pos hl] at h ⊢
        cases h
        rfl
      · rw [if_neg hl] at h ⊢
        obtain ⟨⟨lines', body'⟩, hrest, heq⟩ := Option.map_eq_some_iff.1 h
        cases heq
        rw [ih hrest]
        rfl
    · rw [if_neg hc] at h ⊢
      exact ih h

theorem exists_head_of_splitHeadFrom {line raw body : Bytes} {lines : List Bytes}
    (h : splitHeadFrom line raw = some (lines, body)) :
    ∃ head, splitHeadFrom line head = some (lines, []) ∧ raw = head ++ body := by
  induction raw generalizing line lines with
  | nil => cases h
  | cons c rest ih =>
    rw [splitHeadFrom] at h
    by_cases hc : c = Ascii.newline
    · rw [if_pos hc] at h
      by_cases hl : finishLine line = []
      · rw [if_pos hl] at h
        cases h
        refine ⟨[c], ?_, rfl⟩
        rw [splitHeadFrom, if_pos hc, if_pos hl]
      · rw [if_neg hl] at h
        obtain ⟨⟨lines', body'⟩, hrest, heq⟩ := Option.map_eq_some_iff.1 h
        cases heq
        obtain ⟨head, hhead, rfl⟩ := ih hrest
        refine ⟨c :: head, ?_, rfl⟩
        rw [splitHeadFrom, if_pos hc, if_neg hl, hhead]
        rfl
    · rw [if_neg hc] at h
      obtain ⟨head, hhead, rfl⟩ := ih h
      refine ⟨c :: head, ?_, rfl⟩
      rw [splitHeadFrom, if_neg hc, hhead]

theorem IsHead.splitHead_append {head : Bytes} {lines : List Bytes} (h : IsHead head lines)
    (body : Bytes) : splitHead (head ++ body) = some (lines, body) := splitHeadFrom_append h body

/-- A text is divided after its head. -/
theorem splitHead_eq_some_iff {raw body : Bytes} {lines : List Bytes} :
    splitHead raw = some (lines, body) ↔ ∃ head, IsHead head lines ∧ raw = head ++ body := by
  constructor
  · exact exists_head_of_splitHeadFrom
  · rintro ⟨head, hhead, rfl⟩
    exact hhead.splitHead_append body

/-- A head that is complete only after more bytes have come is longer than what was there before. -/
theorem IsHead.length_lt {head raw more body : Bytes} {lines : List Bytes} (h : IsHead head lines)
    (hraw : splitHead raw = none) (heq : raw ++ more = head ++ body) :
    raw.length < head.length := by
  rcases List.append_eq_append_iff.1 heq with ⟨rest, rfl, -⟩ | ⟨rest, rfl, -⟩
  · rcases rest with _ | ⟨c, rest⟩
    · rw [List.append_nil] at h
      exact absurd (h.symm.trans hraw) (by simp)
    · simp
  · rw [h.splitHead_append] at hraw
    cases hraw

/-! ## What the lines of a head say -/

/-- Whether a fault is one of the head, so that it does not depend on what follows. -/
def Error.inHead : Error → Bool
  | .incomplete | .trailingData => false
  | _ => true

theorem inHead_of_readRequestLine {line : Bytes} {e : Error} (h : readRequestLine line = .error e) :
    e.inHead = true := by
  unfold readRequestLine at h
  repeat' split at h
  all_goals cases h
  all_goals rfl

theorem inHead_of_agreeLength {earlier : Option Nat} {value : Bytes} {e : Error}
    (h : agreeLength earlier value = .error e) : e.inHead = true := by
  unfold agreeLength at h
  repeat' split at h
  all_goals cases h
  all_goals rfl

theorem Fields.inHead_of_addLine {fields : Fields} {line : Bytes} {e : Error}
    (h : fields.addLine line = .error e) : e.inHead = true := by
  unfold Fields.addLine at h
  split at h
  · cases h
    rfl
  · dsimp only at h
    split at h
    · cases h
      rfl
    · split at h
      · split at h
        · rename_i hlength
          cases h
          exact inHead_of_agreeLength hlength
        · cases h
      · split at h <;> cases h
        rfl

theorem Fields.inHead_of_addLines {fields : Fields} {lines : List Bytes} {e : Error}
    (h : fields.addLines lines = .error e) : e.inHead = true := by
  induction lines generalizing fields with
  | nil => cases h
  | cons line rest ih =>
    rw [Fields.addLines] at h
    split at h
    · rename_i hline
      cases h
      exact inHead_of_addLine hline
    · exact ih h

/-- Either the lines of a head have a fault, whatever the body is, or they say how long the body has
to be. -/
theorem readRequest_cases (lines : List Bytes) :
    (∃ e : Error, e.inHead = true ∧ ∀ body, readRequest lines body = .error e) ∨
    ∃ length, length ≤ maxBodyBytes ∧ ∃ request : Bytes → Request, ∀ body,
      readRequest lines body =
        if body.length < length then .error .incomplete
        else if length < body.length then .error .trailingData
        else .ok (request body) := by
  unfold readRequest
  rcases lines with _ | ⟨first, headerLines⟩
  · exact Or.inl ⟨_, rfl, fun _ => rfl⟩
  · dsimp only
    rcases hfirst : readRequestLine first with e | ⟨method, target⟩
    · exact Or.inl ⟨e, inHead_of_readRequestLine hfirst, fun _ => rfl⟩
    · dsimp only
      by_cases hmany : maxHeaderLines < headerLines.length
      · exact Or.inl ⟨_, rfl, fun _ => if_pos hmany⟩
      · rcases hfields : Fields.addLines ⟨[], none⟩ headerLines with e | fields
        · exact Or.inl ⟨e, Fields.inHead_of_addLines hfields, fun _ => if_neg hmany⟩
        · by_cases hlong : maxBodyBytes < fields.contentLength.getD 0
          · exact Or.inl ⟨_, rfl, fun _ => (if_neg hmany).trans (if_pos hlong)⟩
          · refine Or.inr ⟨fields.contentLength.getD 0, Nat.le_of_not_lt hlong, fun body =>
              ⟨method, (splitTarget target).1, (splitTarget target).2, fields.headers, body⟩,
              fun _ => ?_⟩
            exact (if_neg hmany).trans (if_neg hlong)

/-! ## Whole requests -/

namespace Request

theorem parse_of_no_head {raw : Bytes} (h : splitHead raw = none) :
    parse raw = .error (if maxHeadBytes < raw.length then .headTooLarge else .incomplete) := by
  rw [parse, h]

/-- Either a head has a fault, whatever follows it, or it is short enough and says how long what
follows has to be. -/
theorem parse_of_isHead {head : Bytes} {lines : List Bytes} (h : IsHead head lines) :
    (∃ e : Error, e.inHead = true ∧ ∀ body, parse (head ++ body) = .error e) ∨
    head.length ≤ maxHeadBytes ∧ ∃ length, length ≤ maxBodyBytes ∧ ∃ request : Bytes → Request,
      ∀ body, parse (head ++ body) =
        if body.length < length then .error .incomplete
        else if length < body.length then .error .trailingData
        else .ok (request body) := by
  have hparse : ∀ body, parse (head ++ body) =
      if maxHeadBytes < head.length then .error .headTooLarge else readRequest lines body := by
    intro body
    rw [parse, h.splitHead_append]
    dsimp only
    rw [List.length_append, Nat.add_sub_cancel]
  by_cases hlong : maxHeadBytes < head.length
  · exact Or.inl ⟨.headTooLarge, rfl, fun body => (hparse body).trans (if_pos hlong)⟩
  · have hlines : ∀ body, parse (head ++ body) = readRequest lines body := fun body =>
      (hparse body).trans (if_neg hlong)
    rcases readRequest_cases lines with ⟨e, he, hall⟩ | ⟨length, hle, request, hall⟩
    · exact Or.inl ⟨e, he, fun body => (hlines body).trans (hall body)⟩
    · exact Or.inr ⟨Nat.le_of_not_lt hlong, length, hle, request, fun body =>
        (hlines body).trans (hall body)⟩

/-- A text has no head yet, or its head has a fault, whatever follows, or its head says how long
what follows has to be. -/
theorem parse_cases (raw : Bytes) :
    splitHead raw = none ∨
    (∃ e : Error, e.inHead = true ∧ ∀ more, parse (raw ++ more) = .error e) ∨
    ∃ head body, raw = head ++ body ∧ head.length ≤ maxHeadBytes ∧
      ∃ length, length ≤ maxBodyBytes ∧ ∃ request : Bytes → Request, ∀ body,
        parse (head ++ body) =
          if body.length < length then .error .incomplete
          else if length < body.length then .error .trailingData
          else .ok (request body) := by
  rcases hs : splitHead raw with _ | ⟨lines, body⟩
  · exact Or.inl rfl
  · obtain ⟨head, hhead, rfl⟩ := splitHead_eq_some_iff.1 hs
    rcases parse_of_isHead hhead with ⟨e, he, hall⟩ | ⟨hle, hlength⟩
    · refine Or.inr (Or.inl ⟨e, he, fun more => ?_⟩)
      rw [List.append_assoc]
      exact hall (body ++ more)
    · exact Or.inr (Or.inr ⟨head, body, rfl, hle, hlength⟩)

/-- A text that more bytes may still make a request is shorter than the longest request. -/
theorem length_of_incomplete {raw : Bytes} (h : parse raw = .error .incomplete) :
    raw.length < maxHeadBytes + maxBodyBytes := by
  rcases parse_cases raw with hs | ⟨e, he, hall⟩ | ⟨head, body, rfl, hle, length, hlength, _, hall⟩
  · rw [parse_of_no_head hs] at h
    split at h
    · cases h
    · simp only [maxHeadBytes, maxBodyBytes] at *
      omega
  · rw [← List.append_nil raw, hall] at h
    cases h
    cases he
  · rw [hall] at h
    split at h
    · rw [List.length_append]
      omega
    · split at h <;> cases h

/-- Every fault but an incomplete text remains, whatever more bytes come. -/
theorem parse_append_of_error {raw : Bytes} {e : Error} (h : parse raw = .error e)
    (he : e ≠ .incomplete) (more : Bytes) : parse (raw ++ more) = .error e := by
  rcases parse_cases raw with hs | ⟨e', -, hall⟩ | ⟨head, body, rfl, -, length, -, _, hall⟩
  · -- without an end the head is too large already, and an end that comes now comes too late
    rw [parse_of_no_head hs] at h
    split at h
    · cases h
      rcases hs' : splitHead (raw ++ more) with _ | ⟨lines, body⟩
      · rw [parse_of_no_head hs', if_pos]
        rw [List.length_append]
        omega
      · obtain ⟨head, hhead, heq⟩ := splitHead_eq_some_iff.1 hs'
        have hlt := hhead.length_lt hs heq
        rw [parse, hs']
        dsimp only
        rw [heq, List.length_append, Nat.add_sub_cancel, if_pos (by omega)]
    · cases h
      exact absurd rfl he
  · rw [← List.append_nil raw, hall] at h
    rw [hall, h]
  · rw [List.append_assoc]
    rw [hall] at h ⊢
    split at h
    · cases h
      exact absurd rfl he
    · split at h
      · rw [List.length_append, if_neg (by omega), if_pos (by omega), h]
      · cases h

/-- What has to be gone on with to be a request is incomplete. -/
theorem parse_of_append_ok {raw more : Bytes} {r : Request} (h : parse (raw ++ more) = .ok r)
    (hmore : more ≠ []) : parse raw = .error .incomplete := by
  rcases parse_cases raw with hs | ⟨e, -, hall⟩ | ⟨head, body, rfl, -, length, -, _, hall⟩
  · rcases hs' : splitHead (raw ++ more) with _ | ⟨lines, body⟩
    · rw [parse_of_no_head hs'] at h
      cases h
    · obtain ⟨head, hhead, heq⟩ := splitHead_eq_some_iff.1 hs'
      have hlt := hhead.length_lt hs heq
      rw [heq] at h
      rcases parse_of_isHead hhead with ⟨e, -, hall⟩ | ⟨hle, -⟩
      · rw [hall] at h
        cases h
      · rw [parse_of_no_head hs, if_neg (by omega)]
  · rw [hall] at h
    cases h
  · have := List.length_pos_iff.2 hmore
    rw [List.append_assoc, hall, List.length_append] at h
    split at h
    · cases h
    · split at h
      · cases h
      · rw [hall, if_pos (by omega)]

/-- What goes on after a request is data that trails it. -/
theorem parse_append_of_ok {raw more : Bytes} {r : Request} (h : parse raw = .ok r)
    (hmore : more ≠ []) : parse (raw ++ more) = .error .trailingData := by
  rcases parse_cases raw with hs | ⟨e, -, hall⟩ | ⟨head, body, rfl, -, length, -, _, hall⟩
  · rw [parse_of_no_head hs] at h
    cases h
  · rw [← List.append_nil raw, hall] at h
    cases h
  · have := List.length_pos_iff.2 hmore
    rw [List.append_assoc]
    rw [hall] at h ⊢
    rw [List.length_append]
    split at h
    · cases h
    · split at h
      · cases h
      · rw [if_neg (by omega), if_pos (by omega)]

/-- A text with data that trails a request begins with that request. -/
theorem exists_request_of_trailing {s : Bytes} (h : parse s = .error .trailingData) :
    ∃ pre post r, s = pre ++ post ∧ post ≠ [] ∧ parse pre = .ok r := by
  rcases parse_cases s with hs | ⟨e, he, hall⟩ | ⟨head, body, rfl, -, length, -, request, hall⟩
  · rw [parse_of_no_head hs] at h
    split at h <;> cases h
  · rw [← List.append_nil s, hall] at h
    cases h
    cases he
  · rw [hall] at h
    split at h
    · cases h
    · split at h
      · refine ⟨head ++ body.take length, body.drop length, request (body.take length),
          ?_, ?_, ?_⟩
        · rw [List.append_assoc, List.take_append_drop]
        · rw [Ne, List.drop_eq_nil_iff]
          omega
        · rw [hall, List.length_take, if_neg (by omega), if_neg (by omega)]
      · cases h

/-- A text has no two beginnings that are requests. -/
theorem prefix_unique {s pre pre' : Bytes} {r r' : Request} (hpre : pre <+: s)
    (h : parse pre = .ok r) (hpre' : pre' <+: s) (h' : parse pre' = .ok r') : pre' = pre := by
  have no_longer : ∀ {p q : Bytes} {r r' : Request}, p <+: q → parse p = .ok r →
      parse q = .ok r' → p = q := by
    rintro p _ r r' ⟨more, rfl⟩ hp hq
    rcases more with _ | ⟨c, more⟩
    · rw [List.append_nil]
    · rw [parse_of_append_ok hq (List.cons_ne_nil c more)] at hp
      cases hp
  rcases List.prefix_or_prefix_of_prefix hpre hpre' with hle | hle
  · exact (no_longer hle h h').symm
  · exact no_longer hle h' h

end Request

end Http

end RoverControl
