import RoverControl.Http.Response
import RoverControl.Proofs.Http.Grammar
import RoverControl.Proofs.Json.Printable

/-!
# The frame of responses

A response is a head of lines, an empty line and the text of its body.  No line and no body holds a
line end, whatever the body is made of, so the first empty line is also the only place where the two
can be told apart (`framed_iff`); and the one field of the head that announces a length announces
that of the body (`format_framed`).
-/

namespace RoverControl

namespace Http

open Bytes

/-- What ends a line of a response. -/
def lineEnd : Bytes := [Ascii.carriageReturn, Ascii.newline]

/-- What ends the head of a response: the end of its last line and an empty line. -/
def headEnd : Bytes := lineEnd ++ lineEnd

/-! ## Where a head ends -/

section HeadEnd

variable {line rest front back body : Bytes} {lines : List Bytes}

/-- After a line, the end of a head stands at the end of that line or further back. -/
theorem append_lineEnd_eq_iff (h : Ascii.carriageReturn ∉ line) :
    line ++ lineEnd ++ rest = front ++ headEnd ++ back ↔
      (front = line ∧ rest = lineEnd ++ back) ∨
        ∃ front', front = line ++ lineEnd ++ front' ∧ rest = front' ++ headEnd ++ back := by
  constructor
  · intro heq
    -- both sides are cut at their first carriage return
    have hleft : line ++ lineEnd ++ rest =
        line ++ Ascii.carriageReturn :: (Ascii.newline :: rest) := by simp [lineEnd]
    have hcut := cut_of_notMem h (Ascii.newline :: rest)
    rw [← hleft, heq] at hcut
    by_cases hmem : Ascii.carriageReturn ∈ front
    · obtain ⟨first, more, rfl, hfirst⟩ := List.eq_append_cons_of_mem hmem
      have hright : first ++ Ascii.carriageReturn :: more ++ headEnd ++ back =
          first ++ Ascii.carriageReturn :: (more ++ headEnd ++ back) := by simp
      rw [hright, cut_of_notMem hfirst] at hcut
      simp only [Option.some.injEq, Prod.mk.injEq] at hcut
      obtain ⟨rfl, hmore⟩ := hcut
      rcases more with _ | ⟨c, front'⟩
      · cases hmore
      · cases hmore
        exact Or.inr ⟨front', by simp [lineEnd], rfl⟩
    · have hright : front ++ headEnd ++ back =
          front ++ Ascii.carriageReturn :: (Ascii.newline :: (lineEnd ++ back)) := by
        simp [headEnd, lineEnd]
      rw [hright, cut_of_notMem hmem] at hcut
      simp only [Option.some.injEq, Prod.mk.injEq, List.cons.injEq, true_and] at hcut
      exact Or.inl ⟨hcut.1, hcut.2.symm⟩
  · rintro (⟨rfl, rfl⟩ | ⟨front', rfl, rfl⟩) <;> simp [headEnd]

/-- A text without carriage returns holds no end of a head, not even after the end of a line. -/
theorem lineEnd_append_ne (h : Ascii.carriageReturn ∉ body) :
    lineEnd ++ body ≠ front ++ headEnd ++ back := by
  intro heq
  have hempty : Ascii.carriageReturn ∉ ([] : Bytes) := List.not_mem_nil
  rcases (append_lineEnd_eq_iff hempty).1 heq with ⟨-, rfl⟩ | ⟨front', -, rfl⟩
  · exact h (by simp [lineEnd])
  · exact h (by simp [headEnd, lineEnd])

theorem intercalate_ne_lineEnd_append (hne : line ≠ []) (h : Ascii.carriageReturn ∉ line) :
    lineEnd.intercalate (line :: lines) ++ rest ≠ lineEnd ++ back := by
  obtain ⟨c, line, rfl⟩ := List.exists_cons_of_ne_nil hne
  have hfirst : (lineEnd.intercalate ((c :: line) :: lines) ++ rest).head? = some c := by
    rcases lines with _ | ⟨line', lines⟩
    · rw [List.intercalate_singleton]
      rfl
    · rw [List.intercalate_cons_cons]
      rfl
  intro heq
  rw [heq] at hfirst
  cases hfirst
  exact h List.mem_cons_self

/-- Lines and a text that hold no carriage return are told apart in one way only. -/
theorem framed_iff (hne : lines ≠ []) (hlines : ∀ l ∈ lines, l ≠ [] ∧ Ascii.carriageReturn ∉ l)
    (hbody : Ascii.carriageReturn ∉ body) :
    lineEnd.intercalate lines ++ headEnd ++ body = front ++ headEnd ++ back ↔
      front = lineEnd.intercalate lines ∧ back = body := by
  refine ⟨fun heq => ?_, by rintro ⟨rfl, rfl⟩; rfl⟩
  induction lines generalizing front with
  | nil => exact absurd rfl hne
  | cons line lines ih =>
    obtain ⟨hline, hlines⟩ := List.forall_mem_cons.1 hlines
    rcases lines with _ | ⟨line', lines⟩
    · rw [List.intercalate_singleton, headEnd, ← List.append_assoc, List.append_assoc] at heq
      rcases (append_lineEnd_eq_iff hline.2).1 heq with ⟨rfl, hrest⟩ | ⟨front', -, hrest⟩
      · exact ⟨List.intercalate_singleton.symm, (List.append_cancel_left hrest).symm⟩
      · exact absurd hrest (lineEnd_append_ne hbody)
    · rw [List.intercalate_cons_cons, List.append_assoc, List.append_assoc] at heq
      rcases (append_lineEnd_eq_iff hline.2).1 heq with ⟨-, hrest⟩ | ⟨front', rfl, hrest⟩
      · obtain ⟨hne', hline'⟩ := hlines line' List.mem_cons_self
        exact absurd hrest (intercalate_ne_lineEnd_append hne' hline')
      · obtain ⟨rfl, rfl⟩ := ih (List.cons_ne_nil _ _) hlines (by rw [← hrest, List.append_assoc])
        exact ⟨(List.intercalate_cons_cons ..).symm, rfl⟩

/-- The lines in front of the end of a head are those that a reader of lines finds there. -/
theorem isHead_intercalate (hne : lines ≠ [])
    (hlines : ∀ l ∈ lines, l ≠ [] ∧ Ascii.newline ∉ l) :
    IsHead (lineEnd.intercalate lines ++ headEnd) lines := by
  refine isHead_iff.2 ?_
  induction lines with
  | nil => exact absurd rfl hne
  | cons line lines ih =>
    obtain ⟨hline, hlines⟩ := List.forall_mem_cons.1 hlines
    rcases lines with _ | ⟨line', lines⟩
    · have hempty : Ascii.newline ∉ ([] : Bytes) := List.not_mem_nil
      have hlast : IsLines lineEnd [] := .last (.returnFeed hempty)
      rw [List.intercalate_singleton, headEnd, ← List.append_assoc]
      exact .cons (.returnFeed hline.2) hline.1 hlast
    · rw [List.intercalate_cons_cons, List.append_assoc]
      exact .cons (.returnFeed hline.2) hline.1 (ih (List.cons_ne_nil _ _) hlines)

end HeadEnd

/-! ## The head of a response -/

/-- The first line of a response. -/
def statusLine (status : Int) : Bytes :=
  ascii "HTTP/1.1 " ++ decimalInt status ++ ascii " " ++ ascii (reasonPhrase status)

/-- A header line. -/
def fieldLine (field : Bytes × Bytes) : Bytes := field.1 ++ ascii ": " ++ field.2

/-- The header fields of a response. -/
def Response.fields (r : Response) : List (Bytes × Bytes) :=
  [(ascii "Content-Type", ascii "application/json"),
    (ascii "Content-Length", decimal r.body.render.length),
    (ascii "Connection", ascii "close")]

/-- The lines of the head of a response. -/
def Response.headLines (r : Response) : List Bytes :=
  statusLine r.status :: r.fields.map fieldLine

variable (r : Response)

theorem format_eq :
    r.format = lineEnd.intercalate r.headLines ++ headEnd ++ r.body.render := by
  have hlines (a b c d : Bytes) : lineEnd.intercalate [a, b, c, d] =
      a ++ lineEnd ++ (b ++ lineEnd ++ (c ++ lineEnd ++ d)) := by
    simp only [List.intercalate_cons_cons, List.intercalate_singleton]
  have hsecond : ascii "\r\nContent-Type: application/json\r\nContent-Length: " =
      lineEnd ++ (fieldLine (ascii "Content-Type", ascii "application/json") ++
        (lineEnd ++ (ascii "Content-Length" ++ ascii ": "))) := by decide
  have hlast : ascii "\r\nConnection: close\r\n\r\n" =
      lineEnd ++ (fieldLine (ascii "Connection", ascii "close") ++ headEnd) := by decide
  rw [Response.format, hsecond, hlast, Response.headLines, Response.fields, List.map_cons,
    List.map_cons, List.map_cons, List.map_nil, hlines]
  simp only [statusLine, fieldLine, List.append_assoc]

theorem printable_decimalInt (n : Int) : Printable (decimalInt n) := by
  unfold decimalInt
  split
  · exact printable_cons.2 ⟨by decide, printable_decimal _⟩
  · exact printable_decimal _

theorem printable_reasonPhrase (status : Int) : Printable (ascii (reasonPhrase status)) := by
  unfold reasonPhrase
  split <;> decide

theorem printable_statusLine (status : Int) : Printable (statusLine status) := by
  refine printable_append.2 ⟨printable_append.2 ⟨printable_append.2 ⟨by decide, ?_⟩, by decide⟩, ?_⟩
  · exact printable_decimalInt status
  · exact printable_reasonPhrase status

theorem printable_headLines : ∀ line ∈ r.headLines, Printable line := by
  have hlength : Printable (fieldLine (ascii "Content-Length", decimal r.body.render.length)) :=
    printable_append.2 ⟨(by decide : Printable (ascii "Content-Length: ")), printable_decimal _⟩
  simp only [Response.headLines, Response.fields, List.map_cons, List.map_nil,
    List.forall_mem_cons]
  exact ⟨printable_statusLine _, by decide, hlength, by decide, by simp⟩

theorem headLines_ne_nil : ∀ line ∈ r.headLines, line ≠ [] := by
  simp [Response.headLines, Response.fields, statusLine, fieldLine, ascii]

/-- A field is read from its line. -/
theorem isField_fieldLine {name value : Bytes} (hname : isToken name = true)
    (hvalue : IsTrimmed value) : IsField (fieldLine (name, value)) (name, value) := by
  have hfront : IsBlank [Ascii.space] := by simp [IsBlank, Ascii.isBlank]
  have hback : IsBlank [] := by simp [IsBlank]
  simpa [fieldLine, ascii] using IsField.mk hname hfront hvalue hback

theorem isTrimmed_of_all {s : Bytes} (h : s.all (fun c => !Ascii.isBlank c) = true) :
    IsTrimmed s := by
  have hblank : ∀ c ∈ s, Ascii.isBlank c = false := by simpa using h
  exact ⟨fun c hc => hblank c (List.mem_of_mem_head? hc),
    fun c hc => hblank c (List.mem_of_mem_getLast? hc)⟩

theorem isTrimmed_decimal (n : ℕ) : IsTrimmed (decimal n) := by
  refine isTrimmed_of_all (List.all_eq_true.2 fun c hc => ?_)
  obtain ⟨d, hd, rfl⟩ := exists_digit (isDigit_of_mem_decimal hc)
  have all : ∀ d : Fin 10, (!Ascii.isBlank (UInt8.ofNat (0x30 + d.val))) = true := by decide
  exact all ⟨d, hd⟩

theorem isField_headLines : List.Forall₂ IsField (r.fields.map fieldLine) r.fields := by
  refine .cons (isField_fieldLine (by decide) ?_) (.cons (isField_fieldLine (by decide) ?_)
    (.cons (isField_fieldLine (by decide) ?_) .nil))
  · exact isTrimmed_of_all (by decide)
  · exact isTrimmed_decimal _
  · exact isTrimmed_of_all (by decide)

/-- Only one field announces a length. -/
theorem filter_announcesLength :
    r.fields.filter announcesLength =
      [(ascii "Content-Length", decimal r.body.render.length)] := by
  have htype : announcesLength (ascii "Content-Type", ascii "application/json") = false := by
    decide
  have hlength : announcesLength (ascii "Content-Length", decimal r.body.render.length) = true :=
    Headers.sameName_iff.2 rfl
  have hclose : announcesLength (ascii "Connection", ascii "close") = false := by decide
  rw [Response.fields, List.filter_cons_of_neg (by simp [htype]), List.filter_cons_of_pos hlength,
    List.filter_cons_of_neg (by simp [hclose]), List.filter_nil]

/-- The head of a response is split off line by line. -/
theorem splitHead_format : splitHead r.format = some (r.headLines, r.body.render) := by
  have hfeed : ∀ line ∈ r.headLines, line ≠ [] ∧ Ascii.newline ∉ line := fun l hl =>
    ⟨headLines_ne_nil r l hl, (printable_headLines r l hl).notMem (by decide)⟩
  rw [format_eq]
  exact (isHead_intercalate (List.cons_ne_nil _ _) hfeed).splitHead_append _

/-- A response has one end of a head, whatever its status and its body are.  In front of that stand
the status line and three header lines, which hold no control byte; behind it stands the text of the
body, which holds none either; and the one header line that announces a length announces the number
of bytes of that text. -/
theorem format_framed :
    (∀ front back, r.format = front ++ headEnd ++ back ↔
      front = lineEnd.intercalate r.headLines ∧ back = r.body.render) ∧
    splitHead r.format = some (r.headLines, r.body.render) ∧
    (∀ line ∈ r.headLines, Printable line) ∧ Printable r.body.render ∧
    ∃ header fields, r.headLines = statusLine r.status :: header ∧ header.length = 3 ∧
      List.Forall₂ IsField header fields ∧
      ∃ value, fields.filter announcesLength = [(ascii "Content-Length", value)] ∧
        readDecimal? value = some r.body.render.length := by
  have hlines := printable_headLines r
  have hreturn : ∀ line ∈ r.headLines, line ≠ [] ∧ Ascii.carriageReturn ∉ line := fun l hl =>
    ⟨headLines_ne_nil r l hl, (hlines l hl).notMem (by decide)⟩
  have hbody := Json.printable_render r.body
  refine ⟨fun front back => ?_, splitHead_format r, hlines, hbody, ?_⟩
  · rw [format_eq]
    exact framed_iff (List.cons_ne_nil _ _) hreturn (hbody.notMem (by decide))
  · exact ⟨_, r.fields, rfl, rfl, isField_headLines r, _, filter_announcesLength r,
      readDecimal?_decimal _⟩

end Http

end RoverControl
