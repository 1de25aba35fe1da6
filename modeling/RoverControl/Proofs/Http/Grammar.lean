import Mathlib.Data.List.Forall2
import RoverControl.Proofs.Bytes
import RoverControl.Proofs.Http.Framing
import RoverControl.Proofs.Http.Headers

/-!
# The grammar of requests

`IsRequest` says how a request is written: a head of lines that ends with the first empty one, a
request line and header lines in it, and a body of the length that these announce.
`Request.Tells` says what is read from it.  A text is read as a request exactly if it is written so
(`request_iff_grammar`).
-/

namespace RoverControl

namespace Http

/-! ## Lines -/

/-- A line as it stands in a text, and what it says: a line feed ends it, and one carriage return
before that does not belong to it. -/
inductive IsLine : Bytes → Bytes → Prop
  | feed {line : Bytes} (h : Ascii.newline ∉ line)
      (hlast : line.getLast? ≠ some Ascii.carriageReturn) : IsLine (line ++ [Ascii.newline]) line
  | returnFeed {line : Bytes} (h : Ascii.newline ∉ line) :
      IsLine (line ++ [Ascii.carriageReturn, Ascii.newline]) line

/-- A text that ends with its first empty line, and the lines before that one. -/
inductive IsLines : Bytes → List Bytes → Prop
  | last {text : Bytes} (h : IsLine text []) : IsLines text []
  | cons {text line rest : Bytes} {lines : List Bytes} (h : IsLine text line) (hne : line ≠ [])
      (hrest : IsLines rest lines) : IsLines (text ++ rest) (line :: lines)

theorem finishLine_reverse {line : Bytes} (h : line.getLast? ≠ some Ascii.carriageReturn) :
    finishLine line.reverse = line := by
  rw [← List.head?_reverse] at h
  unfold finishLine
  split
  · rename_i hcr
    rw [hcr] at h
    exact absurd rfl h
  · exact List.reverse_reverse line

/-- A line is what stands before a line feed, less one carriage return at its end. -/
theorem isLine_iff {text line : Bytes} :
    IsLine text line ↔
      ∃ raw, Ascii.newline ∉ raw ∧ text = raw ++ [Ascii.newline] ∧
        finishLine raw.reverse = line := by
  constructor
  · intro h
    cases h with
    | feed h hlast => exact ⟨line, h, rfl, finishLine_reverse hlast⟩
    | returnFeed h =>
      refine ⟨line ++ [Ascii.carriageReturn], by simpa using ⟨h, by decide⟩, by simp, ?_⟩
      rw [List.reverse_append]
      exact List.reverse_reverse line
  · rintro ⟨raw, h, rfl, rfl⟩
    by_cases hlast : raw.getLast? = some Ascii.carriageReturn
    · obtain ⟨line, rfl⟩ := List.getLast?_eq_some_iff.1 hlast
      rw [List.reverse_append, List.append_assoc]
      show IsLine _ line.reverse.reverse
      rw [List.reverse_reverse]
      exact .returnFeed fun hmem => h (List.mem_append_left _ hmem)
    · rw [finishLine_reverse hlast]
      exact .feed h hlast

theorem splitHeadFrom_of_notMem {raw : Bytes} (h : Ascii.newline ∉ raw) (line rest : Bytes) :
    splitHeadFrom line (raw ++ Ascii.newline :: rest) =
      if finishLine (raw.reverse ++ line) = [] then some ([], rest)
      else (splitHeadFrom [] rest).map fun (lines, body) =>
        (finishLine (raw.reverse ++ line) :: lines, body) := by
  induction raw generalizing line with
  | nil => rw [List.nil_append, splitHeadFrom, if_pos rfl, List.reverse_nil, List.nil_append]
  | cons c raw ih =>
    obtain ⟨hc, h⟩ := List.ne_and_not_mem_of_not_mem_cons h
    rw [List.cons_append, splitHeadFrom, if_neg (Ne.symm hc), ih h, List.reverse_cons,
      List.append_assoc]
    rfl

theorem splitHeadFrom_eq_none {raw : Bytes} (h : Ascii.newline ∉ raw) (line : Bytes) :
    splitHeadFrom line raw = none := by
  induction raw generalizing line with
  | nil => rfl
  | cons c raw ih =>
    obtain ⟨hc, h⟩ := List.ne_and_not_mem_of_not_mem_cons h
    rw [splitHeadFrom, if_neg (Ne.symm hc), ih h]

theorem IsLine.splitHead_append {text line : Bytes} (h : IsLine text line) (rest : Bytes) :
    splitHead (text ++ rest) =
      if line = [] then some ([], rest)
      else (splitHead rest).map fun (lines, body) => (line :: lines, body) := by
  obtain ⟨raw, hraw, rfl, rfl⟩ := isLine_iff.1 h
  have hsplit := splitHeadFrom_of_notMem hraw [] rest
  rw [List.append_nil] at hsplit
  rw [List.append_assoc]
  exact hsplit

/-- A text with a head begins with a line. -/
theorem exists_line_of_splitHead {raw body : Bytes} {lines : List Bytes}
    (h : splitHead raw = some (lines, body)) :
    ∃ text line rest, IsLine text line ∧ raw = text ++ rest := by
  by_cases hmem : Ascii.newline ∈ raw
  · obtain ⟨front, rest, rfl, hfront⟩ := List.eq_append_cons_of_mem hmem
    exact ⟨_, _, rest, isLine_iff.2 ⟨front, hfront, rfl, rfl⟩, by simp⟩
  · rw [splitHead, splitHeadFrom_eq_none hmem] at h
    cases h

/-- A head is divided into lines at its line feeds. -/
theorem isHead_iff {head : Bytes} {lines : List Bytes} :
    IsHead head lines ↔ IsLines head lines := by
  unfold IsHead
  constructor
  · intro h
    induction lines generalizing head with
    | nil =>
      obtain ⟨text, line, rest, hline, rfl⟩ := exists_line_of_splitHead h
      rw [hline.splitHead_append] at h
      by_cases hnil : line = []
      · rw [if_pos hnil] at h
        cases h
        rw [List.append_nil]
        exact .last (hnil ▸ hline)
      · rw [if_neg hnil] at h
        obtain ⟨⟨_, _⟩, -, heq⟩ := Option.map_eq_some_iff.1 h
        cases heq
    | cons first lines ih =>
      obtain ⟨text, line, rest, hline, rfl⟩ := exists_line_of_splitHead h
      rw [hline.splitHead_append] at h
      by_cases hnil : line = []
      · rw [if_pos hnil] at h
        cases h
      · rw [if_neg hnil] at h
        obtain ⟨⟨_, _⟩, hrest, heq⟩ := Option.map_eq_some_iff.1 h
        cases heq
        exact .cons hline hnil (ih hrest)
  · intro h
    induction h with
    | last h =>
      have := h.splitHead_append []
      rwa [List.append_nil, if_pos rfl] at this
    | cons h hne _ ih =>
      rw [h.splitHead_append, if_neg hne, ih]
      rfl

/-! ## The request line -/

/-- A request line: a method, a target and a version, divided by one space each. -/
structure IsRequestLine (line method target : Bytes) : Prop where
  text : ∃ version, (version = ascii "HTTP/1.1" ∨ version = ascii "HTTP/1.0") ∧
    line = method ++ Ascii.space :: (target ++ Ascii.space :: version)
  isToken : isToken method = true
  head_target : target.head? = some Ascii.slash
  notMem_target : Ascii.space ∉ target

theorem notMem_of_isToken {name : Bytes} {c : UInt8} (h : isToken name = true)
    (hc : isTokenByte c = false) : c ∉ name := by
  intro hmem
  simp only [isToken, Bool.and_eq_true, List.all_eq_true] at h
  rw [h.2 c hmem] at hc
  cases hc

theorem readRequestLine_eq_ok_iff {line method target : Bytes} :
    readRequestLine line = .ok (method, target) ↔ IsRequestLine line method target := by
  constructor
  · intro h
    unfold readRequestLine at h
    split at h
    · cases h
    · rename_i method' rest hmethod
      split at h
      · cases h
      · rename_i target' version htarget
        obtain ⟨-, rfl⟩ := Bytes.cut_eq_some_iff.1 hmethod
        obtain ⟨hspace, rfl⟩ := Bytes.cut_eq_some_iff.1 htarget
        split at h
        · cases h
        · rename_i hparts
          simp only [Bool.or_eq_true, not_or, Bool.not_eq_true', Bool.not_eq_false,
            bne_iff_ne, ne_eq, not_not] at hparts
          split at h
          · rename_i hversion
            cases h
            exact ⟨⟨version, by simpa using hversion, rfl⟩, hparts.1.1, hparts.1.2, hspace⟩
          · split at h <;> cases h
  · rintro ⟨⟨version, hversion, rfl⟩, hmethod, htarget, hspace⟩
    have hcut : Bytes.cut Ascii.space
        (method ++ Ascii.space :: (target ++ Ascii.space :: version)) =
          some (method, target ++ Ascii.space :: version) :=
      Bytes.cut_of_notMem (notMem_of_isToken hmethod (by decide)) _
    have hversions : version.contains Ascii.space = false := by
      rcases hversion with rfl | rfl <;> decide
    unfold readRequestLine
    rw [hcut]
    dsimp only
    rw [Bytes.cut_of_notMem hspace]
    simp only [hmethod, htarget, hversions]
    rcases hversion with rfl | rfl <;> rfl

/-! ## Header lines -/

/-- A header line: a name, a colon and a value, which may have blanks before and after it. -/
inductive IsField : Bytes → Bytes × Bytes → Prop
  | mk {name front value back : Bytes} (hname : isToken name = true)
      (hfront : Bytes.IsBlank front) (hvalue : Bytes.IsTrimmed value) (hback : Bytes.IsBlank back) :
      IsField (name ++ Ascii.colon :: (front ++ value ++ back)) (name, value)

theorem isField_iff {line : Bytes} {field : Bytes × Bytes} :
    IsField line field ↔ isToken field.1 = true ∧
      ∃ raw, Bytes.cut Ascii.colon line = some (field.1, raw) ∧ raw.trim = field.2 := by
  constructor
  · rintro ⟨hname, hfront, hvalue, hback⟩
    exact ⟨hname, _, Bytes.cut_of_notMem (notMem_of_isToken hname (by decide)) _,
      Bytes.trim_of_isTrimmed hfront hback hvalue⟩
  · obtain ⟨name, value⟩ := field
    rintro ⟨hname, raw, hcut, htrim⟩
    obtain ⟨-, rfl⟩ := Bytes.cut_eq_some_iff.1 hcut
    obtain ⟨hvalue, front, back, hfront, hback, rfl⟩ := Bytes.trim_eq_iff.1 htrim
    exact .mk hname hfront hvalue hback

/-- A line can only be the field into which its first colon divides it. -/
theorem isField_iff_of_cut {line name raw : Bytes} {field : Bytes × Bytes}
    (hcut : Bytes.cut Ascii.colon line = some (name, raw)) :
    IsField line field ↔ field = (name, raw.trim) ∧ isToken name = true := by
  obtain ⟨name', value'⟩ := field
  rw [isField_iff, hcut]
  constructor
  · rintro ⟨hname, raw', heq, rfl⟩
    cases heq
    exact ⟨rfl, hname⟩
  · rintro ⟨heq, hname⟩
    cases heq
    exact ⟨hname, raw, rfl, rfl⟩

/-- A field that announces the length of the body. -/
def announcesLength (field : Bytes × Bytes) : Bool :=
  Headers.sameName field.1 (ascii "Content-Length")

/-- A field that announces a body in pieces. -/
def announcesPieces (field : Bytes × Bytes) : Bool :=
  Headers.sameName field.1 (ascii "Transfer-Encoding")

/-- The length that is known after some fields, all of which agree with each other and with what
was known before. -/
structure Announces (earlier : Option Nat) (fields : List (Bytes × Bytes)) (length : Option Nat) :
    Prop where
  of_mem : ∀ f ∈ fields, announcesLength f = true → ∃ n, readContentLength f.2 = some n ∧
    length = some n
  of_earlier : ∀ n, earlier = some n → length = some n
  of_none : (∀ f ∈ fields, announcesLength f = false) → length = earlier

theorem announces_nil {earlier length : Option Nat} :
    Announces earlier [] length ↔ length = earlier := by
  constructor
  · intro h
    exact h.of_none (by simp)
  · rintro rfl
    exact ⟨by simp, fun _ => id, fun _ => rfl⟩

theorem announces_cons {earlier length : Option Nat} {field : Bytes × Bytes}
    {fields : List (Bytes × Bytes)} :
    Announces earlier (field :: fields) length ↔
      ∃ known, Announces earlier [field] known ∧ Announces known fields length := by
  constructor
  · rintro ⟨hmem, hearlier, hnone⟩
    have hfield := hmem field List.mem_cons_self
    have hfields := fun f hf => hmem f (List.mem_cons_of_mem field hf)
    cases hannounces : announcesLength field with
    | true =>
      refine ⟨length, ⟨?_, hearlier, ?_⟩, hfields, fun _ => id, fun _ => rfl⟩
      · simpa using hfield
      · simp [hannounces]
    | false =>
      refine ⟨earlier, ⟨?_, fun _ => id, fun _ => rfl⟩, hfields, hearlier, fun h => hnone ?_⟩
      · simp [hannounces]
      · simpa [hannounces] using h
  · rintro ⟨known, ⟨hmem, hearlier, hnone⟩, hmem', hearlier', hnone'⟩
    refine ⟨fun f hf hannounces => ?_, fun n hn => hearlier' n (hearlier n hn), fun h => ?_⟩
    · rcases List.mem_cons.1 hf with rfl | hf
      · obtain ⟨n, hn, hknown⟩ := hmem f List.mem_cons_self hannounces
        exact ⟨n, hn, hearlier' n hknown⟩
      · exact hmem' f hf hannounces
    · rw [hnone' fun f hf => h f (List.mem_cons_of_mem field hf)]
      exact hnone (by simpa using h field List.mem_cons_self)

theorem announces_singleton_of_eq_false {earlier length : Option Nat} {field : Bytes × Bytes}
    (h : announcesLength field = false) :
    Announces earlier [field] length ↔ length = earlier := by
  refine ⟨fun hlength => hlength.of_none (by simpa using h), ?_⟩
  rintro rfl
  exact ⟨by simp [h], fun _ => id, fun _ => rfl⟩

theorem agreeLength_eq_ok_iff {earlier length : Option Nat} {field : Bytes × Bytes}
    (h : announcesLength field = true) :
    agreeLength earlier field.2 = .ok length ↔ Announces earlier [field] length := by
  unfold agreeLength
  rcases hn : readContentLength field.2 with _ | n
  · refine ⟨by simp, fun hlength => ?_⟩
    obtain ⟨n, hn', -⟩ := hlength.of_mem field List.mem_cons_self h
    rw [hn] at hn'
    cases hn'
  · dsimp only
    constructor
    · intro hlength
      split at hlength
      · rename_i hagrees
        cases hlength
        refine ⟨by simp [hn], fun m hm => ?_, by simp [h]⟩
        subst hm
        simpa [eq_comm] using hagrees
      · cases hlength
    · intro hlength
      obtain ⟨m, hm, rfl⟩ := hlength.of_mem field List.mem_cons_self h
      rw [hn] at hm
      cases hm
      rw [if_pos]
      rcases hearlier : earlier with _ | m
      · rfl
      · simpa using (hlength.of_earlier m hearlier).symm

/-- Both announcements have different names. -/
theorem announcesPieces_of_announcesLength {field : Bytes × Bytes}
    (h : announcesLength field = true) : announcesPieces field = false := by
  unfold announcesPieces Headers.sameName
  rw [Headers.sameName_iff.1 h]
  decide

theorem Fields.addLine_eq_ok_iff {fields fields' : Fields} {line : Bytes} :
    fields.addLine line = .ok fields' ↔
      ∃ field, IsField line field ∧ announcesPieces field = false ∧
        fields'.headers = fields.headers.add field.1 field.2 ∧
        Announces fields.contentLength [field] fields'.contentLength := by
  obtain ⟨headers', length'⟩ := fields'
  unfold addLine
  rcases hcut : Bytes.cut Ascii.colon line with _ | ⟨name, raw⟩
  · refine ⟨by simp, ?_⟩
    rintro ⟨field, hfield, -⟩
    obtain ⟨-, raw, hcut', -⟩ := isField_iff.1 hfield
    rw [hcut] at hcut'
    cases hcut'
  · have hlengthName : Headers.sameName name (ascii "Content-Length") =
        announcesLength (name, raw.trim) := rfl
    have hpiecesName : Headers.sameName name (ascii "Transfer-Encoding") =
        announcesPieces (name, raw.trim) := rfl
    simp only [isField_iff_of_cut hcut, and_assoc, exists_eq_left, hlengthName, hpiecesName]
    cases hname : isToken name with
    | false => simp
    | true =>
      cases hlength : announcesLength (name, raw.trim) with
      | true =>
        have hagree : agreeLength fields.contentLength raw.trim = .ok length' ↔
            Announces fields.contentLength [(name, raw.trim)] length' :=
          agreeLength_eq_ok_iff hlength
        rw [announcesPieces_of_announcesLength hlength, ← hagree, if_neg (by simp), if_pos rfl]
        rcases agreeLength fields.contentLength raw.trim with e | length
        · simp
        · simp [eq_comm]
      | false =>
        rw [if_neg (by simp), if_neg (by simp), announces_singleton_of_eq_false hlength]
        cases announcesPieces (name, raw.trim) with
        | true => simp
        | false => simp [eq_comm]

theorem Fields.addLines_eq_ok_iff {fields fields' : Fields} {lines : List Bytes} :
    fields.addLines lines = .ok fields' ↔
      ∃ added, List.Forall₂ IsField lines added ∧ (∀ f ∈ added, announcesPieces f = false) ∧
        fields'.headers = fields.headers.addAll added ∧
        Announces fields.contentLength added fields'.contentLength := by
  induction lines generalizing fields with
  | nil =>
    obtain ⟨headers, length⟩ := fields
    obtain ⟨headers', length'⟩ := fields'
    simp only [addLines, List.forall₂_nil_left_iff, exists_eq_left, announces_nil, Except.ok.injEq,
      Fields.mk.injEq, List.not_mem_nil, false_implies, implies_true, true_and]
    exact and_congr eq_comm eq_comm
  | cons line rest ih =>
    have hcons : fields.addLines (line :: rest) = .ok fields' ↔
        ∃ next, fields.addLine line = .ok next ∧ next.addLines rest = .ok fields' := by
      rw [addLines]
      rcases fields.addLine line with e | next <;> simp
    rw [hcons]
    constructor
    · rintro ⟨next, hline, hrest⟩
      obtain ⟨field, hfield, hpieces, hheaders, hknown⟩ := addLine_eq_ok_iff.1 hline
      obtain ⟨added, hadded, hpieces', hheaders', hknown'⟩ := ih.1 hrest
      refine ⟨field :: added, .cons hfield hadded, ?_, ?_, announces_cons.2 ⟨_, hknown, hknown'⟩⟩
      · exact List.forall_mem_cons.2 ⟨hpieces, hpieces'⟩
      · rw [hheaders', hheaders]
        rfl
    · rintro ⟨_, hadded, hpieces, hheaders, hknown⟩
      cases hadded with
      | cons hfield hadded =>
        rename_i field added
        obtain ⟨known, hknown, hknown'⟩ := announces_cons.1 hknown
        refine ⟨⟨fields.headers.add field.1 field.2, known⟩, ?_, ?_⟩
        · exact addLine_eq_ok_iff.2
            ⟨field, hfield, hpieces field List.mem_cons_self, rfl, hknown⟩
        · exact ih.2 ⟨added, hadded, fun f hf => hpieces f (List.mem_cons_of_mem field hf),
            hheaders, hknown'⟩

/-! ## Requests -/

/-- A target is a path, and a query after the first question mark if it has one. -/
inductive IsTarget : Bytes → Bytes → Bytes → Prop
  | path {path : Bytes} (h : Ascii.questionMark ∉ path) : IsTarget path path []
  | query {path query : Bytes} (h : Ascii.questionMark ∉ path) :
      IsTarget (path ++ Ascii.questionMark :: query) path query

theorem isTarget_iff {target path query : Bytes} :
    IsTarget target path query ↔ splitTarget target = (path, query) := by
  unfold splitTarget
  rcases hcut : Bytes.cut Ascii.questionMark target with _ | ⟨front, back⟩
  · have hnot := Bytes.cut_eq_none_iff.1 hcut
    constructor
    · rintro (h | h)
      · rfl
      · exact absurd (List.mem_append_right path List.mem_cons_self) hnot
    · intro h
      cases h
      exact .path hnot
  · obtain ⟨hfront, rfl⟩ := Bytes.cut_eq_some_iff.1 hcut
    constructor
    · intro h
      generalize htarget : front ++ Ascii.questionMark :: back = target at h hcut
      cases h with
      | path h =>
        rw [Bytes.cut_eq_none_iff.2 h] at hcut
        cases hcut
      | query h =>
        rw [Bytes.cut_of_notMem h] at hcut
        exact (Option.some.inj hcut).symm
    · intro h
      cases h
      exact .query hfront

/-- A text is a request that is written with these parts. -/
structure IsRequest (raw method target : Bytes) (fields : List (Bytes × Bytes)) (body : Bytes) :
    Prop where
  text : ∃ head first lines, raw = head ++ body ∧ IsLines head (first :: lines) ∧
    head.length ≤ 8192 ∧ IsRequestLine first method target ∧
    lines.length ≤ 64 ∧ List.Forall₂ IsField lines fields
  not_in_pieces : ∀ f ∈ fields, announcesPieces f = false
  announced : ∀ f ∈ fields, announcesLength f = true →
    ∃ n < 2 ^ 64, readDecimal? f.2 = some n ∧ body.length = n
  not_announced : (∀ f ∈ fields, announcesLength f = false) → body.length = 0
  length_body : body.length ≤ 65536

/-- A request tells what it was written with: of the fields of one name it has the first. -/
structure Request.Tells (r : Request) (method target : Bytes) (fields : List (Bytes × Bytes))
    (body : Bytes) : Prop where
  method : r.method = method
  target : IsTarget target r.path r.query
  sorted : r.headers.Sorted
  first? : ∀ name, Headers.first? r.headers name = Headers.first? fields name
  body : r.body = body

theorem readContentLength_eq_some_iff {value : Bytes} {n : Nat} :
    readContentLength value = some n ↔ readDecimal? value = some n ∧ n < 2 ^ 64 := by
  rw [readContentLength, Option.filter_eq_some_iff, decide_eq_true_iff]
  rfl

/-- What some fields announce, where nothing was known before. -/
theorem announces_none_iff {fields : List (Bytes × Bytes)} {n : Nat} :
    (∃ length, Announces none fields length ∧ length.getD 0 = n) ↔
      (∀ f ∈ fields, announcesLength f = true → ∃ m < 2 ^ 64, readDecimal? f.2 = some m ∧ n = m) ∧
      ((∀ f ∈ fields, announcesLength f = false) → n = 0) := by
  constructor
  · rintro ⟨length, hlength, rfl⟩
    refine ⟨fun f hf hannounces => ?_, fun hnone => ?_⟩
    · obtain ⟨m, hm, rfl⟩ := hlength.of_mem f hf hannounces
      obtain ⟨hm, hlt⟩ := readContentLength_eq_some_iff.1 hm
      exact ⟨m, hlt, hm, rfl⟩
    · rw [hlength.of_none hnone]
      rfl
  · rintro ⟨hsome, hnone⟩
    by_cases hannounced : ∀ f ∈ fields, announcesLength f = false
    · exact ⟨none, ⟨fun f hf h => (by simp [hannounced f hf] at h), fun _ => id, fun _ => rfl⟩,
        (hnone hannounced).symm⟩
    · refine ⟨some n, ⟨fun f hf hannounces => ?_, by simp, fun h => absurd h hannounced⟩, rfl⟩
      obtain ⟨m, hlt, hm, rfl⟩ := hsome f hf hannounces
      exact ⟨n, readContentLength_eq_some_iff.2 ⟨hm, hlt⟩, rfl⟩

theorem readRequest_eq_ok_iff {lines : List Bytes} {body : Bytes} {r : Request} :
    readRequest lines body = .ok r ↔
      ∃ first headerLines method target fields, lines = first :: headerLines ∧
        readRequestLine first = .ok (method, target) ∧ headerLines.length ≤ maxHeaderLines ∧
        Fields.addLines ⟨[], none⟩ headerLines = .ok fields ∧
        fields.contentLength.getD 0 = body.length ∧ body.length ≤ maxBodyBytes ∧
        r = ⟨method, (splitTarget target).1, (splitTarget target).2, fields.headers, body⟩ := by
  constructor
  · intro h
    unfold readRequest at h
    split at h
    · cases h
    · rename_i first headerLines
      split at h
      · cases h
      · rename_i method target hfirst
        split at h
        · cases h
        · rename_i hmany
          split at h
          · cases h
          · rename_i fields hfields
            dsimp only at h
            split at h
            · cases h
            · split at h
              · cases h
              · split at h
                · cases h
                · cases h
                  exact ⟨first, headerLines, method, target, fields, rfl, hfirst, by omega,
                    hfields, by omega, by omega, rfl⟩
  · rintro ⟨first, headerLines, method, target, fields, rfl, hfirst, hmany, hfields, hlength,
      hbody, rfl⟩
    unfold readRequest
    dsimp only
    rw [hfirst]
    dsimp only
    rw [if_neg (by omega), hfields]
    dsimp only
    rw [if_neg (by omega), if_neg (by omega), if_neg (by omega)]

theorem Request.parse_eq_ok_iff {raw : Bytes} {r : Request} :
    Request.parse raw = .ok r ↔
      ∃ head lines body, raw = head ++ body ∧ IsLines head lines ∧ head.length ≤ maxHeadBytes ∧
        readRequest lines body = .ok r := by
  constructor
  · intro h
    rcases hsplit : splitHead raw with _ | ⟨lines, body⟩
    · rw [parse_of_no_head hsplit] at h
      cases h
    · obtain ⟨head, hhead, rfl⟩ := splitHead_eq_some_iff.1 hsplit
      rw [parse, hsplit] at h
      dsimp only at h
      rw [List.length_append, Nat.add_sub_cancel] at h
      split at h
      · cases h
      · exact ⟨head, lines, body, rfl, isHead_iff.1 hhead, by omega, h⟩
  · rintro ⟨head, lines, body, rfl, hhead, hlong, hread⟩
    rw [parse, (isHead_iff.2 hhead).splitHead_append]
    dsimp only
    rw [List.length_append, Nat.add_sub_cancel, if_neg (by omega), hread]

/-- Texts that are requests are read, and what is read is what they tell. -/
theorem Request.parse_eq_ok_iff_tells {raw : Bytes} {r : Request} :
    Request.parse raw = .ok r ↔
      ∃ method target fields body, IsRequest raw method target fields body ∧
        r.Tells method target fields body := by
  rw [parse_eq_ok_iff]
  constructor
  · rintro ⟨head, lines, body, rfl, hhead, hlong, hread⟩
    obtain ⟨first, headerLines, method, target, fields, rfl, hfirst, hmany, hfields, hlength,
      hbody, rfl⟩ := readRequest_eq_ok_iff.1 hread
    obtain ⟨added, hadded, hpieces, hheaders, hknown⟩ := Fields.addLines_eq_ok_iff.1 hfields
    obtain ⟨hsome, hnone⟩ := announces_none_iff.1 ⟨_, hknown, hlength⟩
    refine ⟨method, target, added, body, ⟨⟨head, first, headerLines, rfl, hhead, hlong,
      readRequestLine_eq_ok_iff.1 hfirst, hmany, hadded⟩, hpieces, hsome, hnone, hbody⟩,
      ⟨rfl, isTarget_iff.2 rfl, ?_, ?_, rfl⟩⟩
    · rw [hheaders]
      exact Headers.sorted_ofList added
    · rw [hheaders]
      exact Headers.first?_ofList added
  · rintro ⟨method, target, added, body, ⟨⟨head, first, headerLines, rfl, hhead, hlong, hfirst,
      hmany, hadded⟩, hpieces, hsome, hnone, hbody⟩, ⟨hmethod, htarget, hsorted, hsame, rfl⟩⟩
    obtain ⟨length, hknown, hlength⟩ := announces_none_iff.2 ⟨hsome, hnone⟩
    refine ⟨head, first :: headerLines, _, rfl, hhead, hlong, readRequest_eq_ok_iff.2
      ⟨first, headerLines, method, target, ⟨Headers.ofList added, length⟩, rfl,
        readRequestLine_eq_ok_iff.2 hfirst, hmany, ?_, hlength, hbody, ?_⟩⟩
    · exact Fields.addLines_eq_ok_iff.2 ⟨added, hadded, hpieces, rfl, hknown⟩
    · have hheaders : r.headers = Headers.ofList added :=
        hsorted.ext (Headers.sorted_ofList added) fun name => by
          rw [hsame, Headers.first?_ofList]
      rw [isTarget_iff.1 htarget, ← hheaders, ← hmethod]

/-- Every text that is written as a request tells one. -/
theorem exists_tells_of_isRequest (method target : Bytes) (fields : List (Bytes × Bytes))
    (body : Bytes) : ∃ r : Request, r.Tells method target fields body :=
  ⟨⟨method, _, _, Headers.ofList fields, body⟩, rfl, isTarget_iff.2 rfl,
    Headers.sorted_ofList fields, Headers.first?_ofList fields, rfl⟩

/-- A text is read as a request exactly if it is written as the grammar says, and the request that
is read tells what it was written with. -/
theorem request_iff_grammar (raw : Bytes) :
    ((∃ r, Request.parse raw = .ok r) ↔
      ∃ method target fields body, IsRequest raw method target fields body) ∧
    ∀ r, Request.parse raw = .ok r ↔
      ∃ method target fields body, IsRequest raw method target fields body ∧
        r.Tells method target fields body := by
  refine ⟨⟨?_, ?_⟩, fun r => Request.parse_eq_ok_iff_tells⟩
  · rintro ⟨r, hr⟩
    obtain ⟨method, target, fields, body, hrequest, -⟩ := Request.parse_eq_ok_iff_tells.1 hr
    exact ⟨method, target, fields, body, hrequest⟩
  · rintro ⟨method, target, fields, body, hrequest⟩
    obtain ⟨r, hr⟩ := exists_tells_of_isRequest method target fields body
    exact ⟨r, Request.parse_eq_ok_iff_tells.2 ⟨method, target, fields, body, hrequest, hr⟩⟩

end Http

end RoverControl
