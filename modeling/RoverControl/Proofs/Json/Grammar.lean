import RoverControl.Json.Parser
import RoverControl.Proofs.Json.Members
import RoverControl.Proofs.Json.Numeral
import RoverControl.Proofs.Json.Quoted

/-!
# The grammar of JSON

`IsValue depth` says how values are written in which lists and objects are nested at most `depth`
deep, and which value a text denotes.  A text is read exactly if it is short enough and holds one
value nested eight deep with white space around it, and then as the value that it denotes
(`parse_iff_grammar`).
-/

namespace RoverControl

namespace Json

variable {α : Type}

/-! ## The grammar -/

/-- A text of white space. -/
def IsSpace (s : Bytes) : Prop :=
  ∀ c ∈ s, c = Ascii.space ∨ c = Ascii.tab ∨ c = Ascii.newline ∨ c = Ascii.carriageReturn

/-- A text with white space before and after it. -/
inductive IsSpaced (item : Bytes → α → Prop) : Bytes → α → Prop
  | mk {front t back : Bytes} {a : α} (hfront : IsSpace front) (h : item t a)
      (hback : IsSpace back) : IsSpaced item (front ++ t ++ back) a

/-- A byte that divides two parts, with white space before and after it. -/
inductive IsSeparator (c : UInt8) : Bytes → Prop
  | mk {front back : Bytes} (hfront : IsSpace front) (hback : IsSpace back) :
      IsSeparator c (front ++ c :: back)

/-- One or more items divided by commas. -/
inductive IsItems (item : Bytes → α → Prop) : Bytes → List α → Prop
  | last {t : Bytes} {a : α} (h : item t a) : IsItems item t [a]
  | cons {t sep rest : Bytes} {a : α} {items : List α} (h : item t a)
      (hsep : IsSeparator Ascii.comma sep) (hrest : IsItems item rest items) :
      IsItems item (t ++ sep ++ rest) (a :: items)

/-- Items between two brackets. -/
inductive IsBracketed (first close : UInt8) (item : Bytes → α → Prop) : Bytes → List α → Prop
  | empty {space : Bytes} (h : IsSpace space) :
      IsBracketed first close item (first :: (space ++ [close])) []
  | items {t : Bytes} {items : List α} (h : IsSpaced (IsItems item) t items) :
      IsBracketed first close item (first :: (t ++ [close])) items

/-- A member of an object: a key, a colon and a value. -/
inductive IsMember (value : Bytes → Json → Prop) : Bytes → Bytes × Json → Prop
  | mk {k sep t key : Bytes} {v : Json} (hkey : IsQuoted k key)
      (hsep : IsSeparator Ascii.colon sep) (hvalue : value t v) :
      IsMember value (k ++ sep ++ t) (key, v)

/-- A value that is neither a list nor an object; numbers are those that the double range holds. -/
inductive IsScalar : Bytes → Json → Prop
  | null : IsScalar (ascii "null") .null
  | bool (b : Bool) : IsScalar (if b then ascii "true" else ascii "false") (.bool b)
  | number {t : Bytes} {n : Numeral} (h : IsNumeral t n) (hrange : n.inRange = true) :
      IsScalar t (.number n.nearest)
  | string {t s : Bytes} (h : IsQuoted t s) : IsScalar t (.string s)

/-- A list or an object with inner values of a kind; of members with one key the last gives the
value and the first the place. -/
inductive IsCompound (value : Bytes → Json → Prop) : Bytes → Json → Prop
  | array {t : Bytes} {items : List Json}
      (h : IsBracketed Ascii.openBracket Ascii.closeBracket value t items) :
      IsCompound value t (.array items)
  | object {t : Bytes} {pairs members : List (Bytes × Json)}
      (h : IsBracketed Ascii.openBrace Ascii.closeBrace (IsMember value) t pairs)
      (hmembers : LastOfEach pairs members) : IsCompound value t (.object members)

/-- A value in which lists and objects are nested at most `depth` deep. -/
def IsValue : (depth : Nat) → Bytes → Json → Prop
  | 0, t, v => IsScalar t v
  | depth + 1, t, v => IsScalar t v ∨ IsCompound (IsValue depth) t v

/-! ## White space -/

theorem isSpace_iff {s : Bytes} : IsSpace s ↔ ∀ c ∈ s, isWhitespace c = true := by
  simp [IsSpace, isWhitespace, or_assoc]

theorem isSpace_nil : IsSpace [] := fun _ hc => by cases hc

theorem IsSpace.append {s t : Bytes} (hs : IsSpace s) (ht : IsSpace t) : IsSpace (s ++ t) :=
  fun c hc => (List.mem_append.1 hc).elim (hs c) (ht c)

theorem skipWhitespace_append {space s : Bytes} (h : IsSpace space) (hs : Stops isWhitespace s) :
    skipWhitespace (space ++ s) = s :=
  dropWhile_append_of_stops (isSpace_iff.1 h) hs

theorem skipWhitespace_cons {space : Bytes} {c : UInt8} (h : IsSpace space)
    (hc : isWhitespace c = false) (rest : Bytes) :
    skipWhitespace (space ++ c :: rest) = c :: rest :=
  skipWhitespace_append h (stops_cons.2 hc)

theorem skipWhitespace_eq_nil_iff {s : Bytes} : skipWhitespace s = [] ↔ IsSpace s :=
  List.dropWhile_eq_nil_iff.trans isSpace_iff.symm

theorem skipWhitespace_eq_cons_iff {s rest : Bytes} {c : UInt8} :
    skipWhitespace s = c :: rest ↔
      ∃ space, IsSpace space ∧ isWhitespace c = false ∧ s = space ++ c :: rest := by
  constructor
  · intro h
    refine ⟨s.takeWhile isWhitespace, isSpace_iff.2 fun c hc => List.mem_takeWhile_imp hc, ?_, ?_⟩
    · have := List.head?_dropWhile_not isWhitespace s
      unfold skipWhitespace at h
      rwa [h] at this
    · rw [← h, skipWhitespace, List.takeWhile_append_dropWhile]
  · rintro ⟨space, hspace, hc, rfl⟩
    exact skipWhitespace_cons hspace hc rest

/-! ## Readers -/

/-- The bytes with which no value begins. -/
def isBetween (c : UInt8) : Bool :=
  isWhitespace c || c == Ascii.closeBrace || c == Ascii.closeBracket

/-- The reader takes off the front of a text exactly the items of a kind and the white space before
them, provided that the text does not go on with a byte of a numeral. -/
structure Reads (reader : Reader α) (item : Bytes → α → Prop) : Prop where
  sound : ∀ {s rest a}, reader.run s = .ok (a, rest) →
    ∃ space t, IsSpace space ∧ item t a ∧ s = space ++ (t ++ rest)
  complete : ∀ {space t rest a}, IsSpace space → item t a → Stops continuesNumeral rest →
    reader.run (space ++ (t ++ rest)) = .ok (a, rest)
  begins : ∀ {t a}, item t a → ∃ c t', t = c :: t' ∧ isBetween c = false

theorem stops_continuesNumeral_append {space rest : Bytes} (h : IsSpace space)
    (hrest : Stops continuesNumeral rest) : Stops continuesNumeral (space ++ rest) := by
  rcases space with _ | ⟨c, space⟩
  · exact hrest
  · refine stops_cons.2 ?_
    rcases h c List.mem_cons_self with rfl | rfl | rfl | rfl <;> decide

theorem stops_continuesNumeral_cons {space : Bytes} {c : UInt8} (h : IsSpace space)
    (hc : continuesNumeral c = false) (rest : Bytes) :
    Stops continuesNumeral (space ++ c :: rest) :=
  stops_continuesNumeral_append h (stops_cons.2 hc)

section Sequence

variable {close : UInt8} {reader : Reader α} {item : Bytes → α → Prop}

theorem readSequenceFrom_of_run {read : List α} {s s' rest : Bytes} {a : α} {c : UInt8}
    (h : reader.run s = .ok (a, s')) (hskip : skipWhitespace s' = c :: rest) :
    readSequenceFrom close reader read s =
      if c = close then .ok ((a :: read).reverse, rest)
      else if c = Ascii.comma then readSequenceFrom close reader (a :: read) rest
      else .error .invalidJson := by
  rw [readSequenceFrom]
  split
  · rename_i heq
    rw [h] at heq
    cases heq
  · rename_i heq
    rw [h] at heq
    cases heq
    split
    · rename_i heq
      rw [hskip] at heq
      cases heq
    · rename_i heq
      rw [hskip] at heq
      cases heq
      rfl

theorem readSequenceFrom_eq_ok_iff (hreads : Reads reader item)
    (hclose : close = Ascii.closeBrace ∨ close = Ascii.closeBracket) {read items : List α}
    {s rest : Bytes} :
    readSequenceFrom close reader read s = .ok (items, rest) ↔
      ∃ t tail, IsSpaced (IsItems item) t tail ∧ items = read.reverse ++ tail ∧
        s = t ++ close :: rest := by
  constructor
  · intro h
    fun_induction readSequenceFrom close reader read s with
    | case1 => cases h
    | case2 => cases h
    | case3 read s a s' hrun rest' hskip =>
      cases h
      obtain ⟨front, t, hfront, hitem, rfl⟩ := hreads.sound hrun
      obtain ⟨back, hback, -, rfl⟩ := skipWhitespace_eq_cons_iff.1 hskip
      exact ⟨_, [a], .mk hfront (.last hitem) hback, by simp, by simp⟩
    | case4 read s a s' hrun rest' hskip _ ih =>
      obtain ⟨front, t, hfront, hitem, rfl⟩ := hreads.sound hrun
      obtain ⟨space, hspace, -, rfl⟩ := skipWhitespace_eq_cons_iff.1 hskip
      obtain ⟨_, tail, ⟨hfront', hitems, hback⟩, rfl, rfl⟩ := ih h
      exact ⟨_, a :: tail, .mk hfront (.cons hitem (.mk hspace hfront') hitems) hback, by simp,
        by simp⟩
    | case5 => cases h
  · -- induction on the items; the white space before the next one belongs to the comma
    rintro ⟨_, tail, ⟨hfront, hitems, hback⟩, rfl, rfl⟩
    have hskipClose : isWhitespace close = false := by rcases hclose with rfl | rfl <;> decide
    have hstop : continuesNumeral close = false := by rcases hclose with rfl | rfl <;> decide
    rename_i front t back
    induction hitems generalizing read front with
    | last hitem =>
      have hrun := hreads.complete hfront hitem (stops_continuesNumeral_cons hback hstop rest)
      have hskip := skipWhitespace_cons hback hskipClose rest
      rw [List.append_assoc, List.append_assoc, readSequenceFrom_of_run hrun hskip, if_pos rfl,
        List.reverse_cons]
    | @cons t sep t' a tail hitem hsep _ ih =>
      obtain @⟨space, front', hspace, hfront'⟩ := hsep
      have hcomma : Ascii.comma ≠ close := by rcases hclose with rfl | rfl <;> decide
      have hrun := hreads.complete hfront hitem (stops_continuesNumeral_cons hspace
        (c := Ascii.comma) (by decide) (front' ++ t' ++ back ++ close :: rest))
      have hskip := skipWhitespace_cons hspace (c := Ascii.comma) (by decide)
        (front' ++ t' ++ back ++ close :: rest)
      have hs : front ++ (t ++ (space ++ Ascii.comma :: front') ++ t') ++ back ++ close :: rest =
          front ++ (t ++ (space ++ Ascii.comma :: (front' ++ t' ++ back ++ close :: rest))) := by
        simp
      rw [hs, readSequenceFrom_of_run hrun hskip, if_neg hcomma, if_pos rfl, ih hfront',
        List.reverse_cons, List.append_assoc, List.singleton_append]

theorem IsItems.begins (hreads : Reads reader item) {t : Bytes} {items : List α}
    (h : IsItems item t items) : ∃ c t', t = c :: t' ∧ isBetween c = false := by
  cases h with
  | last h => exact hreads.begins h
  | cons h _ _ =>
    obtain ⟨c, t', rfl, hc⟩ := hreads.begins h
    exact ⟨c, _, rfl, hc⟩

/-- Items after an opening bracket are read exactly if they are written as such. -/
theorem readSequence_eq_ok_iff (hreads : Reads reader item)
    (hclose : close = Ascii.closeBrace ∨ close = Ascii.closeBracket) (first : UInt8)
    {items : List α} {s rest : Bytes} :
    readSequence close reader s = .ok (items, rest) ↔
      ∃ t, IsBracketed first close item t items ∧ first :: s = t ++ rest := by
  constructor
  · intro h
    unfold readSequence at h
    split at h
    · obtain ⟨t, _, -, -, heq⟩ := (readSequenceFrom_eq_ok_iff hreads hclose).1 h
      exact absurd heq.symm (List.append_ne_nil_of_right_ne_nil t (List.cons_ne_nil _ _))
    · rename_i c rest' hskip
      obtain ⟨space, hspace, -, rfl⟩ := skipWhitespace_eq_cons_iff.1 hskip
      split at h
      · rename_i hc
        cases h
        exact ⟨_, .empty hspace, by simp [hc]⟩
      · obtain ⟨_, _, ⟨hfront, hitems, hback⟩, rfl, heq⟩ :=
          (readSequenceFrom_eq_ok_iff hreads hclose).1 h
        exact ⟨_, .items (.mk (hspace.append hfront) hitems hback), by rw [heq]; simp⟩
  · rintro ⟨_, ht, heq⟩
    cases ht with
    | empty hspace =>
      rw [List.cons_append] at heq
      obtain ⟨-, rfl⟩ := List.cons_eq_cons.1 heq
      have hskip : isWhitespace close = false := by rcases hclose with rfl | rfl <;> decide
      rw [List.append_assoc, List.singleton_append, readSequence, skipWhitespace_cons hspace hskip]
      exact if_pos rfl
    | items h =>
      rw [List.cons_append] at heq
      obtain ⟨-, rfl⟩ := List.cons_eq_cons.1 heq
      obtain @⟨front, t, back, items, hfront, hitems, hback⟩ := h
      have hread : readSequenceFrom close reader [] (t ++ back ++ close :: rest) =
          .ok (items, rest) :=
        (readSequenceFrom_eq_ok_iff hreads hclose).2
          ⟨_, items, .mk isSpace_nil hitems hback, rfl, rfl⟩
      obtain ⟨c, t, rfl, hc⟩ := hitems.begins hreads
      have hspace : isWhitespace c = false := by
        simp only [isBetween, Bool.or_eq_false_iff] at hc
        exact hc.1.1
      have hne : c ≠ close := by
        rintro rfl
        rcases hclose with rfl | rfl <;> exact absurd hc (by decide)
      have hs : front ++ c :: t ++ back ++ [close] ++ rest =
          front ++ c :: (t ++ back ++ close :: rest) := by simp
      rw [hs, readSequence, skipWhitespace_cons hfront hspace]
      exact (if_neg hne).trans hread

end Sequence

/-! ## Members -/

theorem readMember_eq_ok_iff {value : Bytes → Except Error (Json × Bytes)} {s rest key : Bytes}
    {v : Json} :
    readMember value s = .ok ((key, v), rest) ↔
      ∃ rest₁ rest₂ rest₃, skipWhitespace s = Ascii.quote :: rest₁ ∧
        readQuoted rest₁ = .ok (key, rest₂) ∧ skipWhitespace rest₂ = Ascii.colon :: rest₃ ∧
        value rest₃ = .ok (v, rest) := by
  constructor
  · intro h
    unfold readMember at h
    split at h
    · rename_i rest₁ h₁
      split at h
      · cases h
      · rename_i rest₂ h₂
        split at h
        · rename_i rest₃ h₃
          split at h
          · cases h
          · rename_i h₄
            cases h
            exact ⟨rest₁, rest₂, rest₃, h₁, h₂, h₃, h₄⟩
        · cases h
    · cases h
  · rintro ⟨rest₁, rest₂, rest₃, h₁, h₂, h₃, h₄⟩
    unfold readMember
    split
    · rename_i heq
      cases h₁.symm.trans heq
      rw [h₂]
      dsimp only
      split
      · rename_i heq
        cases h₃.symm.trans heq
        rw [h₄]
      · rename_i hne
        exact absurd h₃ (hne _)
    · rename_i hne
      exact absurd h₁ (hne _)

theorem reads_memberReader {reader : Reader Json} {value : Bytes → Json → Prop}
    (hreads : Reads reader value) : Reads (memberReader reader) (IsMember value) where
  sound := by
    rintro s rest ⟨key, v⟩ h
    obtain ⟨rest₁, rest₂, rest₃, h₁, h₂, h₃, h₄⟩ := readMember_eq_ok_iff.1 h
    obtain ⟨space, hspace, -, rfl⟩ := skipWhitespace_eq_cons_iff.1 h₁
    obtain ⟨k, hkey, heq⟩ := readQuoted_eq_ok_iff.1 h₂
    obtain ⟨front, hfront, -, rfl⟩ := skipWhitespace_eq_cons_iff.1 h₃
    obtain ⟨back, t, hback, hvalue, rfl⟩ := hreads.sound h₄
    exact ⟨space, _, hspace, .mk hkey (.mk hfront hback) hvalue, by rw [heq]; simp⟩
  complete := by
    rintro space _ rest _ hspace ⟨hkey, ⟨hfront, hback⟩, hvalue⟩ hrest
    rename_i k t key v front back
    obtain ⟨rest₁, h₁⟩ : ∃ rest₁, k ++ (front ++ Ascii.colon :: (back ++ (t ++ rest))) =
        Ascii.quote :: rest₁ := by
      cases hkey
      exact ⟨_, rfl⟩
    have hs : space ++ (k ++ (front ++ Ascii.colon :: back) ++ t ++ rest) =
        space ++ Ascii.quote :: rest₁ := by
      rw [← h₁]
      simp
    rw [hs]
    exact readMember_eq_ok_iff.2 ⟨rest₁, _, _, skipWhitespace_cons hspace (by decide) _,
      readQuoted_eq_ok_iff.2 ⟨k, hkey, h₁.symm⟩, skipWhitespace_cons hfront (by decide) _,
      hreads.complete hback hvalue hrest⟩
  begins := by
    rintro _ _ ⟨⟨_⟩, _, _⟩
    exact ⟨Ascii.quote, _, rfl, by decide⟩

/-! ## Values -/

theorem isScalar_of_readWord {s rest : Bytes} {v : Json} (h : readWord s = .ok (v, rest)) :
    ∃ t, IsScalar t v ∧ s = t ++ rest := by
  unfold readWord at h
  split at h
  · cases h
    exact ⟨_, .bool true, rfl⟩
  · cases h
    exact ⟨_, .bool false, rfl⟩
  · cases h
    exact ⟨_, .null, rfl⟩
  · cases h

theorem isScalar_of_readNumeral {s rest : Bytes} {x : Float}
    (h : readNumeral s = .ok (x, rest)) : ∃ t, IsScalar t (.number x) ∧ s = t ++ rest := by
  unfold readNumeral at h
  split at h
  · cases h
  · rename_i n rest' hsplit
    obtain ⟨t, ht, rfl⟩ := isNumeral_of_splitNumeral hsplit
    split at h
    · rename_i hrange
      simp only [Except.ok.injEq, Prod.mk.injEq] at h
      obtain ⟨rfl, rfl⟩ := h
      exact ⟨t, .number ht hrange, rfl⟩
    · cases h

theorem readNumeral_append {t rest : Bytes} {n : Numeral} (h : IsNumeral t n)
    (hrange : n.inRange = true) (hrest : Stops continuesNumeral rest) :
    readNumeral (t ++ rest) = .ok (n.nearest, rest) := by
  rw [readNumeral, splitNumeral_append h hrest]
  exact if_pos hrange

theorem IsNumeral.exists_cons {t : Bytes} {n : Numeral} (h : IsNumeral t n) :
    ∃ c t', t = c :: t' ∧ (c = Ascii.minus ∨ Ascii.isDigit c = true) := by
  obtain ⟨hminus, hwhole, -, -⟩ := h
  cases hminus with
  | none =>
    obtain ⟨c, t', rfl, hc⟩ := hwhole.1.exists_cons
    exact ⟨c, _, rfl, Or.inr hc⟩
  | minus => exact ⟨Ascii.minus, _, rfl, Or.inl rfl⟩

theorem isBetween_of_isDigit {c : UInt8} (h : Ascii.isDigit c = true) : isBetween c = false := by
  by_contra hbetween
  simp only [Bool.not_eq_false, isBetween, isWhitespace, Bool.or_eq_true, beq_iff_eq] at hbetween
  rcases hbetween with ((((rfl | rfl) | rfl) | rfl) | rfl) | rfl <;> exact absurd h (by decide)

section Reading

variable {inner : Option (Reader Json)} {s rest : Bytes}

theorem readValueWith_of_openBrace (h : skipWhitespace s = Ascii.openBrace :: rest) :
    readValueWith inner s = readObject inner rest := by
  unfold readValueWith
  rw [h]
  exact if_pos rfl

theorem readValueWith_of_openBracket (h : skipWhitespace s = Ascii.openBracket :: rest) :
    readValueWith inner s = readArray inner rest := by
  unfold readValueWith
  rw [h]
  exact (if_neg (by decide)).trans (if_pos rfl)

theorem readValueWith_of_skip {c : UInt8} (h : skipWhitespace s = c :: rest)
    (hbrace : c ≠ Ascii.openBrace) (hbracket : c ≠ Ascii.openBracket) :
    readValueWith inner s =
      if c = Ascii.quote then (readQuoted rest).map fun (s, rest) => (.string s, rest)
      else if c = Ascii.minus || Ascii.isDigit c then
        (readNumeral (c :: rest)).map fun (x, rest) => (.number x, rest)
      else readWord (c :: rest) := by
  unfold readValueWith
  rw [h]
  dsimp only
  rw [if_neg hbrace, if_neg hbracket]
  congr 1
  · rcases readQuoted rest with _ | ⟨_, _⟩ <;> rfl
  · congr 1
    rcases readNumeral (c :: rest) with _ | ⟨_, _⟩ <;> rfl

end Reading

/-- A scalar is read the same whatever may stand in lists and objects. -/
theorem readValueWith_of_isScalar {t : Bytes} {v : Json} (h : IsScalar t v)
    (inner : Option (Reader Json)) {space rest : Bytes} (hspace : IsSpace space)
    (hrest : Stops continuesNumeral rest) :
    readValueWith inner (space ++ (t ++ rest)) = .ok (v, rest) := by
  cases h with
  | null =>
    exact readValueWith_of_skip (c := 0x6e) (skipWhitespace_cons hspace (by decide) _) (by decide)
      (by decide)
  | bool b =>
    cases b
    · exact readValueWith_of_skip (c := 0x66) (skipWhitespace_cons hspace (by decide) _)
        (by decide) (by decide)
    · exact readValueWith_of_skip (c := 0x74) (skipWhitespace_cons hspace (by decide) _)
        (by decide) (by decide)
  | number h hrange =>
    have hread := readNumeral_append h hrange hrest
    obtain ⟨c, t', rfl, hc⟩ := h.exists_cons
    have hfirst : isWhitespace c = false ∧ c ≠ Ascii.openBrace ∧ c ≠ Ascii.openBracket ∧
        c ≠ Ascii.quote := by
      rcases hc with rfl | hc
      · decide
      · have hbetween := isBetween_of_isDigit hc
        simp only [isBetween, Bool.or_eq_false_iff] at hbetween
        refine ⟨hbetween.1.1, ?_, ?_, ?_⟩ <;> rintro rfl <;> exact absurd hc (by decide)
    obtain ⟨hskip, hbrace, hbracket, hquote⟩ := hfirst
    rw [List.cons_append] at hread ⊢
    rw [readValueWith_of_skip (skipWhitespace_cons hspace hskip _) hbrace hbracket,
      if_neg hquote, if_pos (by simpa using hc), hread]
    rfl
  | string h =>
    obtain ⟨rest', hrest'⟩ : ∃ rest', Ascii.quote :: rest' = t ++ rest := by
      cases h
      exact ⟨_, rfl⟩
    rw [← hrest', readValueWith_of_skip (skipWhitespace_cons hspace (by decide) _) (by decide)
      (by decide), if_pos rfl, readQuoted_eq_ok_iff.2 ⟨t, h, hrest'⟩]
    rfl

/-- What is read after a byte that is no opening bracket is a scalar. -/
theorem isScalar_of_readValueWith {inner : Option (Reader Json)} {s s' rest : Bytes} {c : UInt8}
    {v : Json} (h : readValueWith inner s = .ok (v, rest)) (hskip : skipWhitespace s = c :: s')
    (hbrace : c ≠ Ascii.openBrace) (hbracket : c ≠ Ascii.openBracket) :
    ∃ t, IsScalar t v ∧ c :: s' = t ++ rest := by
  rw [readValueWith_of_skip hskip hbrace hbracket] at h
  split_ifs at h with hquote hnumber
  · rcases hread : readQuoted s' with e | ⟨text, rest'⟩
    · rw [hread] at h
      cases h
    · rw [hread] at h
      cases h
      obtain ⟨t, ht, heq⟩ := readQuoted_eq_ok_iff.1 hread
      exact ⟨t, .string ht, hquote ▸ heq⟩
  · rcases hread : readNumeral (c :: s') with e | ⟨x, rest'⟩
    · rw [hread] at h
      cases h
    · rw [hread] at h
      cases h
      exact isScalar_of_readNumeral hread
  · exact isScalar_of_readWord h

theorem IsScalar.begins {t : Bytes} {v : Json} (h : IsScalar t v) :
    ∃ c t', t = c :: t' ∧ isBetween c = false := by
  cases h with
  | null => exact ⟨0x6e, _, rfl, by decide⟩
  | bool b =>
    cases b
    · exact ⟨0x66, _, rfl, by decide⟩
    · exact ⟨0x74, _, rfl, by decide⟩
  | number h _ =>
    obtain ⟨c, t', rfl, hc⟩ := h.exists_cons
    refine ⟨c, t', rfl, ?_⟩
    rcases hc with rfl | hc
    · decide
    · exact isBetween_of_isDigit hc
  | string h =>
    obtain ⟨_⟩ := h
    exact ⟨Ascii.quote, _, rfl, by decide⟩

section Value

variable {inner : Option (Reader Json)} {compound : Bytes → Json → Prop}

/-- Values are read as scalars and as what is read after an opening bracket. -/
theorem reads_readValueWith
    (hobject : ∀ {s rest v}, readObject inner s = .ok (v, rest) ↔
      ∃ t, compound t v ∧ Ascii.openBrace :: s = t ++ rest)
    (harray : ∀ {s rest v}, readArray inner s = .ok (v, rest) ↔
      ∃ t, compound t v ∧ Ascii.openBracket :: s = t ++ rest)
    (hfirst : ∀ {t v}, compound t v →
      t.head? = some Ascii.openBrace ∨ t.head? = some Ascii.openBracket) :
    Reads ⟨readValueWith inner, length_readValueWith⟩
      (fun t v => IsScalar t v ∨ compound t v) where
  sound := by
    intro s rest v h
    change readValueWith inner s = _ at h
    rcases hskip : skipWhitespace s with _ | ⟨c, s'⟩
    · unfold readValueWith at h
      rw [hskip] at h
      cases h
    · obtain ⟨space, hspace, -, rfl⟩ := skipWhitespace_eq_cons_iff.1 hskip
      suffices ∃ t, (IsScalar t v ∨ compound t v) ∧ c :: s' = t ++ rest by
        obtain ⟨t, ht, heq⟩ := this
        exact ⟨space, t, hspace, ht, by rw [heq]⟩
      by_cases hbrace : c = Ascii.openBrace
      · subst hbrace
        rw [readValueWith_of_openBrace hskip] at h
        obtain ⟨t, ht, heq⟩ := hobject.1 h
        exact ⟨t, Or.inr ht, heq⟩
      by_cases hbracket : c = Ascii.openBracket
      · subst hbracket
        rw [readValueWith_of_openBracket hskip] at h
        obtain ⟨t, ht, heq⟩ := harray.1 h
        exact ⟨t, Or.inr ht, heq⟩
      obtain ⟨t, ht, heq⟩ := isScalar_of_readValueWith h hskip hbrace hbracket
      exact ⟨t, Or.inl ht, heq⟩
  complete := by
    rintro space t rest v hspace (h | h) hrest
    · exact readValueWith_of_isScalar h inner hspace hrest
    · show readValueWith inner (space ++ (t ++ rest)) = _
      rcases hfirst h with hhead | hhead
      · obtain ⟨t', rfl⟩ := List.head?_eq_some_iff.1 hhead
        rw [List.cons_append,
          readValueWith_of_openBrace (skipWhitespace_cons hspace (by decide) _)]
        exact hobject.2 ⟨_, h, rfl⟩
      · obtain ⟨t', rfl⟩ := List.head?_eq_some_iff.1 hhead
        rw [List.cons_append,
          readValueWith_of_openBracket (skipWhitespace_cons hspace (by decide) _)]
        exact harray.2 ⟨_, h, rfl⟩
  begins := by
    rintro t v (h | h)
    · exact h.begins
    · rcases hfirst h with hhead | hhead
      · obtain ⟨t', rfl⟩ := List.head?_eq_some_iff.1 hhead
        exact ⟨_, t', rfl, by decide⟩
      · obtain ⟨t', rfl⟩ := List.head?_eq_some_iff.1 hhead
        exact ⟨_, t', rfl, by decide⟩

end Value

theorem IsCompound.head? {value : Bytes → Json → Prop} {t : Bytes} {v : Json}
    (h : IsCompound value t v) :
    t.head? = some Ascii.openBrace ∨ t.head? = some Ascii.openBracket := by
  cases h with
  | array h => cases h <;> exact Or.inr rfl
  | object h => cases h <;> exact Or.inl rfl

section Compound

variable {reader : Reader Json} {value : Bytes → Json → Prop} {s rest : Bytes} {v : Json}

theorem readObject_eq_ok_iff (hreads : Reads reader value) :
    readObject (some reader) s = .ok (v, rest) ↔
      ∃ t, IsCompound value t v ∧ Ascii.openBrace :: s = t ++ rest := by
  have hiff : ∀ {pairs}, readSequence Ascii.closeBrace (memberReader reader) s =
      .ok (pairs, rest) ↔ ∃ t, IsBracketed Ascii.openBrace Ascii.closeBrace (IsMember value) t
        pairs ∧ Ascii.openBrace :: s = t ++ rest :=
    readSequence_eq_ok_iff (reads_memberReader hreads) (Or.inl rfl) _
  constructor
  · intro h
    unfold readObject at h
    dsimp only at h
    split at h
    · cases h
    · rename_i pairs rest' hread
      simp only [Except.ok.injEq, Prod.mk.injEq] at h
      obtain ⟨rfl, rfl⟩ := h
      obtain ⟨t, ht, heq⟩ := hiff.1 hread
      exact ⟨t, .object ht (lastOfEach_iff.2 rfl), heq⟩
  · rintro ⟨t, ht, heq⟩
    cases ht with
    | array h => cases h <;> cases heq
    | object h hmembers =>
      rw [lastOfEach_iff.1 hmembers, readObject, hiff.2 ⟨t, h, heq⟩]
      rfl

theorem readArray_eq_ok_iff (hreads : Reads reader value) :
    readArray (some reader) s = .ok (v, rest) ↔
      ∃ t, IsCompound value t v ∧ Ascii.openBracket :: s = t ++ rest := by
  have hiff : ∀ {items}, readSequence Ascii.closeBracket reader s = .ok (items, rest) ↔
      ∃ t, IsBracketed Ascii.openBracket Ascii.closeBracket value t items ∧
        Ascii.openBracket :: s = t ++ rest :=
    readSequence_eq_ok_iff hreads (Or.inr rfl) _
  constructor
  · intro h
    unfold readArray at h
    dsimp only at h
    split at h
    · cases h
    · rename_i items rest' hread
      simp only [Except.ok.injEq, Prod.mk.injEq] at h
      obtain ⟨rfl, rfl⟩ := h
      obtain ⟨t, ht, heq⟩ := hiff.1 hread
      exact ⟨t, .array ht, heq⟩
  · rintro ⟨t, ht, heq⟩
    cases ht with
    | array h =>
      rw [readArray, hiff.2 ⟨t, h, heq⟩]
    | object h => cases h <;> cases heq

end Compound

/-- The values nested at most `depth` deep are read. -/
theorem reads_valueReader (depth : Nat) : Reads (valueReader depth) (IsValue depth) := by
  induction depth with
  | zero =>
    -- no list or object is read at this depth, so that only scalars are left
    have : Reads ⟨readValueWith none, length_readValueWith⟩ (fun t v => IsScalar t v ∨ False) :=
      reads_readValueWith (by simp [readObject]) (by simp [readArray]) (by simp)
    simp only [or_false] at this
    exact this
  | succ depth ih =>
    exact reads_readValueWith (readObject_eq_ok_iff ih) (readArray_eq_ok_iff ih) IsCompound.head?

/-! ## Unique keys -/

theorem IsItems.forall_mem {item : Bytes → α → Prop} {P : α → Prop}
    (hitem : ∀ t a, item t a → P a) {t : Bytes} {items : List α} (h : IsItems item t items) :
    ∀ a ∈ items, P a := by
  induction h with
  | last h => exact List.forall_mem_singleton.2 (hitem _ _ h)
  | cons h _ _ ih => exact List.forall_mem_cons.2 ⟨hitem _ _ h, ih⟩

theorem IsBracketed.forall_mem {first close : UInt8} {item : Bytes → α → Prop} {P : α → Prop}
    (hitem : ∀ t a, item t a → P a) {t : Bytes} {items : List α}
    (h : IsBracketed first close item t items) : ∀ a ∈ items, P a := by
  cases h with
  | empty => simp
  | items h =>
    obtain ⟨-, h, -⟩ := h
    exact h.forall_mem hitem

/-- The value of a text has no key twice. -/
theorem IsValue.uniqueKeys {depth : Nat} {t : Bytes} {v : Json} (h : IsValue depth t v) :
    v.UniqueKeys := by
  have scalar : ∀ {t v}, IsScalar t v → UniqueKeys v := by
    rintro _ _ (_ | b | _ | _)
    · exact .null
    · exact .bool b
    · exact .number _
    · exact .string _
  induction depth generalizing t v with
  | zero => exact scalar h
  | succ depth ih =>
    rcases h with h | h
    · exact scalar h
    · cases h with
      | array h => exact .array (h.forall_mem fun _ _ hvalue => ih hvalue)
      | object h hmembers =>
        have hvalues := h.forall_mem (P := fun m => UniqueKeys m.2)
          fun _ _ ⟨_, _, hvalue⟩ => ih hvalue
        refine .object hmembers.nodup_keys fun m hm => hvalues m ?_
        rw [lastOfEach_iff.1 hmembers] at hm
        exact mem_of_mem_membersOf hm

/-! ## Whole texts -/

/-- A text that is short enough is read exactly if it holds a value nested at most eight deep with
white space around it. -/
theorem parse_of_isSpaced {t : Bytes} {v : Json} (hlength : t.length ≤ maxInputBytes)
    (h : IsSpaced (IsValue maxDepth) t v) : parse t = .ok v := by
  obtain @⟨front, t, back, v, hfront, hvalue, hback⟩ := h
  have hreads := reads_valueReader maxDepth
  have hread := hreads.complete hfront hvalue
    (by simpa using stops_continuesNumeral_append hback (stops_nil _))
  obtain ⟨c, t', rfl, hc⟩ := hreads.begins hvalue
  have hskip : isWhitespace c = false := by
    simp only [isBetween, Bool.or_eq_false_iff] at hc
    exact hc.1.1
  unfold parse
  rw [if_neg (Nat.not_lt.2 hlength), List.append_assoc, List.cons_append,
    skipWhitespace_cons hfront hskip, if_neg (List.cons_ne_nil _ _)]
  rw [List.cons_append] at hread
  rw [hread]
  exact if_pos (skipWhitespace_eq_nil_iff.2 hback)

/-- Exactly the texts of at most 65536 bytes are read that hold a value nested at most eight deep
with white space around it.  They are read as the value that they denote, and no object in it has a
key twice. -/
theorem parse_iff_grammar (t : Bytes) :
    (∀ v, parse t = .ok v ↔ t.length ≤ 65536 ∧ IsSpaced (IsValue 8) t v) ∧
      ∀ v, parse t = .ok v → v.UniqueKeys := by
  have hiff : ∀ v, parse t = .ok v ↔ t.length ≤ 65536 ∧ IsSpaced (IsValue 8) t v := by
    intro v
    refine ⟨fun h => ?_, fun ⟨hlength, h⟩ => parse_of_isSpaced hlength h⟩
    unfold parse at h
    split_ifs at h with hlength hempty
    split at h
    · cases h
    · rename_i v' rest hread
      split_ifs at h with hrest
      cases h
      obtain ⟨front, t, hfront, hvalue, rfl⟩ := (reads_valueReader maxDepth).sound hread
      refine ⟨Nat.not_lt.1 hlength, ?_⟩
      rw [← List.append_assoc]
      exact .mk hfront hvalue (skipWhitespace_eq_nil_iff.1 hrest)
  refine ⟨hiff, fun v h => ?_⟩
  obtain ⟨-, -, hvalue, -⟩ := (hiff v).1 h
  exact hvalue.uniqueKeys

end Json

end RoverControl
