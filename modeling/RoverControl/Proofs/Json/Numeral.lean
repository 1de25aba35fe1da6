import RoverControl.Json.Numeral
import RoverControl.Proofs.Bytes

/-!
# The grammar of numerals in JSON

`IsNumeral` says how a numeral is written and what its parts are.  What is taken off the front of a
text as a numeral is one (`isNumeral_of_splitNumeral`), and a numeral is taken off whole if the text
after it does not go on with a byte of a numeral (`splitNumeral_append`).
-/

namespace RoverControl

namespace Json

/-! ## Parts of numerals -/

/-- One or more decimal digits. -/
def IsDigits (digits : Bytes) : Prop := digits ≠ [] ∧ ∀ c ∈ digits, Ascii.isDigit c = true

/-- The whole part of a numeral: a single zero, or digits of which the first is not zero. -/
def IsWhole (digits : Bytes) : Prop :=
  IsDigits digits ∧ (digits.head? = some Ascii.zero → digits = [Ascii.zero])

/-- A minus sign that may be left out, and whether it is there. -/
inductive IsMinus : Bytes → Bool → Prop
  | none : IsMinus [] false
  | minus : IsMinus [Ascii.minus] true

/-- The fraction of a numeral, which may be left out, and its digits. -/
inductive IsFraction : Bytes → Bytes → Prop
  | none : IsFraction [] []
  | mk {digits : Bytes} (h : IsDigits digits) : IsFraction (Ascii.dot :: digits) digits

/-- The sign of an exponent, which may be left out, and whether it is a minus sign. -/
inductive IsExponentSign : Bytes → Bool → Prop
  | none : IsExponentSign [] false
  | plus : IsExponentSign [Ascii.plus] false
  | minus : IsExponentSign [Ascii.minus] true

/-- The exponent of a numeral, which may be left out, and its value. -/
inductive IsExponent : Bytes → Int → Prop
  | none : IsExponent [] 0
  | mk {e : UInt8} {sign digits : Bytes} {negative : Bool} (he : e = 0x65 ∨ e = 0x45)
      (hsign : IsExponentSign sign negative) (hdigits : IsDigits digits) :
      IsExponent (e :: (sign ++ digits))
        (if negative then -(readDecimal digits : Int) else readDecimal digits)

/-- A numeral as it is written, and its parts. -/
inductive IsNumeral : Bytes → Numeral → Prop
  | mk {minus wholeDigits fraction fractionDigits exponentText : Bytes} {negative : Bool}
      {exponent : Int} (hminus : IsMinus minus negative) (hwhole : IsWhole wholeDigits)
      (hfraction : IsFraction fraction fractionDigits)
      (hexponent : IsExponent exponentText exponent) :
      IsNumeral (minus ++ wholeDigits ++ fraction ++ exponentText)
        ⟨negative, wholeDigits, fractionDigits, exponent⟩

/-- The text does not go on with a byte of the class. -/
def Stops (p : UInt8 → Bool) (s : Bytes) : Prop := ∀ c ∈ s.head?, p c = false

/-- The bytes with which a numeral could go on after a digit. -/
def continuesNumeral (c : UInt8) : Bool :=
  Ascii.isDigit c || c == Ascii.dot || c == 0x65 || c == 0x45

section Stops

variable {p q : UInt8 → Bool} {s t : Bytes} {c : UInt8}

theorem stops_nil (p : UInt8 → Bool) : Stops p [] := fun _ hc => by cases hc

theorem stops_cons : Stops p (c :: s) ↔ p c = false := by
  simp [Stops]

theorem Stops.imp (h : Stops p s) (hpq : ∀ c, q c = true → p c = true) : Stops q s := by
  intro c hc
  by_contra hq
  rw [Bool.not_eq_false] at hq
  have := h c hc
  rw [hpq c hq] at this
  cases this

theorem IsDigits.exists_cons (h : IsDigits t) : ∃ c t', t = c :: t' ∧ Ascii.isDigit c = true := by
  obtain ⟨hne, hall⟩ := h
  obtain ⟨c, t', rfl⟩ := List.exists_cons_of_ne_nil hne
  exact ⟨c, t', rfl, hall c List.mem_cons_self⟩

theorem takeWhile_append_of_stops (ht : ∀ c ∈ t, p c = true) (hs : Stops p s) :
    (t ++ s).takeWhile p = t := by
  rw [List.takeWhile_append_of_pos ht]
  rcases s with _ | ⟨c, s⟩
  · exact List.append_nil t
  · rw [List.takeWhile_cons_of_neg (by rw [stops_cons.1 hs]; decide), List.append_nil]

theorem dropWhile_append_of_stops (ht : ∀ c ∈ t, p c = true) (hs : Stops p s) :
    (t ++ s).dropWhile p = s :=
  Bytes.dropWhile_append ht hs

end Stops

/-! ## Reading the parts -/

variable {s t rest digits : Bytes}

theorem isDigits_of_readDigits (h : readDigits s = .ok (digits, rest)) :
    IsDigits digits ∧ s = digits ++ rest := by
  unfold readDigits at h
  split at h
  · cases h
  · rename_i hne
    simp only [Except.ok.injEq, Prod.mk.injEq] at h
    obtain ⟨rfl, rfl⟩ := h
    exact ⟨⟨hne, fun c hc => List.mem_takeWhile_imp hc⟩, (List.takeWhile_append_dropWhile).symm⟩

theorem readDigits_append (h : IsDigits digits) (hrest : Stops Ascii.isDigit rest) :
    readDigits (digits ++ rest) = .ok (digits, rest) := by
  rw [readDigits, takeWhile_append_of_stops h.2 hrest, dropWhile_append_of_stops h.2 hrest,
    if_neg h.1]

theorem isWhole_of_readWhole (h : readWhole s = .ok (digits, rest)) :
    IsWhole digits ∧ s = digits ++ rest := by
  unfold readWhole at h
  split at h
  · cases h
    exact ⟨⟨⟨by simp, by simp; decide⟩, fun _ => rfl⟩, rfl⟩
  · rename_i hzero
    obtain ⟨hdigits, rfl⟩ := isDigits_of_readDigits h
    refine ⟨⟨hdigits, fun hhead => ?_⟩, rfl⟩
    obtain ⟨c, t, rfl, -⟩ := hdigits.exists_cons
    cases hhead
    exact absurd rfl (hzero (t ++ rest))

theorem readWhole_append (h : IsWhole digits) (hrest : Stops Ascii.isDigit rest) :
    readWhole (digits ++ rest) = .ok (digits, rest) := by
  obtain ⟨hdigits, hzero⟩ := h
  have hread := readDigits_append hdigits hrest
  obtain ⟨c, t, rfl, -⟩ := hdigits.exists_cons
  by_cases hc : c = Ascii.zero
  · subst hc
    rw [hzero rfl]
    rfl
  · unfold readWhole
    split
    · rename_i heq
      cases heq
      exact absurd rfl hc
    · exact hread

theorem isMinus_readMinus (s : Bytes) :
    ∃ t, IsMinus t (readMinus s).1 ∧ s = t ++ (readMinus s).2 := by
  unfold readMinus
  split
  · exact ⟨_, .minus, rfl⟩
  · exact ⟨_, .none, rfl⟩

theorem readMinus_of_isDigit {c : UInt8} (h : Ascii.isDigit c = true) (s : Bytes) :
    readMinus (c :: s) = (false, c :: s) := by
  unfold readMinus
  split
  · rename_i heq
    cases heq
    exact absurd h (by decide)
  · rfl

theorem readMinus_append {negative : Bool} (h : IsMinus t negative) (hdigits : IsDigits digits)
    (rest : Bytes) : readMinus (t ++ (digits ++ rest)) = (negative, digits ++ rest) := by
  obtain ⟨c, t', rfl, hc⟩ := hdigits.exists_cons
  cases h with
  | none => exact readMinus_of_isDigit hc _
  | minus => rfl

theorem isFraction_of_readFraction (h : readFraction s = .ok (digits, rest)) :
    ∃ t, IsFraction t digits ∧ s = t ++ rest := by
  unfold readFraction at h
  split at h
  · obtain ⟨hdigits, rfl⟩ := isDigits_of_readDigits h
    exact ⟨_, .mk hdigits, rfl⟩
  · cases h
    exact ⟨_, .none, rfl⟩

theorem readFraction_append (h : IsFraction t digits) (hrest : Stops Ascii.isDigit rest)
    (hdot : Stops (· == Ascii.dot) rest) :
    readFraction (t ++ rest) = .ok (digits, rest) := by
  cases h with
  | none =>
    rw [List.nil_append]
    unfold readFraction
    split
    · exact absurd (stops_cons.1 hdot) (by decide)
    · rfl
  | mk hdigits => exact readDigits_append hdigits hrest

theorem isExponentSign_readExponentSign (s : Bytes) :
    ∃ t, IsExponentSign t (readExponentSign s).1 ∧ s = t ++ (readExponentSign s).2 := by
  unfold readExponentSign
  split
  · exact ⟨_, .plus, rfl⟩
  · obtain ⟨t, h, heq⟩ := isMinus_readMinus s
    refine ⟨t, ?_, heq⟩
    generalize (readMinus s).1 = negative at h
    cases h with
    | none => exact .none
    | minus => exact .minus

theorem readExponentSign_append {negative : Bool} (h : IsExponentSign t negative)
    (hdigits : IsDigits digits) (rest : Bytes) :
    readExponentSign (t ++ (digits ++ rest)) = (negative, digits ++ rest) := by
  obtain ⟨c, t', rfl, hc⟩ := hdigits.exists_cons
  cases h with
  | none =>
    show readExponentSign (c :: (t' ++ rest)) = _
    unfold readExponentSign
    split
    · rename_i heq
      cases heq
      exact absurd hc (by decide)
    · exact readMinus_of_isDigit hc _
  | plus => rfl
  | minus => rfl

theorem isExponent_of_readExponent {exponent : Int} (h : readExponent s = .ok (exponent, rest)) :
    ∃ t, IsExponent t exponent ∧ s = t ++ rest := by
  have afterLetter : ∀ {e : UInt8} {s}, e = 0x65 ∨ e = 0x45 →
      readExponentDigits s = .ok (exponent, rest) →
        ∃ t, IsExponent t exponent ∧ e :: s = t ++ rest := by
    intro e s he h
    obtain ⟨sign, hsign, heq⟩ := isExponentSign_readExponentSign s
    unfold readExponentDigits at h
    split at h
    · cases h
    · rename_i digits rest' hread
      obtain ⟨hdigits, hs⟩ := isDigits_of_readDigits hread
      simp only [Except.ok.injEq, Prod.mk.injEq] at h
      obtain ⟨rfl, rfl⟩ := h
      exact ⟨_, .mk he hsign hdigits, by rw [heq, hs]; simp⟩
  unfold readExponent at h
  split at h
  · exact afterLetter (Or.inl rfl) h
  · exact afterLetter (Or.inr rfl) h
  · cases h
    exact ⟨[], .none, rfl⟩

theorem readExponent_append {exponent : Int} (h : IsExponent t exponent)
    (hrest : Stops continuesNumeral rest) : readExponent (t ++ rest) = .ok (exponent, rest) := by
  cases h with
  | none =>
    rw [List.nil_append]
    unfold readExponent
    split
    · exact absurd (stops_cons.1 hrest) (by decide)
    · exact absurd (stops_cons.1 hrest) (by decide)
    · rfl
  | @mk e sign digits negative he hsign hdigits =>
    have hread : readDigits (digits ++ rest) = .ok (digits, rest) :=
      readDigits_append hdigits (hrest.imp fun c hc => by simp [continuesNumeral, hc])
    have : readExponentDigits (sign ++ (digits ++ rest)) =
        .ok (if negative then -(readDecimal digits : Int) else readDecimal digits, rest) := by
      unfold readExponentDigits
      rw [readExponentSign_append hsign hdigits]
      dsimp only
      rw [hread]
    rw [List.cons_append, List.append_assoc]
    rcases he with rfl | rfl <;> exact this

/-! ## Reading numerals -/

variable {n : Numeral}

/-- What is taken off the front of a text is a numeral. -/
theorem isNumeral_of_splitNumeral (h : splitNumeral s = .ok (n, rest)) :
    ∃ t, IsNumeral t n ∧ s = t ++ rest := by
  obtain ⟨minus, hminus, heq⟩ := isMinus_readMinus s
  unfold splitNumeral at h
  split at h
  · cases h
  · rename_i h₁
    obtain ⟨hwhole, h₁⟩ := isWhole_of_readWhole h₁
    split at h
    · cases h
    · rename_i h₂
      obtain ⟨fraction, hfraction, rfl⟩ := isFraction_of_readFraction h₂
      split at h
      · cases h
      · rename_i h₃
        obtain ⟨exponentText, hexponent, rfl⟩ := isExponent_of_readExponent h₃
        simp only [Except.ok.injEq, Prod.mk.injEq] at h
        obtain ⟨rfl, rfl⟩ := h
        exact ⟨_, .mk hminus hwhole hfraction hexponent, by rw [heq, h₁]; simp⟩

/-- A numeral is taken off whole if the text does not go on with one of its bytes. -/
theorem splitNumeral_append (h : IsNumeral t n) (hrest : Stops continuesNumeral rest) :
    splitNumeral (t ++ rest) = .ok (n, rest) := by
  obtain @⟨minus, wholeDigits, fraction, fractionDigits, exponentText, negative, exponent, hminus,
    hwhole, hfraction, hexponent⟩ := h
  have hafterFraction : ∀ {p : UInt8 → Bool}, (∀ c, p c = true → continuesNumeral c = true) →
      p 0x65 = false → p 0x45 = false → Stops p (exponentText ++ rest) := by
    intro p hp he hE
    cases hexponent with
    | none => exact hrest.imp hp
    | mk hletter _ _ => exact stops_cons.2 (by rcases hletter with rfl | rfl <;> assumption)
  have hdigit : Stops Ascii.isDigit (exponentText ++ rest) :=
    hafterFraction (fun c hc => by simp [continuesNumeral, hc]) (by decide) (by decide)
  have hdot : Stops (· == Ascii.dot) (exponentText ++ rest) :=
    hafterFraction (fun c hc => by simp [continuesNumeral, hc]) (by decide) (by decide)
  have hafterWhole : Stops Ascii.isDigit (fraction ++ (exponentText ++ rest)) := by
    cases hfraction with
    | none => exact hdigit
    | mk _ => exact stops_cons.2 (by decide)
  rw [List.append_assoc, List.append_assoc, List.append_assoc, splitNumeral,
    readMinus_append hminus hwhole.1]
  dsimp only
  rw [readWhole_append hwhole hafterWhole]
  dsimp only
  rw [readFraction_append hfraction hdigit hdot]
  dsimp only
  rw [readExponent_append hexponent hrest]

end Json

end RoverControl
