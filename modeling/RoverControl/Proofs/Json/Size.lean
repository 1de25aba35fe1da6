import RoverControl.Json.Parser

/-!
# Texts that are too large

A text is refused for its size exactly if it is longer than what is read
(`parse_eq_inputTooLarge_iff`): no reader finds fault with the size of what is left to it.
-/

namespace RoverControl

namespace Json

/-- Whether a fault lies in what a text says, and not in its size. -/
def Error.inContent : Error → Bool
  | .inputTooLarge => false
  | _ => true

/-- The reader finds faults only in what a text says. -/
def Reader.Unlimited {α : Type} (r : Reader α) : Prop :=
  ∀ {s e}, r.run s = .error e → e.inContent = true

variable {s : Bytes} {e : Error}

/-! ## Numbers and texts -/

theorem inContent_of_readDigits (h : readDigits s = .error e) : e.inContent = true := by
  unfold readDigits at h
  split at h <;> cases h
  rfl

theorem inContent_of_readWhole (h : readWhole s = .error e) : e.inContent = true := by
  unfold readWhole at h
  split at h
  · cases h
  · exact inContent_of_readDigits h

theorem inContent_of_readFraction (h : readFraction s = .error e) : e.inContent = true := by
  unfold readFraction at h
  split at h
  · exact inContent_of_readDigits h
  · cases h

theorem inContent_of_readExponentDigits (h : readExponentDigits s = .error e) :
    e.inContent = true := by
  unfold readExponentDigits at h
  split at h
  · rename_i hdigits
    cases h
    exact inContent_of_readDigits hdigits
  · cases h

theorem inContent_of_readExponent (h : readExponent s = .error e) : e.inContent = true := by
  unfold readExponent at h
  split at h
  · exact inContent_of_readExponentDigits h
  · exact inContent_of_readExponentDigits h
  · cases h

theorem inContent_of_splitNumeral (h : splitNumeral s = .error e) : e.inContent = true := by
  unfold splitNumeral at h
  split at h
  · rename_i hwhole
    cases h
    exact inContent_of_readWhole hwhole
  · split at h
    · rename_i hfraction
      cases h
      exact inContent_of_readFraction hfraction
    · split at h
      · rename_i hexponent
        cases h
        exact inContent_of_readExponent hexponent
      · cases h

theorem inContent_of_readNumeral (h : readNumeral s = .error e) : e.inContent = true := by
  unfold readNumeral at h
  split at h
  · rename_i hnumeral
    cases h
    exact inContent_of_splitNumeral hnumeral
  · split at h <;> cases h
    rfl

theorem inContent_of_readEscape (h : readEscape s = .error e) : e.inContent = true := by
  unfold readEscape at h
  repeat' split at h
  all_goals cases h
  all_goals rfl

theorem inContent_of_readQuotedFrom {read : Bytes} (h : readQuotedFrom read s = .error e) :
    e.inContent = true := by
  fun_induction readQuotedFrom read s with
  | case1 | case3 =>
    cases h
    rfl
  | case2 => cases h
  | case4 _ _ _ hescape =>
    cases h
    exact inContent_of_readEscape hescape
  | case5 _ _ _ _ _ _ _ ih | case6 _ _ _ _ _ _ ih => exact ih h

theorem inContent_of_readWord (h : readWord s = .error e) : e.inContent = true := by
  unfold readWord at h
  split at h <;> cases h
  rfl

/-! ## Lists and objects -/

theorem inContent_of_readSequenceFrom {α : Type} {close : UInt8} {item : Reader α}
    (hitem : item.Unlimited) {read : List α}
    (h : readSequenceFrom close item read s = .error e) : e.inContent = true := by
  fun_induction readSequenceFrom close item read s with
  | case1 _ _ _ hrun =>
    cases h
    exact hitem hrun
  | case2 | case5 =>
    cases h
    rfl
  | case3 => cases h
  | case4 _ _ _ _ _ _ _ _ ih => exact ih h

theorem inContent_of_readSequence {α : Type} {close : UInt8} {item : Reader α}
    (hitem : item.Unlimited) (h : readSequence close item s = .error e) :
    e.inContent = true := by
  unfold readSequence at h
  split at h
  · exact inContent_of_readSequenceFrom hitem h
  · split at h
    · cases h
    · exact inContent_of_readSequenceFrom hitem h

theorem unlimited_memberReader {value : Reader Json} (hvalue : value.Unlimited) :
    (memberReader value).Unlimited := by
  intro s e h
  simp only [memberReader, readMember] at h
  split at h
  · split at h
    · rename_i hkey
      cases h
      exact inContent_of_readQuotedFrom hkey
    · split at h
      · split at h
        · rename_i hrun
          cases h
          exact hvalue hrun
        · cases h
      · cases h
        rfl
  · cases h
    rfl

theorem inContent_of_readObject {inner : Option (Reader Json)}
    (hinner : ∀ r ∈ inner, r.Unlimited) (h : readObject inner s = .error e) :
    e.inContent = true := by
  unfold readObject at h
  split at h
  · cases h
    rfl
  · split at h
    · rename_i hsequence
      cases h
      exact inContent_of_readSequence (unlimited_memberReader (hinner _ rfl)) hsequence
    · cases h

theorem inContent_of_readArray {inner : Option (Reader Json)}
    (hinner : ∀ r ∈ inner, r.Unlimited) (h : readArray inner s = .error e) :
    e.inContent = true := by
  unfold readArray at h
  split at h
  · cases h
    rfl
  · split at h
    · rename_i hsequence
      cases h
      exact inContent_of_readSequence (hinner _ rfl) hsequence
    · cases h

theorem inContent_of_readValueWith {inner : Option (Reader Json)}
    (hinner : ∀ r ∈ inner, r.Unlimited) (h : readValueWith inner s = .error e) :
    e.inContent = true := by
  unfold readValueWith at h
  split at h
  · cases h
    rfl
  · split at h
    · exact inContent_of_readObject hinner h
    · split at h
      · exact inContent_of_readArray hinner h
      · split at h
        · split at h
          · rename_i hquoted
            cases h
            exact inContent_of_readQuotedFrom hquoted
          · cases h
        · split at h
          · split at h
            · rename_i hnumeral
              cases h
              exact inContent_of_readNumeral hnumeral
            · cases h
          · exact inContent_of_readWord h

theorem unlimited_valueReader (depth : Nat) : (valueReader depth).Unlimited := by
  induction depth with
  | zero => exact fun h => inContent_of_readValueWith (by simp) h
  | succ depth ih =>
    refine fun h => inContent_of_readValueWith (fun r hr => ?_) h
    cases hr
    exact ih

/-! ## Whole texts -/

/-- A text is too large exactly if it is longer than the longest one that is read. -/
theorem parse_eq_inputTooLarge_iff :
    parse s = .error .inputTooLarge ↔ maxInputBytes < s.length := by
  constructor
  · intro h
    unfold parse at h
    split at h
    · assumption
    · split at h
      · cases h
      · split at h
        · rename_i hrun
          cases h
          cases unlimited_valueReader _ hrun
        · split at h <;> cases h
  · intro h
    rw [parse, if_pos h]

end Json

end RoverControl
