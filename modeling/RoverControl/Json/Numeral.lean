import RoverControl.Bytes
import RoverControl.Json.Error
import RoverControl.Number.Binary64

/-!
# Numbers in JSON text

A numeral has an optional minus sign, a whole part without superfluous zeros, and optionally a
fraction and an exponent.  `Json.readNumeral` takes the longest one off the front of a text and
gives the double nearest to it; a numeral beyond the finite doubles, or one other than zero that
is nearest to zero, is refused.
-/

namespace RoverControl

namespace Json

/-- The parts of a numeral: it denotes `wholeDigits.fractionDigits * 10 ^ exponent`. -/
structure Numeral where
  negative : Bool
  wholeDigits : Bytes
  fractionDigits : Bytes
  exponent : Int

namespace Numeral

/-- The digits of both parts, read as one number. -/
def coefficient (n : Numeral) : Nat := readDecimal (n.wholeDigits ++ n.fractionDigits)

/-- The double nearest to the numeral. -/
def nearest (n : Numeral) : Float :=
  Binary64.ofDecimal n.negative n.coefficient (n.exponent - n.fractionDigits.length)

/-- Whether the numeral neither overflows nor vanishes when it is rounded. -/
def inRange (n : Numeral) : Bool :=
  let w := Binary64.word n.nearest
  w < Binary64.infinityWord && (n.coefficient == 0 || w != 0)

end Numeral

/-! ## Reading

Each part is taken off the front of a text, and what follows it is given as the rest. -/

/-- A minus sign, which may be left out. -/
def readMinus : Bytes → Bool × Bytes
  | Ascii.minus :: rest => (true, rest)
  | s => (false, s)

/-- One or more digits. -/
def readDigits (s : Bytes) : Except Error (Bytes × Bytes) :=
  if s.takeWhile Ascii.isDigit = [] then .error .invalidNumber
  else .ok (s.takeWhile Ascii.isDigit, s.dropWhile Ascii.isDigit)

/-- A whole part: a single zero, or digits that start with another one. -/
def readWhole (s : Bytes) : Except Error (Bytes × Bytes) :=
  match s with
  | Ascii.zero :: rest => .ok ([Ascii.zero], rest)
  | _ => readDigits s

/-- The digits of a fraction, none if the text does not go on with a point. -/
def readFraction (s : Bytes) : Except Error (Bytes × Bytes) :=
  match s with
  | Ascii.dot :: rest => readDigits rest
  | _ => .ok ([], s)

/-- The sign of an exponent: whether it is a minus sign. -/
def readExponentSign : Bytes → Bool × Bytes
  | Ascii.plus :: rest => (false, rest)
  | s => readMinus s

/-- The exponent after the letter `e`. -/
def readExponentDigits (s : Bytes) : Except Error (Int × Bytes) :=
  match readDigits (readExponentSign s).2 with
  | .error e => .error e
  | .ok (digits, rest) =>
    .ok (if (readExponentSign s).1 then -(readDecimal digits : Int) else readDecimal digits, rest)

/-- An exponent, zero if the text does not go on with one. -/
def readExponent (s : Bytes) : Except Error (Int × Bytes) :=
  match s with
  | 0x65 :: rest => readExponentDigits rest
  | 0x45 :: rest => readExponentDigits rest
  | _ => .ok (0, s)

/-- The longest numeral at the front of a text. -/
def splitNumeral (s : Bytes) : Except Error (Numeral × Bytes) :=
  match readWhole (readMinus s).2 with
  | .error e => .error e
  | .ok (wholeDigits, rest) =>
    match readFraction rest with
    | .error e => .error e
    | .ok (fractionDigits, rest) =>
      match readExponent rest with
      | .error e => .error e
      | .ok (exponent, rest) =>
        .ok (⟨(readMinus s).1, wholeDigits, fractionDigits, exponent⟩, rest)

/-- The number at the front of a text. -/
def readNumeral (s : Bytes) : Except Error (Float × Bytes) :=
  match splitNumeral s with
  | .error e => .error e
  | .ok (n, rest) => if n.inRange then .ok (n.nearest, rest) else .error .invalidNumber

/-! ## Lengths of the rests -/

theorem length_readMinus (s : Bytes) : (readMinus s).2.length ≤ s.length := by
  unfold readMinus
  split <;> simp

theorem length_readDigits {s t rest : Bytes} (h : readDigits s = .ok (t, rest)) :
    rest.length < s.length := by
  unfold readDigits at h
  split at h
  · simp at h
  · rename_i hs
    simp only [Except.ok.injEq, Prod.mk.injEq] at h
    exact h.2 ▸ Bytes.length_dropWhile_lt hs

theorem length_readWhole {s t rest : Bytes} (h : readWhole s = .ok (t, rest)) :
    rest.length < s.length := by
  unfold readWhole at h
  split at h
  · simp only [Except.ok.injEq, Prod.mk.injEq] at h
    simp [← h.2]
  · exact length_readDigits h

theorem length_readFraction {s t rest : Bytes} (h : readFraction s = .ok (t, rest)) :
    rest.length ≤ s.length := by
  unfold readFraction at h
  split at h
  · have := length_readDigits h
    simp only [List.length_cons]
    omega
  · simp only [Except.ok.injEq, Prod.mk.injEq] at h
    exact h.2 ▸ Nat.le_refl _

theorem length_readExponentDigits {s rest : Bytes} {e : Int}
    (h : readExponentDigits s = .ok (e, rest)) : rest.length < s.length := by
  have hsign : (readExponentSign s).2.length ≤ s.length := by
    unfold readExponentSign
    split
    · simp
    · exact length_readMinus _
  unfold readExponentDigits at h
  split at h
  · simp at h
  · rename_i hd
    have := length_readDigits hd
    simp only [Except.ok.injEq, Prod.mk.injEq] at h
    rw [← h.2]
    omega

theorem length_readExponent {s rest : Bytes} {e : Int} (h : readExponent s = .ok (e, rest)) :
    rest.length ≤ s.length := by
  unfold readExponent at h
  split at h
  · have := length_readExponentDigits h
    simp only [List.length_cons]
    omega
  · have := length_readExponentDigits h
    simp only [List.length_cons]
    omega
  · simp only [Except.ok.injEq, Prod.mk.injEq] at h
    exact h.2 ▸ Nat.le_refl _

theorem length_splitNumeral {s rest : Bytes} {n : Numeral} (h : splitNumeral s = .ok (n, rest)) :
    rest.length < s.length := by
  have h₀ := length_readMinus s
  unfold splitNumeral at h
  split at h
  · simp at h
  · rename_i h₁
    split at h
    · simp at h
    · rename_i h₂
      split at h
      · simp at h
      · rename_i h₃
        have := length_readWhole h₁
        have := length_readFraction h₂
        have := length_readExponent h₃
        simp only [Except.ok.injEq, Prod.mk.injEq] at h
        rw [← h.2]
        omega

theorem length_readNumeral {s rest : Bytes} {x : Float} (h : readNumeral s = .ok (x, rest)) :
    rest.length < s.length := by
  unfold readNumeral at h
  split at h
  · simp at h
  · rename_i h₁
    split at h
    · simp only [Except.ok.injEq, Prod.mk.injEq] at h
      exact h.2 ▸ length_splitNumeral h₁
    · simp at h

end Json

end RoverControl
