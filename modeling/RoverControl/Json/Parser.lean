import RoverControl.Json.Basic
import RoverControl.Json.Numeral
import RoverControl.Json.Quoted

/-!
# Reading JSON text

`Json.parse` reads a text of at most 65536 bytes that holds one value and white space around it.
Lists and objects may be nested eight deep, and of the members with one key the last gives the
value and the first the place.  A text is read from left to right, and the first fault found
decides the error.
-/

namespace RoverControl

namespace Json

/-- The longest text that is read. -/
def maxInputBytes : Nat := 65536

/-- How deep lists and objects may be nested. -/
def maxDepth : Nat := 8

/-- Takes an item off the front of a text and gives the rest, which is shorter. -/
structure Reader (α : Type) where
  run : Bytes → Except Error (α × Bytes)
  length_run : ∀ {s a rest}, run s = .ok (a, rest) → rest.length < s.length

/-- The white space between the parts of a text. -/
def isWhitespace (c : UInt8) : Bool :=
  c == Ascii.space || c == Ascii.tab || c == Ascii.newline || c == Ascii.carriageReturn

def skipWhitespace (s : Bytes) : Bytes := s.dropWhile isWhitespace

theorem length_skipWhitespace (s : Bytes) : (skipWhitespace s).length ≤ s.length :=
  Bytes.length_dropWhile_le _ _

theorem length_skipWhitespace_cons {s rest : Bytes} {c : UInt8}
    (h : skipWhitespace s = c :: rest) : rest.length < s.length := by
  have := length_skipWhitespace s
  rw [h, List.length_cons] at this
  omega

/-! ## Sequences -/

section Sequence

variable {α : Type} (close : UInt8) (item : Reader α)

/-- One or more items divided by commas, up to the byte `close`; `read` holds the items read so
far, the last one first. -/
def readSequenceFrom (read : List α) (s : Bytes) : Except Error (List α × Bytes) :=
  match _h : item.run s with
  | .error e => .error e
  | .ok (a, rest) =>
    match _h' : skipWhitespace rest with
    | [] => .error .invalidJson
    | c :: rest =>
      if c = close then .ok ((a :: read).reverse, rest)
      else if c = Ascii.comma then readSequenceFrom (a :: read) rest
      else .error .invalidJson
termination_by s.length
decreasing_by
  have := item.length_run _h
  have := length_skipWhitespace_cons _h'
  omega

/-- Items divided by commas after an opening bracket, up to the byte `close`. -/
def readSequence (s : Bytes) : Except Error (List α × Bytes) :=
  match skipWhitespace s with
  | [] => readSequenceFrom close item [] []
  | c :: rest =>
    if c = close then .ok ([], rest) else readSequenceFrom close item [] (c :: rest)

variable {close item}

theorem length_readSequenceFrom {read items : List α} {s rest : Bytes}
    (h : readSequenceFrom close item read s = .ok (items, rest)) : rest.length < s.length := by
  fun_induction readSequenceFrom close item read s with
  | case1 => simp at h
  | case2 => simp at h
  | case3 read s a rest₁ h₁ rest₂ h₂ =>
    have := item.length_run h₁
    have := length_skipWhitespace_cons h₂
    simp only [Except.ok.injEq, Prod.mk.injEq] at h
    rw [← h.2]
    omega
  | case4 read s a rest₁ h₁ rest₂ h₂ _ ih =>
    have := item.length_run h₁
    have := length_skipWhitespace_cons h₂
    have := ih h
    omega
  | case5 => simp at h

theorem length_readSequence {items : List α} {s rest : Bytes}
    (h : readSequence close item s = .ok (items, rest)) : rest.length < s.length := by
  unfold readSequence at h
  split at h
  · have := length_readSequenceFrom h
    simp at this
  · rename_i c rest₁ h₁
    have := length_skipWhitespace_cons h₁
    split at h
    · simp only [Except.ok.injEq, Prod.mk.injEq] at h
      rw [← h.2]
      omega
    · have := length_readSequenceFrom h
      simp only [List.length_cons] at this
      omega

end Sequence

/-! ## Values -/

/-- One of the three words. -/
def readWord : Bytes → Except Error (Json × Bytes)
  | 0x74 :: 0x72 :: 0x75 :: 0x65 :: rest => .ok (.bool true, rest)
  | 0x66 :: 0x61 :: 0x6c :: 0x73 :: 0x65 :: rest => .ok (.bool false, rest)
  | 0x6e :: 0x75 :: 0x6c :: 0x6c :: rest => .ok (.null, rest)
  | _ => .error .invalidJson

/-- A key, a colon and a value. -/
def readMember (value : Bytes → Except Error (Json × Bytes)) (s : Bytes) :
    Except Error ((Bytes × Json) × Bytes) :=
  match skipWhitespace s with
  | Ascii.quote :: rest =>
    match readQuoted rest with
    | .error e => .error e
    | .ok (key, rest) =>
      match skipWhitespace rest with
      | Ascii.colon :: rest =>
        match value rest with
        | .error e => .error e
        | .ok (v, rest) => .ok ((key, v), rest)
      | _ => .error .invalidJson
  | _ => .error .invalidJson

/-- The reader of the members of an object whose values `value` reads. -/
def memberReader (value : Reader Json) : Reader (Bytes × Json) where
  run := readMember value.run
  length_run := by
    intro s m rest h
    unfold readMember at h
    split at h
    · rename_i h₁
      split at h
      · simp at h
      · rename_i h₂
        split at h
        · rename_i h₃
          split at h
          · simp at h
          · rename_i h₄
            have := length_skipWhitespace_cons h₁
            have := length_readQuoted h₂
            have := length_skipWhitespace_cons h₃
            have := value.length_run h₄
            simp only [Except.ok.injEq, Prod.mk.injEq] at h
            rw [← h.2]
            omega
        · simp at h
    · simp at h

/-- An object after its opening brace; `inner` reads the values in it, if it may have any. -/
def readObject (inner : Option (Reader Json)) (s : Bytes) : Except Error (Json × Bytes) :=
  match inner with
  | none => .error .nestingTooDeep
  | some value =>
    match readSequence Ascii.closeBrace (memberReader value) s with
    | .error e => .error e
    | .ok (pairs, rest) => .ok (ofMembers pairs, rest)

/-- A list after its opening bracket; `inner` reads the items in it, if it may have any. -/
def readArray (inner : Option (Reader Json)) (s : Bytes) : Except Error (Json × Bytes) :=
  match inner with
  | none => .error .nestingTooDeep
  | some value =>
    match readSequence Ascii.closeBracket value s with
    | .error e => .error e
    | .ok (items, rest) => .ok (.array items, rest)

/-- A value; `inner` reads the values in it, if it may have any. -/
def readValueWith (inner : Option (Reader Json)) (s : Bytes) : Except Error (Json × Bytes) :=
  match skipWhitespace s with
  | [] => .error .invalidJson
  | c :: rest =>
    if c = Ascii.openBrace then readObject inner rest
    else if c = Ascii.openBracket then readArray inner rest
    else if c = Ascii.quote then
      match readQuoted rest with
      | .error e => .error e
      | .ok (text, rest) => .ok (.string text, rest)
    else if c = Ascii.minus || Ascii.isDigit c then
      match readNumeral (c :: rest) with
      | .error e => .error e
      | .ok (x, rest) => .ok (.number x, rest)
    else readWord (c :: rest)

theorem length_readWord {s rest : Bytes} {v : Json} (h : readWord s = .ok (v, rest)) :
    rest.length < s.length := by
  unfold readWord at h
  split at h
  all_goals simp only [Except.ok.injEq, Prod.mk.injEq, reduceCtorEq] at h
  all_goals simp only [← h.2, List.length_cons]; omega

theorem length_readObject {inner : Option (Reader Json)} {s rest : Bytes} {v : Json}
    (h : readObject inner s = .ok (v, rest)) : rest.length < s.length := by
  unfold readObject at h
  split at h
  · simp at h
  · split at h
    · simp at h
    · rename_i h₁
      simp only [Except.ok.injEq, Prod.mk.injEq] at h
      exact h.2 ▸ length_readSequence h₁

theorem length_readArray {inner : Option (Reader Json)} {s rest : Bytes} {v : Json}
    (h : readArray inner s = .ok (v, rest)) : rest.length < s.length := by
  unfold readArray at h
  split at h
  · simp at h
  · split at h
    · simp at h
    · rename_i h₁
      simp only [Except.ok.injEq, Prod.mk.injEq] at h
      exact h.2 ▸ length_readSequence h₁

theorem length_readValueWith {inner : Option (Reader Json)} {s rest : Bytes} {v : Json}
    (h : readValueWith inner s = .ok (v, rest)) : rest.length < s.length := by
  unfold readValueWith at h
  split at h
  · simp at h
  · rename_i c rest₁ h₁
    have := length_skipWhitespace_cons h₁
    split at h
    · have := length_readObject h
      omega
    split at h
    · have := length_readArray h
      omega
    split at h
    · split at h
      · simp at h
      · rename_i h₂
        have := length_readQuoted h₂
        simp only [Except.ok.injEq, Prod.mk.injEq] at h
        rw [← h.2]
        omega
    split at h
    · split at h
      · simp at h
      · rename_i h₂
        have := length_readNumeral h₂
        simp only [Except.ok.injEq, Prod.mk.injEq] at h
        simp only [List.length_cons] at this
        rw [← h.2]
        omega
    · have := length_readWord h
      simp only [List.length_cons] at this
      omega

/-- The reader of values in which lists and objects are nested at most `depth` deep. -/
def valueReader : (depth : Nat) → Reader Json
  | 0 => ⟨readValueWith none, length_readValueWith⟩
  | depth + 1 => ⟨readValueWith (some (valueReader depth)), length_readValueWith⟩

/-! ## Whole texts -/

/-- The value that a text holds. -/
def parse (s : Bytes) : Except Error Json :=
  if maxInputBytes < s.length then .error .inputTooLarge
  else if skipWhitespace s = [] then .error .emptyInput
  else
    match (valueReader maxDepth).run s with
    | .error e => .error e
    | .ok (v, rest) =>
      if skipWhitespace rest = [] then .ok v else .error .trailingContent

end Json

end RoverControl
