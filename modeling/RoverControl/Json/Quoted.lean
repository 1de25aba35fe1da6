import RoverControl.Bytes
import RoverControl.Json.Error

/-!
# Texts in JSON

Between its quotes a text may hold any byte that is not a control character; the quote and the
backslash are written as escapes.  A `\u` escape stands for the UTF-8 bytes of its code point,
where two escapes that form a surrogate pair stand for one code point and other surrogates are
refused.
-/

namespace RoverControl

namespace Json

/-- The UTF-8 bytes of a code point. -/
def utf8 (cp : Nat) : Bytes :=
  if cp < 0x80 then [UInt8.ofNat cp]
  else if cp < 0x800 then [UInt8.ofNat (0xc0 + cp / 0x40), UInt8.ofNat (0x80 + cp % 0x40)]
  else if cp < 0x10000 then
    [UInt8.ofNat (0xe0 + cp / 0x1000), UInt8.ofNat (0x80 + cp / 0x40 % 0x40),
      UInt8.ofNat (0x80 + cp % 0x40)]
  else
    [UInt8.ofNat (0xf0 + cp / 0x40000), UInt8.ofNat (0x80 + cp / 0x1000 % 0x40),
      UInt8.ofNat (0x80 + cp / 0x40 % 0x40), UInt8.ofNat (0x80 + cp % 0x40)]

/-- Four hexadecimal digits at the front of a text, and the rest. -/
def readHex4 : Bytes → Option (Nat × Bytes)
  | a :: b :: c :: d :: rest =>
    match Ascii.hexValue? a, Ascii.hexValue? b, Ascii.hexValue? c, Ascii.hexValue? d with
    | some a, some b, some c, some d => some (((a * 16 + b) * 16 + c) * 16 + d, rest)
    | _, _, _, _ => none
  | _ => none

def isHighSurrogate (n : Nat) : Bool := 0xd800 ≤ n && n ≤ 0xdbff

def isLowSurrogate (n : Nat) : Bool := 0xdc00 ≤ n && n ≤ 0xdfff

/-- The code point of a surrogate pair. -/
def joinSurrogates (high low : Nat) : Nat := 0x10000 + (high - 0xd800) * 0x400 + (low - 0xdc00)

/-- The code point written after `\u`, and the rest. -/
def readCodePoint (s : Bytes) : Option (Nat × Bytes) :=
  match readHex4 s with
  | none => none
  | some (n, rest) =>
    if isHighSurrogate n then
      match rest with
      | Ascii.backslash :: 0x75 :: rest =>
        match readHex4 rest with
        | some (low, rest) =>
          if isLowSurrogate low then some (joinSurrogates n low, rest) else none
        | none => none
      | _ => none
    else if isLowSurrogate n then none
    else some (n, rest)

/-- The bytes that the escape after a backslash stands for, and the rest. -/
def readEscape : Bytes → Except Error (Bytes × Bytes)
  | [] => .error .unterminatedString
  | c :: rest =>
    if c = Ascii.quote || c = Ascii.backslash || c = Ascii.slash then .ok ([c], rest)
    else if c = 0x62 then .ok ([Ascii.backspace], rest)
    else if c = 0x66 then .ok ([Ascii.formFeed], rest)
    else if c = 0x6e then .ok ([Ascii.newline], rest)
    else if c = 0x72 then .ok ([Ascii.carriageReturn], rest)
    else if c = 0x74 then .ok ([Ascii.tab], rest)
    else if c = 0x75 then
      match readCodePoint rest with
      | some (cp, rest) => .ok (utf8 cp, rest)
      | none => .error .invalidEscape
    else .error .invalidEscape

theorem length_readHex4 {s : Bytes} {n : Nat} {rest : Bytes} (h : readHex4 s = some (n, rest)) :
    rest.length + 4 = s.length := by
  unfold readHex4 at h
  split at h
  · split at h
    · simp only [Option.some.injEq, Prod.mk.injEq] at h
      simp [← h.2]
    · simp at h
  · simp at h

theorem length_readCodePoint {s : Bytes} {n : Nat} {rest : Bytes}
    (h : readCodePoint s = some (n, rest)) : rest.length < s.length := by
  unfold readCodePoint at h
  split at h
  · simp at h
  · rename_i n' rest' h₁
    have := length_readHex4 h₁
    split at h
    · split at h
      · rename_i rest''
        split at h
        · rename_i h₂
          have := length_readHex4 h₂
          split at h
          · simp only [Option.some.injEq, Prod.mk.injEq] at h
            simp only [List.length_cons] at *
            rw [← h.2]
            omega
          · simp at h
        · simp at h
      · simp at h
    · split at h
      · simp at h
      · simp only [Option.some.injEq, Prod.mk.injEq] at h
        rw [← h.2]
        omega

theorem length_readEscape {s t rest : Bytes} (h : readEscape s = .ok (t, rest)) :
    rest.length < s.length := by
  unfold readEscape at h
  split at h
  · simp at h
  · iterate 6
      split at h
      · simp only [Except.ok.injEq, Prod.mk.injEq] at h
        simp [← h.2]
    split at h
    · split at h
      · rename_i h₁
        have := length_readCodePoint h₁
        simp only [Except.ok.injEq, Prod.mk.injEq] at h
        simp only [List.length_cons]
        rw [← h.2]
        omega
      · simp at h
    · simp at h

/-- Reads up to the closing quote; `read` holds the bytes read so far, the last one first. -/
def readQuotedFrom (read : Bytes) (s : Bytes) : Except Error (Bytes × Bytes) :=
  match s with
  | [] => .error .unterminatedString
  | c :: rest =>
    if c = Ascii.quote then .ok (read.reverse, rest)
    else if c < 0x20 then .error .invalidJson
    else if c = Ascii.backslash then
      match _h : readEscape rest with
      | .error e => .error e
      | .ok (t, rest') => readQuotedFrom (t.reverse ++ read) rest'
    else readQuotedFrom (c :: read) rest
termination_by s.length
decreasing_by
  · have := length_readEscape _h
    simp only [List.length_cons]
    omega
  · simp

/-- The text whose opening quote has just been read, and what follows its closing quote. -/
def readQuoted (s : Bytes) : Except Error (Bytes × Bytes) := readQuotedFrom [] s

theorem length_readQuotedFrom {read s t rest : Bytes} (h : readQuotedFrom read s = .ok (t, rest)) :
    rest.length < s.length := by
  fun_induction readQuotedFrom read s with
  | case1 => simp at h
  | case2 read rest' =>
    simp only [Except.ok.injEq, Prod.mk.injEq] at h
    simp [← h.2]
  | case3 => simp at h
  | case4 => simp at h
  | case5 read rest' t' rest'' h₁ _ _ ih =>
    have := ih h
    have := length_readEscape h₁
    simp only [List.length_cons]
    omega
  | case6 read c rest' _ _ _ ih =>
    have := ih h
    simp only [List.length_cons]
    omega

theorem length_readQuoted {s t rest : Bytes} (h : readQuoted s = .ok (t, rest)) :
    rest.length < s.length := length_readQuotedFrom h

end Json

end RoverControl
