import RoverControl.Json.Quoted
import RoverControl.Proofs.Bytes

/-!
# The grammar of texts in JSON

`IsQuoted` says how a text stands between quotes and which bytes it denotes: a plain byte denotes
itself, an escape with a letter the byte that is listed for it, and a `\u` escape the UTF-8 bytes
of its character.  A text is read exactly if it is written so (`readQuoted_eq_ok_iff`).
-/

namespace RoverControl

namespace Json

/-! ## Code points -/

/-- Four hexadecimal digits and the number that they denote. -/
inductive IsHex4 : Bytes → Nat → Prop
  | mk {a b c d : UInt8} {w x y z : Nat} (ha : Ascii.hexValue? a = some w)
      (hb : Ascii.hexValue? b = some x) (hc : Ascii.hexValue? c = some y)
      (hd : Ascii.hexValue? d = some z) :
      IsHex4 [a, b, c, d] (0x1000 * w + 0x100 * x + 0x10 * y + z)

/-- What stands after `\u`, and the character that it denotes: one that is no surrogate by its
number, or one past the first plane by the two surrogates for it. -/
inductive IsCodePoint : Bytes → Char → Prop
  | single {t : Bytes} {ch : Char} (h : IsHex4 t ch.toNat) : IsCodePoint t ch
  | pair {t t' : Bytes} {high low : Nat} {ch : Char} (hhigh : high < 0x400) (hlow : low < 0x400)
      (ht : IsHex4 t (0xd800 + high)) (ht' : IsHex4 t' (0xdc00 + low))
      (hch : ch.toNat = 0x10000 + 0x400 * high + low) :
      IsCodePoint (t ++ Ascii.backslash :: 0x75 :: t') ch

theorem IsHex4.lt {t : Bytes} {n : Nat} (h : IsHex4 t n) : n < 0x10000 := by
  obtain ⟨ha, hb, hc, hd⟩ := h
  have := hexValue?_lt ha
  have := hexValue?_lt hb
  have := hexValue?_lt hc
  have := hexValue?_lt hd
  omega

theorem readHex4_eq_some_iff {s rest : Bytes} {n : Nat} :
    readHex4 s = some (n, rest) ↔ ∃ t, IsHex4 t n ∧ s = t ++ rest := by
  constructor
  · intro h
    unfold readHex4 at h
    split at h
    · rename_i a b c d rest'
      split at h
      · rename_i ha hb hc hd
        simp only [Option.some.injEq, Prod.mk.injEq] at h
        obtain ⟨rfl, rfl⟩ := h
        refine ⟨[a, b, c, d], ?_, rfl⟩
        convert IsHex4.mk ha hb hc hd using 1
        omega
      · cases h
    · cases h
  · rintro ⟨t, ⟨ha, hb, hc, hd⟩, rfl⟩
    simp only [List.cons_append, List.nil_append, readHex4, ha, hb, hc, hd, Option.some.injEq,
      Prod.mk.injEq, and_true]
    omega

theorem isHighSurrogate_iff {n : Nat} :
    isHighSurrogate n = true ↔ ∃ high < 0x400, n = 0xd800 + high := by
  simp only [isHighSurrogate, Bool.and_eq_true, decide_eq_true_eq]
  constructor
  · intro h
    exact ⟨n - 0xd800, by omega, by omega⟩
  · rintro ⟨high, hhigh, rfl⟩
    omega

theorem isLowSurrogate_iff {n : Nat} :
    isLowSurrogate n = true ↔ ∃ low < 0x400, n = 0xdc00 + low := by
  simp only [isLowSurrogate, Bool.and_eq_true, decide_eq_true_eq]
  constructor
  · intro h
    exact ⟨n - 0xdc00, by omega, by omega⟩
  · rintro ⟨low, hlow, rfl⟩
    omega

theorem joinSurrogates_add (high low : Nat) :
    joinSurrogates (0xd800 + high) (0xdc00 + low) = 0x10000 + 0x400 * high + low := by
  unfold joinSurrogates
  omega

theorem toNat_char (ch : Char) :
    ch.toNat < 0xd800 ∨ 0xdfff < ch.toNat ∧ ch.toNat < 0x110000 := by
  have h := ch.valid
  simp only [UInt32.isValidChar, Nat.isValidChar] at h
  exact h

/-- A number that is no surrogate and not beyond the last plane is that of a character. -/
theorem exists_char {n : Nat} (h : n < 0xd800 ∨ 0xdfff < n ∧ n < 0x110000) :
    ∃ ch : Char, ch.toNat = n := by
  have hn : (UInt32.ofNat n).toNat = n := by
    rw [UInt32.toNat_ofNat']
    omega
  exact ⟨⟨UInt32.ofNat n, by rwa [UInt32.isValidChar, hn]⟩, hn⟩

theorem isSurrogate_eq_false_iff {n : Nat} :
    isHighSurrogate n = false ∧ isLowSurrogate n = false ↔ n < 0xd800 ∨ 0xdfff < n := by
  simp only [isHighSurrogate, isLowSurrogate, Bool.and_eq_false_iff, decide_eq_false_iff_not]
  omega

theorem isCodePoint_of_readCodePoint {s rest : Bytes} {n : Nat}
    (h : readCodePoint s = some (n, rest)) :
    ∃ t ch, IsCodePoint t ch ∧ n = ch.toNat ∧ s = t ++ rest := by
  unfold readCodePoint at h
  split at h
  · cases h
  · rename_i m rest₁ h₁
    obtain ⟨t, ht, rfl⟩ := readHex4_eq_some_iff.1 h₁
    split at h
    · rename_i hhigh
      obtain ⟨high, hlt, rfl⟩ := isHighSurrogate_iff.1 hhigh
      split at h
      · split at h
        · rename_i h₂
          obtain ⟨t', ht', rfl⟩ := readHex4_eq_some_iff.1 h₂
          split at h
          · rename_i hlow
            obtain ⟨low, hlt', rfl⟩ := isLowSurrogate_iff.1 hlow
            obtain ⟨ch, hch⟩ := exists_char (n := 0x10000 + 0x400 * high + low) (by omega)
            simp only [joinSurrogates_add, ← hch, Option.some.injEq, Prod.mk.injEq] at h
            obtain ⟨rfl, rfl⟩ := h
            exact ⟨_, ch, .pair hlt hlt' ht ht' hch, rfl, by simp⟩
          · cases h
        · cases h
      · cases h
    · rename_i hhigh
      split at h
      · cases h
      · rename_i hlow
        simp only [Option.some.injEq, Prod.mk.injEq] at h
        obtain ⟨rfl, rfl⟩ := h
        have hplain := isSurrogate_eq_false_iff.1
          ⟨Bool.eq_false_iff.2 hhigh, Bool.eq_false_iff.2 hlow⟩
        have := ht.lt
        obtain ⟨ch, rfl⟩ := exists_char (n := m) (by omega)
        exact ⟨t, ch, .single ht, rfl, rfl⟩

theorem readCodePoint_append {t : Bytes} {ch : Char} (h : IsCodePoint t ch) (rest : Bytes) :
    readCodePoint (t ++ rest) = some (ch.toNat, rest) := by
  unfold readCodePoint
  cases h with
  | single ht =>
    have hchar := toNat_char ch
    obtain ⟨hhigh, hlow⟩ := isSurrogate_eq_false_iff.2
      (by omega : ch.toNat < 0xd800 ∨ 0xdfff < ch.toNat)
    simp [readHex4_eq_some_iff.2 ⟨t, ht, rfl⟩, hhigh, hlow]
  | @pair t t' high low _ hhigh hlow ht ht' hch =>
    have h₁ : isHighSurrogate (0xd800 + high) = true := isHighSurrogate_iff.2 ⟨high, hhigh, rfl⟩
    have h₂ : isLowSurrogate (0xdc00 + low) = true := isLowSurrogate_iff.2 ⟨low, hlow, rfl⟩
    have h₃ : readHex4 (t' ++ rest) = some (0xdc00 + low, rest) :=
      readHex4_eq_some_iff.2 ⟨t', ht', rfl⟩
    rw [readHex4_eq_some_iff.2 ⟨t, ht, List.append_assoc _ _ _⟩]
    dsimp only
    rw [if_pos h₁, List.cons_append, List.cons_append]
    split
    · rename_i heq
      cases heq
      rw [h₃]
      dsimp only
      rw [if_pos h₂, joinSurrogates_add, hch]
    · rename_i hne
      exact absurd rfl (hne (t' ++ rest))

/-- A code point is encoded as its character is. -/
theorem utf8_toNat (ch : Char) : utf8 ch.toNat = String.utf8EncodeChar ch := by
  have hlt := toNat_char ch
  unfold utf8 String.utf8EncodeChar
  change _ = if ch.toNat ≤ 0x7f then [UInt8.ofNat ch.toNat] else if ch.toNat ≤ 0x7ff then
    [UInt8.ofNat (ch.toNat / 64 % 32 + 192), UInt8.ofNat (ch.toNat % 64 + 128)] else
    if ch.toNat ≤ 0xffff then [UInt8.ofNat (ch.toNat / 4096 % 16 + 224),
      UInt8.ofNat (ch.toNat / 64 % 64 + 128), UInt8.ofNat (ch.toNat % 64 + 128)] else
    [UInt8.ofNat (ch.toNat / 262144 % 8 + 240), UInt8.ofNat (ch.toNat / 4096 % 64 + 128),
      UInt8.ofNat (ch.toNat / 64 % 64 + 128), UInt8.ofNat (ch.toNat % 64 + 128)]
  generalize ch.toNat = n at *
  by_cases h₁ : n < 0x80
  · rw [if_pos h₁, if_pos (by omega)]
  by_cases h₂ : n < 0x800
  · have hlead : n / 64 % 32 = n / 64 := Nat.mod_eq_of_lt (by omega)
    rw [if_neg h₁, if_pos h₂, if_neg (by omega), if_pos (by omega), hlead]
    simp only [Nat.add_comm]
  by_cases h₃ : n < 0x10000
  · have hlead : n / 4096 % 16 = n / 4096 := Nat.mod_eq_of_lt (by omega)
    rw [if_neg h₁, if_neg h₂, if_pos h₃, if_neg (by omega), if_neg (by omega), if_pos (by omega),
      hlead]
    simp only [Nat.add_comm]
  · have hlead : n / 262144 % 8 = n / 262144 := Nat.mod_eq_of_lt (by omega)
    rw [if_neg h₁, if_neg h₂, if_neg h₃, if_neg (by omega), if_neg (by omega),
      if_neg (by omega), hlead]
    simp only [Nat.add_comm]

/-! ## Characters -/

/-- The letters that may follow a backslash, each with the byte that it stands for. -/
def escapes : List (UInt8 × UInt8) :=
  [(Ascii.quote, Ascii.quote), (Ascii.backslash, Ascii.backslash), (Ascii.slash, Ascii.slash),
    (0x62, Ascii.backspace), (0x66, Ascii.formFeed), (0x6e, Ascii.newline),
    (0x72, Ascii.carriageReturn), (0x74, Ascii.tab)]

/-- One character of a text as it is written, and the bytes that it denotes. -/
inductive IsCharacter : Bytes → Bytes → Prop
  | plain {c : UInt8} (h : 0x20 ≤ c) (hquote : c ≠ Ascii.quote) (hbackslash : c ≠ Ascii.backslash) :
      IsCharacter [c] [c]
  | letter {e c : UInt8} (h : (e, c) ∈ escapes) : IsCharacter [Ascii.backslash, e] [c]
  | codePoint {t : Bytes} {ch : Char} (h : IsCodePoint t ch) :
      IsCharacter (Ascii.backslash :: 0x75 :: t) (String.utf8EncodeChar ch)

theorem readEscape_of_mem_escapes {e c : UInt8} (h : (e, c) ∈ escapes) (rest : Bytes) :
    readEscape (e :: rest) = .ok ([c], rest) := by
  simp only [escapes, List.mem_cons, Prod.mk.injEq, List.not_mem_nil, or_false] at h
  rcases h with ⟨rfl, rfl⟩ | ⟨rfl, rfl⟩ | ⟨rfl, rfl⟩ | ⟨rfl, rfl⟩ | ⟨rfl, rfl⟩ | ⟨rfl, rfl⟩ |
    ⟨rfl, rfl⟩ | ⟨rfl, rfl⟩ <;> rfl

theorem readEscape_eq_ok_iff {s rest bytes : Bytes} :
    readEscape s = .ok (bytes, rest) ↔
      ∃ t, IsCharacter (Ascii.backslash :: t) bytes ∧ s = t ++ rest := by
  constructor
  · intro h
    unfold readEscape at h
    split at h
    · cases h
    · rename_i e rest'
      have letter : ∀ {c}, (e, c) ∈ escapes → Except.ok (([c] : Bytes), rest') =
          (Except.ok (bytes, rest) : Except Error _) →
          ∃ t, IsCharacter (Ascii.backslash :: t) bytes ∧ e :: rest' = t ++ rest := by
        intro c hmem heq
        cases heq
        exact ⟨[e], .letter hmem, rfl⟩
      split_ifs at h with hself hb hf hn hr ht hu
      · refine letter ?_ h
        simp only [Bool.or_eq_true, decide_eq_true_eq] at hself
        rcases hself with (rfl | rfl) | rfl <;> decide
      · exact letter (by rw [hb]; decide) h
      · exact letter (by rw [hf]; decide) h
      · exact letter (by rw [hn]; decide) h
      · exact letter (by rw [hr]; decide) h
      · exact letter (by rw [ht]; decide) h
      · split at h
        · rename_i hread
          obtain ⟨t, ch, hcode, rfl, rfl⟩ := isCodePoint_of_readCodePoint hread
          cases h
          rw [utf8_toNat, hu]
          exact ⟨0x75 :: t, .codePoint hcode, rfl⟩
        · cases h
  · rintro ⟨t, hchar, rfl⟩
    cases hchar with
    | plain _ _ hbackslash => exact absurd rfl hbackslash
    | letter h => exact readEscape_of_mem_escapes h rest
    | codePoint h =>
      rw [List.cons_append, readEscape]
      iterate 6 rw [if_neg (by decide)]
      rw [if_pos rfl, readCodePoint_append h, ← utf8_toNat]

/-! ## Texts -/

/-- What stands between the quotes, and the bytes that it denotes. -/
inductive IsText : Bytes → Bytes → Prop
  | nil : IsText [] []
  | cons {t t' bytes bytes' : Bytes} (h : IsCharacter t bytes) (hrest : IsText t' bytes') :
      IsText (t ++ t') (bytes ++ bytes')

/-- A text in quotes, and the bytes that it denotes. -/
inductive IsQuoted : Bytes → Bytes → Prop
  | mk {t bytes : Bytes} (h : IsText t bytes) :
      IsQuoted (Ascii.quote :: (t ++ [Ascii.quote])) bytes

theorem readQuotedFrom_of_isCharacter {t bytes : Bytes} (h : IsCharacter t bytes)
    (read rest : Bytes) :
    readQuotedFrom read (t ++ rest) = readQuotedFrom (bytes.reverse ++ read) rest := by
  have escaped : ∀ {t}, IsCharacter (Ascii.backslash :: t) bytes →
      readQuotedFrom read (Ascii.backslash :: t ++ rest) =
        readQuotedFrom (bytes.reverse ++ read) rest := by
    intro t hchar
    have hread : readEscape (t ++ rest) = .ok (bytes, rest) :=
      readEscape_eq_ok_iff.2 ⟨t, hchar, rfl⟩
    rw [List.cons_append, readQuotedFrom, if_neg (by decide), if_neg (by decide), if_pos rfl]
    split
    · rename_i heq
      rw [hread] at heq
      cases heq
    · rename_i heq
      rw [hread] at heq
      cases heq
      rfl
  cases h with
  | plain h hquote hbackslash =>
    rw [List.singleton_append, readQuotedFrom, if_neg hquote, if_neg (UInt8.not_lt.2 h),
      if_neg hbackslash]
    rfl
  | letter h => exact escaped (.letter h)
  | codePoint h => exact escaped (.codePoint h)

theorem readQuotedFrom_eq_ok_iff {read s rest bytes : Bytes} :
    readQuotedFrom read s = .ok (bytes, rest) ↔
      ∃ t tail, IsText t tail ∧ bytes = read.reverse ++ tail ∧ s = t ++ Ascii.quote :: rest := by
  constructor
  · intro h
    fun_induction readQuotedFrom read s with
    | case1 => cases h
    | case2 read rest' =>
      cases h
      exact ⟨[], [], .nil, (List.append_nil _).symm, rfl⟩
    | case3 => cases h
    | case4 => cases h
    | case5 read rest' bytes' rest'' hescape hquote hcontrol ih =>
      obtain ⟨t, hchar, rfl⟩ := readEscape_eq_ok_iff.1 hescape
      obtain ⟨t', tail, htext, rfl, rfl⟩ := ih h
      exact ⟨_, _, .cons hchar htext, by simp, by simp⟩
    | case6 read c rest' hquote hcontrol hbackslash ih =>
      obtain ⟨t', tail, htext, rfl, rfl⟩ := ih h
      exact ⟨_, _, .cons (.plain (UInt8.not_lt.1 hcontrol) hquote hbackslash) htext, by simp,
        by simp⟩
  · rintro ⟨t, tail, htext, rfl, rfl⟩
    induction htext generalizing read with
    | nil => rw [List.nil_append, readQuotedFrom, if_pos rfl, List.append_nil]
    | cons hchar _ ih =>
      rw [List.append_assoc, readQuotedFrom_of_isCharacter hchar, ih]
      simp

/-- A text is read exactly if it is written as one. -/
theorem readQuoted_eq_ok_iff {s rest bytes : Bytes} :
    readQuoted s = .ok (bytes, rest) ↔
      ∃ t, IsQuoted t bytes ∧ Ascii.quote :: s = t ++ rest := by
  rw [readQuoted, readQuotedFrom_eq_ok_iff]
  constructor
  · rintro ⟨t, _, htext, rfl, rfl⟩
    exact ⟨_, .mk htext, by simp⟩
  · rintro ⟨_, ⟨htext⟩, heq⟩
    obtain ⟨-, rfl⟩ := List.cons_eq_cons.1 heq
    exact ⟨_, bytes, htext, rfl, by simp⟩

end Json

end RoverControl
