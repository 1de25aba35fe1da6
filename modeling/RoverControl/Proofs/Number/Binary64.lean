import Mathlib
import RoverControl.Number.Binary64

/-!
# The bits of doubles

A double is determined by its bits (`ofBits_toBits`), and hence by its sign and its word
(`ofWord_word`).  The exact value of a finite one is canonical (`Exact.IsCanonical`): its mantissa
has at most 53 bits, and all of them unless the exponent is the least one.
-/

namespace RoverControl

namespace Binary64

open Float.Model Float.Model.UnpackedFloat

/-! ## Fields -/

section Fields

variable {b : BitVec Format.binary64.numBits}

theorem toBitVec_ofBitVec (s : BitVec 1) : (Sign.ofBitVec s).toBitVec = s := by
  revert s
  decide

theorem packComponents_unpack (b : BitVec Format.binary64.numBits) :
    packComponents Format.binary64 (Sign.ofBitVec (unpackSign b)) (unpackExponent b)
      (unpackMantissa b) = b := by
  unfold packComponents
  rw [toBitVec_ofBitVec]
  refine BitVec.eq_of_getLsbD_eq fun i hi => ?_
  change i < 64 at hi
  simp only [unpackSign, unpackExponent, unpackMantissa, BitVec.getLsbD_append, BitVec.getLsbD_cast,
    BitVec.getLsbD_extractLsb]
  by_cases h₁ : i < 52
  · simp [h₁]
  · by_cases h₂ : i < 63
    · have h₃ : i - 52 < 11 := by omega
      have h₄ : 52 + (i - 52) = i := by omega
      simp [h₁, h₃, h₄]
    · have h₃ : i = 63 := by omega
      subst h₃
      simp
      rfl

theorem toNat_unpackExponent (b : BitVec Format.binary64.numBits) :
    (unpackExponent b).toNat = b.toNat / 2 ^ 52 % 2 ^ 11 := by
  simp [unpackExponent, BitVec.extractLsb_toNat, Nat.shiftRight_eq_div_pow]

theorem toNat_unpackExponent_lt (h : unpackExponent b ≠ -1#_) :
    (unpackExponent b).toNat + 1 < 2048 := by
  have hlt : (unpackExponent b).toNat < 2048 := (unpackExponent b).isLt
  by_contra hge
  have heq : (unpackExponent b).toNat = (-1#11 : BitVec 11).toNat := by
    show _ = 2047
    omega
  exact h (BitVec.eq_of_toNat_eq heq)

/-- Bits that are not those of an undefined number are packed as they were unpacked. -/
theorem pack_unpack (h : unpackExponent b = -1#_ → unpackMantissa b = 0#_) :
    UnpackedFloat.pack Format.binary64 (UnpackedFloat.unpack Format.binary64 b) = b := by
  have hb := packComponents_unpack b
  have hbias : Format.binary64.exponentBias = 1023 := rfl
  have hbits : Format.binary64.mantissaBits = 53 := rfl
  have hm : (unpackMantissa b).toNat < 2 ^ 52 := (unpackMantissa b).isLt
  unfold UnpackedFloat.unpack
  dsimp only
  split_ifs with hinf hmant hzero hmant
  · rw [hinf, hmant] at hb
    exact hb
  · exact absurd (h hinf) hmant
  · rw [hzero, hmant] at hb
    exact hb
  · -- a subnormal number: its mantissa has too few bits to be packed as a normal one
    have hlog : (unpackMantissa b).toNat.log2 < 52 :=
      (Nat.log2_lt (by simpa using fun h0 => hmant (BitVec.eq_of_toNat_eq h0))).2 hm
    unfold UnpackedFloat.pack
    dsimp only
    rw [hbias, hbits, hzero, if_neg (by decide), if_neg (by omega), BitVec.ofNat_toNat,
      BitVec.setWidth_eq]
    rwa [hzero] at hb
  · -- a normal number: the hidden bit is added and left out again
    have hexp := toNat_unpackExponent_lt hinf
    have hbiased : ((unpackExponent b).toNat - ((1023 : Nat) + (52 : Nat) : Int) + (1023 : Nat) +
        (52 : Nat)).toNat = (unpackExponent b).toNat := by omega
    have hhidden : (1#1 ++ unpackMantissa b).toNat = 2 ^ 52 + (unpackMantissa b).toNat := by
      rw [BitVec.toNat_append, ← Nat.shiftLeft_add_eq_or_of_lt hm]
      rfl
    have hlog : (1#1 ++ unpackMantissa b).toNat.log2 = 52 := by
      rw [hhidden]
      exact (Nat.log2_eq_iff (by omega)).2 ⟨by omega, by omega⟩
    have hfraction : BitVec.ofNat 52 (2 ^ 52 + (unpackMantissa b).toNat) = unpackMantissa b := by
      refine BitVec.eq_of_toNat_eq ?_
      rw [BitVec.toNat_ofNat]
      omega
    unfold UnpackedFloat.pack
    dsimp only
    rw [hbias, hbits, hlog, hbiased, if_neg (by omega), if_pos rfl, hhidden, hfraction,
      BitVec.ofNat_toNat, BitVec.setWidth_eq]
    exact hb

end Fields

/-! ## Bits and words -/

/-- A double is determined by its bits. -/
theorem ofBits_toBits (x : Float) : Float.ofBits x.toBits = x := by
  obtain ⟨bits, hvalid⟩ := x
  suffices h : UnpackedFloat.pack Format.binary64 (UnpackedFloat.unpack Format.binary64
      bits.toBitVec) = bits.toBitVec by
    show Float.ofModel ⟨UInt64.ofBitVec _, _⟩ = _
    congr 2
    exact congrArg UInt64.ofBitVec h
  by_cases h : @unpackExponent Format.binary64 bits.toBitVec = -1#_ ∧
      @unpackMantissa Format.binary64 bits.toBitVec ≠ 0#_
  · rw [hvalid.eq_packedNaN h.1 h.2]
    rfl
  · exact pack_unpack fun hinf => by_contra fun hmant => h ⟨hinf, hmant⟩

/-- A double is determined by its sign and its word. -/
theorem ofWord_word (x : Float) : ofWord (isNegative x) (word x) = x := by
  have hlt : x.toBits.toNat < 2 ^ 64 := x.toBits.toNat_lt
  have hsign : signBit = 2 ^ 63 := rfl
  have hbits : (if isNegative x then signBit + word x else word x) = x.toBits.toNat := by
    simp only [isNegative, word, hsign, decide_eq_true_eq]
    split <;> omega
  rw [ofWord, hbits, UInt64.ofNat_toNat, ofBits_toBits]

/-- The finite doubles are those whose words come before that of infinity. -/
theorem isFinite_iff {x : Float} : x.isFinite = true ↔ word x < infinityWord := by
  obtain ⟨bits, hvalid⟩ := x
  have hexp := toNat_unpackExponent bits.toBitVec
  have hiff : @unpackExponent Format.binary64 bits.toBitVec ≠ -1#_ ↔
      word ⟨bits, hvalid⟩ < infinityWord := by
    have hword : word ⟨bits, hvalid⟩ = bits.toBitVec.toNat % 2 ^ 63 := rfl
    have hinf : infinityWord = 2047 * 2 ^ 52 := rfl
    rw [hword, hinf]
    constructor
    · intro h
      have := toNat_unpackExponent_lt h
      omega
    · intro hlt h
      rw [h] at hexp
      change 2047 = _ at hexp
      omega
  rw [← hiff]
  show (UnpackedFloat.unpack Format.binary64 bits.toBitVec).isFinite = true ↔ _
  unfold UnpackedFloat.unpack
  dsimp only
  split_ifs with hinf hmant hzero hmant
  · exact iff_of_false (by simp [UnpackedFloat.isFinite]) (not_not.2 hinf)
  · exact iff_of_false (by simp [UnpackedFloat.isFinite]) (not_not.2 hinf)
  · exact iff_of_true rfl hinf
  · exact iff_of_true rfl hinf
  · exact iff_of_true rfl hinf

/-- A finite double is equal to itself. -/
theorem beq_self {x : Float} (h : x.isFinite = true) : (x == x) = true := by
  obtain ⟨bits, hvalid⟩ := x
  change (UnpackedFloat.unpack Format.binary64 bits.toBitVec).isFinite = true at h
  show (UnpackedFloat.unpack Format.binary64 bits.toBitVec).beq
    (UnpackedFloat.unpack Format.binary64 bits.toBitVec) = true
  generalize UnpackedFloat.unpack Format.binary64 bits.toBitVec = u at *
  cases u with
  | notANumber => cases h
  | infinity => cases h
  | zero s => cases s <;> rfl
  | finite s m e hm => cases s <;> simp [UnpackedFloat.beq, UnpackedFloat.compare]

/-- Zero is equal to zero of either sign. -/
theorem zero_beq {x : Float} (h : word x = 0) : (ofWord false 0 == x) = true := by
  have hx := ofWord_word x
  rw [h] at hx
  rw [← hx]
  cases isNegative x <;> rfl

/-! ## Exact values -/

namespace Exact

/-- The value of a finite double: all 53 bits of the mantissa are used unless the exponent is the
least one. -/
structure IsCanonical (v : Exact) : Prop where
  mantissa_lt : v.mantissa < 2 ^ 53
  exponent_le : v.exponent ≤ 971
  le_exponent : -1074 ≤ v.exponent
  normal : 2 ^ 52 ≤ v.mantissa ∨ v.exponent = -1074

/-- The word of a finite double by its mantissa and its exponent. -/
def word (v : Exact) : Nat := v.mantissa + (v.exponent + 1074).toNat * hiddenBit

end Exact

theorem isCanonical_of_exactValue? {x : Float} {v : Exact} (h : exactValue? x = some v) :
    v.IsCanonical := by
  have hhidden : hiddenBit = 2 ^ 52 := rfl
  have hinf : infinityWord = 2047 * 2 ^ 52 := rfl
  simp only [exactValue?, hhidden, hinf] at h
  split_ifs at h with hfinite hnormal
  · cases h
    refine ⟨?_, ?_, ?_, Or.inr rfl⟩ <;> dsimp only <;> omega
  · cases h
    refine ⟨?_, ?_, ?_, Or.inl ?_⟩ <;> dsimp only <;> omega

theorem word_of_exactValue? {x : Float} {v : Exact} (h : exactValue? x = some v) :
    v.negative = isNegative x ∧ v.word = word x := by
  have hhidden : hiddenBit = 2 ^ 52 := rfl
  simp only [exactValue?, hhidden] at h
  split_ifs at h with hfinite hnormal
  · cases h
    exact ⟨rfl, by simp [Exact.word]⟩
  · cases h
    refine ⟨rfl, ?_⟩
    simp only [Exact.word, hhidden]
    omega

/-- A double is that of the sign and the word of its exact value. -/
theorem ofWord_exactValue? {x : Float} {v : Exact} (h : exactValue? x = some v) :
    ofWord v.negative v.word = x := by
  obtain ⟨hnegative, hword⟩ := word_of_exactValue? h
  rw [hnegative, hword, ofWord_word]

theorem exactValue?_isSome {x : Float} : (exactValue? x).isSome = true ↔ x.isFinite = true := by
  rw [isFinite_iff]
  simp only [exactValue?]
  split_ifs with hfinite hnormal
  · simpa using hfinite
  · simpa using hfinite
  · simpa using hfinite

end Binary64

end RoverControl
