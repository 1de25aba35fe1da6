import RoverControl.Proofs.Number.Shortest

/-!
# Whole numbers in doubles

A canonical exact value is read off the double that has its sign and its word
(`exactValue?_ofWord`), so that a double made of a value stands for that value.  An integer is read
off the doubles that stand for it (`integer?_eq_some_iff`).  A natural number of at most 53 bits
fills the mantissa after a shift (`Exact.ofNat`), so it is what the double nearest to it stands for
(`standsFor_ofNat`).
-/

namespace RoverControl

namespace Binary64

open Float.Model Float.Model.UnpackedFloat

/-! ## The bits of a word -/

theorem toBits_ofBits {b : UInt64}
    (h : @unpackExponent Format.binary64 b.toBitVec = -1#_ →
      @unpackMantissa Format.binary64 b.toBitVec = 0#_) : (Float.ofBits b).toBits = b := by
  show UInt64.ofBitVec (UnpackedFloat.pack Format.binary64
    (UnpackedFloat.unpack Format.binary64 b.toBitVec)) = b
  rw [pack_unpack h]

/-- The bits of a finite double with a given sign and word. -/
theorem toNat_toBits_ofWord {negative : Bool} {w : ℕ} (hw : w < infinityWord) :
    (ofWord negative w).toBits.toNat = if negative then signBit + w else w := by
  have hinf : infinityWord = 2047 * 2 ^ 52 := rfl
  have hsign : signBit = 2 ^ 63 := rfl
  have hbits : (UInt64.ofNat (if negative then signBit + w else w)).toNat =
      if negative then signBit + w else w := by
    rw [UInt64.toNat_ofNat']
    exact Nat.mod_eq_of_lt (by split <;> omega)
  rw [ofWord, toBits_ofBits, hbits]
  intro h
  have hexp := toNat_unpackExponent
    (UInt64.ofNat (if negative then signBit + w else w)).toBitVec
  rw [h, UInt64.toNat_toBitVec, hbits] at hexp
  change 2047 = _ at hexp
  split at hexp <;> omega

theorem word_ofWord {negative : Bool} {w : ℕ} (hw : w < infinityWord) :
    word (ofWord negative w) = w := by
  have hinf : infinityWord = 2047 * 2 ^ 52 := rfl
  have hsign : signBit = 2 ^ 63 := rfl
  rw [word, toNat_toBits_ofWord hw, hsign]
  split <;> omega

theorem isNegative_ofWord {negative : Bool} {w : ℕ} (hw : w < infinityWord) :
    isNegative (ofWord negative w) = negative := by
  have hinf : infinityWord = 2047 * 2 ^ 52 := rfl
  have hsign : signBit = 2 ^ 63 := rfl
  rw [isNegative, toNat_toBits_ofWord hw]
  cases negative
  · exact decide_eq_false (by rw [if_neg Bool.false_ne_true]; omega)
  · exact decide_eq_true (by rw [if_pos rfl]; omega)

/-- A canonical value is read off the double that has its sign and its word. -/
theorem exactValue?_ofWord {v : Exact} (hv : v.IsCanonical) :
    exactValue? (ofWord v.negative v.word) = some v := by
  have hhidden : hiddenBit = 2 ^ 52 := rfl
  have hinf := hv.word_lt
  obtain ⟨hlt, hle, hge, hnormal⟩ := hv
  obtain ⟨negative, mantissa, exponent⟩ := v
  dsimp only at *
  unfold exactValue?
  dsimp only
  rw [word_ofWord hinf, isNegative_ofWord hinf, if_neg (Nat.not_le.2 hinf)]
  simp only [Exact.word, hhidden]
  split_ifs with hsub
  · have hexp : exponent = -1074 := by omega
    subst hexp
    simp
  · congr 2 <;> omega

/-! ## Integers -/

namespace Exact

/-- The number itself. -/
def value (v : Exact) : ℚ := if v.negative then -v.magnitude else v.magnitude

/-- A magnitude that is a natural number is its own integer part. -/
theorem floorAbs_of_magnitude {v : Exact} {n : ℕ} (h : v.magnitude = n) :
    v.isIntegral = true ∧ v.floorAbs = n := by
  have hwhole : v.isIntegral = true := by
    rcases Nat.eq_zero_or_pos v.mantissa with hm | hm
    · simp [isIntegral, hm]
    · exact isIntegral_of_covers (h ▸ covers_magnitude hm)
  refine ⟨hwhole, ?_⟩
  rw [← cast_floorAbs hwhole] at h
  exact_mod_cast h

end Exact

/-- A double is neither infinite nor undefined, and its exact value is this integer. -/
def StandsFor (x : Float) (n : ℤ) : Prop := ∃ v, exactValue? x = some v ∧ v.value = n

/-- The integer that is read off a double is the number that the double stands for. -/
theorem integer?_eq_some_iff {x : Float} {n : ℤ} : integer? x = some n ↔ StandsFor x n := by
  unfold integer? StandsFor
  rcases exactValue? x with _ | v
  · simp
  simp only [Option.some.injEq, exists_eq_left']
  constructor
  · intro h
    split at h
    · rename_i hwhole
      cases h
      rw [Exact.value, ← Exact.cast_floorAbs hwhole]
      split <;> simp
    · cases h
  · intro h
    have hmagnitude : v.magnitude = n.natAbs := by
      have hnonneg : 0 ≤ v.magnitude := by
        rw [Exact.magnitude]
        positivity
      have habs : v.magnitude = |(n : ℚ)| := by
        rw [← h, Exact.value]
        split
        · rw [abs_neg, abs_of_nonneg hnonneg]
        · rw [abs_of_nonneg hnonneg]
      rw [habs, Nat.cast_natAbs, Int.cast_abs]
    obtain ⟨hwhole, hfloor⟩ := Exact.floorAbs_of_magnitude hmagnitude
    rw [if_pos hwhole, hfloor, Option.some.injEq]
    have hcast : ((if v.negative then -(n.natAbs : ℤ) else n.natAbs : ℤ) : ℚ) = n := by
      rw [← h, Exact.value, hmagnitude]
      split <;> simp
    exact_mod_cast hcast

theorem integer?_eq_none_iff {x : Float} : integer? x = none ↔ ∀ n, ¬ StandsFor x n := by
  simp only [Option.eq_none_iff_forall_ne_some, ne_eq, integer?_eq_some_iff]

/-! ## Natural numbers -/

namespace Exact

/-- A natural number with its leading bit at the top of the mantissa. -/
def ofNat (n : ℕ) : Exact := ⟨false, n <<< (52 - n.log2), n.log2 - 52⟩

variable {n : ℕ}

theorem isCanonical_ofNat (hpos : 0 < n) (hn : n < 2 ^ 53) : (ofNat n).IsCanonical := by
  have hlog : n.log2 < 53 := (Nat.log2_lt hpos.ne').2 hn
  have hpow : 2 ^ n.log2 * 2 ^ (52 - n.log2) = 2 ^ 52 := by
    rw [← Nat.pow_add]
    congr 1
    omega
  have hlower : 2 ^ n.log2 * 2 ^ (52 - n.log2) ≤ n * 2 ^ (52 - n.log2) :=
    Nat.mul_le_mul_right _ (Nat.log2_self_le hpos.ne')
  have hupper : n * 2 ^ (52 - n.log2) < 2 ^ (n.log2 + 1) * 2 ^ (52 - n.log2) :=
    Nat.mul_lt_mul_of_pos_right Nat.lt_log2_self (by positivity)
  rw [Nat.pow_succ, mul_right_comm, hpow] at hupper
  rw [hpow] at hlower
  refine ⟨?_, ?_, ?_, Or.inl ?_⟩ <;> simp only [ofNat, Nat.shiftLeft_eq] <;> omega

theorem magnitude_ofNat (hpos : 0 < n) (hn : n < 2 ^ 53) : (ofNat n).magnitude = n := by
  have hlog : n.log2 < 53 := (Nat.log2_lt hpos.ne').2 hn
  have hexp : (n.log2 : ℤ) - 52 = -((52 - n.log2 : ℕ) : ℤ) := by omega
  simp only [magnitude, ofNat, Nat.shiftLeft_eq, hexp, zpow_neg, zpow_natCast]
  push_cast
  field_simp

end Exact

/-- A natural number of at most 53 bits is what the double nearest to it stands for. -/
theorem standsFor_ofNat {n : ℕ} (hpos : 0 < n) (hn : n < 2 ^ 53) : StandsFor (ofNat n) n := by
  have hv := Exact.isCanonical_ofNat hpos hn
  have hmagnitude := Exact.magnitude_ofNat hpos hn
  have hm : 0 < (Exact.ofNat n).mantissa := by
    simp only [Exact.ofNat, Nat.shiftLeft_eq]
    positivity
  have hcovers : (Exact.ofNat n).Covers n := hmagnitude ▸ Exact.covers_magnitude hm
  have hword : nearestWord n 1 = (Exact.ofNat n).word :=
    Exact.Covers.nearestWord hv hm Nat.one_pos (by rwa [Nat.cast_one, div_one])
  have hdouble : ofNat n = ofWord (Exact.ofNat n).negative (Exact.ofNat n).word :=
    congrArg (ofWord false) hword
  rw [hdouble]
  exact ⟨_, exactValue?_ofWord hv, by exact_mod_cast hmagnitude⟩

end Binary64

end RoverControl
