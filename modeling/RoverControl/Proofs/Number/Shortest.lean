import RoverControl.Proofs.Number.Rounding

/-!
# The shortest decimal number

`Exact.admits` decides whether a decimal number rounds to an exact value (`admits_iff`).  Grids that
are fine enough have a point that does (`exists_gridPoint`), and such a grid is among those that are
tried, so that the shortest decimal always rounds to the value (`Exact.covers_shortest`).
-/

namespace RoverControl

namespace Binary64

/-- The number that a decimal denotes. -/
def Decimal.value (d : Decimal) : ℚ := d.digits * 10 ^ d.exponent

namespace Exact

variable {v : Exact} {k : ℤ} {d : ℕ}

/-! ## Points of grids -/

theorem quarter_pos (v : Exact) (k : ℤ) : 0 < (v.quarter k).1 ∧ 0 < (v.quarter k).2 := by
  unfold quarter
  simp only [Nat.shiftLeft_eq]
  exact ⟨Nat.mul_pos (Nat.pow_pos (by decide)) (by positivity),
    Nat.mul_pos (Nat.pow_pos (by decide)) (by positivity)⟩

/-- A step of a grid in quarters of the last place. -/
theorem div_quarter (v : Exact) (k : ℤ) :
    ((v.quarter k).2 : ℚ) / (v.quarter k).1 = 10 ^ k / 2 ^ (v.exponent - 2) := by
  have hscale := scale_div 1 1 (by decide : 0 < 10) k
  have hshift := shift_div (10 ^ k.toNat) (10 ^ (-k).toNat) (-(v.exponent - 2))
  rw [one_mul, one_mul, Nat.cast_one, div_one, one_mul] at hscale
  rw [hscale, neg_neg, zpow_neg, ← div_eq_mul_inv, neg_sub] at hshift
  exact_mod_cast hshift

theorem admits_iff : v.admits k d = true ↔ v.Covers (d * 10 ^ k) := by
  obtain ⟨ha, hb⟩ := v.quarter_pos k
  have hstep := v.div_quarter k
  unfold admits
  generalize v.quarter k = step at *
  obtain ⟨a, b⟩ := step
  dsimp only at *
  have ha' : (0 : ℚ) < a := by exact_mod_cast ha
  have hpoint : (d : ℚ) * 10 ^ k / 2 ^ (v.exponent - 2) = ((d * b : ℕ) : ℚ) / a := by
    rw [mul_div_assoc, ← hstep]
    push_cast
    ring
  have hlower : ∀ n : ℕ, n * a ≤ d * b ↔ (n : ℚ) ≤ d * 10 ^ k / 2 ^ (v.exponent - 2) := by
    intro n
    rw [hpoint, le_div_iff₀ ha']
    norm_cast
  have hupper : ∀ n : ℕ, d * b ≤ n * a ↔ (d : ℚ) * 10 ^ k / 2 ^ (v.exponent - 2) ≤ n := by
    intro n
    rw [hpoint, div_le_iff₀ ha']
    norm_cast
  split_ifs with heven
  · rw [Bool.and_eq_true, decide_eq_true_eq, decide_eq_true_eq, hlower, hupper]
    exact ⟨fun h => ⟨h.1, h.2, fun hodd => by omega⟩, fun h => ⟨h.lower, h.upper⟩⟩
  · rw [Bool.and_eq_true, decide_eq_true_eq, decide_eq_true_eq, ← not_le, ← not_le, hlower, hupper,
      not_le, not_le]
    exact ⟨fun h => ⟨h.1.le, h.2.le, fun _ => h⟩, fun h => h.interior (by omega)⟩

theorem covers_of_gridPoint? (h : v.gridPoint? k = some d) : v.Covers (d * 10 ^ k) := by
  rw [← admits_iff]
  unfold gridPoint? at h
  dsimp only at h
  split_ifs at h with h₁ h₂ h₃
  · cases h
    exact h₁
  · cases h
    exact h₂
  · cases h
    exact h₃

/-- A number at most a quarter of a place away rounds to the value. -/
theorem covers_of_le_quarter (hm : 0 < v.mantissa) {r : ℚ}
    (hlower : (4 * v.mantissa : ℚ) - 1 ≤ r / 2 ^ (v.exponent - 2))
    (hupper : r / 2 ^ (v.exponent - 2) ≤ 4 * v.mantissa + 1) : v.Covers r := by
  have hend : v.lowerEnd + 1 ≤ 4 * v.mantissa := by
    unfold lowerEnd
    split_ifs <;> omega
  have hend' : (v.lowerEnd : ℚ) + 1 ≤ 4 * v.mantissa := by exact_mod_cast hend
  have hupperEnd := v.cast_upperEnd
  refine ⟨by linarith, by linarith, fun hodd => ⟨?_, by linarith⟩⟩
  -- an odd mantissa is not the first one of its binade
  have hend : v.lowerEnd + 2 = 4 * v.mantissa := by
    have hhidden : hiddenBit = 2 ^ 52 := rfl
    rw [lowerEnd, if_neg (by omega)]
    omega
  have hend' : (v.lowerEnd : ℚ) + 2 = 4 * v.mantissa := by exact_mod_cast hend
  linarith

/-- A grid with steps of at most half a place has a point that rounds to the value. -/
theorem exists_gridPoint (hm : 0 < v.mantissa) (hk : (10 : ℚ) ^ k ≤ 2 ^ (v.exponent - 1)) :
    ∃ d, v.gridPoint? k = some d := by
  obtain ⟨ha, hb⟩ := v.quarter_pos k
  have hstep := v.div_quarter k
  have hnearest : v.admits k (roundDiv (4 * v.mantissa * (v.quarter k).1) (v.quarter k).2) =
      true := by
    have hround := isNearest_roundDiv (4 * v.mantissa * (v.quarter k).1) hb
    generalize roundDiv (4 * v.mantissa * (v.quarter k).1) (v.quarter k).2 = n at *
    generalize v.quarter k = step at *
    obtain ⟨a, b⟩ := step
    dsimp only at *
    have ha' : (0 : ℚ) < a := by exact_mod_cast ha
    have hb' : (0 : ℚ) < b := by exact_mod_cast hb
    have hle : (b : ℚ) / a ≤ 2 := by
      rw [hstep, div_le_iff₀ (by positivity), ← zpow_one_add₀ (by norm_num)]
      exact hk.trans_eq (by ring_nf)
    have hpoint : (n : ℚ) * 10 ^ k / 2 ^ (v.exponent - 2) = n * (b / a) := by
      rw [hstep, mul_div_assoc]
    have hvalue : ((4 * v.mantissa * a : ℕ) : ℚ) / b * (b / a) = 4 * v.mantissa := by
      push_cast
      field_simp
    have hlower := mul_le_mul_of_nonneg_right hround.lower (div_pos hb' ha').le
    have hupper := mul_le_mul_of_nonneg_right hround.upper (div_pos hb' ha').le
    rw [hvalue] at hlower hupper
    rw [admits_iff]
    refine covers_of_le_quarter hm ?_ ?_ <;> rw [hpoint] <;> linarith
  refine ⟨roundDiv (4 * v.mantissa * (v.quarter k).1) (v.quarter k).2, ?_⟩
  unfold gridPoint?
  exact if_pos hnearest

/-! ## The first grid with a point -/

theorem covers_firstGridPoint (hm : 0 < v.mantissa) {n : ℕ}
    (h : (10 : ℚ) ^ (k - n) ≤ 2 ^ (v.exponent - 1)) :
    v.Covers (v.firstGridPoint (n + 1) k).value := by
  induction n generalizing k with
  | zero =>
    obtain ⟨d, hd⟩ := exists_gridPoint hm (by simpa using h)
    rw [firstGridPoint, hd]
    exact covers_of_gridPoint? hd
  | succ n ih =>
    rw [firstGridPoint]
    rcases hd : v.gridPoint? k with _ | d
    · refine ih ?_
      have : k - 1 - (n : ℤ) = k - ((n + 1 : ℕ) : ℤ) := by
        push_cast
        ring
      rwa [this]
    · exact covers_of_gridPoint? hd

/-- The shortest decimal rounds to the value. -/
theorem covers_shortest (hv : v.IsCanonical) (hm : 0 < v.mantissa) : v.Covers v.shortest.value := by
  have hlog : v.mantissa.log2 < 53 := (Nat.log2_lt hm.ne').2 hv.mantissa_lt
  have hle := hv.exponent_le
  have hge := hv.le_exponent
  refine covers_firstGridPoint hm (ten_zpow_le ?_ ?_) <;> omega

/-! ## Whole numbers -/

/-- The magnitude of an exact value. -/
def magnitude (v : Exact) : ℚ := v.mantissa * 2 ^ v.exponent

theorem covers_magnitude (hm : 0 < v.mantissa) : v.Covers v.magnitude := by
  have : v.magnitude / 2 ^ (v.exponent - 2) = 4 * v.mantissa := by
    rw [magnitude, quarter_eq]
    field_simp
  exact covers_of_le_quarter hm (by rw [this]; linarith) (by rw [this]; linarith)

theorem isIntegral_of_nonneg (he : 0 ≤ v.exponent) : v.isIntegral = true := by
  simp [isIntegral, he]

theorem isIntegral_iff_of_neg {j : ℕ} (he : v.exponent = -j) (hj : 0 < j) :
    v.isIntegral = true ↔ 2 ^ j ∣ v.mantissa := by
  have hneg : ¬ 0 ≤ v.exponent := by omega
  have htoNat : (-v.exponent).toNat = j := by omega
  rw [isIntegral, htoNat, Nat.shiftLeft_eq, one_mul, Nat.dvd_iff_mod_eq_zero]
  simp [hneg]

theorem cast_floorAbs (h : v.isIntegral = true) : (v.floorAbs : ℚ) = v.magnitude := by
  rcases Int.lt_or_le v.exponent 0 with he | he
  · obtain ⟨j, hj⟩ : ∃ j : ℕ, v.exponent = -j := ⟨(-v.exponent).toNat, by omega⟩
    obtain ⟨n, hn⟩ := (isIntegral_iff_of_neg hj (by omega)).1 h
    have htoNat : (-v.exponent).toNat = j := by omega
    rw [floorAbs, if_neg (by omega), magnitude, htoNat, hj, hn, Nat.shiftRight_eq_div_pow,
      Nat.mul_div_cancel_left _ (by positivity), zpow_neg, zpow_natCast]
    push_cast
    field_simp
  · obtain ⟨j, hj⟩ := Int.eq_ofNat_of_zero_le he
    rw [floorAbs, if_pos he, magnitude, hj, Nat.shiftLeft_eq, Int.toNat_natCast, zpow_natCast]
    push_cast
    rfl

/-- A whole number rounds only to a whole number. -/
theorem isIntegral_of_covers {n : ℕ} (h : v.Covers n) : v.isIntegral = true := by
  rcases Int.lt_or_le v.exponent 0 with he | he
  · obtain ⟨j, hj⟩ : ∃ j : ℕ, v.exponent = -j := ⟨(-v.exponent).toNat, by omega⟩
    rw [isIntegral_iff_of_neg hj (by omega)]
    -- in units of the last place both are whole, so that they are the same
    have hnearest := h.isNearest
    rw [hj, neg_neg, zpow_natCast] at hnearest
    have hself : IsNearest ((n : ℚ) * 2 ^ j) (n * 2 ^ j) := by
      refine isNearest_of_lt ?_ ?_ <;> push_cast <;> linarith
    exact ⟨n, by rw [hnearest.unique hself, mul_comm]⟩
  · exact isIntegral_of_nonneg he

end Exact

end Binary64

end RoverControl
