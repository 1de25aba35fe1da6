import RoverControl.Number.Shortest
import RoverControl.Proofs.Number.Binary64

/-!
# Rounding to the nearest double

A canonical exact value covers the numbers that round to it: those at most half a place away, or a
quarter where the doubles underneath lie twice as close (`Exact.Covers`).  `nearestWord` gives the
word of the exact value that covers a quotient (`Exact.Covers.nearestWord`), and the double nearest
to a decimal number is the one whose exact value covers it (`Exact.Covers.ofDecimal`).
-/

namespace RoverControl

namespace Binary64

/-! ## Scaling and quotients -/

/-- A quotient is scaled by a power whichever of its parts is multiplied. -/
theorem scale_div (n d : ℕ) {base : ℕ} (hbase : 0 < base) (k : ℤ) :
    ((n * base ^ k.toNat : ℕ) : ℚ) / ((d * base ^ (-k).toNat : ℕ) : ℚ) =
      (n : ℚ) / d * (base : ℚ) ^ k := by
  have hbase' : (base : ℚ) ≠ 0 := by exact_mod_cast hbase.ne'
  rcases Int.le_total 0 k with hk | hk
  · obtain ⟨j, rfl⟩ := Int.eq_ofNat_of_zero_le hk
    simp
    ring
  · obtain ⟨j, rfl⟩ : ∃ j : ℕ, k = -j := ⟨(-k).toNat, by omega⟩
    simp
    field_simp

theorem shift_div (n d : ℕ) (q : ℤ) :
    ((n <<< q.toNat : ℕ) : ℚ) / ((d <<< (-q).toNat : ℕ) : ℚ) = (n : ℚ) / d * 2 ^ q := by
  rw [Nat.shiftLeft_eq, Nat.shiftLeft_eq]
  exact scale_div n d (by decide) q

variable {num den : ℕ}

theorem lt_of_zpow_lt {a b : ℤ} (h : (2 : ℚ) ^ a < 2 ^ b) : a < b :=
  (zpow_lt_zpow_iff_right₀ (by norm_num)).1 h

/-- A power of ten is at most a power of two if the exponents stand to each other as three to ten,
or as ten to thirty-three where they are negative. -/
theorem ten_zpow_le {k b : ℤ} (h : 10 * k ≤ 3 * b) (h' : 33 * k ≤ 10 * b) :
    (10 : ℚ) ^ k ≤ 2 ^ b := by
  rcases Int.le_total 0 k with hk | hk
  · refine le_of_pow_le_pow_left₀ (n := 3) (by norm_num) (by positivity) ?_
    calc ((10 : ℚ) ^ k) ^ 3 = (10 ^ 3) ^ k := by rw [← zpow_natCast, zpow_comm, zpow_natCast]
      _ ≤ (2 ^ 10) ^ k := zpow_le_zpow_left₀ hk (by norm_num) (by norm_num)
      _ = 2 ^ (10 * k) := by rw [← zpow_natCast, ← zpow_mul]; rfl
      _ ≤ 2 ^ (b * 3) := zpow_le_zpow_right₀ (by norm_num) (by omega)
      _ = (2 ^ b) ^ 3 := by rw [zpow_mul]; rfl
  · refine le_of_pow_le_pow_left₀ (n := 10) (by norm_num) (by positivity) ?_
    calc ((10 : ℚ) ^ k) ^ 10 = (10 ^ 10) ^ k := by rw [← zpow_natCast, zpow_comm, zpow_natCast]
      _ ≤ (2 ^ 33) ^ k := by
          obtain ⟨j, rfl⟩ : ∃ j : ℕ, k = -j := ⟨(-k).toNat, by omega⟩
          rw [zpow_neg, zpow_neg, zpow_natCast, zpow_natCast]
          gcongr
          norm_num
      _ = 2 ^ (33 * k) := by rw [← zpow_natCast, ← zpow_mul]; rfl
      _ ≤ 2 ^ (b * 10) := zpow_le_zpow_right₀ (by norm_num) (by omega)
      _ = (2 ^ b) ^ 10 := by rw [zpow_mul]; rfl

/-- Shifts compare a quotient with a power of two. -/
theorem shift_le_shift_iff (hden : 0 < den) (e : ℤ) :
    den <<< e.toNat ≤ num <<< (-e).toNat ↔ (2 : ℚ) ^ e ≤ num / den := by
  have hscale := shift_div num den (-e)
  rw [neg_neg, zpow_neg, ← div_eq_mul_inv] at hscale
  have hpos : (0 : ℚ) < ((den <<< e.toNat : ℕ) : ℚ) := by
    rw [Nat.shiftLeft_eq]
    positivity
  have hratio : (2 : ℚ) ^ e ≤ num / den ↔ 1 ≤ (num : ℚ) / den / 2 ^ e :=
    (one_le_div (by positivity)).symm
  rw [hratio, ← hscale, one_le_div hpos, Nat.cast_le]

/-- A quotient is within a factor of two of that of the leading bits. -/
theorem div_mem_of_log2 (hnum : 0 < num) (hden : 0 < den) :
    (2 : ℚ) ^ ((num.log2 : ℤ) - den.log2 - 1) < num / den ∧
      (num : ℚ) / den < 2 ^ ((num.log2 : ℤ) - den.log2 + 1) := by
  have hden' : (0 : ℚ) < den := by exact_mod_cast hden
  have hnumLow : (2 : ℚ) ^ num.log2 ≤ num := by exact_mod_cast Nat.log2_self_le hnum.ne'
  have hnumHigh : (num : ℚ) < 2 ^ (num.log2 + 1) := by exact_mod_cast Nat.lt_log2_self
  have hdenLow : (2 : ℚ) ^ den.log2 ≤ den := by exact_mod_cast Nat.log2_self_le hden.ne'
  have hdenHigh : (den : ℚ) < 2 ^ (den.log2 + 1) := by exact_mod_cast Nat.lt_log2_self
  constructor
  · rw [lt_div_iff₀ hden']
    calc (2 : ℚ) ^ ((num.log2 : ℤ) - den.log2 - 1) * den
        < 2 ^ ((num.log2 : ℤ) - den.log2 - 1) * 2 ^ (den.log2 + 1) := by gcongr
      _ = 2 ^ num.log2 := by
          rw [← zpow_natCast, ← zpow_natCast, ← zpow_add₀ (by norm_num)]
          congr 1
          omega
      _ ≤ num := hnumLow
  · rw [div_lt_iff₀ hden']
    calc (num : ℚ) < 2 ^ (num.log2 + 1) := hnumHigh
      _ = 2 ^ ((num.log2 : ℤ) - den.log2 + 1) * 2 ^ den.log2 := by
          rw [← zpow_natCast, ← zpow_natCast, ← zpow_add₀ (by norm_num)]
          congr 1
          omega
      _ ≤ 2 ^ ((num.log2 : ℤ) - den.log2 + 1) * den := by gcongr

/-- The binade of a quotient lies between two powers of two. -/
theorem binade_spec (hnum : 0 < num) (hden : 0 < den) :
    (2 : ℚ) ^ binade num den ≤ (num : ℚ) / den ∧
      (num : ℚ) / den < 2 ^ (binade num den + 1) := by
  obtain ⟨hlow, hhigh⟩ := div_mem_of_log2 hnum hden
  unfold binade
  dsimp only
  split_ifs with h
  · exact ⟨(shift_le_shift_iff hden _).1 h, hhigh⟩
  · rw [sub_add_cancel]
    exact ⟨hlow.le, not_le.1 fun hle => h ((shift_le_shift_iff hden _).2 hle)⟩

/-- A quotient below a power of two is in a binade below it. -/
theorem binade_lt (hnum : 0 < num) (hden : 0 < den) {b : ℤ}
    (h : (num : ℚ) / den < 2 ^ b) : binade num den < b :=
  lt_of_zpow_lt ((binade_spec hnum hden).1.trans_lt h)

/-- A quotient not below a power of two is in a binade not below it. -/
theorem le_binade (hnum : 0 < num) (hden : 0 < den) {b : ℤ}
    (h : (2 : ℚ) ^ b ≤ num / den) : b ≤ binade num den :=
  Int.lt_add_one_iff.1 (lt_of_zpow_lt (h.trans_lt (binade_spec hnum hden).2))

/-! ## Rounding a quotient to a natural number -/

/-- The natural number is nearest to `r`, and even if `r` is halfway to the next one. -/
structure IsNearest (r : ℚ) (k : ℕ) : Prop where
  lower : (k : ℚ) - 1 / 2 ≤ r
  upper : r ≤ k + 1 / 2
  even : r = k - 1 / 2 ∨ r = k + 1 / 2 → k % 2 = 0

theorem isNearest_of_lt {r : ℚ} {k : ℕ} (hlower : (k : ℚ) - 1 / 2 < r) (hupper : r < k + 1 / 2) :
    IsNearest r k :=
  ⟨hlower.le, hupper.le, fun h => by rcases h with h | h <;> linarith⟩

theorem IsNearest.unique {r : ℚ} {k k' : ℕ} (h : IsNearest r k) (h' : IsNearest r k') :
    k = k' := by
  wlog hle : k ≤ k' generalizing k k'
  · exact (this h' h (by omega)).symm
  by_contra hne
  have hlt : (k : ℚ) + 1 ≤ k' := by exact_mod_cast (by omega : k + 1 ≤ k')
  -- both are half a step away, but neighbours are not both even
  have hk : r = k + 1 / 2 := le_antisymm h.upper (by linarith [h'.lower])
  have hk' : r = k' - 1 / 2 := le_antisymm (by linarith [h.upper]) h'.lower
  have heven := h.even (Or.inr hk)
  have heven' := h'.even (Or.inl hk')
  have heq : k' = k + 1 := by exact_mod_cast (by linarith : (k' : ℚ) = k + 1)
  omega

theorem isNearest_roundDiv (n : ℕ) {d : ℕ} (hd : 0 < d) :
    IsNearest ((n : ℚ) / d) (roundDiv n d) := by
  have hd' : (0 : ℚ) < d := by exact_mod_cast hd
  have hquot : (n : ℚ) / d = (n / d : ℕ) + ((n % d : ℕ) : ℚ) / d := by
    have hdiv : (n : ℚ) = d * (n / d : ℕ) + (n % d : ℕ) := by
      exact_mod_cast (Nat.div_add_mod n d).symm
    rw [div_eq_iff hd'.ne', add_mul, div_mul_cancel₀ _ hd'.ne', mul_comm]
    exact hdiv
  have hrest : (0 : ℚ) ≤ ((n % d : ℕ) : ℚ) / d := by positivity
  have hrest' : ((n % d : ℕ) : ℚ) / d < 1 := by
    rw [div_lt_one hd']
    exact_mod_cast Nat.mod_lt n hd
  have hbelow_iff : ((n % d : ℕ) : ℚ) / d < 1 / 2 ↔ 2 * (n % d) < d := by
    rw [div_lt_div_iff₀ hd' two_pos, one_mul, mul_comm]
    norm_cast
  have habove_iff : 1 / 2 < ((n % d : ℕ) : ℚ) / d ↔ d < 2 * (n % d) := by
    rw [div_lt_div_iff₀ two_pos hd', one_mul, mul_comm _ 2]
    norm_cast
  rw [hquot]
  unfold roundDiv
  dsimp only
  split_ifs with hbelow habove
  · have := hbelow_iff.2 hbelow
    exact isNearest_of_lt (by linarith) (by linarith)
  · have := habove_iff.2 habove
    refine isNearest_of_lt ?_ ?_ <;> push_cast <;> linarith
  · rw [← hbelow_iff, not_lt] at hbelow
    rw [← habove_iff, not_lt] at habove
    rw [le_antisymm habove hbelow]
    rcases Nat.mod_two_eq_zero_or_one (n / d) with hq | hq
    · rw [hq]
      exact ⟨by push_cast; linarith, by push_cast; linarith, fun _ => hq⟩
    · rw [hq]
      exact ⟨by push_cast; linarith, by push_cast; linarith, fun _ => by omega⟩

theorem IsNearest.roundDiv {n d k : ℕ} (hd : 0 < d) (h : IsNearest ((n : ℚ) / d) k) :
    roundDiv n d = k :=
  (isNearest_roundDiv n hd).unique h

/-! ## Numbers that round to an exact value -/

/-- A quotient is rounded to a mantissa at the exponent of its binade. -/
theorem nearestWord_of_isNearest (hnum : 0 < num) (hden : 0 < den) {q : ℤ} {m : ℕ}
    (hq : max (binade num den - 52) (-1074) = q)
    (h : IsNearest ((num : ℚ) / den * 2 ^ (-q)) m) :
    nearestWord num den = min (m + (q + 1074).toNat * hiddenBit) infinityWord := by
  have hscale := shift_div num den (-q)
  rw [neg_neg] at hscale
  have hpos : 0 < den <<< q.toNat := by
    rw [Nat.shiftLeft_eq]
    positivity
  unfold nearestWord
  rw [if_neg hnum.ne']
  dsimp only
  rw [hq, IsNearest.roundDiv hpos (hscale ▸ h)]

namespace Exact

variable {v : Exact} {r : ℚ}

/-- The number rounds to `v`: in quarters of the last place of `v` it lies between the ends, which
belong to the interval if the mantissa is even. -/
structure Covers (v : Exact) (r : ℚ) : Prop where
  lower : (v.lowerEnd : ℚ) ≤ r / 2 ^ (v.exponent - 2)
  upper : r / 2 ^ (v.exponent - 2) ≤ v.upperEnd
  interior : v.mantissa % 2 = 1 →
    (v.lowerEnd : ℚ) < r / 2 ^ (v.exponent - 2) ∧ r / 2 ^ (v.exponent - 2) < v.upperEnd

theorem IsCanonical.word_lt (hv : v.IsCanonical) : v.word < infinityWord := by
  have hhidden : hiddenBit = 2 ^ 52 := rfl
  have hinf : infinityWord = 2047 * 2 ^ 52 := rfl
  obtain ⟨hmantissa, hle, hge, -⟩ := hv
  rw [word, hhidden, hinf]
  omega

theorem le_lowerEnd (v : Exact) : 4 * v.mantissa ≤ v.lowerEnd + 2 := by
  unfold lowerEnd
  split_ifs <;> omega

theorem cast_upperEnd (v : Exact) : (v.upperEnd : ℚ) = 4 * v.mantissa + 2 := by
  simp [upperEnd]

theorem quarter_eq (e : ℤ) : (2 : ℚ) ^ (e - 2) = 2 ^ e / 4 := by
  rw [zpow_sub₀ (by norm_num)]
  norm_num

theorem Covers.pos (h : v.Covers r) (hm : 0 < v.mantissa) : 0 < r := by
  have hlower : 0 < v.lowerEnd := by
    have := v.le_lowerEnd
    omega
  have hlower : (0 : ℚ) < v.lowerEnd := by exact_mod_cast hlower
  have hquarter : (0 : ℚ) < 2 ^ (v.exponent - 2) := by positivity
  exact (div_pos_iff_of_pos_right hquarter).1 (hlower.trans_le h.lower)

theorem Covers.isNearest (h : v.Covers r) : IsNearest (r * 2 ^ (-v.exponent)) v.mantissa := by
  have hlower : (4 * v.mantissa : ℚ) ≤ v.lowerEnd + 2 := by exact_mod_cast v.le_lowerEnd
  have hupper := v.cast_upperEnd
  have hunit : r / 2 ^ (v.exponent - 2) = 4 * (r * 2 ^ (-v.exponent)) := by
    rw [quarter_eq, zpow_neg]
    field_simp
  obtain ⟨h₁, h₂, h₃⟩ := h
  rw [hunit] at h₁ h₂ h₃
  rw [hupper] at h₂ h₃
  refine ⟨by linarith, by linarith, fun hend => ?_⟩
  by_contra hodd
  obtain ⟨h₃, h₄⟩ := h₃ (by omega)
  rcases hend with hend | hend <;> linarith

/-- What rounds to a value is below the next binade. -/
theorem Covers.lt_binade (hv : v.IsCanonical) (h : v.Covers r) : r < 2 ^ (v.exponent + 53) := by
  have hupper := h.isNearest.upper
  have hmantissa : (v.mantissa : ℚ) + 1 ≤ 2 ^ (53 : ℤ) := by exact_mod_cast hv.mantissa_lt
  rw [zpow_neg, ← div_eq_mul_inv, div_le_iff₀ (by positivity)] at hupper
  calc r ≤ (v.mantissa + 1 / 2) * 2 ^ v.exponent := hupper
    _ < 2 ^ (53 : ℤ) * 2 ^ v.exponent := by
        gcongr
        linarith
    _ = 2 ^ (v.exponent + 53) := by rw [← zpow_add₀ (by norm_num), add_comm]

/-- Of the values that may lie in a binade, only the first one covers numbers below it, and these
round to it in the binade underneath, where its mantissa is twice as large. -/
theorem Covers.first_of_lt (hv : v.IsCanonical) (h : v.Covers r) (he : v.exponent ≠ -1074)
    (hlt : r < 2 ^ (v.exponent + 52)) :
    v.mantissa = 2 ^ 52 ∧ IsNearest (r * 2 ^ (-(v.exponent - 1))) (2 ^ 53) := by
  have hnearest := h.isNearest
  have hlower := h.lower
  have hunit : (0 : ℚ) < 2 ^ v.exponent := by positivity
  -- `x` is the number in units of the last place of `v`
  obtain ⟨x, rfl⟩ : ∃ x, r = x * 2 ^ v.exponent := ⟨r / 2 ^ v.exponent, by field_simp⟩
  have hx : x < 2 ^ 52 := by
    rw [zpow_add₀ (by norm_num), mul_comm, mul_lt_mul_iff_right₀ hunit] at hlt
    exact_mod_cast hlt
  have hself : x * 2 ^ v.exponent * 2 ^ (-v.exponent) = x := by
    rw [zpow_neg, mul_inv_cancel_right₀ hunit.ne']
  have hdouble : x * 2 ^ v.exponent * 2 ^ (-(v.exponent - 1)) = 2 * x := by
    rw [neg_sub, zpow_sub₀ (by norm_num), zpow_one]
    field_simp
  rw [hself] at hnearest
  rw [hdouble]
  have hmantissa : v.mantissa = 2 ^ 52 := by
    have hle : (v.mantissa : ℚ) < 2 ^ 52 + 1 := by linarith [hnearest.lower]
    have hle : v.mantissa < 2 ^ 52 + 1 := by exact_mod_cast hle
    have hge : 2 ^ 52 ≤ v.mantissa := hv.normal.resolve_right he
    omega
  have hend : (v.lowerEnd : ℚ) = 4 * 2 ^ 52 - 1 := by
    have hge := hv.le_exponent
    rw [lowerEnd, if_pos ⟨hmantissa, by omega⟩, hmantissa]
    norm_num
  rw [hend, quarter_eq, div_div_eq_mul_div, mul_right_comm, mul_div_cancel_right₀ _ hunit.ne']
    at hlower
  refine ⟨hmantissa, ?_, ?_, fun _ => by decide⟩ <;> push_cast <;> linarith

/-- A quotient rounds to the word of the exact value that covers it. -/
theorem Covers.nearestWord (hv : v.IsCanonical) (hm : 0 < v.mantissa) (hden : 0 < den)
    (h : v.Covers ((num : ℚ) / den)) : nearestWord num den = v.word := by
  have hden' : (0 : ℚ) < den := by exact_mod_cast hden
  have hnum : 0 < num := by
    have := (div_pos_iff_of_pos_right hden').1 (h.pos hm)
    exact_mod_cast this
  have hword := hv.word_lt
  have hbelow := binade_lt hnum hden (h.lt_binade hv)
  by_cases hplace : max (binade num den - 52) (-1074) = v.exponent
  · -- the quotient is in the binade of `v`, or both are subnormal
    rw [nearestWord_of_isNearest hnum hden hplace h.isNearest]
    exact min_eq_left hword.le
  · -- the quotient is below the binade of `v`
    have hge := hv.le_exponent
    have hlt : (num : ℚ) / den < 2 ^ (v.exponent + 52) := by
      refine not_le.1 fun hle => ?_
      have := le_binade hnum hden hle
      omega
    obtain ⟨hmantissa, hfirst⟩ := h.first_of_lt hv (by omega) hlt
    have hle : (2 : ℚ) ^ (v.exponent + 51) ≤ num / den := by
      have hlower := hfirst.lower
      rw [zpow_neg, ← div_eq_mul_inv, le_div_iff₀ (by positivity)] at hlower
      refine le_trans ?_ hlower
      have hsplit : v.exponent + 51 = 52 + (v.exponent - 1) := by ring
      rw [hsplit, zpow_add₀ (by norm_num)]
      gcongr
      norm_num
    have := le_binade hnum hden hle
    have hhidden : hiddenBit = 2 ^ 52 := rfl
    rw [word, hmantissa, hhidden] at hword ⊢
    rw [nearestWord_of_isNearest hnum hden (by omega) hfirst, hhidden]
    omega

theorem Covers.two_pow_le (hv : v.IsCanonical) (hm : 0 < v.mantissa) (h : v.Covers r) :
    2 ^ (-1075 : ℤ) ≤ r := by
  have hlower := h.isNearest.lower
  have hmantissa : (1 : ℚ) ≤ v.mantissa := by exact_mod_cast hm
  rw [zpow_neg, ← div_eq_mul_inv, le_div_iff₀ (by positivity)] at hlower
  calc (2 : ℚ) ^ (-1075 : ℤ) = 2 ^ (-1 : ℤ) * 2 ^ (-1074 : ℤ) := by
        rw [← zpow_add₀ (by norm_num)]
        norm_num
    _ ≤ 2 ^ (-1 : ℤ) * 2 ^ v.exponent := by
        gcongr
        · norm_num
        · exact hv.le_exponent
    _ ≤ (v.mantissa - 1 / 2) * 2 ^ v.exponent := by
        gcongr
        rw [zpow_neg_one]
        linarith
    _ ≤ r := hlower

section Decimal

variable {m : ℕ} {e : ℤ}

/-- No decimal number that rounds to a finite double has an exponent so large that it is taken for
infinity. -/
theorem Covers.exponent_lt (hv : v.IsCanonical) (hm : m ≠ 0) (h : v.Covers (m * 10 ^ e)) :
    e < 310 := by
  by_contra he
  have hm' : (1 : ℚ) ≤ m := by exact_mod_cast Nat.one_le_iff_ne_zero.2 hm
  refine (h.lt_binade hv).not_ge ?_
  calc (2 : ℚ) ^ (v.exponent + 53) ≤ 2 ^ (205 * 5 : ℤ) :=
        zpow_le_zpow_right₀ (by norm_num) (by linarith [hv.exponent_le])
    _ = (2 ^ 205) ^ 5 := by rw [zpow_mul]; rfl
    _ ≤ (10 ^ 62) ^ 5 := by gcongr; norm_num
    _ = 1 * 10 ^ (310 : ℤ) := by rw [one_mul, ← pow_mul]; rfl
    _ ≤ m * 10 ^ e := by
        gcongr
        · norm_num
        · omega

/-- No decimal number that rounds to a double other than zero is so small that it is taken for
zero. -/
theorem Covers.le_log2 (hv : v.IsCanonical) (hm : 0 < v.mantissa) (h : v.Covers (m * 10 ^ e)) :
    -1080 ≤ m.log2 + 3 * e := by
  by_contra hlt
  refine (h.two_pow_le hv hm).not_gt ?_
  have hlog : (m : ℚ) < 2 ^ ((m.log2 : ℤ) + 1) := by exact_mod_cast Nat.lt_log2_self
  have hten : (10 : ℚ) ^ e ≤ 2 ^ (3 * e) := ten_zpow_le (by omega) (by omega)
  calc (m : ℚ) * 10 ^ e < 2 ^ ((m.log2 : ℤ) + 1) * 10 ^ e := by gcongr
    _ ≤ 2 ^ ((m.log2 : ℤ) + 1) * 2 ^ (3 * e) := by gcongr
    _ = 2 ^ ((m.log2 : ℤ) + 1 + 3 * e) := (zpow_add₀ (by norm_num) _ _).symm
    _ ≤ 2 ^ (-1075 : ℤ) := zpow_le_zpow_right₀ (by norm_num) (by omega)

/-- The double nearest to a decimal number is the one whose exact value covers it. -/
theorem Covers.ofDecimal (hv : v.IsCanonical) (hm : 0 < v.mantissa) (h : v.Covers (m * 10 ^ e))
    (negative : Bool) : Binary64.ofDecimal negative m e = ofWord negative v.word := by
  have hm₀ : m ≠ 0 := by
    rintro rfl
    simpa using h.pos hm
  have hlarge := h.exponent_lt hv hm₀
  have hsmall := h.le_log2 hv hm
  have hscale := scale_div m 1 (by decide : 0 < 10) e
  rw [one_mul, Nat.cast_one, div_one] at hscale
  unfold Binary64.ofDecimal
  rw [if_neg hm₀, if_neg (by omega), if_neg (by omega), ofRatio]
  congr 1
  refine Covers.nearestWord hv hm (Nat.pow_pos (by decide)) ?_
  change v.Covers (((m * 10 ^ e.toNat : ℕ) : ℚ) / ((10 ^ (-e).toNat : ℕ) : ℚ))
  rw [hscale]
  exact_mod_cast h

end Decimal

end Exact

end Binary64

end RoverControl
