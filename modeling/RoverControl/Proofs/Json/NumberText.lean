import RoverControl.Json.Printer
import RoverControl.Proofs.Json.Numeral
import RoverControl.Proofs.Number.Shortest

/-!
# The texts of numbers

The text that is written for a finite double is a numeral, and the double nearest to it is equal to
the one that was written (`renderNumber_reads`).
-/

namespace RoverControl

namespace Json

open Binary64

/-! ## Digits -/

theorem readDecimal_zero_cons (s : Bytes) : readDecimal (Ascii.zero :: s) = readDecimal s := rfl

theorem readDecimal_zeros (k : ℕ) (s : Bytes) :
    readDecimal (List.replicate k Ascii.zero ++ s) = readDecimal s := by
  induction k with
  | zero => rfl
  | succ k ih => rw [List.replicate_succ, List.cons_append, readDecimal_zero_cons, ih]

theorem isDigits_decimal (n : ℕ) : IsDigits (decimal n) :=
  ⟨decimal_ne_nil n, fun _ => isDigit_of_mem_decimal⟩

theorem IsDigits.zero_cons {s : Bytes} (h : IsDigits s) : IsDigits (Ascii.zero :: s) :=
  ⟨List.cons_ne_nil _ _, List.forall_mem_cons.2 ⟨by decide, h.2⟩⟩

theorem IsDigits.zeros_append {s : Bytes} (h : IsDigits s) (k : ℕ) :
    IsDigits (List.replicate k Ascii.zero ++ s) := by
  induction k with
  | zero => exact h
  | succ k ih => exact ih.zero_cons

theorem isDigits_drop {n k : ℕ} (hk : k < (decimal n).length) : IsDigits ((decimal n).drop k) :=
  ⟨fun hnil => hk.not_ge (List.drop_eq_nil_iff.1 hnil),
    fun _ hc => isDigit_of_mem_decimal (List.mem_of_mem_drop hc)⟩

theorem isWhole_singleton {c : UInt8} (hc : Ascii.isDigit c = true) : IsWhole [c] :=
  ⟨⟨List.cons_ne_nil _ _, List.forall_mem_singleton.2 hc⟩, fun hhead => by
    rw [Option.some.inj hhead]⟩

/-- The first digits of a number other than zero do not begin with a zero. -/
theorem isWhole_take {n k : ℕ} (hn : 0 < n) (hk : 0 < k) : IsWhole ((decimal n).take k) := by
  refine ⟨⟨fun hnil => ?_, fun c hc => isDigit_of_mem_decimal (List.mem_of_mem_take hc)⟩,
    fun hhead => ?_⟩
  · exact (List.take_eq_nil_iff.1 hnil).elim hk.ne' (decimal_ne_nil n)
  · rw [List.head?_take, if_neg hk.ne'] at hhead
    exact absurd hhead (head?_decimal hn)

theorem isWhole_decimal (n : ℕ) : IsWhole (decimal n) := by
  rcases Nat.eq_zero_or_pos n with rfl | hn
  · rw [decimal_of_lt (by decide)]
    exact isWhole_singleton (by decide)
  · have := isWhole_take hn (List.length_pos_iff.2 (decimal_ne_nil n))
    rwa [List.take_length] at this

/-! ## Numerals that denote exact values -/

/-- The number that a numeral denotes, without its sign. -/
def Numeral.magnitude (n : Numeral) : ℚ :=
  n.coefficient * 10 ^ (n.exponent - n.fractionDigits.length)

/-- A text is a numeral of a number that rounds to `v`. -/
def Shows (t : Bytes) (negative : Bool) (v : Exact) : Prop :=
  ∃ n, IsNumeral t n ∧ n.negative = negative ∧ v.Covers n.magnitude

variable {v : Exact} {d : Decimal}

theorem isNumeral_decimal (n : ℕ) : IsNumeral (decimal n) ⟨false, decimal n, [], 0⟩ := by
  have := IsNumeral.mk .none (isWhole_decimal n) .none .none
  simpa using this

theorem shows_decimal {n : ℕ} (h : v.Covers n) : Shows (decimal n) false v := by
  refine ⟨_, isNumeral_decimal n, rfl, ?_⟩
  simpa [Numeral.magnitude, Numeral.coefficient, readDecimal_decimal] using h

theorem Shows.minus {t : Bytes} (h : Shows t false v) : Shows (Ascii.minus :: t) true v := by
  obtain ⟨n, ⟨hminus, hwhole, hfraction, hexponent⟩, hnegative, hcovers⟩ := h
  cases hminus with
  | minus => cases hnegative
  | none => exact ⟨_, .mk .minus hwhole hfraction hexponent, rfl, hcovers⟩

theorem shows_of_parts {whole fraction fractionDigits exponentText text : Bytes} {exponent : ℤ}
    (hwhole : IsWhole whole) (hfraction : IsFraction fraction fractionDigits)
    (hexponent : IsExponent exponentText exponent)
    (hdigits : readDecimal (whole ++ fractionDigits) = d.digits)
    (hplaces : exponent - fractionDigits.length = d.exponent) (h : v.Covers d.value)
    (htext : text = whole ++ fraction ++ exponentText) : Shows text false v := by
  refine ⟨⟨false, whole, fractionDigits, exponent⟩, ?_, rfl, ?_⟩
  · rw [htext]
    exact .mk .none hwhole hfraction hexponent
  · rw [Numeral.magnitude, Numeral.coefficient, hdigits, hplaces]
    exact h

/-! ## Layouts -/

/-- A whole number shows all its digits. -/
theorem shows_floorAbs (hm : 0 < v.mantissa) (h : v.isIntegral = true) :
    Shows (decimal v.floorAbs) false v := by
  refine shows_decimal ?_
  rw [Exact.cast_floorAbs h]
  exact Exact.covers_magnitude hm

/-- A decimal number without places is a whole one, and so is what it rounds to. -/
theorem isIntegral_of_covers_value (he : 0 ≤ d.exponent) (h : v.Covers d.value) :
    v.isIntegral = true := by
  obtain ⟨j, hj⟩ := Int.eq_ofNat_of_zero_le he
  have hvalue : d.value = ((d.digits * 10 ^ j : ℕ) : ℚ) := by
    rw [Decimal.value, hj, zpow_natCast]
    push_cast
    rfl
  exact Exact.isIntegral_of_covers (hvalue ▸ h)

section Point

variable {places : ℕ}

/-- The point stands among the digits. -/
theorem shows_among (hd : 0 < d.digits) (h : v.Covers d.value) (he : -d.exponent = places)
    (hpos : 0 < places) (hlt : places < (decimal d.digits).length) :
    Shows ((decimal d.digits).take ((decimal d.digits).length - places) ++
      Ascii.dot :: (decimal d.digits).drop ((decimal d.digits).length - places)) false v := by
  refine shows_of_parts (isWhole_take hd (by omega)) (.mk (isDigits_drop (by omega))) .none ?_ ?_ h
    (List.append_nil _).symm
  · rw [List.take_append_drop, readDecimal_decimal]
  · rw [List.length_drop]
    omega

/-- The digits follow zeros after the point. -/
theorem shows_after (h : v.Covers d.value) (he : -d.exponent = places)
    (hle : (decimal d.digits).length ≤ places) :
    Shows (Ascii.zero :: Ascii.dot ::
      (List.replicate (places - (decimal d.digits).length) Ascii.zero ++ decimal d.digits))
      false v := by
  have hfraction := (isDigits_decimal d.digits).zeros_append
    (places - (decimal d.digits).length)
  refine shows_of_parts (isWhole_singleton (c := Ascii.zero) (by decide)) (.mk hfraction) .none
    ?_ ?_ h (by simp)
  · rw [List.singleton_append, readDecimal_zero_cons, readDecimal_zeros, readDecimal_decimal]
  · rw [List.length_append, List.length_replicate]
    omega

end Point

theorem shows_positional (hm : 0 < v.mantissa) (hd : 0 < d.digits) (h : v.Covers d.value) :
    Shows (positional v d) false v := by
  unfold positional
  dsimp only
  split_ifs with hexponent hplaces
  · exact shows_floorAbs hm (isIntegral_of_covers_value hexponent h)
  · exact shows_among hd h (by omega) (by omega) hplaces
  · exact shows_after h (by omega) (Nat.not_lt.1 hplaces)

theorem isExponent_of_int (e : ℤ) {digits : Bytes} (hdigits : IsDigits digits)
    (hread : readDecimal digits = e.natAbs) :
    IsExponent (ascii "e" ++ [if e < 0 then Ascii.minus else Ascii.plus] ++ digits) e := by
  by_cases he : e < 0
  · have := IsExponent.mk (Or.inl rfl) .minus hdigits
    rw [if_pos rfl, hread] at this
    rw [if_pos he]
    have hvalue : -(e.natAbs : ℤ) = e := by omega
    rw [hvalue] at this
    exact this
  · have := IsExponent.mk (Or.inl rfl) .plus hdigits
    rw [if_neg (by decide), hread] at this
    rw [if_neg he]
    have hvalue : (e.natAbs : ℤ) = e := by omega
    rw [hvalue] at this
    exact this

/-- An exponent of one digit is written with a zero before it. -/
theorem isExponent_padded (e : ℤ) :
    IsExponent (ascii "e" ++ [if e < 0 then Ascii.minus else Ascii.plus] ++
      (if (decimal e.natAbs).length < 2 then Ascii.zero :: decimal e.natAbs
        else decimal e.natAbs)) e := by
  have hdigits := isDigits_decimal e.natAbs
  by_cases hlength : (decimal e.natAbs).length < 2
  · rw [if_pos hlength]
    exact isExponent_of_int e hdigits.zero_cons (readDecimal_decimal _)
  · rw [if_neg hlength]
    exact isExponent_of_int e hdigits (readDecimal_decimal _)

theorem shows_scientific (h : v.Covers d.value) : Shows (scientific d) false v := by
  have hall : ∀ c ∈ decimal d.digits, Ascii.isDigit c = true := fun c => isDigit_of_mem_decimal
  have hread := readDecimal_decimal d.digits
  unfold scientific
  dsimp only
  rcases hds : decimal d.digits with _ | ⟨c, _ | ⟨c', r⟩⟩
  · exact absurd hds (decimal_ne_nil _)
  · rw [hds] at hall hread
    refine shows_of_parts (isWhole_singleton (hall c List.mem_cons_self)) .none
      (isExponent_padded (d.exponent + ([c] : Bytes).length - 1)) hread ?_ h (by simp)
    simp
  · rw [hds] at hall hread
    have hfraction : IsDigits (c' :: r) :=
      ⟨List.cons_ne_nil _ _, fun a ha => hall a (List.mem_cons_of_mem _ ha)⟩
    refine shows_of_parts (isWhole_singleton (hall c List.mem_cons_self)) (.mk hfraction)
      (isExponent_padded (d.exponent + (c :: c' :: r : Bytes).length - 1)) hread ?_ h (by simp)
    rw [List.length_cons]
    push_cast
    ring

/-- The shortest text of a finite double is a numeral of a number that rounds to it. -/
theorem shows_text (hv : v.IsCanonical) (hm : 0 < v.mantissa) : Shows v.text v.negative v := by
  have hcovers := Exact.covers_shortest hv hm
  have hdigits : 0 < v.shortest.digits := by
    by_contra hzero
    have := hcovers.pos hm
    rw [Decimal.value, (by omega : v.shortest.digits = 0)] at this
    simp at this
  have hmagnitude : Shows (if (positional v v.shortest).length ≤ (scientific v.shortest).length
      then positional v v.shortest else scientific v.shortest) false v := by
    split_ifs
    · exact shows_positional hm hdigits hcovers
    · exact shows_scientific hcovers
  unfold Exact.text
  dsimp only
  cases v.negative with
  | false => exact hmagnitude
  | true => exact hmagnitude.minus

/-! ## Reading back -/

theorem Numeral.inRange_iff {n : Numeral} :
    n.inRange = true ↔ Binary64.word n.nearest < infinityWord ∧
      (n.coefficient = 0 ∨ Binary64.word n.nearest ≠ 0) := by
  unfold inRange
  simp only [Bool.and_eq_true, decide_eq_true_eq, Bool.or_eq_true, beq_iff_eq, bne_iff_ne]

variable {x : Float}

theorem Shows.reads {t : Bytes} (hx : exactValue? x = some v) (hm : 0 < v.mantissa)
    (h : Shows t v.negative v) : ∃ n, IsNumeral t n ∧ n.inRange = true ∧ n.nearest = x := by
  obtain ⟨n, hn, hnegative, hcovers⟩ := h
  have hv := isCanonical_of_exactValue? hx
  have hword := (word_of_exactValue? hx).2
  have hnearest : n.nearest = x := by
    rw [Numeral.nearest, hcovers.ofDecimal hv hm, hnegative, ofWord_exactValue? hx]
  refine ⟨n, hn, ?_, hnearest⟩
  rw [Numeral.inRange_iff, hnearest, ← hword]
  refine ⟨hv.word_lt, Or.inr ?_⟩
  rw [Exact.word]
  omega

/-- Zero of either sign is written without a sign. -/
theorem zero_reads (hx : word x = 0) :
    ∃ n, IsNumeral (decimal 0) n ∧ n.inRange = true ∧ (n.nearest == x) = true := by
  have hcoefficient : Numeral.coefficient ⟨false, decimal 0, [], 0⟩ = 0 := by
    rw [Numeral.coefficient, List.append_nil, readDecimal_decimal]
  have hnearest : Numeral.nearest ⟨false, decimal 0, [], 0⟩ = ofWord false 0 := by
    rw [Numeral.nearest, hcoefficient]
    rfl
  refine ⟨_, isNumeral_decimal 0, Numeral.inRange_iff.2 ?_, ?_⟩
  · rw [hnearest]
    exact ⟨by decide, Or.inl hcoefficient⟩
  · rw [hnearest]
    exact zero_beq hx

theorem renderNumber_of_mantissa_eq_zero (hx : exactValue? x = some v) (hm : v.mantissa = 0) :
    renderNumber x = decimal 0 := by
  have hintegral : v.isIntegral = true := by simp [Exact.isIntegral, hm]
  have hfloor : v.floorAbs = 0 := by simp [Exact.floorAbs, hm]
  unfold renderNumber
  rw [hx]
  dsimp only
  rw [hintegral, hfloor]
  simp [hiddenBit]

theorem word_of_mantissa_eq_zero (hx : exactValue? x = some v) (hm : v.mantissa = 0) :
    word x = 0 := by
  have hexponent : v.exponent = -1074 :=
    (isCanonical_of_exactValue? hx).normal.resolve_left (by omega)
  rw [← (word_of_exactValue? hx).2, Exact.word, hm, hexponent]
  rfl

theorem shows_renderNumber (hx : exactValue? x = some v) (hm : 0 < v.mantissa) :
    Shows (renderNumber x) v.negative v := by
  unfold renderNumber
  rw [hx]
  dsimp only
  by_cases hwhole : (v.isIntegral && v.floorAbs < 2 * hiddenBit) = true
  · have hintegral : v.isIntegral = true := (Bool.and_eq_true_iff.1 hwhole).1
    have hshows := shows_floorAbs hm hintegral
    have hpos : v.floorAbs ≠ 0 := by
      have : (0 : ℚ) < v.floorAbs := by
        rw [Exact.cast_floorAbs hintegral, Exact.magnitude]
        positivity
      exact (Nat.cast_pos.1 this).ne'
    rw [if_pos hwhole]
    cases v.negative with
    | false => exact hshows
    | true =>
      rw [if_pos (by simpa using hpos)]
      exact hshows.minus
  · rw [if_neg hwhole]
    exact shows_text (isCanonical_of_exactValue? hx) hm

/-- The text of a finite double is a numeral in range that is read as an equal double. -/
theorem renderNumber_reads (h : x.isFinite = true) :
    ∃ n, IsNumeral (renderNumber x) n ∧ n.inRange = true ∧ (n.nearest == x) = true := by
  obtain ⟨v, hx⟩ := Option.isSome_iff_exists.1 (exactValue?_isSome.2 h)
  rcases Nat.eq_zero_or_pos v.mantissa with hm | hm
  · rw [renderNumber_of_mantissa_eq_zero hx hm]
    exact zero_reads (word_of_mantissa_eq_zero hx hm)
  · obtain ⟨n, hn, hrange, rfl⟩ := (shows_renderNumber hx hm).reads hx hm
    exact ⟨n, hn, hrange, beq_self h⟩

end Json

end RoverControl
