import Mathlib.Algebra.Order.Floor.Ring
import Mathlib.Data.Rat.Floor
import Mathlib.Tactic.Linarith
import Mathlib.Tactic.Positivity
import RoverControl.Proofs.Rate.Uses

/-!
# Token buckets over exact numbers

With `open Exact` the rational numbers are a kind of quantity, so that nothing is lost to rounding.
Refilling a bucket moves the clock reading up to which time has been credited to the later one
(`lastRefill_refill`), and pays no more for the time in between than the rate in force
(`tokens_refill_le`).
-/

namespace RoverControl

namespace Exact

scoped instance : Quantity ℚ where
  decidableLT := inferInstance
  decidableLE := inferInstance
  ofInt n := n
  ceil x := ⌈x⌉
  isFinite _ := true

theorem ofInt_eq (n : Int) : (Quantity.ofInt n : ℚ) = n := rfl

theorem seconds_eq (nanoseconds : Int) :
    (Quantity.seconds nanoseconds : ℚ) = nanoseconds / 10 ^ 9 := by
  show (nanoseconds : ℚ) / ((1000000000 : Int) : ℚ) = nanoseconds / 10 ^ 9
  norm_num

theorem isRate_iff {x : ℚ} : Quantity.isRate x = true ↔ 0 < x := by
  show (true && decide (((0 : Int) : ℚ) < x)) = true ↔ 0 < x
  simp

theorem isValid_iff {l : RateLimit ℚ} : l.isValid = true ↔ 0 < l.rate ∧ 0 < l.burst.toNat := by
  rw [RateLimit.isValid, Bool.and_eq_true, isRate_iff, decide_eq_true_iff, UInt32.lt_iff_toNat_lt]
  rfl

end Exact

namespace TokenBucket

open Exact

variable (b : TokenBucket ℚ) (now : Int)

/-! ## Refilling -/

variable {b now} in
theorem refill_of_le (h : now ≤ b.lastRefill) : b.refill now = b := by
  refine if_pos ?_
  rw [seconds_eq, ofInt_eq, Int.cast_zero]
  exact div_nonpos_of_nonpos_of_nonneg (by exact_mod_cast Int.sub_nonpos_of_le h) (by positivity)

variable {b now} in
theorem refill_of_lt (h : b.lastRefill < now) :
    b.refill now =
      { b with
        tokens := min b.limit.burst.toNat
          (b.tokens + ((now - b.lastRefill : Int) : ℚ) / 10 ^ 9 * b.limit.rate)
        lastRefill := now } := by
  have hpos : 0 < ((now - b.lastRefill : Int) : ℚ) := by
    exact_mod_cast Int.sub_pos_of_lt h
  have hneg : ¬ (Quantity.seconds (now - b.lastRefill) : ℚ) ≤ Quantity.ofInt 0 := by
    rw [seconds_eq, ofInt_eq, Int.cast_zero, not_le]
    positivity
  refine (if_neg hneg).trans ?_
  rw [seconds_eq, min_def_lt]
  rfl

/-- Time has been credited up to the latest clock reading. -/
theorem lastRefill_refill : (b.refill now).lastRefill = max b.lastRefill now := by
  rcases le_or_gt now b.lastRefill with h | h
  · rw [refill_of_le h, max_eq_left h]
  · rw [refill_of_lt h, max_eq_right h.le]

/-- What is credited is at most what the rate in force pays for the time between both readings. -/
theorem tokens_refill_le :
    (b.refill now).tokens ≤ b.tokens +
      (((b.refill now).lastRefill - b.lastRefill : Int) : ℚ) / 10 ^ 9 * b.limit.rate := by
  rcases le_or_gt now b.lastRefill with h | h
  · rw [refill_of_le h]
    simp
  · rw [refill_of_lt h]
    exact min_le_right _ _

/-- A refill never leaves more than there was or than there is room for. -/
theorem tokens_refill_le_max : (b.refill now).tokens ≤ max b.tokens b.limit.burst.toNat := by
  rcases le_or_gt now b.lastRefill with h | h
  · rw [refill_of_le h]
    exact le_max_left _ _
  · rw [refill_of_lt h]
    exact (min_le_left _ _).trans (le_max_right _ _)

variable {b} in
theorem tokens_refill_nonneg (htokens : 0 ≤ b.tokens) (hrate : 0 ≤ b.limit.rate) :
    0 ≤ (b.refill now).tokens := by
  rcases le_or_gt now b.lastRefill with h | h
  · rwa [refill_of_le h]
  · rw [refill_of_lt h]
    have hpos : 0 ≤ ((now - b.lastRefill : Int) : ℚ) := by
      exact_mod_cast Int.sub_nonneg_of_le h.le
    exact le_min (Nat.cast_nonneg _) (by positivity)

variable {b} in
/-- Time is credited alike in two parts and at once. -/
theorem refill_refill (hrate : 0 ≤ b.limit.rate) {earlier later : Int} (h : earlier ≤ later) :
    (b.refill earlier).refill later = b.refill later := by
  rcases le_or_gt earlier b.lastRefill with hmark | hmark
  · rw [refill_of_le hmark]
  rcases h.eq_or_lt with rfl | hlt
  · refine refill_of_le ?_
    rw [lastRefill_refill]
    exact le_max_right _ _
  · rw [refill_of_lt hmark, refill_of_lt hlt, refill_of_lt (hmark.trans hlt)]
    have hgain : 0 ≤ ((later - earlier : Int) : ℚ) / 10 ^ 9 * b.limit.rate := by
      have : 0 ≤ ((later - earlier : Int) : ℚ) := by exact_mod_cast Int.sub_nonneg_of_le h
      positivity
    -- a bucket that was full in between is full again
    dsimp only
    rw [← min_add_add_right, ← min_assoc, min_eq_left (le_add_of_nonneg_right hgain)]
    congr 2
    push_cast
    ring

/-! ## Uses -/

variable {now} in
/-- A use that takes a clock reading refills the bucket and hands out what it takes from it. -/
theorem act_of_reading? {u : Use ℚ} (h : u.reading? = some now) :
    (b.act u).tokens = (b.refill now).tokens - b.handedOut u ∧
      (b.act u).lastRefill = (b.refill now).lastRefill ∧
      (b.act u).limit = b.limit ∧
      (0 ≤ (b.refill now).tokens → (b.handedOut u : ℚ) ≤ (b.refill now).tokens) := by
  have hone : (Quantity.ofInt 1 : ℚ) = 1 := by rw [ofInt_eq, Int.cast_one]
  cases u with
  | configure limit => cases h
  | available now' =>
    cases h
    refine ⟨?_, rfl, limit_refill b now, ?_⟩
    · exact (sub_zero _).symm
    · simp [handedOut]
  | allow now' =>
    cases h
    unfold act handedOut allow take?
    dsimp only
    rw [hone]
    by_cases htoken : 1 ≤ (b.refill now).tokens
    · simp [htoken, limit_refill]
    · simp [htoken, limit_refill]
  | attempt now' =>
    cases h
    unfold act handedOut attempt take?
    dsimp only
    rw [hone]
    by_cases htoken : 1 ≤ (b.refill now).tokens
    · simp [htoken, limit_refill]
    · simp [htoken, limit_refill]

end TokenBucket

end RoverControl
