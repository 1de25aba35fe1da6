import Mathlib.Order.Bounds.Basic
import RoverControl.Proofs.Rate.Bound
import RoverControl.Proofs.Rate.Session

/-!
# Waiting for a token

A refilled bucket without a token has one as soon as the time that it is short of has passed
(`one_le_tokens_refill_iff`), which is the time that it asks to sleep, rounded up to nanoseconds.
So a wait on a clock that the sleeper moves on exactly ends after no sleep or after one, which is as
short as can be (`await_sleeps_least`).
-/

namespace RoverControl

/-- The sleeper has room for a sleep, and moves the clock on by the very time that it is asked
for. -/
structure Timeline.SleepsExactly (t : Timeline) : Prop where
  mode : t.mode = .advance
  bound : t.bound = none
  sleepsLeft : 0 < t.sleepsLeft

theorem Timeline.SleepsExactly.sleep {t : Timeline} (h : t.SleepsExactly) (nanoseconds : Int) :
    t.sleep nanoseconds = .woke { t with
      now := t.now + nanoseconds
      events := t.events ++ [.sleep nanoseconds]
      sleepsLeft := t.sleepsLeft - 1 } := by
  obtain ⟨hmode, hbound, hleft⟩ := h
  obtain ⟨left, hleft⟩ := Nat.exists_eq_add_one_of_ne_zero hleft.ne'
  simp [Timeline.sleep, hleft, hmode, Timeline.elapse, Timeline.setClock, Timeline.clip,
    Timeline.note, hbound]

namespace TokenBucket

/-! ## Attempts -/

section Attempts

variable {α : Type} [Quantity α] {b b' : TokenBucket α} {t t' : Timeline}

theorem await_of_taken (h : b.attempt t.now = .taken b') : b.await t = ⟨none, b', t⟩ := by
  rw [await, h]

theorem await_of_wait {nanoseconds : Int} (h : b.attempt t.now = .wait nanoseconds b')
    (hsleep : t.sleep nanoseconds = .woke t') : b.await t = b'.await t' := by
  rw [await, h]
  dsimp only
  split
  · rename_i woken hwoken
    rw [hsleep] at hwoken
    cases hwoken
    rfl
  · rename_i why woken hfault
    rw [hsleep] at hfault
    cases hfault

/-- Refilling takes no notice of how many waits there were. -/
theorem refill_waits (b : TokenBucket α) (waits : Nat) (now : Int) :
    { b with waits }.refill now = { b.refill now with waits } := by
  unfold refill
  dsimp only
  split <;> rfl

end Attempts

open Exact

variable {b : TokenBucket ℚ} {now : Int} {t : Timeline}

theorem attempt_of_one_le (h : 1 ≤ (b.refill now).tokens) :
    b.attempt now = .taken { b.refill now with
      tokens := (b.refill now).tokens - 1
      admits := (b.refill now).admits + 1 } := by
  have hone : (Quantity.ofInt 1 : ℚ) = 1 := Int.cast_one
  unfold attempt take?
  simp only [hone, if_pos h]

theorem attempt_of_lt_one (h : (b.refill now).tokens < 1) :
    b.attempt now = .wait (Quantity.sleepTime (b.refill now).waitTime)
      { b.refill now with waits := (b.refill now).waits + 1 } := by
  have hone : (Quantity.ofInt 1 : ℚ) = 1 := Int.cast_one
  unfold attempt take?
  simp only [hone, if_neg (not_le.2 h)]

/-! ## The time that a bucket is short of -/

/-- The time until there is a token, in nanoseconds. -/
def shortOf (b : TokenBucket ℚ) : ℚ := (1 - b.tokens) / b.limit.rate * 10 ^ 9

theorem shortOf_pos (hrate : 0 < b.limit.rate) (htokens : b.tokens < 1) : 0 < b.shortOf := by
  have : 0 < 1 - b.tokens := sub_pos.2 htokens
  unfold shortOf
  positivity

/-- A bucket asks to sleep for the time that it is short of, rounded up to nanoseconds. -/
theorem sleepTime_waitTime (hrate : 0 < b.limit.rate) (htokens : b.tokens < 1)
    (hlong : (⌈b.shortOf⌉₊ : ℤ) < Quantity.longestSleep) :
    Quantity.sleepTime b.waitTime = ⌈b.shortOf⌉₊ := by
  have hmissing : 0 < 1 - b.tokens := sub_pos.2 htokens
  have hwait : b.waitTime = (1 - b.tokens) / b.limit.rate := by
    unfold waitTime
    simp only [ofInt_eq, Int.cast_zero, Int.cast_one, if_pos hmissing, if_pos hrate]
  have hshort : b.waitTime * 10 ^ 9 = b.shortOf := by rw [hwait, shortOf]
  have hpos : 0 < b.waitTime := by
    rw [hwait]
    positivity
  -- the time is below the longest one already before it is rounded up
  have hbelow : ¬ (Quantity.seconds Quantity.longestSleep : ℚ) ≤ b.waitTime := by
    rw [seconds_eq, not_le, lt_div_iff₀ (by positivity), hshort]
    refine (Nat.le_ceil _).trans_lt ?_
    exact_mod_cast hlong
  unfold Quantity.sleepTime
  rw [ofInt_eq, Int.cast_zero, if_pos hpos, if_neg hbelow]
  show ⌈b.waitTime * ((1000000000 : Int) : ℚ)⌉ = _
  rw [Int.natCast_ceil_eq_ceil (shortOf_pos hrate htokens).le, ← hshort]
  norm_num

/-- A bucket without a token has one exactly when the time that it is short of has passed. -/
theorem one_le_tokens_refill_iff (hvalid : b.limit.isValid = true) (htokens : b.tokens < 1)
    {k : ℕ} : 1 ≤ (b.refill (b.lastRefill + k)).tokens ↔ ⌈b.shortOf⌉₊ ≤ k := by
  obtain ⟨hrate, hburst⟩ := isValid_iff.1 hvalid
  rw [Nat.ceil_le]
  rcases Nat.eq_zero_or_pos k with rfl | hk
  · have hshort := shortOf_pos hrate htokens
    rw [refill_of_le (by simp), Nat.cast_zero]
    exact iff_of_false (not_le.2 htokens) (not_le.2 hshort)
  · have hfull : (1 : ℚ) ≤ b.limit.burst.toNat := by exact_mod_cast hburst
    rw [refill_of_lt (by omega), add_sub_cancel_left, shortOf]
    show 1 ≤ min (b.limit.burst.toNat : ℚ) (b.tokens + ((k : ℤ) : ℚ) / 10 ^ 9 * b.limit.rate) ↔ _
    rw [le_min_iff, and_iff_right hfull, Int.cast_natCast, div_mul_eq_mul_div,
      ← sub_le_iff_le_add', le_div_iff₀ (by positivity), div_mul_eq_mul_div, div_le_iff₀ hrate]

/-! ## Reachable buckets -/

/-- A limit that can be used, and no debt. -/
structure Sound (b : TokenBucket ℚ) : Prop where
  isValid : b.limit.isValid = true
  nonneg : 0 ≤ b.tokens

theorem sound_new {limit : RateLimit ℚ} (hlimit : limit.isValid = true) (start : Int) :
    Sound (new limit start) :=
  ⟨hlimit, (stocked_new hlimit le_rfl start).nonneg⟩

theorem Sound.act (hb : Sound b) (u : Use ℚ) : Sound (b.act u) := by
  have hstocked : Stocked (max b.tokens b.limit.burst.toNat) b :=
    ⟨hb.isValid, hb.nonneg, le_max_left _ _⟩
  have hnext := hstocked.act (le_max_right _ _) u
  exact ⟨hnext.isValid, hnext.nonneg⟩

theorem Sound.run (hb : Sound b) (uses : List (Use ℚ)) : Sound (b.run uses) := by
  induction uses generalizing b with
  | nil => exact hb
  | cons u rest ih => exact ih (hb.act u)

theorem foldl_max_le {readings : List Int} {mark : Int} (hmark : mark ≤ now)
    (hreadings : ∀ reading ∈ readings, reading ≤ now) : readings.foldl max mark ≤ now := by
  induction readings generalizing mark with
  | nil => exact hmark
  | cons reading rest ih =>
    obtain ⟨hfirst, hrest⟩ := List.forall_mem_cons.1 hreadings
    exact ih (max_le hmark hfirst) hrest

/-! ## Waits -/

/-- The record of a wait of some nanoseconds: none, or one sleep. -/
def sleepsOf (nanoseconds : ℕ) : List Event :=
  if nanoseconds = 0 then [] else [.sleep nanoseconds]

/-- A wait that ends with a token after some nanoseconds and at most one sleep. -/
def awaitedAfter (b : TokenBucket ℚ) (t : Timeline) (nanoseconds : ℕ) : Awaited ℚ :=
  let ready := b.refill (t.now + nanoseconds)
  let sleeps := sleepsOf nanoseconds
  { fault := none
    bucket := { ready with
      tokens := ready.tokens - 1
      admits := b.admits + 1
      waits := b.waits + sleeps.length }
    time := { t with
      now := t.now + nanoseconds
      events := t.events ++ sleeps
      sleepsLeft := t.sleepsLeft - sleeps.length } }

theorem await_of_one_le (h : 1 ≤ (b.refill t.now).tokens) : b.await t = b.awaitedAfter t 0 := by
  obtain ⟨hadmits, -, hwaits⟩ := counts_refill b t.now
  rw [await_of_taken (attempt_of_one_le h), hadmits]
  simp [awaitedAfter, sleepsOf, hwaits]

/-- A wait without a token at hand ends after one sleep for the time that the bucket is short of. -/
theorem await_of_lt_one (hb : Sound b) (hclock : b.lastRefill ≤ t.now) (hsleep : t.SleepsExactly)
    (h : (b.refill t.now).tokens < 1) {d : ℕ} (hd : d = ⌈(b.refill t.now).shortOf⌉₊)
    (hlong : (d : ℤ) < Quantity.longestSleep) : b.await t = b.awaitedAfter t d := by
  have hfull : Sound (b.refill t.now) := hb.act (.available t.now)
  have hrate := (isValid_iff.1 hfull.isValid).1
  have hmark : (b.refill t.now).lastRefill = t.now := by
    rw [lastRefill_refill, max_eq_right hclock]
  have hne : d ≠ 0 := by
    rw [hd]
    exact (Nat.ceil_pos.2 (shortOf_pos hrate h)).ne'
  have hfirst : b.attempt t.now =
      .wait d { b.refill t.now with waits := (b.refill t.now).waits + 1 } := by
    rw [attempt_of_lt_one h, sleepTime_waitTime hrate h (hd ▸ hlong), hd]
  rw [await_of_wait hfirst (hsleep.sleep d)]
  -- after the sleep the bucket is refilled as if it had not been refilled before
  have hready : { b.refill t.now with waits := (b.refill t.now).waits + 1 }.refill (t.now + d) =
      { b.refill (t.now + d) with waits := b.waits + 1 } := by
    have hrefill := refill_refill (b := b) (isValid_iff.1 hb.isValid).1.le
      (show t.now ≤ t.now + d by omega)
    rw [refill_waits, hrefill, (b.counts_refill t.now).2.2]
  have htoken : 1 ≤ (b.refill (t.now + d)).tokens := by
    have hone := (one_le_tokens_refill_iff hfull.isValid h (k := d)).2 hd.ge
    rwa [hmark, refill_refill (isValid_iff.1 hb.isValid).1.le (by omega)] at hone
  rw [await_of_taken (attempt_of_one_le (by rwa [hready]))]
  dsimp only
  rw [hready]
  simp [awaitedAfter, sleepsOf, hne, (b.counts_refill (t.now + d)).1]

/-- A bucket that is built with a limit that can be used, and used in whatever way on a clock that
does not go back: a wait for a token takes the least whole number of nanoseconds after which there
is a token, in one sleep, or none if there is a token at once.  It takes this one token, and counts
one admission and its sleeps.  The number has to be below the longest sleep there is. -/
theorem await_sleeps_least {limit : RateLimit ℚ} (hlimit : limit.isValid = true) (start : Int)
    (uses : List (Use ℚ)) {t : Timeline}
    (hclock : ∀ reading ∈ start :: readings uses, reading ≤ t.now) (hsleep : t.SleepsExactly) :
    let b := (new limit start).run uses
    ∃ d : ℕ, IsLeast {k : ℕ | 1 ≤ (b.refill (t.now + k)).tokens} d ∧
      ((d : ℤ) < Quantity.longestSleep → b.await t = b.awaitedAfter t d) := by
  intro b
  have hb : Sound b := (sound_new hlimit start).run uses
  obtain ⟨hstart, hreadings⟩ := List.forall_mem_cons.1 hclock
  have hmark : b.lastRefill ≤ t.now := by
    rw [lastRefill_run]
    exact foldl_max_le hstart hreadings
  rcases le_or_gt 1 (b.refill t.now).tokens with h | h
  · refine ⟨0, ⟨?_, fun k _ => Nat.zero_le k⟩, fun _ => await_of_one_le h⟩
    show 1 ≤ (b.refill (t.now + (0 : ℕ))).tokens
    rwa [Nat.cast_zero, add_zero]
  · have hfull : Sound (b.refill t.now) := hb.act (.available t.now)
    have hiff : ∀ k : ℕ, 1 ≤ (b.refill (t.now + k)).tokens ↔ ⌈(b.refill t.now).shortOf⌉₊ ≤ k := by
      intro k
      rw [← one_le_tokens_refill_iff hfull.isValid h, lastRefill_refill, max_eq_right hmark,
        refill_refill (isValid_iff.1 hb.isValid).1.le (by omega)]
    exact ⟨_, ⟨(hiff _).2 le_rfl, fun k hk => (hiff k).1 hk⟩,
      await_of_lt_one hb hmark hsleep h rfl⟩

/-- Three tokens a second, a tenth of a second after the only one was taken: the time that is
missing is no whole number of nanoseconds. -/
theorem await_sleeps_least_of_three_per_second :
    let limit : RateLimit ℚ := ⟨3, 1⟩
    let uses : List (Use ℚ) := [.allow 0, .configure ⟨0, 5⟩, .available 50000000]
    let t : Timeline := { Timeline.start none with now := 100000000 }
    let b := (new limit 0).run uses
    limit.isValid = true ∧ (∀ reading ∈ 0 :: readings uses, reading ≤ t.now) ∧ t.SleepsExactly ∧
      IsLeast {k : ℕ | 1 ≤ (b.refill (t.now + k)).tokens} 233333334 ∧
      b.await t = b.awaitedAfter t 233333334 := by
  intro limit uses t b
  have hlimit : limit.isValid = true := by decide +kernel
  have hclock : ∀ reading ∈ 0 :: readings uses, reading ≤ t.now := by decide +kernel
  have hsleep : t.SleepsExactly := ⟨rfl, rfl, by decide⟩
  obtain ⟨d, hleast, hawait⟩ := await_sleeps_least hlimit 0 uses hclock hsleep
  have hle : d ≤ 233333334 :=
    hleast.2 (show 1 ≤ (b.refill (t.now + (233333334 : ℕ))).tokens by decide +kernel)
  have hlong : (d : ℤ) < Quantity.longestSleep := by
    have : Quantity.longestSleep = 9223372036854775807 := rfl
    omega
  have hend : (b.await t).time.now = 333333334 := by decide +kernel
  rw [hawait hlong] at hend
  obtain rfl : d = 233333334 := by
    have : (100000000 : ℤ) + d = 333333334 := hend
    omega
  exact ⟨hlimit, hclock, hsleep, hleast, hawait hlong⟩

end TokenBucket

end RoverControl
