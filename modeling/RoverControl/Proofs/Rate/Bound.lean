import RoverControl.Proofs.Rate.Exact

/-!
# How many tokens a bucket hands out

Every use of a bucket pays for the time since the last refill at the rate in force, and only a
later clock reading moves the last refill on, so no time is paid for twice
(`tokens_add_handedOut_le`).  A run therefore hands out no more than what was saved up and what
the time that it covers is worth (`consumption_bounded`), whatever the clock does.
-/

namespace RoverControl

namespace TokenBucket

open Exact

variable {C R : ℚ} {b : TokenBucket ℚ} {uses : List (Use ℚ)}

/-! ## One use -/

/-- A limit that can be used, and tokens between none and `C`. -/
structure Stocked (C : ℚ) (b : TokenBucket ℚ) : Prop where
  isValid : b.limit.isValid = true
  nonneg : 0 ≤ b.tokens
  le : b.tokens ≤ C

theorem reading?_cases (u : Use ℚ) :
    (∃ now, u.reading? = some now) ∨ ∃ limit, u = .configure limit := by
  cases u with
  | allow now | attempt now | available now => exact Or.inl ⟨now, rfl⟩
  | configure limit => exact Or.inr ⟨limit, rfl⟩

/-- A change of the limit touches nothing else, and the limit stays one that can be used. -/
theorem act_configure (b : TokenBucket ℚ) (limit : RateLimit ℚ) :
    (b.act (.configure limit)).tokens = b.tokens ∧
      (b.act (.configure limit)).lastRefill = b.lastRefill ∧
      (b.limit.isValid = true → (b.act (.configure limit)).limit.isValid = true) := by
  have hact : b.act (.configure limit) = if limit.isValid then { b with limit } else b := by
    show (b.configure limit).getD b = _
    unfold configure
    split <;> rfl
  rw [hact]
  split
  · rename_i hlimit
    exact ⟨rfl, rfl, fun _ => hlimit⟩
  · exact ⟨rfl, rfl, id⟩

theorem lastRefill_act (b : TokenBucket ℚ) (u : Use ℚ) :
    (b.act u).lastRefill = u.reading?.toList.foldl max b.lastRefill := by
  rcases reading?_cases u with ⟨now, hnow⟩ | ⟨limit, rfl⟩
  · rw [(b.act_of_reading? hnow).2.1, lastRefill_refill, hnow]
    rfl
  · exact (b.act_configure limit).2.1

theorem le_foldl_max (readings : List Int) (mark : Int) : mark ≤ readings.foldl max mark := by
  induction readings generalizing mark with
  | nil => exact le_refl _
  | cons now rest ih => exact (le_max_left mark now).trans (ih _)

theorem lastRefill_le_act (b : TokenBucket ℚ) (u : Use ℚ) :
    b.lastRefill ≤ (b.act u).lastRefill := by
  rw [lastRefill_act]
  exact le_foldl_max _ _

/-- What a use adds and hands out is paid for by the time that it credits. -/
theorem tokens_add_handedOut_le (b : TokenBucket ℚ) (u : Use ℚ) :
    (b.act u).tokens + b.handedOut u ≤
      b.tokens + (((b.act u).lastRefill - b.lastRefill : Int) : ℚ) / 10 ^ 9 * b.limit.rate := by
  rcases reading?_cases u with ⟨now, hnow⟩ | ⟨limit, rfl⟩
  · obtain ⟨htokens, hmark, -, -⟩ := b.act_of_reading? hnow
    rw [htokens, hmark, sub_add_cancel]
    exact b.tokens_refill_le now
  · obtain ⟨htokens, hmark, -⟩ := b.act_configure limit
    rw [htokens, hmark]
    simp [handedOut]

theorem Stocked.act (hb : Stocked C b) (hburst : (b.limit.burst.toNat : ℚ) ≤ C) (u : Use ℚ) :
    Stocked C (b.act u) := by
  rcases reading?_cases u with ⟨now, hnow⟩ | ⟨limit, rfl⟩
  · obtain ⟨htokens, -, hlimit, hle⟩ := b.act_of_reading? hnow
    have hrate := (isValid_iff.1 hb.isValid).1
    have hnonneg : 0 ≤ (b.refill now).tokens := tokens_refill_nonneg now hb.nonneg hrate.le
    have hC : (b.refill now).tokens ≤ C :=
      (b.tokens_refill_le_max now).trans (max_le hb.le hburst)
    have hcount : (0 : ℚ) ≤ b.handedOut u := Nat.cast_nonneg _
    refine ⟨?_, ?_, ?_⟩
    · rw [hlimit]
      exact hb.isValid
    · rw [htokens]
      exact sub_nonneg.2 (hle hnonneg)
    · rw [htokens]
      linarith
  · obtain ⟨htokens, -, hvalid⟩ := b.act_configure limit
    exact ⟨hvalid hb.isValid, htokens ▸ hb.nonneg, htokens ▸ hb.le⟩

/-! ## Runs -/

/-- At every time of a run the burst in force is at most `C` and the rate in force at most `R`. -/
def LimitsWithin (C R : ℚ) (b : TokenBucket ℚ) (uses : List (Use ℚ)) : Prop :=
  ∀ pre, pre <+: uses → ((b.run pre).limit.burst.toNat : ℚ) ≤ C ∧ (b.run pre).limit.rate ≤ R

theorem LimitsWithin.run {pre : List (Use ℚ)} (h : LimitsWithin C R b (pre ++ uses)) :
    LimitsWithin C R (b.run pre) uses := by
  intro pre' hpre'
  rw [← run_append]
  exact h _ (List.prefix_append_right_inj pre |>.2 hpre')

theorem LimitsWithin.of_append {post : List (Use ℚ)} (h : LimitsWithin C R b (uses ++ post)) :
    LimitsWithin C R b uses :=
  fun pre hpre => h pre (hpre.trans (List.prefix_append uses post))

theorem LimitsWithin.head (h : LimitsWithin C R b uses) :
    (b.limit.burst.toNat : ℚ) ≤ C ∧ b.limit.rate ≤ R :=
  h [] List.nil_prefix

theorem LimitsWithin.tail {u : Use ℚ} (h : LimitsWithin C R b (u :: uses)) :
    LimitsWithin C R (b.act u) uses := by
  have h : LimitsWithin C R b ([u] ++ uses) := h
  exact h.run

/-- The limits in force are the first one and those that replaced it. -/
theorem limitsWithin_of_forall (hfirst : (b.limit.burst.toNat : ℚ) ≤ C ∧ b.limit.rate ≤ R)
    (h : ∀ limit, .configure limit ∈ uses → limit.isValid = true →
      (limit.burst.toNat : ℚ) ≤ C ∧ limit.rate ≤ R) : LimitsWithin C R b uses := by
  induction uses generalizing b with
  | nil =>
    intro pre hpre
    rw [List.prefix_nil.1 hpre]
    exact hfirst
  | cons u rest ih =>
    have hnext : ((b.act u).limit.burst.toNat : ℚ) ≤ C ∧ (b.act u).limit.rate ≤ R := by
      rcases b.limit_act u with hlimit | ⟨limit, rfl, hvalid, hlimit⟩
      · rwa [hlimit]
      · rw [hlimit]
        exact h limit List.mem_cons_self hvalid
    intro pre hpre
    rcases List.prefix_cons_iff.1 hpre with rfl | ⟨pre, rfl, htail⟩
    · exact hfirst
    · exact ih hnext (fun limit hmem => h limit (List.mem_cons_of_mem u hmem)) pre htail

/-- The clock readings of a run, in order. -/
def readings (uses : List (Use ℚ)) : List Int := uses.filterMap Use.reading?

theorem readings_cons (u : Use ℚ) (uses : List (Use ℚ)) :
    readings (u :: uses) = u.reading?.toList ++ readings uses := by
  unfold readings
  rw [List.filterMap_cons]
  rcases u.reading? with _ | now <;> rfl

theorem lastRefill_run (b : TokenBucket ℚ) (uses : List (Use ℚ)) :
    (b.run uses).lastRefill = (readings uses).foldl max b.lastRefill := by
  induction uses generalizing b with
  | nil => rfl
  | cons u rest ih => rw [run_cons, ih, lastRefill_act, readings_cons, List.foldl_append]

theorem Stocked.run (hb : Stocked C b) (h : LimitsWithin C R b uses) : Stocked C (b.run uses) := by
  induction uses generalizing b with
  | nil => exact hb
  | cons u rest ih => exact ih (hb.act h.head.1 u) h.tail

/-- A run pays for the time that it credits at the highest rate. -/
theorem tokens_add_consumed_le (h : LimitsWithin C R b uses) :
    (b.run uses).tokens + b.consumed uses ≤
      b.tokens + (((b.run uses).lastRefill - b.lastRefill : Int) : ℚ) / 10 ^ 9 * R := by
  induction uses generalizing b with
  | nil => simp [TokenBucket.run, consumed]
  | cons u rest ih =>
    have hrest := ih h.tail
    have hstep := b.tokens_add_handedOut_le u
    have htime : (0 : ℚ) ≤ (((b.act u).lastRefill - b.lastRefill : Int) : ℚ) / 10 ^ 9 := by
      have : (0 : ℚ) ≤ (((b.act u).lastRefill - b.lastRefill : Int) : ℚ) := by
        exact_mod_cast Int.sub_nonneg_of_le (b.lastRefill_le_act u)
      positivity
    have hrate := mul_le_mul_of_nonneg_left h.head.2 htime
    rw [run_cons, consumed]
    push_cast at *
    linarith

/-! ## Segments -/

/-- The time from the first clock reading of a segment to its latest one, in nanoseconds. -/
def span (segment : List (Use ℚ)) : Int :=
  match readings segment with
  | [] => 0
  | first :: rest => rest.foldl max first - first

/-- Time that starts later does not last longer. -/
theorem foldl_max_sub_le {first mark : Int} (h : first ≤ mark) (rest : List Int) :
    rest.foldl max mark - mark ≤ rest.foldl max first - first := by
  induction rest generalizing first mark with
  | nil => simp
  | cons now rest ih =>
    have hrest := ih (max_le_max_right now h)
    have hmax : max mark now - mark ≤ max first now - first := by omega
    simp only [List.foldl_cons]
    omega

/-- A segment hands out no more than a full bucket and what its time is worth. -/
theorem consumed_le (hb : Stocked C b) (h : LimitsWithin C R b uses) :
    (b.consumed uses : ℚ) ≤ C + R * (span uses / 10 ^ 9) := by
  induction uses generalizing b with
  | nil =>
    have hC : 0 ≤ C := hb.nonneg.trans hb.le
    simpa [consumed, span, readings] using hC
  | cons u rest ih =>
    have hnext := hb.act h.head.1 u
    rcases reading?_cases u with ⟨first, hfirst⟩ | ⟨limit, rfl⟩
    · -- after the first refill there is no more than `C`, and later on only later time is paid for
      obtain ⟨htokens, hmark, -, -⟩ := b.act_of_reading? hfirst
      have hC : (b.refill first).tokens ≤ C :=
        (b.tokens_refill_le_max first).trans (max_le hb.le h.head.1)
      have hpaid := tokens_add_consumed_le h.tail
      have hleft := (hnext.run h.tail).nonneg
      have htime : ((b.act u).run rest).lastRefill - (b.act u).lastRefill ≤ span (u :: rest) := by
        rw [span, readings_cons, hfirst, lastRefill_run]
        refine foldl_max_sub_le ?_ _
        rw [hmark, lastRefill_refill]
        exact le_max_right _ _
      have hrate : 0 ≤ R := (isValid_iff.1 hb.isValid).1.le.trans h.head.2
      have hworth :
          ((((b.act u).run rest).lastRefill - (b.act u).lastRefill : Int) : ℚ) / 10 ^ 9 * R ≤
            R * (span (u :: rest) / 10 ^ 9) := by
        rw [mul_comm]
        refine mul_le_mul_of_nonneg_left ?_ hrate
        exact div_le_div_of_nonneg_right (by exact_mod_cast htime) (by positivity)
      rw [consumed]
      push_cast at *
      linarith
    · have hspan : span (.configure limit :: rest) = span rest := rfl
      rw [hspan, consumed]
      simpa [handedOut] using ih hnext h.tail

theorem stocked_new {limit : RateLimit ℚ} (hlimit : limit.isValid = true)
    (hburst : (limit.burst.toNat : ℚ) ≤ C) (now : Int) : Stocked C (new limit now) where
  isValid := hlimit
  nonneg := by
    show (0 : ℚ) ≤ ((limit.burst.toNat : Int) : ℚ)
    positivity
  le := by
    show ((limit.burst.toNat : Int) : ℚ) ≤ C
    exact_mod_cast hburst

/-- In every run of a bucket that is built with a limit that can be used, where the bursts in force
are at most `C` and the rates in force at most `R`: every segment hands out at most `C` tokens and
`R` for each second between its first and its latest clock reading; there are between none and `C`
tokens after every use; and every use adds and hands out at most what the rate in force pays for the
time from one mark to a later one, where the next use goes on.  The clock may stand still, jump or
go back. -/
theorem consumption_bounded {C R : ℚ} {limit : RateLimit ℚ} (hlimit : limit.isValid = true)
    (start : Int) (uses : List (Use ℚ)) (h : LimitsWithin C R (new limit start) uses) :
    (∀ before segment after, uses = before ++ segment ++ after →
      (((new limit start).run before).consumed segment : ℚ) ≤ C + R * (span segment / 10 ^ 9)) ∧
    (∀ before after, uses = before ++ after →
      0 ≤ ((new limit start).run before).tokens ∧ ((new limit start).run before).tokens ≤ C) ∧
    ∀ before u after, uses = before ++ u :: after →
      let b := (new limit start).run before
      b.lastRefill ≤ (b.act u).lastRefill ∧
        (b.act u).tokens + b.handedOut u ≤
          b.tokens + b.limit.rate * (((b.act u).lastRefill - b.lastRefill : Int) / 10 ^ 9) := by
  have hnew : Stocked C (new limit start) := stocked_new hlimit h.head.1 start
  refine ⟨?_, ?_, ?_⟩
  · rintro before segment after rfl
    exact consumed_le (hnew.run h.of_append.of_append) h.of_append.run
  · rintro before after rfl
    have hstocked := hnew.run h.of_append
    exact ⟨hstocked.nonneg, hstocked.le⟩
  · rintro before u after rfl
    refine ⟨lastRefill_le_act _ u, ?_⟩
    rw [mul_comm]
    exact tokens_add_handedOut_le _ u

/-- A run with a clock that stands still, goes back and jumps, a limit that is raised and one that
is refused. -/
def jumpyUses : List (Use ℚ) :=
  [.allow 0, .allow 0, .allow (-5000000000), .configure ⟨4, 2⟩, .configure ⟨-1, 9⟩,
    .attempt 2000000000, .available 1000000000, .attempt 2250000000, .allow 2250000000]

theorem consumption_bounded_jumpy :
    (⟨1 / 2, 3⟩ : RateLimit ℚ).isValid = true ∧ LimitsWithin 3 4 (new ⟨1 / 2, 3⟩ 0) jumpyUses ∧
      ((new ⟨1 / 2, 3⟩ 0).consumed jumpyUses : ℚ) ≤ 3 + 4 * (span jumpyUses / 10 ^ 9) := by
  have hvalid : (⟨1 / 2, 3⟩ : RateLimit ℚ).isValid = true := isValid_iff.2 ⟨by norm_num, by decide⟩
  have hlimits : LimitsWithin 3 4 (new ⟨1 / 2, 3⟩ 0) jumpyUses := by
    have hthree : (3 : UInt32).toNat ≤ 3 := by decide
    have htwo : (2 : UInt32).toNat ≤ 3 := by decide
    refine limitsWithin_of_forall ⟨?_, ?_⟩ fun limit hmem hlimit => ?_
    · exact_mod_cast hthree
    · norm_num [new]
    · simp only [jumpyUses, List.mem_cons, reduceCtorEq, Use.configure.injEq, List.not_mem_nil,
        false_or, or_false] at hmem
      rcases hmem with rfl | rfl
      · exact ⟨by exact_mod_cast htwo, le_rfl⟩
      · exact absurd (isValid_iff.1 hlimit).1 (by norm_num)
  exact ⟨hvalid, hlimits,
    (consumption_bounded hvalid 0 jumpyUses hlimits).1 [] jumpyUses [] (by simp)⟩

end TokenBucket

end RoverControl
