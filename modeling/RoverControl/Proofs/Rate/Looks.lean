import RoverControl.Proofs.Rate.Bound
import RoverControl.Proofs.Rate.Session

/-!
# Looking at the tokens

Time is credited alike however often a bucket is looked at, as long as the limit stays
(`refill_refill`).  So looks can be inserted into a run without being noticed, unless one of them
credits time at a limit that is changed before the run itself reads the clock again
(`looks_go_unnoticed`): without that look, the time would be credited at the new limit
(`look_before_change_is_noticed`).
-/

namespace RoverControl

deriving instance DecidableEq for RateLimit

namespace TokenBucket

open Exact

/-! ## Runs with looks -/

/-- An operation of a run, or a look at the tokens that is inserted into it. -/
inductive Entry (α : Type) where
  | own (operation : Operation α)
  | look

/-- What is carried out for an entry. -/
def Entry.operation {α : Type} : Entry α → Operation α
  | .own operation => operation
  | .look => .available

/-- The operation that belongs to the run without looks. -/
def Entry.own? {α : Type} : Entry α → Option (Operation α)
  | .own operation => some operation
  | .look => none

/-- The run without looks. -/
abbrev own {α : Type} (entries : List (Entry α)) : List (Operation α) :=
  entries.filterMap Entry.own?

/-- The run with looks. -/
abbrev watched {α : Type} (entries : List (Entry α)) : List (Operation α) :=
  entries.map Entry.operation

/-- The limit in force when operations read the clock for the first time, if they do. -/
def limitAhead (limit : RateLimit ℚ) : List (Operation ℚ) → Option (RateLimit ℚ)
  | [] => none
  | .configure new :: rest => limitAhead (if new.isValid then new else limit) rest
  | .time _ :: rest => limitAhead limit rest
  | .allow :: _ | .attempt :: _ | .await :: _ | .available :: _ => some limit

namespace Session

/-- The answers to the operations of the run, which is carried out with its looks. -/
def ownAnswers (s : Session ℚ) : List (Entry ℚ) → List (Answer ℚ)
  | [] => []
  | .own operation :: rest => (s.perform operation).1 :: (s.perform operation).2.ownAnswers rest
  | .look :: rest => (s.perform .available).2.ownAnswers rest

/-- A look that is followed by `after` may go unnoticed: there is no time to be credited, or it is
credited at the limit that is in force when the run itself reads the clock next. -/
def LooksInTime (s : Session ℚ) (after : List (Entry ℚ)) : Prop :=
  s.time.now ≤ s.bucket.lastRefill ∨
    ∀ limit ∈ limitAhead s.bucket.limit (own after), limit = s.bucket.limit

instance (s : Session ℚ) (after : List (Entry ℚ)) : Decidable (s.LooksInTime after) :=
  inferInstanceAs (Decidable (_ ∨ _))

/-- No look credits time at a limit that is changed before the run itself reads the clock. -/
def LimitsWaitForLooks (s : Session ℚ) (entries : List (Entry ℚ)) : Prop :=
  ∀ before after, entries = before ++ .look :: after → (s.run (watched before)).LooksInTime after

theorem limitsWaitForLooks_nil (s : Session ℚ) : s.LimitsWaitForLooks [] := by
  intro before after h
  simp at h

theorem limitsWaitForLooks_cons {s : Session ℚ} {entry : Entry ℚ} {rest : List (Entry ℚ)} :
    s.LimitsWaitForLooks (entry :: rest) ↔
      (entry = .look → s.LooksInTime rest) ∧
        (s.perform entry.operation).2.LimitsWaitForLooks rest := by
  constructor
  · refine fun h => ⟨?_, ?_⟩
    · rintro rfl
      exact h [] rest rfl
    · rintro before after rfl
      exact h (entry :: before) after rfl
  · rintro ⟨hfirst, hrest⟩ before after heq
    rcases before with _ | ⟨first, before⟩
    · obtain ⟨rfl, rfl⟩ := List.cons_eq_cons.1 heq
      exact hfirst rfl
    · obtain ⟨rfl, htail⟩ := List.cons_eq_cons.1 heq
      exact hrest before after htail

theorem limitsWaitForLooks_own {s : Session ℚ} {operation : Operation ℚ} {rest : List (Entry ℚ)} :
    s.LimitsWaitForLooks (.own operation :: rest) ↔
      (s.perform operation).2.LimitsWaitForLooks rest :=
  limitsWaitForLooks_cons.trans (and_iff_right (by rintro ⟨⟩))

theorem limitsWaitForLooks_look {s : Session ℚ} {rest : List (Entry ℚ)} :
    s.LimitsWaitForLooks (.look :: rest) ↔
      s.LooksInTime rest ∧ (s.perform .available).2.LimitsWaitForLooks rest :=
  limitsWaitForLooks_cons.trans (and_congr_left' (imp_iff_right rfl))

/-! ## Agreement -/

/-- Two sessions differ in nothing but how much of the time has been credited, and from now on this
makes no difference at the limit `limit?`. -/
structure Agree (limit? : Option (RateLimit ℚ)) (s s' : Session ℚ) : Prop where
  time : s'.time = s.time
  limit : s'.bucket.limit = s.bucket.limit
  admits : s'.bucket.admits = s.bucket.admits
  drops : s'.bucket.drops = s.bucket.drops
  waits : s'.bucket.waits = s.bucket.waits
  refill : ∀ limit ∈ limit?, ∀ now, s.time.now ≤ now →
    { s.bucket with limit }.refill now = { s'.bucket with limit }.refill now

variable {s s' : Session ℚ} {limit? : Option (RateLimit ℚ)}

theorem Agree.refl (limit? : Option (RateLimit ℚ)) (s : Session ℚ) : Agree limit? s s :=
  ⟨rfl, rfl, rfl, rfl, rfl, fun _ _ _ _ => rfl⟩

/-- Operations that read the clock bring the sessions together. -/
theorem Agree.perform_of_readsClock {operation : Operation ℚ}
    (h : Agree (some s.bucket.limit) s s') (hreads : operation.readsClock = true) :
    s.perform operation = s'.perform operation := by
  refine perform_congr hreads h.time ?_
  have hrefill := h.refill s.bucket.limit rfl s.time.now le_rfl
  have hsame : { s'.bucket with limit := s.bucket.limit } = s'.bucket := by rw [← h.limit]
  rwa [hsame] at hrefill

theorem Agree.configure (h : Agree limit? s s') (new : RateLimit ℚ) :
    (s.perform (.configure new)).1 = (s'.perform (.configure new)).1 ∧
      Agree limit? (s.perform (.configure new)).2 (s'.perform (.configure new)).2 := by
  rw [perform_configure, perform_configure]
  refine ⟨rfl, ?_⟩
  by_cases hvalid : new.isValid = true
  · rw [if_pos hvalid, if_pos hvalid]
    exact ⟨h.time, rfl, h.admits, h.drops, h.waits, h.refill⟩
  · rwa [if_neg hvalid, if_neg hvalid]

theorem Agree.time_act (h : Agree limit? s s') {change : Timeline.Step}
    (hclock : s.time.now ≤ (s.time.act change).now) :
    Agree limit? (s.perform (.time change)).2 (s'.perform (.time change)).2 where
  time := congrArg (Timeline.act · change) h.time
  limit := h.limit
  admits := h.admits
  drops := h.drops
  waits := h.waits
  refill limit hlimit now hnow := h.refill limit hlimit now (hclock.trans hnow)

/-- A look in time leaves the sessions in agreement. -/
theorem Agree.look {after : List (Entry ℚ)}
    (h : Agree (limitAhead s'.bucket.limit (own after)) s s') (hrate : 0 ≤ s'.bucket.limit.rate)
    (hlook : s'.LooksInTime after) :
    Agree (limitAhead s'.bucket.limit (own after)) s (s'.perform .available).2 := by
  have hperform : (s'.perform .available).2 = ⟨s'.bucket.refill s'.time.now, s'.time⟩ := rfl
  obtain ⟨hadmits, hdrops, hwaits⟩ := counts_refill s'.bucket s'.time.now
  rw [hperform]
  refine ⟨h.time, (limit_refill _ _).trans h.limit, hadmits.trans h.admits,
    hdrops.trans h.drops, hwaits.trans h.waits, fun limit hlimit now hnow => ?_⟩
  rw [h.refill limit hlimit now hnow]
  rcases hlook with hmark | hsame
  · rw [refill_of_le hmark]
  · obtain rfl := hsame limit hlimit
    have hcredited : { s'.bucket.refill s'.time.now with limit := s'.bucket.limit } =
        s'.bucket.refill s'.time.now := by
      rw [← limit_refill s'.bucket s'.time.now]
    rw [hcredited, refill_refill hrate (h.time ▸ hnow)]

/-! ## Runs -/

theorem rate_nonneg_perform (hrate : 0 ≤ s.bucket.limit.rate) (operation : Operation ℚ) :
    0 ≤ (s.perform operation).2.bucket.limit.rate := by
  rcases s.limit_perform operation with h | ⟨limit, -, hvalid, h⟩
  · rwa [h]
  · rw [h]
    exact (isValid_iff.1 hvalid).1.le

/-- Operations that do not read the clock leave it open which limit is ahead. -/
theorem Agree.perform {operation : Operation ℚ} {rest : List (Operation ℚ)}
    (h : Agree (limitAhead s.bucket.limit (operation :: rest)) s s')
    (hclock : s.time.now ≤ (s.perform operation).2.time.now) :
    (s.perform operation).1 = (s'.perform operation).1 ∧
      Agree (limitAhead (s.perform operation).2.bucket.limit rest)
        (s.perform operation).2 (s'.perform operation).2 := by
  by_cases hreads : operation.readsClock = true
  · have hahead : limitAhead s.bucket.limit (operation :: rest) = some s.bucket.limit := by
      cases operation with
      | allow | attempt | await | available => rfl
      | configure _ | time _ => cases hreads
    rw [hahead] at h
    rw [h.perform_of_readsClock hreads]
    exact ⟨rfl, .refl _ _⟩
  · cases operation with
    | configure new =>
      have hahead : limitAhead (s.perform (.configure new)).2.bucket.limit rest =
          limitAhead s.bucket.limit (.configure new :: rest) := by
        rw [perform_configure, limitAhead]
        split <;> rfl
      rw [hahead]
      exact h.configure new
    | time change => exact ⟨rfl, h.time_act hclock⟩
    | _ => exact absurd rfl hreads

/-- Sessions in agreement give the same answers, one of them with looks in between, and end in
agreement. -/
theorem Agree.run {entries : List (Entry ℚ)}
    (h : Agree (limitAhead s.bucket.limit (own entries)) s s')
    (hrate : 0 ≤ s'.bucket.limit.rate) (hclock : s.ClockGoesOn (own entries))
    (hlooks : s'.LimitsWaitForLooks entries) :
    s'.ownAnswers entries = s.answers (own entries) ∧
      Agree none (s.run (own entries)) (s'.run (watched entries)) := by
  induction entries generalizing s s' with
  | nil => exact ⟨rfl, h.time, h.limit, h.admits, h.drops, h.waits, fun _ h => by cases h⟩
  | cons entry rest ih =>
    cases entry with
    | own operation =>
      obtain ⟨hfirst, hrest⟩ := clockGoesOn_cons.1 hclock
      obtain ⟨hanswer, hnext⟩ := h.perform hfirst
      obtain ⟨hanswers, hend⟩ := ih hnext (rate_nonneg_perform hrate operation) hrest
        (limitsWaitForLooks_own.1 hlooks)
      refine ⟨?_, hend⟩
      rw [ownAnswers, hanswers, ← hanswer]
      rfl
    | look =>
      obtain ⟨hlook, hlooks⟩ := limitsWaitForLooks_look.1 hlooks
      have hahead : own (.look :: rest) = own rest := rfl
      rw [hahead] at h hclock ⊢
      rw [← h.limit] at h
      have hnext := h.look hrate hlook
      rw [h.limit] at hnext
      exact ih hnext (rate_nonneg_perform hrate .available) hclock hlooks

end Session

/-! ## What can be noticed -/

theorem foldl_refill {b : TokenBucket ℚ} (hrate : 0 ≤ b.limit.rate) {looks : List Int} {now : Int}
    (hlooks : ∀ look ∈ looks, look ≤ now) : (looks.foldl refill b).refill now = b.refill now := by
  induction looks generalizing b with
  | nil => rfl
  | cons look rest ih =>
    obtain ⟨hlook, hrest⟩ := List.forall_mem_cons.1 hlooks
    rw [List.foldl_cons, ih (by rwa [limit_refill]) hrest, refill_refill hrate hlook]

/-- Changes of the limit credit no time. -/
theorem run_configure (b : TokenBucket ℚ) (limits : List (RateLimit ℚ)) :
    (b.run (limits.map .configure)).tokens = b.tokens ∧
      (b.run (limits.map .configure)).lastRefill = b.lastRefill := by
  induction limits generalizing b with
  | nil => exact ⟨rfl, rfl⟩
  | cons limit rest ih =>
    obtain ⟨htokens, hmark, -⟩ := b.act_configure limit
    exact ⟨(ih _).1.trans htokens, (ih _).2.trans hmark⟩

/-- Looks at the tokens may be inserted anywhere into a run whose clock does not go back, as long as
none of them credits time at a limit that is changed before the run itself reads the clock: all
answers, sleeps, counts and limits of the run stay as they are.  Time is credited alike however
often a bucket is refilled at one limit, and what has not been credited when the limit is changed is
credited at the limit that is in force at the next refill. -/
theorem looks_go_unnoticed {s : Session ℚ} (hrate : 0 ≤ s.bucket.limit.rate)
    {entries : List (Entry ℚ)} (hclock : s.ClockGoesOn (own entries))
    (hlooks : s.LimitsWaitForLooks entries) :
    (s.ownAnswers entries = s.answers (own entries) ∧
      let bare := s.run (own entries)
      let seen := s.run (watched entries)
      seen.time = bare.time ∧ seen.bucket.limit = bare.bucket.limit ∧
        seen.bucket.admits = bare.bucket.admits ∧ seen.bucket.drops = bare.bucket.drops ∧
        seen.bucket.waits = bare.bucket.waits) ∧
    (∀ (looks : List Int) (now : Int), (∀ look ∈ looks, look ≤ now) →
      (looks.foldl refill s.bucket).refill now = s.bucket.refill now) ∧
    ∀ (limits : List (RateLimit ℚ)) (now : Int), s.bucket.lastRefill < now →
      let b := s.bucket.run (limits.map .configure)
      (b.refill now).tokens = min (b.limit.burst.toNat : ℚ)
        (s.bucket.tokens + ((now - s.bucket.lastRefill : Int) : ℚ) / 10 ^ 9 * b.limit.rate) := by
  obtain ⟨hanswers, hend⟩ := (Session.Agree.refl _ s).run hrate hclock hlooks
  refine ⟨⟨hanswers, hend.time, hend.limit, hend.admits, hend.drops, hend.waits⟩,
    fun looks now h => foldl_refill hrate h, fun limits now h => ?_⟩
  obtain ⟨htokens, hmark⟩ := s.bucket.run_configure limits
  dsimp only
  rw [refill_of_lt (by rwa [hmark]), htokens, hmark]

/-- A bucket with one token, one more each second. -/
def slowSession : Session ℚ := ⟨new ⟨1, 1⟩ 0, .start none⟩

/-- Looks in all places: before a change that is refused, after a wait that has just taken its
token, before a change at a time that has been credited, and between attempts. -/
def manyLooks : List (Entry ℚ) :=
  [.look, .own .allow, .own (.time (.advance 250000000)), .look, .own (.configure ⟨-1, 1⟩),
    .own .await, .look, .own (.configure ⟨4, 2⟩), .own .attempt, .own (.time (.advance 125000000)),
    .look, .own .attempt, .own (.time (.advance 125000000)), .look, .own .attempt]

theorem looks_go_unnoticed_everywhere :
    0 ≤ slowSession.bucket.limit.rate ∧ slowSession.ClockGoesOn (own manyLooks) ∧
      slowSession.LimitsWaitForLooks manyLooks ∧
      slowSession.ownAnswers manyLooks = slowSession.answers (own manyLooks) := by
  have hrate : 0 ≤ slowSession.bucket.limit.rate := by decide +kernel
  have hclock : slowSession.ClockGoesOn (own manyLooks) := by
    simp only [own, manyLooks, List.filterMap_cons, Entry.own?, List.filterMap_nil,
      Session.clockGoesOn_cons]
    refine ⟨?_, ?_, ?_, ?_, ?_, ?_, ?_, ?_, ?_, ?_, Session.clockGoesOn_nil _⟩
    all_goals decide +kernel
  have hlooks : slowSession.LimitsWaitForLooks manyLooks := by
    simp only [manyLooks, Session.limitsWaitForLooks_own, Session.limitsWaitForLooks_look]
    refine ⟨?_, ?_, ?_, ?_, ?_, Session.limitsWaitForLooks_nil _⟩
    all_goals decide +kernel
  exact ⟨hrate, hclock, hlooks, (looks_go_unnoticed hrate hclock hlooks).1.1⟩

/-- Half a second after its token was taken, the bucket is looked at and its rate doubled. -/
def lookBeforeChange : List (Entry ℚ) :=
  [.own .allow, .own (.time (.advance 500000000)), .look, .own (.configure ⟨2, 1⟩), .own .allow]

/-- Without the look, the half second is credited at the new rate, and there is a token again; the
look credits it at the old rate, and there is none. -/
theorem look_before_change_is_noticed :
    0 ≤ slowSession.bucket.limit.rate ∧ slowSession.ClockGoesOn (own lookBeforeChange) ∧
      slowSession.answers (own lookBeforeChange) =
        [.allowed true, .elapsed, .configured true, .allowed true] ∧
      slowSession.ownAnswers lookBeforeChange =
        [.allowed true, .elapsed, .configured true, .allowed false] := by
  refine ⟨by decide +kernel, ?_, by decide +kernel, by decide +kernel⟩
  simp only [own, lookBeforeChange, List.filterMap_cons, Entry.own?, List.filterMap_nil,
    Session.clockGoesOn_cons]
  exact ⟨by decide +kernel, by decide +kernel, by decide +kernel, by decide +kernel,
    Session.clockGoesOn_nil _⟩

end TokenBucket

end RoverControl
