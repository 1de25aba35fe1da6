import RoverControl.Proofs.Rate.Uses
import RoverControl.Rig.Timeline

/-!
# Sessions with a token bucket

In a session a bucket is used on a timeline: it is asked for a token, with or without waiting for
it, its tokens are looked at, its limit is changed, and the clock moves.  Whatever reads the clock
refills the bucket first, and so takes no notice of how much of the time had been credited before
(`perform_congr`).
-/

namespace RoverControl

namespace TokenBucket

variable {α : Type} [Quantity α]

/-- Refilling counts nothing. -/
theorem counts_refill (b : TokenBucket α) (now : Int) :
    (b.refill now).admits = b.admits ∧ (b.refill now).drops = b.drops ∧
      (b.refill now).waits = b.waits := by
  unfold refill
  dsimp only
  split <;> exact ⟨rfl, rfl, rfl⟩

/-- A bucket and the time in which it is used. -/
structure Session (α : Type) where
  bucket : TokenBucket α
  time : Timeline

/-- What is done in a session.  A wait is carried out as a whole by `await`, or in single attempts
with something else in between. -/
inductive Operation (α : Type) where
  | allow
  | attempt
  | await
  | available
  | configure (limit : RateLimit α)
  | time (change : Timeline.Step)

/-- What comes of an operation. -/
inductive Answer (α : Type) where
  | allowed (ok : Bool)
  | taken
  | wait (nanoseconds : Int)
  | awaited (fault : Option Timeline.SleepFault)
  | tokens (x : α)
  | configured (ok : Bool)
  | elapsed
  deriving DecidableEq

/-- Whether an operation reads the clock itself. -/
def Operation.readsClock : Operation α → Bool
  | .allow | .attempt | .await | .available => true
  | .configure _ | .time _ => false

namespace Session

/-- Carries out an operation. -/
def perform (s : Session α) : Operation α → Answer α × Session α
  | .allow =>
    let (ok, bucket) := s.bucket.allow s.time.now
    (.allowed ok, { s with bucket })
  | .attempt =>
    match s.bucket.attempt s.time.now with
    | .taken bucket => (.taken, { s with bucket })
    | .wait nanoseconds bucket => (.wait nanoseconds, { s with bucket })
  | .await =>
    let after := s.bucket.await s.time
    (.awaited after.fault, ⟨after.bucket, after.time⟩)
  | .available =>
    let (tokens, bucket) := s.bucket.available s.time.now
    (.tokens tokens, { s with bucket })
  | .configure limit =>
    match s.bucket.configure limit with
    | some bucket => (.configured true, { s with bucket })
    | none => (.configured false, s)
  | .time change => (.elapsed, { s with time := s.time.act change })

/-- The session after some operations. -/
def run (s : Session α) (operations : List (Operation α)) : Session α :=
  operations.foldl (fun s operation => (s.perform operation).2) s

/-- The answers to some operations. -/
def answers (s : Session α) : List (Operation α) → List (Answer α)
  | [] => []
  | operation :: rest => (s.perform operation).1 :: (s.perform operation).2.answers rest

/-- The clock never goes back. -/
def ClockGoesOn (s : Session α) (operations : List (Operation α)) : Prop :=
  ∀ before operation after, operations = before ++ operation :: after →
    (s.run before).time.now ≤ (s.run (before ++ [operation])).time.now

theorem clockGoesOn_nil (s : Session α) : s.ClockGoesOn [] := by
  intro before operation after h
  simp at h

theorem clockGoesOn_cons {s : Session α} {operation : Operation α} {rest : List (Operation α)} :
    s.ClockGoesOn (operation :: rest) ↔
      s.time.now ≤ (s.perform operation).2.time.now ∧
        (s.perform operation).2.ClockGoesOn rest := by
  constructor
  · intro h
    refine ⟨h [] operation rest rfl, fun before next after hrest => ?_⟩
    exact h (operation :: before) next after (by rw [hrest, List.cons_append])
  · rintro ⟨hfirst, hrest⟩ before next after h
    rcases before with _ | ⟨first, before⟩
    · obtain ⟨rfl, -⟩ := List.cons_eq_cons.1 h
      exact hfirst
    · obtain ⟨rfl, htail⟩ := List.cons_eq_cons.1 h
      exact hrest before next after htail

theorem perform_configure (s : Session α) (limit : RateLimit α) :
    s.perform (.configure limit) = (.configured limit.isValid,
      if limit.isValid then { s with bucket := { s.bucket with limit } } else s) := by
  unfold perform TokenBucket.configure
  by_cases h : limit.isValid = true <;> simp [h]

/-! ## The limit -/

theorem limit_await (b : TokenBucket α) (t : Timeline) : (b.await t).bucket.limit = b.limit := by
  fun_induction await b t with
  | case1 b t b' htaken => exact limit_of_taken htaken
  | case2 b t nanoseconds b' hwait t' hslept ih => exact ih.trans (limit_of_wait hwait)
  | case3 b t nanoseconds b' hwait why t' hslept => exact limit_of_wait hwait

/-- Only a change of the limit changes the limit. -/
theorem limit_perform (s : Session α) (operation : Operation α) :
    (s.perform operation).2.bucket.limit = s.bucket.limit ∨
      ∃ limit, operation = .configure limit ∧ limit.isValid = true ∧
        (s.perform operation).2.bucket.limit = limit := by
  cases operation with
  | allow => exact Or.inl (limit_allow s.bucket s.time.now)
  | attempt =>
    refine Or.inl ?_
    unfold perform
    dsimp only
    split
    · rename_i htaken
      exact limit_of_taken htaken
    · rename_i hwait
      exact limit_of_wait hwait
  | await => exact Or.inl (limit_await s.bucket s.time)
  | available => exact Or.inl (limit_refill s.bucket s.time.now)
  | configure limit =>
    rw [perform_configure]
    by_cases h : limit.isValid = true
    · exact Or.inr ⟨limit, rfl, h, by rw [if_pos h]⟩
    · exact Or.inl (by rw [if_neg h])
  | time change => exact Or.inl rfl

/-! ## Reading the clock -/

theorem attempt_congr {b b' : TokenBucket α} {now : Int} (h : b.refill now = b'.refill now) :
    b.attempt now = b'.attempt now := by
  unfold attempt
  rw [h]

theorem await_congr {b b' : TokenBucket α} {t : Timeline} (h : b.refill t.now = b'.refill t.now) :
    b.await t = b'.await t := by
  rw [await, await, attempt_congr h]

/-- Two sessions whose buckets are refilled alike go on alike once the clock is read. -/
theorem perform_congr {s s' : Session α} {operation : Operation α}
    (hreads : operation.readsClock = true) (htime : s'.time = s.time)
    (hrefill : s.bucket.refill s.time.now = s'.bucket.refill s.time.now) :
    s.perform operation = s'.perform operation := by
  obtain ⟨bucket, time⟩ := s
  obtain ⟨bucket', time'⟩ := s'
  dsimp only at htime hrefill
  subst htime
  cases operation with
  | allow => simp only [perform, TokenBucket.allow, hrefill]
  | attempt => simp only [perform, attempt_congr hrefill]
  | await => simp only [perform, await_congr hrefill]
  | available => simp only [perform, TokenBucket.available, hrefill]
  | configure limit => cases hreads
  | time change => cases hreads

end Session

end TokenBucket

end RoverControl
