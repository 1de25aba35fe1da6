import RoverControl.Rate.TokenBucket

/-!
# Uses of a token bucket

A bucket is used by asking it for a token, with or without waiting, by looking at its tokens and by
changing its limit.  `act` carries out one use, `run` a list of them, and `taken` counts the tokens
that were handed out.  Only a change of the limit changes the limit (`limit_act`).
-/

namespace RoverControl

namespace TokenBucket

variable {α : Type} [Quantity α]

/-! ## The limit -/

section Limit

variable {b b' : TokenBucket α} {now : Int}

theorem limit_refill (b : TokenBucket α) (now : Int) : (b.refill now).limit = b.limit := by
  unfold refill
  dsimp only
  split <;> rfl

theorem limit_of_take? (h : b.take? = some b') : b'.limit = b.limit := by
  unfold take? at h
  split at h <;> cases h
  rfl

theorem limit_allow (b : TokenBucket α) (now : Int) : (b.allow now).2.limit = b.limit := by
  unfold allow
  dsimp only
  split
  · rename_i b' h
    exact (limit_of_take? h).trans (limit_refill b now)
  · exact limit_refill b now

theorem limit_of_taken (h : b.attempt now = .taken b') : b'.limit = b.limit := by
  unfold attempt at h
  dsimp only at h
  split at h <;> cases h
  rename_i ht
  exact (limit_of_take? ht).trans (limit_refill b now)

theorem limit_of_wait {nanoseconds : Int} (h : b.attempt now = .wait nanoseconds b') :
    b'.limit = b.limit := by
  unfold attempt at h
  dsimp only at h
  split at h <;> cases h
  exact limit_refill b now

end Limit

/-! ## Uses -/

/-- What is done with a bucket, and the clock reading where one is taken. -/
inductive Use (α : Type) where
  | allow (now : Int)
  | attempt (now : Int)
  | available (now : Int)
  | configure (limit : RateLimit α)

/-- The clock reading of a use. -/
def Use.reading? : Use α → Option Int
  | .allow now | .attempt now | .available now => some now
  | .configure _ => none

/-- The bucket after a use; a limit that is not valid changes nothing. -/
def act (b : TokenBucket α) : Use α → TokenBucket α
  | .allow now => (b.allow now).2
  | .attempt now =>
    match b.attempt now with
    | .taken b => b
    | .wait _ b => b
  | .available now => (b.available now).2
  | .configure limit => (b.configure limit).getD b

/-- The number of tokens that a use hands out. -/
def handedOut (b : TokenBucket α) : Use α → Nat
  | .allow now => if (b.allow now).1 then 1 else 0
  | .attempt now =>
    match b.attempt now with
    | .taken _ => 1
    | .wait _ _ => 0
  | .available _ | .configure _ => 0

/-- Only a change of the limit changes the limit. -/
theorem limit_act (b : TokenBucket α) (u : Use α) :
    (b.act u).limit = b.limit ∨
      ∃ limit, u = .configure limit ∧ limit.isValid = true ∧ (b.act u).limit = limit := by
  cases u with
  | allow now => exact Or.inl (limit_allow b now)
  | attempt now =>
    refine Or.inl ?_
    unfold act
    dsimp only
    split
    · rename_i h
      exact limit_of_taken h
    · rename_i h
      exact limit_of_wait h
  | available now => exact Or.inl (limit_refill b now)
  | configure limit =>
    rcases h : b.configure limit with _ | b'
    · refine Or.inl ?_
      show ((b.configure limit).getD b).limit = b.limit
      rw [h]
      rfl
    · refine Or.inr ⟨limit, rfl, ?_⟩
      show limit.isValid = true ∧ ((b.configure limit).getD b).limit = limit
      rw [h]
      unfold configure at h
      split at h <;> cases h
      rename_i hvalid
      exact ⟨hvalid, rfl⟩

/-- The bucket after some uses. -/
def run (b : TokenBucket α) (uses : List (Use α)) : TokenBucket α := uses.foldl act b

/-- The number of tokens that some uses hand out. -/
def consumed (b : TokenBucket α) : List (Use α) → Nat
  | [] => 0
  | u :: rest => b.handedOut u + (b.act u).consumed rest

theorem run_cons (b : TokenBucket α) (u : Use α) (rest : List (Use α)) :
    b.run (u :: rest) = (b.act u).run rest := rfl

theorem run_append (b : TokenBucket α) (uses uses' : List (Use α)) :
    b.run (uses ++ uses') = (b.run uses).run uses' := List.foldl_append

end TokenBucket

end RoverControl
