import RoverControl.Proofs.Drivetrain.Order

/-!
# Totals of the drivetrain

The limiter of execution hands out one token for every drive call, and never drops one; the queue
counts every command that it takes in or turns away.  So the totals after a path are those before
it and what the actions of the path tell (`Path.totals`).
-/

namespace RoverControl

namespace TokenBucket

variable {α : Type} [Quantity α] {b b' : TokenBucket α} {now : Int}

/-- A bucket of which one token has been taken and counted. -/
def spend (b : TokenBucket α) : TokenBucket α :=
  { b with tokens := b.tokens - Quantity.ofInt 1, admits := b.admits + 1 }

theorem eq_spend_of_take? (h : b.take? = some b') : b' = b.spend := by
  unfold take? at h
  split at h <;> cases h
  rfl

/-- Two buckets have handed out, dropped and made wait for as many tokens. -/
structure SameCounts (b b' : TokenBucket α) : Prop where
  admits : b'.admits = b.admits
  drops : b'.drops = b.drops
  waits : b'.waits = b.waits

theorem sameCounts_refill (b : TokenBucket α) (now : Int) : SameCounts b (b.refill now) := by
  unfold refill
  dsimp only
  split <;> exact ⟨rfl, rfl, rfl⟩

theorem eq_spend_of_taken (h : b.attempt now = .taken b') : b' = (b.refill now).spend := by
  unfold attempt at h
  dsimp only at h
  split at h <;> cases h
  rename_i ht
  exact eq_spend_of_take? ht

theorem admits_of_wait {nanoseconds : Int} (h : b.attempt now = .wait nanoseconds b') :
    b'.admits = b.admits ∧ b'.drops = b.drops := by
  have hrefill := b.sameCounts_refill now
  unfold attempt at h
  dsimp only at h
  split at h <;> cases h
  exact ⟨hrefill.admits, hrefill.drops⟩

theorem admits_of_taken (h : b.attempt now = .taken b') :
    b'.admits = b.admits + 1 ∧ b'.drops = b.drops := by
  have hrefill := b.sameCounts_refill now
  rw [eq_spend_of_taken h]
  exact ⟨congrArg (· + 1) hrefill.admits, hrefill.drops⟩

end TokenBucket

namespace Drivetrain

/-- The commands that the queue turned away. -/
def refused (acts : List Action) : List Command :=
  acts.filterMap fun
    | .refuse c => some c
    | _ => none

theorem refused_append (acts acts' : List Action) :
    refused (acts ++ acts') = refused acts ++ refused acts' := List.filterMap_append

theorem refused_operations (acts : List Action) : refused (operations acts) = refused acts := by
  rw [refused, operations, List.filterMap_filter]
  congr 1
  funext a
  cases a <;> rfl

/-- The totals of a moment are those of an earlier one and what the actions in between add. -/
structure Totals (m : Moment) (acts : List Action) (m' : Moment) : Prop where
  admits : m'.drivetrain.limiter.admits = m.drivetrain.limiter.admits + (called acts).length
  drops : m'.drivetrain.limiter.drops = m.drivetrain.limiter.drops
  enqueued : m'.drivetrain.counts.enqueued =
    m.drivetrain.counts.enqueued + (accepted acts).length
  rejectedFull : m'.drivetrain.counts.rejectedFull =
    m.drivetrain.counts.rejectedFull + (refused acts).length

theorem Totals.trans {m m' m'' : Moment} {acts acts' : List Action} (h : Totals m acts m')
    (h' : Totals m' acts' m'') : Totals m (acts ++ acts') m'' where
  admits := by rw [h'.admits, h.admits, called_append, List.length_append, Nat.add_assoc]
  drops := h'.drops.trans h.drops
  enqueued := by
    rw [h'.enqueued, h.enqueued, accepted_append, List.length_append, Nat.add_assoc]
  rejectedFull := by
    rw [h'.rejectedFull, h.rejectedFull, refused_append, List.length_append, Nat.add_assoc]

theorem Move.totals {m m' : Moment} {a : Action} (h : Move m a m') : Totals m [a] m' := by
  cases h with
  | adjust h =>
    exact ⟨h.admits, h.drops, congrArg QueueCounts.enqueued h.counts,
      congrArg QueueCounts.rejectedFull h.counts⟩
  | wait h =>
    obtain ⟨hadmits, hdrops⟩ := TokenBucket.admits_of_wait h
    exact ⟨hadmits, hdrops, rfl, rfl⟩
  | waitFault h =>
    obtain ⟨hadmits, hdrops⟩ := TokenBucket.admits_of_wait h
    exact ⟨hadmits, hdrops, rfl, rfl⟩
  | call h =>
    obtain ⟨hadmits, hdrops⟩ := TokenBucket.admits_of_taken h
    exact ⟨hadmits, hdrops, rfl, rfl⟩
  | @finish d c ok => cases ok <;> exact ⟨rfl, rfl, rfl, rfl⟩
  | _ => exact ⟨rfl, rfl, rfl, rfl⟩

theorem Path.totals {m m' : Moment} {acts : List Action} (h : Path Move m acts m') :
    Totals m acts m' := by
  induction h with
  | nil => exact ⟨rfl, rfl, rfl, rfl⟩
  | cons h _ ih => exact h.totals.trans ih

/-- What operators do tells how many commands the queue has taken in and turned away. -/
theorem Unfolds.enqueued {m m' : Moment} {ops : List Action} (h : Unfolds m ops m') :
    m'.drivetrain.counts.enqueued = m.drivetrain.counts.enqueued + (accepted ops).length ∧
      m'.drivetrain.counts.rejectedFull =
        m.drivetrain.counts.rejectedFull + (refused ops).length := by
  obtain ⟨acts, hp, rfl⟩ := h
  rw [accepted_operations, refused_operations]
  exact ⟨hp.totals.enqueued, hp.totals.rejectedFull⟩

/-- Every drive call takes one token from the limiter of execution. -/
theorem Move.spend_of_call {m m' : Moment} {c : Command} (h : Move m (.call c) m') :
    m'.drivetrain.limiter =
      (m.drivetrain.limiter.refill m.drivetrain.rig.time.now).spend := by
  cases h with
  | call h => exact TokenBucket.eq_spend_of_taken h

end Drivetrain

end RoverControl
