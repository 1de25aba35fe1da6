/-!
# Bounded queues

A queue takes items as long as it holds fewer than its capacity, and counts those it refuses.  Its
capacity can be changed at any time; lowering it below the size drops nothing.
-/

namespace RoverControl

structure BoundedQueue (α : Type) where
  /-- The items, the oldest one first. -/
  items : List α
  capacity : Nat
  rejected : Nat

namespace BoundedQueue

variable {α : Type}

/-- The queue without items. -/
def empty (capacity : Nat) : BoundedQueue α := ⟨[], capacity, 0⟩

def size (q : BoundedQueue α) : Nat := q.items.length

def isEmpty (q : BoundedQueue α) : Bool := q.items.isEmpty

def isFull (q : BoundedQueue α) : Bool := q.capacity ≤ q.size

/-- Appends an item, or counts a refusal if the queue is full. -/
def push (q : BoundedQueue α) (a : α) : Bool × BoundedQueue α :=
  if q.isFull then (false, { q with rejected := q.rejected + 1 })
  else (true, { q with items := q.items ++ [a] })

/-- Takes the oldest item. -/
def pop (q : BoundedQueue α) : Option (α × BoundedQueue α) :=
  match q.items with
  | [] => none
  | a :: rest => some (a, { q with items := rest })

/-- The oldest item. -/
def peek (q : BoundedQueue α) : Option α := q.items.head?

/-- Drops all items. -/
def clear (q : BoundedQueue α) : BoundedQueue α := { q with items := [] }

def setCapacity (q : BoundedQueue α) (capacity : Nat) : BoundedQueue α := { q with capacity }

theorem items_of_push {q q' : BoundedQueue α} {a : α} (h : q.push a = (true, q')) :
    q'.items = q.items ++ [a] := by
  unfold push at h
  split at h <;> cases h
  rfl

theorem items_of_refused {q q' : BoundedQueue α} {a : α} (h : q.push a = (false, q')) :
    q'.items = q.items := by
  unfold push at h
  split at h <;> cases h
  rfl

theorem size_of_push {q q' : BoundedQueue α} {a : α} (h : q.push a = (true, q')) :
    q'.size = q.size + 1 := by
  rw [size, items_of_push h, List.length_append, size, List.length_singleton]

theorem push_of_lt {q : BoundedQueue α} (h : q.size < q.capacity) (a : α) :
    q.push a = (true, { q with items := q.items ++ [a] }) := by
  unfold push isFull
  rw [if_neg (by simpa using h)]

theorem push_of_le {q : BoundedQueue α} (h : q.capacity ≤ q.size) (a : α) :
    q.push a = (false, { q with rejected := q.rejected + 1 }) := by
  unfold push isFull
  rw [if_pos (by simpa using h)]

theorem pop_of_cons {q : BoundedQueue α} {a : α} {rest : List α} (h : q.items = a :: rest) :
    q.pop = some (a, { q with items := rest }) := by
  unfold pop
  rw [h]

theorem exists_cons_of_pop {q q' : BoundedQueue α} {a : α} (h : q.pop = some (a, q')) :
    ∃ rest, q.items = a :: rest ∧ q' = { q with items := rest } := by
  unfold pop at h
  split at h
  · cases h
  · rename_i b rest hitems
    cases h
    exact ⟨rest, hitems, rfl⟩

end BoundedQueue

end RoverControl
