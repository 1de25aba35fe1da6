import Mathlib.Data.List.DropRight
import RoverControl.Hardware.Sensors

/-!
# What the ultrasonic sensor answers and remembers

The calls of a sensor are answered with the readings of its script, which begins anew whenever it
ends, and its history is a window that slides over the valid ones.  `Ultrasonic.Called` says so of a
sensor after a number of calls, and one more call keeps it (`Ultrasonic.Called.afterRead`).
-/

namespace RoverControl

/-- A script that has been read from `n` times. -/
theorem Script.next_mod {α : Type} (xs : List α) (n : Nat) :
    (⟨xs, n % xs.length⟩ : Script α).next =
      xs[n % xs.length]?.map fun a => (a, ⟨xs, (n + 1) % xs.length⟩) := by
  unfold Script.next
  dsimp only
  rw [Nat.mod_add_mod]
  split <;> rename_i h <;> rw [h] <;> rfl

/-- What is measured at a distance: the reading is valid if the distance is positive. -/
def UltrasonicReading.ofDistance (distance : Float) : UltrasonicReading :=
  ⟨distance, decide (0 < distance)⟩

namespace Ultrasonic

variable (u : Ultrasonic) (xs : List Float) (size : Nat)

/-- A sensor that has been called; a call that fails changes nothing. -/
def afterRead : Ultrasonic := (u.read.map Prod.snd).getD u

/-- The answers to a number of calls, in order, and the sensor after them. -/
def calls : Nat → List (Option UltrasonicReading) × Ultrasonic
  | 0 => ([], u)
  | n + 1 => ((calls n).1 ++ [(calls n).2.read.map Prod.fst], (calls n).2.afterRead)

theorem calls_add (m n : Nat) : (u.calls (m + n)).2 = ((u.calls m).2.calls n).2 := by
  induction n with
  | zero => rfl
  | succ n ih => exact congrArg afterRead ih

theorem length_answers (n : Nat) : (u.calls n).1.length = n := by
  induction n with
  | zero => rfl
  | succ n ih => rw [calls, List.length_append, ih, List.length_singleton]

/-- The valid readings among a number of answers, the oldest one first. -/
def validReadings (answers : List (Option UltrasonicReading)) : List UltrasonicReading :=
  (answers.filterMap id).filter (·.valid)

theorem validReadings_concat (answers : List (Option UltrasonicReading)) (r : UltrasonicReading) :
    validReadings (answers ++ [some r]) =
      validReadings answers ++ if r.valid then [r] else [] := by
  unfold validReadings
  rw [List.filterMap_append, List.filter_append]
  congr 1
  rcases h : r.valid <;> simp [h]

/-! ## The history -/

/-- A window that slides on by one reading. -/
theorem keep_rtake (l : List UltrasonicReading) (r : UltrasonicReading) :
    keep (l.rtake size) size r = (l ++ [r]).rtake size := by
  unfold keep
  split
  · rename_i h
    rw [h, List.rtake_zero, List.rtake_zero]
  · rename_i h
    -- whether the window was full or not, what stays of it is the same stretch of `l`
    have hdrop : (if size ≤ (l.rtake size).length then (l.rtake size).drop 1 else l.rtake size) =
        l.drop (l.length + 1 - size) := by
      unfold List.rtake
      rw [List.length_drop, List.drop_drop]
      split <;> congr 1 <;> omega
    rw [hdrop, List.rtake, List.length_append, List.length_singleton,
      List.drop_append_of_le_length (by omega)]

theorem keep_eq_append {size : Nat} (h : 0 < size) (history : List UltrasonicReading)
    (r : UltrasonicReading) : ∃ earlier, keep history size r = earlier ++ [r] := by
  unfold keep
  rw [if_neg (Nat.ne_of_gt h)]
  exact ⟨_, rfl⟩

theorem historySize_afterRead : u.afterRead.historySize = u.historySize := by
  unfold afterRead read
  split <;> rfl

theorem historySize_calls (n : Nat) : (u.calls n).2.historySize = u.historySize := by
  induction n with
  | zero => rfl
  | succ n ih => exact (historySize_afterRead _).trans ih

/-- A valid reading is the last one in the history of the sensor that it was read from. -/
theorem history_of_read {u u' : Ultrasonic} {r : UltrasonicReading} (h : u.read = some (r, u'))
    (hr : r.valid = true) (hsize : 0 < u.historySize) : ∃ earlier, u'.history = earlier ++ [r] := by
  unfold read at h
  split at h
  · cases h
  · cases h
    dsimp only at hr ⊢
    rw [if_pos hr]
    exact keep_eq_append hsize u.history _

/-! ## Calls of a sensor with a script -/

/-- A sensor that has been called `n` times. -/
structure Called (n : Nat) (answers : List (Option UltrasonicReading)) (u : Ultrasonic) : Prop where
  script : u.script = ⟨xs, n % xs.length⟩
  historySize : u.historySize = size
  history : u.history = (validReadings answers).rtake size
  answers : answers = (List.range n).map fun i => xs[i % xs.length]?.map .ofDistance

variable {xs size}

theorem called_new (xs : List Float) (size : Nat) : Called xs size 0 [] (new xs size) where
  script := by rw [Nat.zero_mod]; rfl
  historySize := rfl
  history := (List.rtake_nil size).symm
  answers := rfl

theorem exists_getElem?_mod (hxs : xs ≠ []) (n : Nat) : ∃ x, xs[n % xs.length]? = some x :=
  ⟨_, List.getElem?_eq_getElem (Nat.mod_lt n (List.length_pos_iff.2 hxs))⟩

theorem Called.afterRead {n : Nat} {answers : List (Option UltrasonicReading)} {u : Ultrasonic}
    (h : Called xs size n answers u) (hxs : xs ≠ []) :
    Called xs size (n + 1) (answers ++ [u.read.map Prod.fst]) u.afterRead := by
  obtain ⟨x, hx⟩ := exists_getElem?_mod hxs n
  have hread : u.read = some (.ofDistance x, { u with
      script := ⟨xs, (n + 1) % xs.length⟩
      history := if (UltrasonicReading.ofDistance x).valid then
        keep u.history u.historySize (.ofDistance x) else u.history }) := by
    unfold read
    rw [h.script, Script.next_mod, hx]
    rfl
  rw [Ultrasonic.afterRead, hread]
  refine ⟨rfl, h.historySize, ?_, ?_⟩
  · simp only [Option.map_some, Option.getD_some, validReadings_concat]
    split
    · rw [h.history, h.historySize, keep_rtake]
    · rw [h.history, List.append_nil]
  · rw [List.range_succ, List.map_append, ← h.answers, List.map_singleton, hx]
    rfl

theorem called_calls (hxs : xs ≠ []) (n : Nat) :
    Called xs size n ((new xs size).calls n).1 ((new xs size).calls n).2 := by
  induction n with
  | zero => exact called_new xs size
  | succ n ih => exact ih.afterRead hxs

/-- The calls read the script over and over. -/
theorem Called.answer {n : Nat} {answers : List (Option UltrasonicReading)} {u : Ultrasonic}
    (h : Called xs size n answers u) (hxs : xs ≠ []) {i : Nat} (hi : i < n) :
    ∃ x, xs[i % xs.length]? = some x ∧ answers[i]? = some (some (.ofDistance x)) := by
  obtain ⟨x, hx⟩ := exists_getElem?_mod hxs i
  refine ⟨x, hx, ?_⟩
  rw [h.answers, List.getElem?_map, List.getElem?_range hi, Option.map_some, hx, Option.map_some]

/-- The history holds the latest of the valid readings, as many as there is room for. -/
theorem Called.latest {n : Nat} {answers : List (Option UltrasonicReading)} {u : Ultrasonic}
    (h : Called xs size n answers u) :
    u.history <:+ validReadings answers ∧
      u.history.length = min size (validReadings answers).length := by
  rw [h.history, List.rtake]
  refine ⟨List.drop_suffix _ _, ?_⟩
  rw [List.length_drop]
  omega

/-- A sensor without a script does not respond. -/
theorem calls_nil (size n : Nat) :
    (new [] size).calls n = (List.replicate n none, new [] size) := by
  induction n with
  | zero => rfl
  | succ n ih =>
    rw [calls, ih, List.replicate_succ']
    rfl

end Ultrasonic

end RoverControl
