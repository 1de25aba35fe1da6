import RoverControl.Json.Printer
import RoverControl.Proofs.Json.NumberText
import RoverControl.Proofs.Json.RoundTrip

/-!
# Texts without control bytes

Whatever bytes the texts and keys of a value hold, its own text holds no control byte
(`printable_render`): those in texts are escaped, and nothing else of the text is taken from
outside.
-/

namespace RoverControl

/-- The text has no control byte, and in particular no line end. -/
def Bytes.Printable (s : Bytes) : Prop := ∀ c ∈ s, 0x20 ≤ c

instance (s : Bytes) : Decidable s.Printable := List.decidableBAll _ s

namespace Bytes

variable {s t : Bytes} {c : UInt8}

theorem printable_append : Printable (s ++ t) ↔ Printable s ∧ Printable t :=
  List.forall_mem_append

theorem printable_cons : Printable (c :: s) ↔ 0x20 ≤ c ∧ Printable s := List.forall_mem_cons

theorem Printable.notMem (h : Printable s) (hc : c < 0x20) : c ∉ s :=
  fun hmem => UInt8.not_le.2 hc (h c hmem)

theorem printable_of_digits (h : ∀ c ∈ s, Ascii.isDigit c = true) : Printable s := by
  intro c hc
  obtain ⟨d, hd, rfl⟩ := exists_digit (h c hc)
  rw [UInt8.le_iff_toNat_le, toNat_digit hd]
  show 0x20 ≤ 0x30 + d
  omega

theorem printable_decimal (n : ℕ) : Printable (decimal n) :=
  printable_of_digits fun _ => isDigit_of_mem_decimal

theorem printable_intercalate {texts : List Bytes} (hs : Printable s)
    (h : ∀ t ∈ texts, Printable t) : Printable (s.intercalate texts) := by
  induction texts with
  | nil => exact fun c hc => by cases hc
  | cons t rest ih =>
    obtain ⟨ht, hrest⟩ := List.forall_mem_cons.1 h
    rcases rest with _ | ⟨t', rest⟩
    · rwa [List.intercalate_singleton]
    · rw [List.intercalate_cons_cons]
      exact printable_append.2 ⟨printable_append.2 ⟨ht, hs⟩, ih hrest⟩

end Bytes

namespace Json

open Bytes

/-! ## Texts and numbers -/

theorem printable_escapeByte (c : UInt8) : Printable (escapeByte c) := by
  unfold escapeByte
  split_ifs with _ _ _ _ _ _ _ hcontrol
  iterate 7 decide
  · have hdigit : ∀ d : Fin 16, 0x20 ≤ Ascii.hexDigit d.val := by decide
    have hlt : c.toNat < 0x20 := hcontrol
    refine printable_append.2 ⟨by decide, printable_cons.2 ⟨?_, printable_cons.2 ⟨?_, by decide⟩⟩⟩
    · exact hdigit ⟨c.toNat / 16, by omega⟩
    · exact hdigit ⟨c.toNat % 16, by omega⟩
  · exact printable_cons.2 ⟨UInt8.not_lt.1 hcontrol, by decide⟩

theorem printable_renderString (s : Bytes) : Printable (renderString s) := by
  refine printable_cons.2 ⟨by decide, printable_append.2 ⟨?_, by decide⟩⟩
  intro c hc
  obtain ⟨b, -, hb⟩ := List.mem_flatMap.1 hc
  exact printable_escapeByte b c hb

theorem printable_of_isNumeral {t : Bytes} {n : Numeral} (h : IsNumeral t n) : Printable t := by
  obtain ⟨hminus, hwhole, hfraction, hexponent⟩ := h
  refine printable_append.2 ⟨printable_append.2 ⟨printable_append.2 ⟨?_, ?_⟩, ?_⟩, ?_⟩
  · cases hminus <;> decide
  · exact printable_of_digits hwhole.1.2
  · cases hfraction with
    | none => decide
    | mk hdigits => exact printable_cons.2 ⟨by decide, printable_of_digits hdigits.2⟩
  · cases hexponent with
    | none => decide
    | mk he hsign hdigits =>
      refine printable_cons.2 ⟨?_, printable_append.2 ⟨?_, printable_of_digits hdigits.2⟩⟩
      · rcases he with rfl | rfl <;> decide
      · cases hsign <;> decide

theorem printable_renderNumber (x : Float) : Printable (renderNumber x) := by
  rcases hx : x.isFinite with _ | _
  · have hnone : Binary64.exactValue? x = none := by
      rw [← Option.not_isSome_iff_eq_none, Binary64.exactValue?_isSome, hx]
      exact Bool.false_ne_true
    rw [renderNumber, hnone]
    decide
  · obtain ⟨n, hn, -⟩ := renderNumber_reads hx
    exact printable_of_isNumeral hn

/-! ## Values -/

mutual

/-- The text of a value holds no control byte. -/
theorem printable_render (v : Json) : Printable (render v) := by
  cases v with
  | null => decide
  | bool b => cases b <;> decide
  | number x => exact printable_renderNumber x
  | string s => exact printable_renderString s
  | array items =>
    refine printable_cons.2 ⟨by decide, printable_append.2 ⟨?_, by decide⟩⟩
    rw [renderItems_eq]
    refine printable_intercalate (by decide) fun t ht => ?_
    obtain ⟨v, hv, rfl⟩ := List.mem_map.1 ht
    exact printable_items items v hv
  | object members =>
    refine printable_cons.2 ⟨by decide, printable_append.2 ⟨?_, by decide⟩⟩
    rw [renderMembers_eq]
    refine printable_intercalate (by decide) fun t ht => ?_
    obtain ⟨m, hm, rfl⟩ := List.mem_map.1 ht
    exact printable_append.2 ⟨printable_append.2 ⟨printable_renderString m.1, by decide⟩,
      printable_members members m hm⟩

theorem printable_items (items : List Json) : ∀ v ∈ items, Printable (render v) := by
  cases items with
  | nil => simp
  | cons v rest => exact List.forall_mem_cons.2 ⟨printable_render v, printable_items rest⟩

theorem printable_members (members : List (Bytes × Json)) :
    ∀ m ∈ members, Printable (render m.2) := by
  cases members with
  | nil => simp
  | cons m rest =>
    obtain ⟨k, v⟩ := m
    exact List.forall_mem_cons.2 ⟨printable_render v, printable_members rest⟩

end

end Json

end RoverControl
