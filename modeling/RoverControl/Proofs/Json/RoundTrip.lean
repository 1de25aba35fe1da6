import RoverControl.Json.Printer
import RoverControl.Proofs.Json.Grammar
import RoverControl.Proofs.Json.NumberText

/-!
# Reading what was written

The compact text of a value follows the grammar (`isValue_render`): bytes of texts are characters,
numbers are numerals, and items and members are divided by commas.  It is hence read as an equal
value (`parse_render`).
-/

namespace RoverControl

namespace Json

/-! ## Texts -/

theorem isCharacter_of_control {c : UInt8} (hc : c < 0x20) :
    IsCharacter (ascii "\\u00" ++ [Ascii.hexDigit (c.toNat / 16), Ascii.hexDigit (c.toNat % 16)])
      [c] := by
  have hlt : c.toNat < 0x20 := hc
  obtain ⟨ch, hch⟩ := exists_char (Or.inl (by omega : c.toNat < 0xd800))
  have hhex : IsHex4 [0x30, 0x30, Ascii.hexDigit (c.toNat / 16), Ascii.hexDigit (c.toNat % 16)]
      ch.toNat := by
    have h := IsHex4.mk (a := 0x30) (b := 0x30) (w := 0) (x := 0) (by decide) (by decide)
      (hexValue?_hexDigit (d := c.toNat / 16) (by omega))
      (hexValue?_hexDigit (d := c.toNat % 16) (by omega))
    have hsum : 0x1000 * 0 + 0x100 * 0 + 0x10 * (c.toNat / 16) + c.toNat % 16 = ch.toNat := by omega
    rwa [hsum] at h
  have hbyte : String.utf8EncodeChar ch = [c] := by
    rw [← utf8_toNat, hch, utf8, if_pos (by omega), UInt8.ofNat_toNat]
  have := IsCharacter.codePoint (.single hhex)
  rwa [hbyte] at this

/-- Every byte is written as a character that denotes it. -/
theorem isCharacter_escapeByte (c : UInt8) : IsCharacter (escapeByte c) [c] := by
  unfold escapeByte
  split_ifs with hquote hbackslash hbackspace hformFeed hnewline hreturn htab hcontrol
  · exact .letter (by rw [hquote]; decide)
  · exact .letter (by rw [hbackslash]; decide)
  · exact .letter (by rw [hbackspace]; decide)
  · exact .letter (by rw [hformFeed]; decide)
  · exact .letter (by rw [hnewline]; decide)
  · exact .letter (by rw [hreturn]; decide)
  · exact .letter (by rw [htab]; decide)
  · exact isCharacter_of_control hcontrol
  · exact .plain (UInt8.not_lt.1 hcontrol) hquote hbackslash

theorem isQuoted_renderString (s : Bytes) : IsQuoted (renderString s) s := by
  refine .mk ?_
  induction s with
  | nil => exact .nil
  | cons c s ih => exact .cons (isCharacter_escapeByte c) ih

/-! ## Items and members -/

/-- Texts divided by commas. -/
abbrev commas (texts : List Bytes) : Bytes := [Ascii.comma].intercalate texts

theorem renderItems_eq (items : List Json) : renderItems items = commas (items.map render) := by
  induction items with
  | nil => rfl
  | cons v rest ih =>
    rcases rest with _ | ⟨w, rest⟩
    · exact List.intercalate_singleton.symm
    · rw [renderItems, ih]
      · simp only [List.map_cons, List.intercalate_cons_cons, List.append_assoc,
          List.singleton_append]
      · exact List.cons_ne_nil _ _

/-- The text of a member. -/
def renderMember (m : Bytes × Json) : Bytes := renderString m.1 ++ [Ascii.colon] ++ render m.2

theorem renderMembers_eq (members : List (Bytes × Json)) :
    renderMembers members = commas (members.map renderMember) := by
  induction members with
  | nil => rfl
  | cons m rest ih =>
    obtain ⟨k, v⟩ := m
    rcases rest with _ | ⟨m', rest⟩
    · simp [renderMembers, renderMember]
    · rw [renderMembers, ih]
      · simp [renderMember]
      · exact List.cons_ne_nil _ _

section Items

variable {α β : Type} {item : Bytes → α → Prop} {same : α → β → Prop} {text : β → Bytes}

/-- Texts of items that are divided by commas are read as items again. -/
theorem exists_isItems {bs : List β} (hne : bs ≠ [])
    (h : ∀ b ∈ bs, ∃ a, item (text b) a ∧ same a b) :
    ∃ as, IsItems item (commas (bs.map text)) as ∧ List.Forall₂ same as bs := by
  induction bs with
  | nil => exact absurd rfl hne
  | cons b rest ih =>
    obtain ⟨a, ha, hsame⟩ := h b List.mem_cons_self
    rcases rest with _ | ⟨b', rest⟩
    · refine ⟨[a], ?_, .cons hsame .nil⟩
      rw [List.map_singleton, commas, List.intercalate_singleton]
      exact .last ha
    · obtain ⟨as, has, hrest⟩ := ih (List.cons_ne_nil _ _)
        fun b'' hb => h b'' (List.mem_cons_of_mem b hb)
      refine ⟨a :: as, ?_, .cons hsame hrest⟩
      rw [List.map_cons, List.map_cons, commas, List.intercalate_cons_cons]
      exact .cons ha (.mk isSpace_nil isSpace_nil) has

theorem exists_isBracketed (first close : UInt8) {bs : List β}
    (h : ∀ b ∈ bs, ∃ a, item (text b) a ∧ same a b) :
    ∃ as, IsBracketed first close item (first :: (commas (bs.map text) ++ [close])) as ∧
      List.Forall₂ same as bs := by
  by_cases hne : bs = []
  · subst hne
    exact ⟨[], .empty isSpace_nil, .nil⟩
  · obtain ⟨as, has, hsame⟩ := exists_isItems hne h
    have := IsSpaced.mk isSpace_nil has isSpace_nil
    rw [List.nil_append, List.append_nil] at this
    exact ⟨as, .items this, hsame⟩

end Items

theorem beqItems_of_forall₂ {ws vs : List Json}
    (h : List.Forall₂ (fun w v => beq w v = true) ws vs) : beqItems ws vs = true := by
  induction h with
  | nil => rfl
  | cons hbeq _ ih => rw [beqItems, hbeq, ih, Bool.and_true]

/-- Two members have the same key and equal values. -/
def SameMember (m n : Bytes × Json) : Prop := m.1 = n.1 ∧ beq m.2 n.2 = true

theorem beqMembers_of_forall₂ {ms ns : List (Bytes × Json)} (h : List.Forall₂ SameMember ms ns) :
    beqMembers ms ns = true := by
  induction h with
  | nil => rfl
  | @cons m n _ _ hsame _ ih =>
    obtain ⟨k, w⟩ := m
    obtain ⟨l, v⟩ := n
    obtain ⟨hkey, hbeq⟩ := hsame
    change k = l at hkey
    change beq w v = true at hbeq
    simp [beqMembers, hkey, hbeq, ih]

theorem keys_of_forall₂ {ms ns : List (Bytes × Json)} (h : List.Forall₂ SameMember ms ns) :
    ms.map Prod.fst = ns.map Prod.fst := by
  induction h with
  | nil => rfl
  | cons hsame _ ih => rw [List.map_cons, List.map_cons, hsame.1, ih]

/-! ## Values -/

/-- Lists and objects are nested at most `depth` deep. -/
inductive NestedWithin : (depth : ℕ) → Json → Prop
  | null {depth : ℕ} : NestedWithin depth .null
  | bool {depth : ℕ} (b : Bool) : NestedWithin depth (.bool b)
  | number {depth : ℕ} (x : Float) : NestedWithin depth (.number x)
  | string {depth : ℕ} (s : Bytes) : NestedWithin depth (.string s)
  | array {depth : ℕ} {items : List Json} (h : ∀ v ∈ items, NestedWithin depth v) :
      NestedWithin (depth + 1) (.array items)
  | object {depth : ℕ} {members : List (Bytes × Json)} (h : ∀ m ∈ members, NestedWithin depth m.2) :
      NestedWithin (depth + 1) (.object members)

/-- All numbers in the value are finite. -/
inductive FiniteNumbers : Json → Prop
  | null : FiniteNumbers .null
  | bool (b : Bool) : FiniteNumbers (.bool b)
  | number {x : Float} (h : x.isFinite = true) : FiniteNumbers (.number x)
  | string (s : Bytes) : FiniteNumbers (.string s)
  | array {items : List Json} (h : ∀ v ∈ items, FiniteNumbers v) : FiniteNumbers (.array items)
  | object {members : List (Bytes × Json)} (h : ∀ m ∈ members, FiniteNumbers m.2) :
      FiniteNumbers (.object members)

theorem isValue_of_isScalar {t : Bytes} {v : Json} (h : IsScalar t v) (depth : ℕ) :
    IsValue depth t v := by
  cases depth with
  | zero => exact h
  | succ depth => exact Or.inl h

/-- The text of a value is that of an equal one. -/
theorem isValue_render {v : Json} {depth : ℕ} (hkeys : v.UniqueKeys)
    (hnested : v.NestedWithin depth) (hfinite : v.FiniteNumbers) :
    ∃ w, IsValue depth (render v) w ∧ beq w v = true := by
  induction hkeys generalizing depth with
  | null => exact ⟨.null, isValue_of_isScalar .null depth, rfl⟩
  | bool b =>
    refine ⟨.bool b, ?_, by simp [beq]⟩
    cases b
    · exact isValue_of_isScalar (.bool false) depth
    · exact isValue_of_isScalar (.bool true) depth
  | number x =>
    cases hfinite with
    | number hx =>
    obtain ⟨n, hn, hrange, hbeq⟩ := renderNumber_reads hx
    exact ⟨.number n.nearest, isValue_of_isScalar (.number hn hrange) depth, hbeq⟩
  | string s =>
    exact ⟨.string s, isValue_of_isScalar (.string (isQuoted_renderString s)) depth, by simp [beq]⟩
  | array _ ih =>
    cases hnested with
    | array hnested =>
    cases hfinite with
    | array hfinite =>
    obtain ⟨ws, hws, hsame⟩ := exists_isBracketed Ascii.openBracket Ascii.closeBracket
      fun v hv => ih v hv (hnested v hv) (hfinite v hv)
    refine ⟨.array ws, Or.inr (.array ?_), beqItems_of_forall₂ hsame⟩
    rw [render, renderItems_eq]
    exact hws
  | @object members hunique _ ih =>
    cases hnested with
    | object hnested =>
    cases hfinite with
    | object hfinite =>
    rename_i depth
    have hmember : ∀ m ∈ members, ∃ m', IsMember (IsValue depth) (renderMember m) m' ∧
        SameMember m' m := by
      intro m hm
      obtain ⟨w, hw, hbeq⟩ := ih m hm (hnested m hm) (hfinite m hm)
      exact ⟨(m.1, w), .mk (isQuoted_renderString m.1) (.mk isSpace_nil isSpace_nil) hw, rfl, hbeq⟩
    obtain ⟨ms, hms, hsame⟩ := exists_isBracketed Ascii.openBrace Ascii.closeBrace hmember
    -- the keys that are read are those that were written, so that every member is its key's last
    have hlast : LastOfEach ms ms := by
      rw [lastOfEach_iff, membersOf_of_nodup]
      rwa [keys_of_forall₂ hsame]
    refine ⟨.object ms, Or.inr (.object ?_ hlast), beqMembers_of_forall₂ hsame⟩
    rw [render, renderMembers_eq]
    exact hms

/-- A value is read back from its text. -/
theorem parse_render {v : Json} (hkeys : v.UniqueKeys) (hnested : v.NestedWithin 8)
    (hfinite : v.FiniteNumbers) (hlength : (render v).length ≤ 65536) :
    ∃ w, parse (render v) = .ok w ∧ (w == v) = true := by
  obtain ⟨w, hw, hbeq⟩ := isValue_render hkeys hnested hfinite
  have := IsSpaced.mk isSpace_nil hw isSpace_nil
  rw [List.nil_append, List.append_nil] at this
  exact ⟨w, parse_of_isSpaced hlength this, hbeq⟩

/-- Escapes, bytes that are not UTF-8, numbers of both kinds (a tenth and minus three) and empty
parts. -/
def mixedSample : Json :=
  .object [
    (ascii "a\"\n", .array [.number (Float.ofBits 0x3fb999999999999a), .null, .bool true,
      .number (Float.ofBits 0xc008000000000000)]),
    ([0xff, 0x01], .object []),
    ([], .string [0x5c, 0x80])]

theorem parse_render_mixedSample :
    mixedSample.UniqueKeys ∧ mixedSample.NestedWithin 8 ∧ mixedSample.FiniteNumbers ∧
      (render mixedSample).length ≤ 65536 ∧
      ∃ w, parse (render mixedSample) = .ok w ∧ (w == mixedSample) = true := by
  have hkeys : mixedSample.UniqueKeys := by
    refine .object (by decide) ?_
    simp only [List.forall_mem_cons, List.not_mem_nil, false_implies, implies_true, and_true]
    refine ⟨.array ?_, .object (by decide) (by simp), .string _⟩
    simp only [List.forall_mem_cons, List.not_mem_nil, false_implies, implies_true, and_true]
    exact ⟨.number _, .null, .bool _, .number _⟩
  have hnested : mixedSample.NestedWithin 8 := by
    refine .object ?_
    simp only [List.forall_mem_cons, List.not_mem_nil, false_implies, implies_true, and_true]
    refine ⟨.array ?_, .object (by simp), .string _⟩
    simp only [List.forall_mem_cons, List.not_mem_nil, false_implies, implies_true, and_true]
    exact ⟨.number _, .null, .bool _, .number _⟩
  have hfinite : mixedSample.FiniteNumbers := by
    refine .object ?_
    simp only [List.forall_mem_cons, List.not_mem_nil, false_implies, implies_true, and_true]
    refine ⟨.array ?_, .object (by simp), .string _⟩
    simp only [List.forall_mem_cons, List.not_mem_nil, false_implies, implies_true, and_true]
    exact ⟨.number (by decide), .null, .bool _, .number (by decide)⟩
  have hlength : (render mixedSample).length ≤ 65536 := by decide +kernel
  exact ⟨hkeys, hnested, hfinite, hlength, parse_render hkeys hnested hfinite hlength⟩

end Json

end RoverControl
