import RoverControl.Net.Block
import RoverControl.Proofs.Net.AddressText

/-!
# The texts of blocks

A block is read from the text of its base, or from that and the length of the prefix after a slash
(`parse_eq_some_iff`), and every block that is read is canonical: its base has no bit past the
prefix.  Conversely a canonical block is read from its own text (`parse_text`).  No byte of a text
goes unread but those behind a zero byte (`read_up_to_zero_byte`), which let a text pass for an
address that it does not spell (`disguised_as_loopback`).
-/

namespace RoverControl

namespace Net

namespace Block

/-! ## Blocks that can be read -/

/-- The prefix is not longer than the base, which has no bit past it. -/
structure IsCanonical (block : Block) : Prop where
  prefixLength_le : block.prefixLength ≤ block.base.family.bits
  clear : ∀ i, block.prefixLength ≤ i → i < block.base.family.bits → block.base.bit i = false

theorem hostBitsClear_iff {a : Address} {n : Nat} :
    hostBitsClear a n = true ↔ ∀ i, n ≤ i → i < a.family.bits → a.bit i = false := by
  simp only [hostBitsClear, List.all_eq_true, List.mem_range'_1, Bool.not_eq_true']
  exact ⟨fun h i hn hi => h i ⟨hn, by omega⟩, fun h i hi => h i hi.1 (by omega)⟩

theorem make?_eq_some_iff {base : Address} {n : Nat} {block : Block} :
    make? base n = some block ↔ block = ⟨base, n⟩ ∧ n ≤ base.family.bits ∧
      ∀ i, n ≤ i → i < base.family.bits → base.bit i = false := by
  simp only [make?, Option.ite_none_right_eq_some, Bool.and_eq_true, decide_eq_true_eq,
    hostBitsClear_iff, Option.some.injEq]
  exact ⟨fun ⟨h, heq⟩ => ⟨heq.symm, h⟩, fun ⟨heq, h⟩ => ⟨h, heq.symm⟩⟩

/-- The texts of a block, where `IsBase` tells the texts of its base. -/
inductive Written (IsBase : Bytes → Address → Prop) : Bytes → Block → Prop
  | host {s : Bytes} {base : Address} (hs : Ascii.slash ∉ s) (hbase : IsBase s base) :
      Written IsBase s ⟨base, base.family.bits⟩
  | prefixed {front back : Bytes} {base : Address} {n : Nat} (hfront : Ascii.slash ∉ front)
      (hbase : IsBase front base) (hn : readDecimal? back = some n) (hle : n ≤ base.family.bits)
      (hclear : ∀ i, n ≤ i → i < base.family.bits → base.bit i = false) :
      Written IsBase (front ++ Ascii.slash :: back) ⟨base, n⟩

theorem parse_eq_some_iff {s : Bytes} {block : Block} :
    parse s = some block ↔ Written Address.TakenFor s.trim block := by
  unfold parse
  dsimp only
  generalize Bytes.trim s = s
  rcases hcut : Bytes.cut Ascii.slash s with _ | ⟨front, back⟩
  · have hs := Bytes.cut_eq_none_iff.1 hcut
    simp only [Option.bind_eq_some_iff, make?_eq_some_iff]
    constructor
    · rintro ⟨base, hbase, rfl, -⟩
      exact .host hs (Address.parse_eq_some_iff.1 hbase)
    · intro h
      cases h with
      | host _ hbase =>
        exact ⟨_, Address.parse_eq_some_iff.2 hbase, rfl, Nat.le_refl _, fun i => by omega⟩
      | prefixed => exact absurd (List.mem_append_right _ List.mem_cons_self) hs
  · obtain ⟨hfront, rfl⟩ := Bytes.cut_eq_some_iff.1 hcut
    dsimp only
    constructor
    · intro h
      split at h
      · rename_i base n hbase hn
        obtain ⟨rfl, hle, hclear⟩ := make?_eq_some_iff.1 h
        exact .prefixed hfront (Address.parse_eq_some_iff.1 hbase) hn hle hclear
      · cases h
    · intro h
      generalize htext : front ++ Ascii.slash :: back = text at h hcut
      cases h with
      | host hs =>
        rw [Bytes.cut_eq_none_iff.2 hs] at hcut
        cases hcut
      | prefixed hfront' hbase hn hle hclear =>
        rw [Bytes.cut_of_notMem hfront'] at hcut
        cases hcut
        rw [Address.parse_eq_some_iff.2 hbase, hn]
        exact make?_eq_some_iff.2 ⟨rfl, hle, hclear⟩

theorem isCanonical_of_parse {s : Bytes} {block : Block} (h : parse s = some block) :
    block.IsCanonical := by
  have h := parse_eq_some_iff.1 h
  generalize Bytes.trim s = s at h
  cases h with
  | host hs hbase =>
    exact ⟨Nat.le_refl _, fun i hi hlt => absurd hlt (Nat.not_lt.2 hi)⟩
  | prefixed hfront hbase hn hle hclear => exact ⟨hle, hclear⟩

/-! ## Reading what was written -/

theorem isBlank_of_mem_text {block : Block} {c : UInt8} (h : c ∈ block.text) :
    Ascii.isBlank c = false := by
  have hdigit : ∀ c : UInt8, Ascii.isBlank c = true → Ascii.isDigit c = false := by
    intro c hc
    rcases Bool.or_eq_true_iff.1 hc with hc | hc <;> rw [beq_iff_eq.1 hc] <;> decide
  rcases List.mem_append.1 h with h | h
  · exact Address.isBlank_of_mem_text h
  · rcases List.mem_cons.1 h with rfl | h
    · decide
    · by_contra hblank
      rw [Bool.not_eq_false] at hblank
      exact notMem_decimal (hdigit c hblank) _ h

/-- A canonical block is read as it was written. -/
theorem parse_text {block : Block} (h : block.IsCanonical) : parse block.text = some block := by
  have htrim : Bytes.trim block.text = block.text :=
    Bytes.trim_of_not_blank fun c => isBlank_of_mem_text
  rw [parse_eq_some_iff, htrim]
  exact .prefixed (Address.notMem_text (by decide) block.base)
    (Address.parse_eq_some_iff.1 block.base.parse_text) (readDecimal?_decimal _)
    h.prefixLength_le h.clear

/-! ## Bytes that are not read -/

theorem Written.imp {R R' : Bytes → Address → Prop} {s : Bytes} {block : Block}
    (h : Written R s block) (himp : ∀ t a, t <+: s → R t a → R' t a) : Written R' s block := by
  cases h with
  | host hs hbase => exact .host hs (himp _ _ (List.prefix_refl _) hbase)
  | prefixed hfront hbase hn hle hclear =>
    exact .prefixed hfront (himp _ _ (List.prefix_append _ _) hbase) hn hle hclear

/-- Texts are read as addresses and blocks as far as the first zero byte of the address, and up to
there they are written by the grammar, with blanks at both ends only.  So without a zero byte no
byte goes unread. -/
theorem read_up_to_zero_byte (s : Bytes) :
    (∀ a, Address.parse s = some a ↔ Address.TakenFor s a) ∧
    (∀ block, parse s = some block ↔ Written Address.TakenFor s.trim block) ∧
    (∀ t a, Address.Spells t a → ∀ c ∈ t, Address.isTextByte c = true) ∧
    (0 ∉ s → (∀ a, Address.parse s = some a ↔ Address.Spells s.trim a) ∧
      ∀ block, parse s = some block ↔
        Written (fun t base => Address.Spells (Bytes.trim t) base) s.trim block) := by
  refine ⟨fun a => Address.parse_eq_some_iff, fun block => parse_eq_some_iff,
    fun t a h => h.isTextByte, fun hzero => ⟨fun a => ?_, fun block => ?_⟩⟩
  · rw [Address.parse_eq_some_iff, Address.takenFor_iff_of_notMem (Bytes.notMem_trim hzero)]
  · have hiff : ∀ t a, t <+: s.trim → (Address.TakenFor t a ↔ Address.Spells (Bytes.trim t) a) :=
      fun t a ht => Address.takenFor_iff_of_notMem
        (Bytes.notMem_trim fun h => Bytes.notMem_trim hzero (ht.subset h))
    rw [parse_eq_some_iff]
    constructor
    · exact fun h => h.imp fun t a ht => (hiff t a ht).1
    · exact fun h => h.imp fun t a ht => (hiff t a ht).2

/-- A block with blanks around its base. -/
def spaced : Bytes := ascii " 2001:db8:: /32\t"

theorem read_up_to_zero_byte_spaced :
    0 ∉ spaced ∧
      ∃ base, Written (fun t base => Address.Spells (Bytes.trim t) base) spaced.trim ⟨base, 32⟩ ∧
        Address.Spells (ascii "2001:db8::") base ∧
        Ascii.colon ∈ ascii "2001:db8::" ∧ Address.isTextByte Ascii.colon = true := by
  have hzero : 0 ∉ spaced := by decide
  have hplain : 0 ∉ ascii "2001:db8::" := by decide
  obtain ⟨base, hbase, hblock⟩ : ∃ base, Address.parse (ascii "2001:db8::") = some base ∧
      parse spaced = some ⟨base, 32⟩ :=
    ⟨.v6 [0x20, 0x01, 0x0d, 0xb8, 0, 0, 0, 0, 0, 0, 0, 0, 0, 0, 0, 0] rfl, by decide, by decide⟩
  have hwritten := (((read_up_to_zero_byte spaced).2.2.2 hzero).2 _).1 hblock
  have hspells := (((read_up_to_zero_byte (ascii "2001:db8::")).2.2.2 hplain).1 base).1 hbase
  have hcolon : Ascii.colon ∈ ascii "2001:db8::" := by decide
  exact ⟨hzero, base, hwritten, hspells, hcolon,
    (read_up_to_zero_byte spaced).2.2.1 _ base hspells _ hcolon⟩

/-- The name of a host behind the loopback address and a zero byte. -/
def disguised : Bytes := ascii "127.0.0.1\x00.example"

/-- The text spells no address, but it is read as the loopback address. -/
theorem disguised_as_loopback :
    Address.parse disguised = some (.v4 127 0 0 1) ∧
      parse (disguised ++ ascii "/32") = some ⟨.v4 127 0 0 1, 32⟩ ∧
      ¬ ∃ a, Address.Spells disguised.trim a := by
  refine ⟨by decide, by decide, ?_⟩
  rintro ⟨a, h⟩
  exact h.notMem (c := 0) (by decide) (by decide)

end Block

end Net

end RoverControl
