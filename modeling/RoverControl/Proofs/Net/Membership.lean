import Mathlib.Data.List.GetD
import Mathlib.Data.List.Induction
import RoverControl.Proofs.Config.Validation
import RoverControl.Proofs.Net.BlockText

/-!
# The addresses of a block

Addresses are numbers of 32 or 128 bits.  The masks of a prefix compare its bits and no others
(`agreeOn_iff_masks`), so that the addresses of a block are those from its base up to the last one
with the same prefix (`contains_iff_inRange`).  What a configuration allows is hence told by the
ranges of the blocks that it lists (`allowed_iff_in_listed_range`).
-/

namespace RoverControl

namespace Net

namespace Address

/-! ## Addresses as numbers -/

/-- The number that octets make up, the first one being the highest. -/
def numberOf (octets : List UInt8) : Nat := octets.foldl (fun n c => 256 * n + c.toNat) 0

/-- The number of an address, in 32 or 128 bits. -/
def number (a : Address) : Nat := numberOf (a.octets.take (a.family.bits / 8))

example : number (.v4 10 0 1 2) = 10 * 2 ^ 24 + 1 * 2 ^ 8 + 2 := by decide

theorem numberOf_concat (octets : List UInt8) (c : UInt8) :
    numberOf (octets ++ [c]) = 2 ^ 8 * numberOf octets + c.toNat := by
  rw [numberOf, List.foldl_append]
  rfl

theorem numberOf_lt (octets : List UInt8) : numberOf octets < 2 ^ (8 * octets.length) := by
  induction octets using List.reverseRecOn with
  | nil => decide
  | append_singleton octets c ih =>
    have hc := c.toNat_lt
    rw [numberOf_concat, List.length_append, List.length_singleton, Nat.mul_add_one, Nat.pow_add]
    omega

theorem testBit_numberOf {octets : List UInt8} {i : Nat} (h : i < 8 * octets.length) :
    (numberOf octets).testBit (8 * octets.length - 1 - i) =
      (octets.getD (i / 8) 0).toNat.testBit (7 - i % 8) := by
  induction octets using List.reverseRecOn with
  | nil => simp at h
  | append_singleton octets c ih =>
    rw [List.length_append, List.length_singleton] at h ⊢
    rw [numberOf_concat, Nat.testBit_two_pow_mul_add _ c.toNat_lt]
    by_cases hi : i < 8 * octets.length
    · have hpos : 8 * (octets.length + 1) - 1 - i - 8 = 8 * octets.length - 1 - i := by omega
      rw [if_neg (by omega), hpos, ih hi, List.getD_append _ _ _ _ (by omega)]
    · have hpos : 8 * (octets.length + 1) - 1 - i = 7 - i % 8 := by omega
      have hlast : i / 8 = octets.length := by omega
      rw [if_pos (by omega), hpos, List.getD_append_right _ _ _ _ (by omega), hlast]
      simp

theorem length_take_octets (a : Address) :
    8 * (a.octets.take (a.family.bits / 8)).length = a.family.bits := by
  obtain ⟨⟨family, octets, hlen⟩, hzeros⟩ := a
  cases family <;> simp [hlen, Family.bits]

theorem number_lt (a : Address) : a.number < 2 ^ a.family.bits := by
  have := numberOf_lt (a.octets.take (a.family.bits / 8))
  rwa [length_take_octets] at this

/-- The bits of an address are those of its number, from the highest on. -/
theorem testBit_number {a : Address} {i : Nat} (h : i < a.family.bits) :
    a.number.testBit (a.family.bits - 1 - i) = a.bit i := by
  have hlen := length_take_octets a
  have hlt : i < 8 * (a.octets.take (a.family.bits / 8)).length := by rwa [hlen]
  have hbit := testBit_numberOf hlt
  rw [hlen] at hbit
  rw [number, hbit, RawAddress.bit, RawAddress.octet, List.getD_eq_getElem?_getD,
    List.getD_eq_getElem?_getD, List.getElem?_take_of_lt]
  obtain ⟨⟨family, octets, hlen⟩, hzeros⟩ := a
  cases family <;> simp only [Family.bits] at h ⊢ <;> omega

/-- The first `n` bits of two addresses are the same. -/
def AgreeOn (n : Nat) (a b : Address) : Prop := ∀ i < n, a.bit i = b.bit i

/-- The first bits are what is left of the number without the others. -/
theorem agreeOn_iff_div {a b : Address} (hfamily : a.family = b.family) {n : Nat}
    (hn : n ≤ a.family.bits) :
    AgreeOn n a b ↔
      a.number / 2 ^ (a.family.bits - n) = b.number / 2 ^ (a.family.bits - n) := by
  have hbit : ∀ i < a.family.bits, b.number.testBit (a.family.bits - 1 - i) = b.bit i := by
    intro i hi
    rw [hfamily] at hi ⊢
    exact testBit_number hi
  constructor
  · intro h
    refine Nat.eq_of_testBit_eq fun j => ?_
    rw [Nat.testBit_div_two_pow, Nat.testBit_div_two_pow]
    by_cases hj : j < n
    · have hpos : j + (a.family.bits - n) = a.family.bits - 1 - (n - 1 - j) := by omega
      rw [hpos, testBit_number (by omega), hbit _ (by omega)]
      exact h _ (by omega)
    · have hpow : 2 ^ a.family.bits ≤ 2 ^ (j + (a.family.bits - n)) :=
        Nat.pow_le_pow_right (by omega) (by omega)
      have ha := number_lt a
      have hb := number_lt b
      rw [← hfamily] at hb
      rw [Nat.testBit_lt_two_pow (by omega), Nat.testBit_lt_two_pow (by omega)]
  · intro h i hi
    have hpos : n - 1 - i + (a.family.bits - n) = a.family.bits - 1 - i := by omega
    have heq := congrArg (Nat.testBit · (n - 1 - i)) h
    simp only [Nat.testBit_div_two_pow, hpos] at heq
    rwa [testBit_number (by omega), hbit _ (by omega)] at heq

/-- The bits from position `n` on are zero if the number is a multiple of their power of two. -/
theorem dvd_number_of_clear {a : Address} {n : Nat}
    (h : ∀ i, n ≤ i → i < a.family.bits → a.bit i = false) :
    2 ^ (a.family.bits - n) ∣ a.number := by
  refine Nat.dvd_of_mod_eq_zero (Nat.eq_of_testBit_eq fun j => ?_)
  rw [Nat.testBit_mod_two_pow, Nat.zero_testBit]
  by_cases hj : j < a.family.bits - n
  · have hpos : j = a.family.bits - 1 - (a.family.bits - 1 - j) := by omega
    rw [hpos, testBit_number (by omega), h _ (by omega) (by omega), Bool.and_false]
  · simp [hj]

end Address

namespace Block

/-! ## Masks -/

/-- The mask of the first `n` bits of an octet. -/
theorem testBit_mask {n j : Nat} (hn : 0 < n) (hn8 : n ≤ 8) (hj : j < 8) :
    ((0xff : UInt8) <<< UInt8.ofNat (8 - n)).toNat.testBit j = decide (8 - n ≤ j) := by
  have hall : ∀ n : Fin 9, 0 < n.val → ∀ j : Fin 8,
      ((0xff : UInt8) <<< UInt8.ofNat (8 - n.val)).toNat.testBit j = decide (8 - n.val ≤ j) := by
    decide
  exact hall ⟨n, by omega⟩ hn ⟨j, hj⟩

/-- Octets are the same under a mask if their first bits are. -/
theorem masked_eq_iff {n : Nat} (hn : 0 < n) (hn8 : n ≤ 8) (x y : UInt8) :
    x &&& (0xff <<< UInt8.ofNat (8 - n)) = y &&& (0xff <<< UInt8.ofNat (8 - n)) ↔
      ∀ j < n, x.toNat.testBit (7 - j) = y.toNat.testBit (7 - j) := by
  have hbits : ∀ j < 8, ∀ z : UInt8,
      (z &&& (0xff <<< UInt8.ofNat (8 - n))).toNat.testBit j =
        (z.toNat.testBit j && decide (8 - n ≤ j)) := by
    intro j hj z
    rw [UInt8.toNat_and, Nat.testBit_and, testBit_mask hn hn8 hj]
  constructor
  · intro h j hj
    have hmasked := congrArg (fun z : UInt8 => z.toNat.testBit (7 - j)) h
    rwa [hbits _ (by omega), hbits _ (by omega), decide_eq_true (by omega), Bool.and_true,
      Bool.and_true] at hmasked
  · intro h
    refine UInt8.toNat_inj.1 (Nat.eq_of_testBit_eq fun j => ?_)
    by_cases hj : j < 8
    · rw [hbits j hj, hbits j hj]
      by_cases hjn : 8 - n ≤ j
      · have hpos : j = 7 - (7 - j) := by omega
        rw [hpos, h (7 - j) (by omega)]
      · simp [hjn]
    · have hpow : 2 ^ 8 ≤ 2 ^ j := Nat.pow_le_pow_right (by omega) (by omega)
      have hx := (x &&& (0xff <<< UInt8.ofNat (8 - n))).toNat_lt
      have hy := (y &&& (0xff <<< UInt8.ofNat (8 - n))).toNat_lt
      rw [Nat.testBit_lt_two_pow (by omega), Nat.testBit_lt_two_pow (by omega)]

theorem forall_mem_prefixMasks {n : Nat} {P : Nat × UInt8 → Prop} :
    (∀ m ∈ prefixMasks n, P m) ↔
      (∀ i < n / 8, P (i, 0xff)) ∧
        (n % 8 ≠ 0 → P (n / 8, 0xff <<< UInt8.ofNat (8 - n % 8))) := by
  unfold prefixMasks
  dsimp only
  split <;> simp [*, or_imp, forall_and]

/-- A prefix reaches into no octet past those that its bits are in. -/
theorem lt_of_mem_prefixMasks {n k : Nat} (h : n ≤ 8 * k) {m : Nat × UInt8}
    (hm : m ∈ prefixMasks n) : m.1 < k := by
  revert m
  rw [forall_mem_prefixMasks (P := fun m => m.1 < k)]
  exact ⟨fun i hi => by omega, fun hrest => by omega⟩

/-- The masks compare the bits of the prefix. -/
theorem agreeOn_iff_masks {n : Nat} {a b : Address} :
    Address.AgreeOn n a b ↔
      ∀ m ∈ prefixMasks n, a.octet m.1 &&& m.2 = b.octet m.1 &&& m.2 := by
  have hwhole : (0xff : UInt8) = 0xff <<< UInt8.ofNat (8 - 8) := rfl
  have hbit : ∀ i j, j < 8 → ∀ a : Address,
      a.bit (8 * i + j) = (a.octet i).toNat.testBit (7 - j) := by
    intro i j hj a
    rw [RawAddress.bit, show (8 * i + j) / 8 = i by omega, show (8 * i + j) % 8 = j by omega]
  rw [forall_mem_prefixMasks]
  constructor
  · intro h
    refine ⟨fun i hi => ?_, fun hrest => ?_⟩
    · rw [hwhole, masked_eq_iff (by omega) (by omega)]
      intro j hj
      rw [← hbit i j hj, ← hbit i j hj]
      exact h _ (by omega)
    · rw [masked_eq_iff (by omega) (by omega)]
      intro j hj
      rw [← hbit _ j (by omega), ← hbit _ j (by omega)]
      exact h _ (by omega)
  · rintro ⟨hwholes, hrest⟩ i hi
    rw [← Nat.div_add_mod i 8, hbit _ _ (Nat.mod_lt i (by omega)),
      hbit _ _ (Nat.mod_lt i (by omega))]
    by_cases hoctet : i / 8 < n / 8
    · have := hwholes (i / 8) hoctet
      rw [hwhole, masked_eq_iff (by omega) (by omega)] at this
      exact this _ (Nat.mod_lt i (by omega))
    · have hlast : i / 8 = n / 8 := by omega
      have := hrest (by omega)
      rw [masked_eq_iff (by omega) (by omega)] at this
      rw [hlast]
      exact this _ (by omega)

/-! ## Ranges -/

theorem contains_iff_agreeOn {block : Block} {a : Address} :
    block.contains a = true ↔
      block.base.family = a.family ∧ Address.AgreeOn block.prefixLength block.base a := by
  rw [agreeOn_iff_masks]
  simp [contains, RawAddress.sharesPrefix]

/-- An address is of the family of a block and not below its base, nor above the last address that
has the same prefix. -/
structure InRange (block : Block) (a : Address) : Prop where
  family : block.base.family = a.family
  base_le : block.base.number ≤ a.number
  le_last : a.number ≤
    block.base.number + 2 ^ (block.base.family.bits - block.prefixLength) - 1

theorem div_eq_div_iff_of_dvd {x y d : Nat} (hd : 0 < d) (hdvd : d ∣ x) :
    x / d = y / d ↔ x ≤ y ∧ y ≤ x + d - 1 := by
  obtain ⟨q, rfl⟩ := hdvd
  rw [Nat.mul_div_cancel_left q hd, eq_comm, Nat.div_eq_iff hd]
  have hcomm : q * d = d * q := Nat.mul_comm q d
  omega

theorem IsCanonical.contains_iff_inRange {block : Block} (h : block.IsCanonical) (a : Address) :
    block.contains a = true ↔ block.InRange a := by
  have hd : 0 < 2 ^ (block.base.family.bits - block.prefixLength) := Nat.two_pow_pos _
  have hrange := div_eq_div_iff_of_dvd (y := a.number) hd (Address.dvd_number_of_clear h.clear)
  rw [contains_iff_agreeOn]
  constructor
  · rintro ⟨hfamily, hagree⟩
    rw [Address.agreeOn_iff_div hfamily h.prefixLength_le, hrange] at hagree
    exact ⟨hfamily, hagree.1, hagree.2⟩
  · rintro ⟨hfamily, hbase, hlast⟩
    refine ⟨hfamily, ?_⟩
    rw [Address.agreeOn_iff_div hfamily h.prefixLength_le, hrange]
    exact ⟨hbase, hlast⟩

theorem IsCanonical.lt_of_mem_prefixMasks {block : Block} (h : block.IsCanonical)
    {m : Nat × UInt8} (hm : m ∈ prefixMasks block.prefixLength) :
    m.1 < block.base.family.bits / 8 := by
  refine Block.lt_of_mem_prefixMasks ?_ hm
  have hle := h.prefixLength_le
  cases hf : block.base.family <;> simp only [hf, Family.bits] at hle ⊢ <;> omega

/-! ## Lists of blocks -/

theorem mem_of_parseAll {texts : List Bytes} {blocks : List Block}
    (h : parseAll texts = some blocks) {block : Block} :
    block ∈ blocks ↔ ∃ t ∈ texts, parse t = some block := by
  replace h := forall₂_of_parseAll h
  induction h with
  | nil => simp
  | cons hfirst _ ih =>
    simp only [List.mem_cons, ih, exists_eq_or_imp, hfirst, Option.some.injEq]
    rw [eq_comm]

end Block

end Net

namespace Config

theorem Store.isAllowed_iff_exists {s : Store} (h : s.config.validate = .ok s) (a : Net.Address) :
    s.isAllowed a = true ↔ ∃ t ∈ s.config.allowedNetworks, ∃ block,
      Net.Block.parse t = some block ∧ block.InRange a := by
  have hparse := (validate_eq_ok_iff.1 h).2.2
  simp only [Store.isAllowed, List.any_eq_true, Net.Block.mem_of_parseAll hparse]
  constructor
  · rintro ⟨block, ⟨t, ht, hblock⟩, ha⟩
    have hcanonical := Net.Block.isCanonical_of_parse hblock
    exact ⟨t, ht, block, hblock, (hcanonical.contains_iff_inRange a).1 ha⟩
  · rintro ⟨t, ht, block, hblock, ha⟩
    have hcanonical := Net.Block.isCanonical_of_parse hblock
    exact ⟨block, ⟨t, ht, hblock⟩, (hcanonical.contains_iff_inRange a).2 ha⟩

/-- A block that is read holds the addresses of its range, which are those with the bits of its
prefix, and no octet past an address is looked at to tell them.  A valid store allows the addresses
in the range of one of the blocks that it lists, in whatever order and however often. -/
theorem allowed_iff_in_listed_range :
    (∀ t block, Net.Block.parse t = some block →
      (∀ a, (block.contains a = true ↔ block.InRange a) ∧
        (block.contains a = true ↔ block.base.family = a.family ∧
          Net.Address.AgreeOn block.prefixLength block.base a)) ∧
      ∀ m ∈ Net.prefixMasks block.prefixLength, m.1 < block.base.family.bits / 8) ∧
    (∀ s : Store, s.config.validate = .ok s → ∀ a, s.isAllowed a = true ↔
      ∃ t ∈ s.config.allowedNetworks, ∃ block,
        Net.Block.parse t = some block ∧ block.InRange a) ∧
    ∀ s s' : Store, s.config.validate = .ok s → s'.config.validate = .ok s' →
      (∀ t, t ∈ s.config.allowedNetworks ↔ t ∈ s'.config.allowedNetworks) →
      ∀ a, s.isAllowed a = s'.isAllowed a := by
  refine ⟨fun t block h => ?_, fun s h a => Store.isAllowed_iff_exists h a,
    fun s s' h h' hsame a => ?_⟩
  · have hcanonical := Net.Block.isCanonical_of_parse h
    exact ⟨fun a => ⟨hcanonical.contains_iff_inRange a, Net.Block.contains_iff_agreeOn⟩,
      fun m hm => hcanonical.lt_of_mem_prefixMasks hm⟩
  · rw [Bool.eq_iff_iff, Store.isAllowed_iff_exists h, Store.isAllowed_iff_exists h']
    simp only [hsame]

theorem allowed_iff_in_listed_range_repeated :
    let twelve : Net.Block := ⟨.v4 10 0 0 0, 12⟩
    let host : Net.Block := ⟨.v4 192 168 1 130, 32⟩
    let s : Store := ⟨listing [ascii "10.0.0.0/12", ascii "192.168.1.130"], [twelve, host]⟩
    let s' : Store := ⟨listing [ascii "192.168.1.130", ascii "10.0.0.0/12", ascii "192.168.1.130"],
      [host, twelve, host]⟩
    Net.Block.parse (ascii "10.0.0.0/12") = some twelve ∧
      twelve.InRange (.v4 10 15 255 255) ∧ ¬ twelve.InRange (.v4 10 16 0 0) ∧
      (1, 0xf0) ∈ Net.prefixMasks 12 ∧ 1 < twelve.base.family.bits / 8 ∧
      s.config.validate = .ok s ∧ s'.config.validate = .ok s' ∧
      (∀ t, t ∈ s.config.allowedNetworks ↔ t ∈ s'.config.allowedNetworks) ∧
      s.isAllowed (.v4 10 15 255 255) = true ∧ s'.isAllowed (.v4 10 15 255 255) = true := by
  intro twelve host s s'
  have hparse : Net.Block.parse (ascii "10.0.0.0/12") = some twelve := by decide
  obtain ⟨hcontains, hmasks⟩ := allowed_iff_in_listed_range.1 _ _ hparse
  have hlast := ((hcontains (.v4 10 15 255 255)).1).1 (by decide)
  have hpast := mt ((hcontains (.v4 10 16 0 0)).1).2 (by decide)
  have hmask : (1, 0xf0) ∈ Net.prefixMasks 12 := by decide
  have hvalid : s.config.validate = .ok s := validate_eq_ok_iff.2
    ⟨⟨by decide, by decide, by decide +kernel, by decide +kernel, by decide⟩, rfl, by decide⟩
  have hvalid' : s'.config.validate = .ok s' := validate_eq_ok_iff.2
    ⟨⟨by decide, by decide, by decide +kernel, by decide +kernel, by decide⟩, rfl, by decide⟩
  have hsame : ∀ t, t ∈ s.config.allowedNetworks ↔ t ∈ s'.config.allowedNetworks := by
    intro t
    simp only [s, s', listing, List.mem_cons, List.not_mem_nil, or_false]
    tauto
  have hallowed := (allowed_iff_in_listed_range.2.1 s hvalid (.v4 10 15 255 255)).2
    ⟨_, List.mem_cons_self, twelve, hparse, hlast⟩
  refine ⟨hparse, hlast, hpast, hmask, hmasks _ hmask, hvalid, hvalid', hsame, hallowed, ?_⟩
  rw [← allowed_iff_in_listed_range.2.2 s s' hvalid hvalid' hsame]
  exact hallowed

end Config

end RoverControl
