import RoverControl.Proofs.Net.AddressGrammar

/-!
# Addresses are read as they are written

The text of an address spells it, so that `Address.parse` gives back every address from its text
(`parse_text`).  The text of an IPv6 address leaves out a run of zero groups; all that matters for
reading it is that they are zeros (`longestZeroRun_zeros`), not that the run is the longest.
-/

namespace RoverControl

namespace Net

namespace Address

/-! ## Groups of hexadecimal digits -/

theorem hexText_of_lt {n : Nat} (h : n < 16) : hexText n = [Ascii.hexDigit n] := by
  rw [hexText, if_pos h]

theorem hexText_of_not_lt {n : Nat} (h : ¬ n < 16) :
    hexText n = hexText (n / 16) ++ [Ascii.hexDigit (n % 16)] := by
  rw [hexText, if_neg h]

theorem hexText_ne_nil (n : Nat) : hexText n ≠ [] := by
  by_cases h : n < 16
  · rw [hexText_of_lt h]
    exact List.cons_ne_nil _ _
  · rw [hexText_of_not_lt h]
    exact List.append_ne_nil_of_right_ne_nil _ (List.cons_ne_nil _ _)

theorem length_hexText_le {n k : Nat} (h : n < 16 ^ (k + 1)) : (hexText n).length ≤ k + 1 := by
  induction k generalizing n with
  | zero =>
    rw [hexText_of_lt h]
    exact Nat.le_refl 1
  | succ k ih =>
    by_cases hn : n < 16
    · rw [hexText_of_lt hn, List.length_singleton]
      omega
    · have := ih (n := n / 16) (by rw [Nat.pow_succ] at h; omega)
      rw [hexText_of_not_lt hn, List.length_append, List.length_singleton]
      omega

theorem isHex_hexText (n : Nat) : IsHex (hexText n) n := by
  induction n using hexText.induct with
  | case1 n hn =>
    rw [hexText_of_lt hn]
    simpa using IsHex.nil.concat (hexValue?_hexDigit hn)
  | case2 n hn ih =>
    have := ih.concat (hexValue?_hexDigit (Nat.mod_lt n (show 16 > 0 by omega)))
    rw [hexText_of_not_lt hn]
    rwa [Nat.div_add_mod] at this

theorem isGroup_hexText {w : Nat} (h : w < 65536) : IsGroup (hexText w) w :=
  ⟨hexText_ne_nil w, length_hexText_le (k := 3) (by omega), isHex_hexText w⟩

/-! ## Octets and groups -/

theorem groupOctets_word (a b : UInt8) : groupOctets (256 * a.toNat + b.toNat) = [a, b] := by
  have hb := b.toNat_lt
  have hdiv : (256 * a.toNat + b.toNat) / 256 = a.toNat := by omega
  have hmod : (256 * a.toNat + b.toNat) % 256 = b.toNat := by omega
  simp [groupOctets, hdiv, hmod]

theorem length_words (octets : List UInt8) : (words octets).length = octets.length / 2 := by
  induction octets using words.induct with
  | case1 a b rest ih =>
    simp only [words, List.length_cons, ih]
    omega
  | case2 octets h =>
    rcases octets with _ | ⟨a, _ | ⟨b, rest⟩⟩
    · rfl
    · simp [words]
    · exact absurd rfl (h a b rest)

theorem words_lt {octets : List UInt8} {w : Nat} (h : w ∈ words octets) : w < 65536 := by
  induction octets using words.induct with
  | case1 a b rest ih =>
    rcases List.mem_cons.1 h with rfl | h
    · have := a.toNat_lt
      have := b.toNat_lt
      omega
    · exact ih h
  | case2 octets hne =>
    rw [words] at h
    · cases h
    · exact hne

theorem isGroups_of_subset_words {octets : List UInt8} {ws : List Nat} (h : ws ⊆ words octets)
    (dotted : Bool) : IsGroups dotted (ws.map hexText) (ws.flatMap groupOctets) := by
  induction ws with
  | nil => exact .nil
  | cons w rest ih =>
    obtain ⟨hw, hrest⟩ := List.cons_subset.1 h
    exact .cons (isGroup_hexText (words_lt hw)) (ih hrest)

theorem flatMap_drop_words {octets : List UInt8} (h : octets.length % 2 = 0) (k : Nat) :
    ((words octets).drop k).flatMap groupOctets = octets.drop (2 * k) := by
  induction octets using words.induct generalizing k with
  | case1 a b rest ih =>
    have hrest : rest.length % 2 = 0 := by
      simp only [List.length_cons] at h
      omega
    cases k with
    | zero =>
      have := ih hrest 0
      rw [List.drop_zero, Nat.mul_zero, List.drop_zero] at this
      rw [words, List.drop_zero, List.flatMap_cons, groupOctets_word, this]
      rfl
    | succ k =>
      rw [words, List.drop_succ_cons, ih hrest k]
      rfl
  | case2 octets hne =>
    rcases octets with _ | ⟨a, _ | ⟨b, rest⟩⟩
    · simp [words]
    · simp at h
    · exact absurd rfl (hne a b rest)

theorem flatMap_words {octets : List UInt8} (h : octets.length % 2 = 0) :
    (words octets).flatMap groupOctets = octets := flatMap_drop_words h 0

theorem flatMap_replicate_zero (n : Nat) :
    (List.replicate n 0).flatMap groupOctets = List.replicate (2 * n) 0 := by
  induction n with
  | zero => rfl
  | succ n ih => rw [List.replicate_succ, List.flatMap_cons, ih]; rfl

/-! ## Runs of zeros -/

/-- A position and a length at which a list has zeros only. -/
def IsZeroRun (ws : List Nat) (run : Nat × Nat) : Prop :=
  run.1 + run.2 ≤ ws.length ∧ (ws.drop run.1).take run.2 = List.replicate run.2 0

theorem isZeroRun_leadingZeros {ws : List Nat} {i : Nat} (h : i < ws.length) :
    IsZeroRun ws (i, leadingZeros (ws.drop i)) := by
  have hprefix := List.takeWhile_prefix (l := ws.drop i) (· == 0)
  have htake : (ws.drop i).take (leadingZeros (ws.drop i)) = (ws.drop i).takeWhile (· == 0) :=
    (List.prefix_iff_eq_take.1 hprefix).symm
  refine ⟨?_, ?_⟩
  · have := hprefix.length_le
    simp only [leadingZeros, List.length_drop] at this ⊢
    omega
  · rw [htake]
    refine List.eq_replicate_iff.2 ⟨rfl, fun w hw => ?_⟩
    simpa using List.mem_takeWhile_imp hw

/-- The run of zeros that is left out consists of zeros. -/
theorem longestZeroRun_zeros (ws : List Nat) : IsZeroRun ws (longestZeroRun ws) := by
  unfold longestZeroRun
  have hrange : ∀ i ∈ List.range ws.length, i < ws.length := fun i hi => List.mem_range.1 hi
  have hstart : IsZeroRun ws (0, 0) := ⟨Nat.zero_le _, rfl⟩
  -- every position that the search looks at is in the list, and it only ever moves to a run there
  generalize List.range ws.length = is at hrange
  generalize ((0, 0) : Nat × Nat) = best at hstart
  induction is generalizing best with
  | nil => exact hstart
  | cons i is ih =>
    rw [List.foldl_cons]
    refine ih (fun j hj => hrange j (List.mem_cons_of_mem _ hj)) _ ?_
    dsimp only
    split
    · exact isZeroRun_leadingZeros (hrange i List.mem_cons_self)
    · exact hstart

/-! ## IPv6 addresses -/

theorem length_flatMap_groupOctets (ws : List Nat) :
    (ws.flatMap groupOctets).length = 2 * ws.length := by
  induction ws with
  | nil => rfl
  | cons w rest ih =>
    rw [List.flatMap_cons, List.length_append, ih, List.length_cons]
    show 2 + 2 * rest.length = 2 * (rest.length + 1)
    omega

/-- Octets are those of the groups before a run of zeros, zeros, and those of the groups after. -/
theorem eq_of_isZeroRun {octets : List UInt8} (h : octets.length % 2 = 0) {start count : Nat}
    (hrun : IsZeroRun (words octets) (start, count)) :
    octets = ((words octets).take start).flatMap groupOctets ++ List.replicate (2 * count) 0 ++
      ((words octets).drop (start + count)).flatMap groupOctets := by
  have hzeros : ((words octets).drop start).take count = List.replicate count 0 := hrun.2
  have hws : words octets = (words octets).take start ++ List.replicate count 0 ++
      (words octets).drop (start + count) := by
    rw [← hzeros, ← List.drop_drop, List.append_assoc, List.take_append_drop,
      List.take_append_drop]
  calc octets
      = (words octets).flatMap groupOctets := (flatMap_words h).symm
    _ = ((words octets).take start ++ List.replicate count 0 ++
          (words octets).drop (start + count)).flatMap groupOctets := by rw [← hws]
    _ = _ := by rw [List.flatMap_append, List.flatMap_append, flatMap_replicate_zero]

theorem exists_four {os : List UInt8} (h : os.length = 4) : ∃ a b c d, os = [a, b, c, d] := by
  match os, h with
  | [a, b, c, d], _ => exact ⟨a, b, c, d, rfl⟩

/-- The four forms that the text of an IPv6 address can have. -/
theorem groupedText_cases {octets : List UInt8} (h : octets.length = 16) :
    groupedText octets = groupsText (words octets) ∨
    (groupedText octets = ascii "::" ++ dottedText (octets.drop 12) ∧
      octets = List.replicate 12 0 ++ octets.drop 12) ∨
    (groupedText octets = ascii "::ffff:" ++ dottedText (octets.drop 12) ∧
      octets = List.replicate 10 0 ++ 255 :: 255 :: octets.drop 12) ∨
    ∃ start count, 0 < count ∧ IsZeroRun (words octets) (start, count) ∧
      groupedText octets = groupsText ((words octets).take start) ++ ascii "::" ++
        groupsText ((words octets).drop (start + count)) := by
  have heven : octets.length % 2 = 0 := by omega
  have hrun := longestZeroRun_zeros (words octets)
  unfold groupedText
  dsimp only
  generalize longestZeroRun (words octets) = run at hrun
  obtain ⟨start, count⟩ := run
  have heq := eq_of_isZeroRun heven hrun
  split
  · exact Or.inl rfl
  · split
    · rename_i hsix
      obtain ⟨rfl, rfl⟩ : start = 0 ∧ count = 6 := by simpa using hsix
      rw [flatMap_drop_words heven] at heq
      exact Or.inr (Or.inl ⟨rfl, heq⟩)
    · split
      · rename_i hfive
        obtain ⟨⟨rfl, rfl⟩, hmapped⟩ :
            (start = 0 ∧ count = 5) ∧ (words octets)[5]? = some 0xffff := by simpa using hfive
        obtain ⟨hlt, hword⟩ := List.getElem?_eq_some_iff.1 hmapped
        rw [List.drop_eq_getElem_cons hlt, hword, List.flatMap_cons,
          flatMap_drop_words heven] at heq
        exact Or.inr (Or.inr (Or.inl ⟨rfl, heq⟩))
      · exact Or.inr (Or.inr (Or.inr ⟨start, count, by omega, hrun, rfl⟩))

theorem spellsV6_groupedText {octets : List UInt8} (h : octets.length = 16) :
    SpellsV6 octets (groupedText octets) := by
  obtain ⟨a, b, c, d, hlast⟩ := exists_four (show (octets.drop 12).length = 4 by simp [h])
  rcases groupedText_cases h with ht | ⟨ht, heq⟩ | ⟨ht, heq⟩ | ⟨start, count, hcount, hrun, ht⟩
  · have hgroups := isGroups_of_subset_words (List.Subset.refl (words octets)) true
    rw [flatMap_words (by omega)] at hgroups
    rw [ht]
    exact .grouped hgroups
  · rw [hlast] at ht heq
    rw [ht]
    exact .shortened .nil (.embedded rfl a b c d) (by simp) heq
  · obtain ⟨ones, hones, hoctets⟩ := readGroup_eq_some_iff.1
      (show readGroup (ascii "ffff") = some [255, 255] by decide)
    have hgroups : IsGroups true _ _ := .cons hones (.embedded rfl a b c d)
    rw [← hoctets] at hgroups
    rw [hlast] at ht heq
    rw [ht]
    exact .shortened .nil hgroups (by simp) heq
  · have hle : start + count ≤ (words octets).length := hrun.1
    have hlen := length_words octets
    have heq := eq_of_isZeroRun (by omega) hrun
    have hfront := isGroups_of_subset_words (List.take_subset start (words octets)) false
    have hback := isGroups_of_subset_words (List.drop_subset (start + count) (words octets)) true
    have hfl : (((words octets).take start).flatMap groupOctets).length = 2 * start := by
      rw [length_flatMap_groupOctets, List.length_take, Nat.min_eq_left (by omega)]
    have hbl : (((words octets).drop (start + count)).flatMap groupOctets).length =
        16 - 2 * (start + count) := by
      rw [length_flatMap_groupOctets, List.length_drop]
      omega
    have hzeros : 16 - (2 * start + (16 - 2 * (start + count))) = 2 * count := by omega
    rw [ht]
    exact .shortened hfront hback (by omega) (by rw [hfl, hbl, hzeros]; exact heq)

/-! ## Reading a text -/

/-- The text of an address is one of its texts. -/
theorem spells_text (a : Address) : Spells a.text a := by
  obtain ⟨⟨family, octets, hlen⟩, hzeros⟩ := a
  cases family with
  | v4 =>
    obtain ⟨p, q, r, s, hfront⟩ := exists_four (show (octets.take 4).length = 4 by simp [hlen])
    have hoctets : octets = [p, q, r, s] ++ List.replicate 12 0 := by
      rw [← hfront, ← hzeros rfl, List.take_append_drop]
    subst hoctets
    exact .v4 p q r s
  | v6 => exact .v6 rfl (spellsV6_groupedText hlen)

theorem text_ne_nil (a : Address) : a.text ≠ [] := a.spells_text.ne_nil

/-- A byte that no address is written with does not occur in the text of one. -/
theorem notMem_text {c : UInt8} (hc : isTextByte c = false) (a : Address) : c ∉ a.text :=
  a.spells_text.notMem hc

theorem isBlank_of_mem_text {a : Address} {c : UInt8} (h : c ∈ a.text) :
    Ascii.isBlank c = false := by
  rw [Ascii.isBlank, Bool.or_eq_false_iff, beq_eq_false_iff_ne, beq_eq_false_iff_ne]
  refine ⟨?_, ?_⟩
  · rintro rfl
    exact notMem_text (by decide) a h
  · rintro rfl
    exact notMem_text (by decide) a h

/-- An address is read as it was written. -/
theorem parse_text (a : Address) : parse a.text = some a := by
  have htrim : Bytes.trim a.text = a.text := Bytes.trim_of_not_blank fun c => isBlank_of_mem_text
  rw [parse_eq_some_iff, takenFor_iff_of_notMem (htrim.symm ▸ notMem_text (by decide) a), htrim]
  exact a.spells_text

end Address

end Net

end RoverControl
