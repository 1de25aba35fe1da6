import Mathlib.Data.List.Basic
import Mathlib.Data.List.Induction
import RoverControl.Net.AddressText
import RoverControl.Proofs.Bytes

/-!
# The grammar of addresses

`Address.Spells` is the grammar of the texts of addresses: four decimal numbers divided by dots, or
groups of hexadecimal digits divided by colons, of which a pair of colons leaves out those that are
zero.  A text is read as an address exactly where the grammar gives it one (`parse_eq_some_iff`),
except that a zero byte hides what comes after it.
-/

namespace RoverControl

namespace Net

namespace Address

/-! ## Joined texts -/

theorem join_eq_intercalate (sep : Bytes) (parts : List Bytes) :
    join sep parts = sep.intercalate parts := by
  induction parts using join.induct with
  | case1 => rfl
  | case2 s => exact List.intercalate_singleton.symm
  | case3 s rest hne ih =>
    obtain ⟨s', rest, rfl⟩ := List.exists_cons_of_ne_nil hne
    rw [join, ih, List.intercalate_cons_cons, List.append_assoc]
    exact hne

theorem join_splitOn (c : UInt8) (s : Bytes) : join [c] (s.splitOn c) = s := by
  rw [join_eq_intercalate, List.intercalate_splitOn]

theorem splitOn_join {c : UInt8} {parts : List Bytes} (hne : parts ≠ [])
    (h : ∀ s ∈ parts, c ∉ s) : (join [c] parts).splitOn c = parts := by
  rw [join_eq_intercalate, List.splitOn_intercalate c h hne]

theorem join_cons {c : UInt8} {s : Bytes} {rest : List Bytes} (h : rest ≠ []) :
    join [c] (s :: rest) = s ++ c :: join [c] rest := by
  obtain ⟨s', rest, rfl⟩ := List.exists_cons_of_ne_nil h
  exact List.append_assoc s [c] _

theorem mem_join {c sep : UInt8} {parts : List Bytes} (h : c ∈ join [sep] parts) :
    c = sep ∨ ∃ s ∈ parts, c ∈ s := by
  induction parts with
  | nil => cases h
  | cons s rest ih =>
    by_cases hne : rest = []
    · subst hne
      exact Or.inr ⟨s, List.mem_singleton_self s, h⟩
    · rw [join_cons hne, List.mem_append, List.mem_cons] at h
      rcases h with h | h | h
      · exact Or.inr ⟨s, List.mem_cons_self, h⟩
      · exact Or.inl h
      · exact (ih h).imp_right fun ⟨s', hs', h⟩ => ⟨s', List.mem_cons_of_mem _ hs', h⟩

/-! ## IPv4 addresses -/

theorem readOctet_eq_some_iff {s : Bytes} {c : UInt8} :
    readOctet s = some c ↔ s = decimal c.toNat := by
  constructor
  · intro h
    unfold readOctet at h
    split at h
    · rename_i n hn
      obtain ⟨hne, hdigits, rfl⟩ := readDecimal?_eq_some_iff.1 hn
      split at h
      · rename_i hcanonical
        simp only [Bool.and_eq_true, Bool.or_eq_true, decide_eq_true_eq, bne_iff_ne] at hcanonical
        cases h
        rw [Nat.toUInt8_eq, UInt8.toNat_ofNat', Nat.mod_eq_of_lt hcanonical.1,
          decimal_readDecimal hne hdigits hcanonical.2]
      · cases h
    · cases h
  · rintro rfl
    have hc : c.toNat < 256 := c.toNat_lt
    have hcanonical : (decimal c.toNat).length = 1 ∨
        (decimal c.toNat).head? ≠ some Ascii.zero := by
      by_cases h : c.toNat < 10
      · exact Or.inl (length_decimal_of_lt h)
      · exact Or.inr (head?_decimal (by omega))
    simp only [readOctet, readDecimal?_decimal]
    rw [if_pos (by simpa [hc] using hcanonical)]
    simp

theorem readDotted_eq_some_iff {s : Bytes} {a b c d : UInt8} :
    readDotted s = some (a, b, c, d) ↔ s = dottedText [a, b, c, d] := by
  constructor
  · intro h
    unfold readDotted at h
    split at h
    · rename_i p q r t hs
      split at h
      · rename_i ha hb hc hd
        cases h
        rw [← join_splitOn Ascii.dot s, hs, readOctet_eq_some_iff.1 ha,
          readOctet_eq_some_iff.1 hb, readOctet_eq_some_iff.1 hc, readOctet_eq_some_iff.1 hd]
        rfl
      · cases h
    · cases h
  · rintro rfl
    have hsplit : (dottedText [a, b, c, d]).splitOn Ascii.dot =
        [decimal a.toNat, decimal b.toNat, decimal c.toNat, decimal d.toNat] := by
      refine splitOn_join (List.cons_ne_nil _ _) fun s hs => ?_
      obtain ⟨o, -, rfl⟩ := List.mem_map.1 hs
      exact notMem_decimal (by decide) _
    simp only [readDotted, hsplit, readOctet_eq_some_iff.2 rfl]

theorem mem_dottedText {octets : List UInt8} {c : UInt8} (h : c ∈ dottedText octets) :
    Ascii.isDigit c = true ∨ c = Ascii.dot := by
  rcases mem_join h with h | ⟨s, hs, h⟩
  · exact Or.inr h
  · obtain ⟨o, -, rfl⟩ := List.mem_map.1 hs
    exact Or.inl (isDigit_of_mem_decimal h)

theorem colon_notMem_dottedText (octets : List UInt8) : Ascii.colon ∉ dottedText octets := by
  intro h
  rcases mem_dottedText h with h | h
  · exact absurd h (by decide)
  · exact absurd h (by decide)

theorem dottedText_ne_nil (a b c d : UInt8) : dottedText [a, b, c, d] ≠ [] := by
  simp [dottedText, join, decimal_ne_nil]

theorem length_dottedText_le (a b c d : UInt8) : (dottedText [a, b, c, d]).length ≤ 15 := by
  have hoctet : ∀ o : UInt8, (decimal o.toNat).length ≤ 3 := fun o => by
    have := o.toNat_lt
    exact length_decimal_le (k := 2) (by omega)
  have ha := hoctet a
  have hb := hoctet b
  have hc := hoctet c
  have hd := hoctet d
  simp only [dottedText, List.map_cons, List.map_nil, join, List.length_append,
    List.length_singleton]
  omega

/-! ## Groups -/

/-- A text of hexadecimal digits of either case denotes a number. -/
inductive IsHex : Bytes → Nat → Prop
  | nil : IsHex [] 0
  | concat {s : Bytes} {c : UInt8} {n d : Nat} (h : IsHex s n) (hc : Ascii.hexValue? c = some d) :
      IsHex (s ++ [c]) (16 * n + d)

/-- A group has one to four hexadecimal digits. -/
structure IsGroup (s : Bytes) (w : Nat) : Prop where
  ne_nil : s ≠ []
  length_le : s.length ≤ 4
  hex : IsHex s w

/-- The two octets of a group. -/
def groupOctets (w : Nat) : List UInt8 := [(w / 256).toUInt8, (w % 256).toUInt8]

/-- The octets that groups tell one after the other.  The last one may be written as an IPv4 address
if `dotted` holds, and tells four then. -/
inductive IsGroups (dotted : Bool) : List Bytes → List UInt8 → Prop
  | nil : IsGroups dotted [] []
  | embedded (h : dotted = true) (a b c d : UInt8) :
      IsGroups dotted [dottedText [a, b, c, d]] [a, b, c, d]
  | cons {s : Bytes} {w : Nat} {rest : List Bytes} {octets : List UInt8} (hs : IsGroup s w)
      (hrest : IsGroups dotted rest octets) :
      IsGroups dotted (s :: rest) (groupOctets w ++ octets)

theorem readHex_concat (s : Bytes) (c : UInt8) :
    readHex (s ++ [c]) = (readHex s).bind fun n => (Ascii.hexValue? c).map (16 * n + ·) := by
  rw [readHex, List.foldlM_append]
  simp only [List.foldlM_cons, List.foldlM_nil, bind_pure]
  rfl

theorem readHex_eq_some_iff {s : Bytes} {n : Nat} : readHex s = some n ↔ IsHex s n := by
  constructor
  · intro h
    induction s using List.reverseRecOn generalizing n with
    | nil =>
      cases h
      exact .nil
    | append_singleton s c ih =>
      obtain ⟨m, hm, h⟩ := Option.bind_eq_some_iff.1 (readHex_concat s c ▸ h)
      obtain ⟨d, hd, rfl⟩ := Option.map_eq_some_iff.1 h
      exact .concat (ih hm) hd
  · intro h
    induction h with
    | nil => rfl
    | concat h hc ih => rw [readHex_concat, ih, Option.bind_some, hc, Option.map_some]

theorem IsHex.isSome_hexValue? {s : Bytes} {n : Nat} (h : IsHex s n) :
    ∀ c ∈ s, (Ascii.hexValue? c).isSome = true := by
  induction h with
  | nil => exact fun c hc => nomatch hc
  | concat h hc ih =>
    intro c hm
    rcases List.mem_append.1 hm with hm | hm
    · exact ih c hm
    · rw [List.mem_singleton.1 hm, hc]
      rfl

theorem IsGroup.notMem {s : Bytes} {w : Nat} (h : IsGroup s w) {c : UInt8}
    (hc : Ascii.hexValue? c = none) : c ∉ s := by
  intro hm
  have := h.hex.isSome_hexValue? c hm
  rw [hc] at this
  cases this

theorem readGroup_eq_some_iff {s : Bytes} {octets : List UInt8} :
    readGroup s = some octets ↔ ∃ w, IsGroup s w ∧ octets = groupOctets w := by
  unfold readGroup
  constructor
  · intro h
    split at h
    · cases h
    · rename_i hguard
      simp only [Bool.or_eq_true, decide_eq_true_eq, not_or, Nat.not_lt] at hguard
      obtain ⟨w, hw, rfl⟩ := Option.map_eq_some_iff.1 h
      exact ⟨w, ⟨hguard.1, hguard.2, readHex_eq_some_iff.1 hw⟩, rfl⟩
  · rintro ⟨w, ⟨hne, hlen, hhex⟩, rfl⟩
    rw [if_neg (by simp [hne, hlen]), readHex_eq_some_iff.2 hhex]
    rfl

theorem readGroups_cons {dotted : Bool} {s : Bytes} {w : Nat} (hs : IsGroup s w)
    (rest : List Bytes) :
    readGroups dotted (s :: rest) = (readGroups dotted rest).map (groupOctets w ++ ·) := by
  have hread := readGroup_eq_some_iff.2 ⟨w, hs, rfl⟩
  have hdot : Ascii.dot ∉ s := hs.notMem (by decide)
  rcases rest with _ | ⟨s', rest⟩
  · simp [readGroups, hdot, hread]
  · rw [readGroups, hread]
    · rcases readGroups dotted (s' :: rest) with _ | octets <;> rfl
    · simp

theorem readGroups_eq_some_iff {dotted : Bool} {parts : List Bytes} {octets : List UInt8} :
    readGroups dotted parts = some octets ↔ IsGroups dotted parts octets := by
  constructor
  · intro h
    induction parts generalizing octets with
    | nil =>
      cases h
      exact .nil
    | cons s rest ih =>
      by_cases hs : ∃ w, IsGroup s w
      · obtain ⟨w, hs⟩ := hs
        rw [readGroups_cons hs] at h
        obtain ⟨os, hos, rfl⟩ := Option.map_eq_some_iff.1 h
        exact .cons hs (ih hos)
      · have hnone : readGroup s = none := Option.eq_none_iff_forall_ne_some.2 fun os hos =>
          hs ⟨_, (readGroup_eq_some_iff.1 hos).choose_spec.1⟩
        rcases rest with _ | ⟨s', rest⟩
        · rw [readGroups] at h
          split at h
          · rename_i hdotted
            obtain ⟨⟨a, b, c, d⟩, habcd, rfl⟩ := Option.map_eq_some_iff.1 h
            rw [readDotted_eq_some_iff.1 habcd]
            exact .embedded (by simp_all) a b c d
          · rw [hnone] at h
            cases h
        · rw [readGroups, hnone] at h
          · cases h
          · simp
  · intro h
    induction h with
    | nil => rfl
    | embedded h a b c d =>
      have hdot : Ascii.dot ∈ dottedText [a, b, c, d] := by simp [dottedText, join]
      simp [readGroups, h, hdot, readDotted_eq_some_iff.2 rfl]
    | cons hs hrest ih => rw [readGroups_cons hs, ih, Option.map_some]

/-! ## Pairs of colons -/

theorem cutPair_eq_some {front s f b : Bytes} (h : cutPair front s = some (f, b)) :
    front.reverse ++ s = f ++ ascii "::" ++ b := by
  induction front, s using cutPair.induct with
  | case1 front back =>
    cases h
    rw [List.append_assoc]
    rfl
  | case2 front c rest hne ih =>
    rw [cutPair] at h
    · rw [← ih h, List.reverse_cons, List.append_assoc]
      rfl
    · exact hne
  | case3 front => cases h

theorem cutPair_cons {c : UInt8} {s : Bytes} (h : c = Ascii.colon → s.head? ≠ some Ascii.colon)
    (front : Bytes) : cutPair front (c :: s) = cutPair (c :: front) s := by
  rw [cutPair]
  rintro back hc rfl
  exact h hc rfl

theorem cutPair_append {s : Bytes} (h : Ascii.colon ∉ s) (front tail : Bytes) :
    cutPair front (s ++ tail) = cutPair (s.reverse ++ front) tail := by
  induction s generalizing front with
  | nil => rfl
  | cons c s ih =>
    have hc : c ≠ Ascii.colon := fun hc => h (by rw [hc]; exact List.mem_cons_self)
    rw [List.cons_append, cutPair_cons fun h => absurd h hc,
      ih (fun hm => h (List.mem_cons_of_mem _ hm)), List.reverse_cons, List.append_assoc]
    rfl

theorem cutPair_pair (front back : Bytes) :
    cutPair front (ascii "::" ++ back) = some (front.reverse, back) := rfl

/-- Every text is there, and none has a colon. -/
def Undivided (parts : List Bytes) : Prop := ∀ s ∈ parts, s ≠ [] ∧ Ascii.colon ∉ s

theorem Undivided.head?_join_append {parts : List Bytes} (h : Undivided parts) (hne : parts ≠ [])
    (tail : Bytes) : (join [Ascii.colon] parts ++ tail).head? ≠ some Ascii.colon := by
  obtain ⟨s, rest, rfl⟩ := List.exists_cons_of_ne_nil hne
  obtain ⟨hs, hcolon⟩ := h s List.mem_cons_self
  obtain ⟨c, s, rfl⟩ := List.exists_cons_of_ne_nil hs
  have hc : c ≠ Ascii.colon := fun hc => hcolon (by rw [hc]; exact List.mem_cons_self)
  by_cases hrest : rest = []
  · subst hrest
    simpa [join] using hc
  · simpa [join_cons hrest] using hc

/-- There is no pair of colons in joined texts, nor across their end. -/
theorem Undivided.cutPair_join_append {parts : List Bytes} (h : Undivided parts)
    (front tail : Bytes) :
    cutPair front (join [Ascii.colon] parts ++ tail) =
      cutPair ((join [Ascii.colon] parts).reverse ++ front) tail := by
  induction parts generalizing front with
  | nil => rfl
  | cons s rest ih =>
    have hs := (h s List.mem_cons_self).2
    have hrest : Undivided rest := fun s hs => h s (List.mem_cons_of_mem _ hs)
    by_cases hne : rest = []
    · subst hne
      exact cutPair_append hs front tail
    · rw [join_cons hne, List.append_assoc, cutPair_append hs, List.cons_append,
        cutPair_cons (fun _ => hrest.head?_join_append hne tail), ih hrest]
      simp

theorem Undivided.cutPair_join {parts : List Bytes} (h : Undivided parts) :
    cutPair [] (join [Ascii.colon] parts) = none := by
  rw [← List.append_nil (join [Ascii.colon] parts), h.cutPair_join_append]
  rfl

theorem Undivided.cutPair_pair {parts : List Bytes} (h : Undivided parts) (back : Bytes) :
    cutPair [] (join [Ascii.colon] parts ++ ascii "::" ++ back) =
      some (join [Ascii.colon] parts, back) := by
  rw [List.append_assoc, h.cutPair_join_append, List.append_nil, Address.cutPair_pair,
    List.reverse_reverse]

theorem Undivided.groupsOf_join {parts : List Bytes} (h : Undivided parts) :
    groupsOf (join [Ascii.colon] parts) = parts := by
  by_cases hne : parts = []
  · subst hne
    rfl
  · have htext : join [Ascii.colon] parts ≠ [] := by
      obtain ⟨s, rest, rfl⟩ := List.exists_cons_of_ne_nil hne
      have hs := (h s List.mem_cons_self).1
      rcases rest with _ | ⟨s', rest⟩ <;> simp [join, hs]
    rw [groupsOf, if_neg htext]
    exact splitOn_join hne fun s hs => (h s hs).2

theorem join_groupsOf (s : Bytes) : join [Ascii.colon] (groupsOf s) = s := by
  unfold groupsOf
  split
  · rename_i hs
    rw [hs]
    rfl
  · exact join_splitOn Ascii.colon s

theorem IsGroups.undivided {dotted : Bool} {parts : List Bytes} {octets : List UInt8}
    (h : IsGroups dotted parts octets) : Undivided parts := by
  induction h with
  | nil => exact fun s hs => nomatch hs
  | embedded h a b c d =>
    exact List.forall_mem_singleton.2 ⟨dottedText_ne_nil a b c d, colon_notMem_dottedText _⟩
  | cons hs hrest ih => exact List.forall_mem_cons.2 ⟨⟨hs.ne_nil, hs.notMem (by decide)⟩, ih⟩

theorem IsGroups.readGroups_groupsOf {dotted : Bool} {parts : List Bytes} {octets : List UInt8}
    (h : IsGroups dotted parts octets) :
    readGroups dotted (groupsOf (join [Ascii.colon] parts)) = some octets := by
  rw [h.undivided.groupsOf_join]
  exact readGroups_eq_some_iff.2 h

/-! ## Addresses -/

/-- The text of an IPv6 address: all of its groups, or the groups before and after a run of zero
groups, of which there is at least one. -/
inductive SpellsV6 (octets : List UInt8) : Bytes → Prop
  | grouped {parts : List Bytes} (h : IsGroups true parts octets) :
      SpellsV6 octets (join [Ascii.colon] parts)
  | shortened {front back : List Bytes} {os os' : List UInt8} (hfront : IsGroups false front os)
      (hback : IsGroups true back os') (hle : os.length + os'.length ≤ 14)
      (h : octets = os ++ List.replicate (16 - (os.length + os'.length)) 0 ++ os') :
      SpellsV6 octets (join [Ascii.colon] front ++ ascii "::" ++ join [Ascii.colon] back)

/-- The texts of an address. -/
inductive Spells : Bytes → Address → Prop
  | v4 (a b c d : UInt8) : Spells (dottedText [a, b, c, d]) (.v4 a b c d)
  | v6 {s : Bytes} {a : Address} (hfamily : a.family = .v6) (h : SpellsV6 a.octets s) : Spells s a

theorem v6?_eq_some_iff {octets : List UInt8} {a : Address} :
    v6? octets = some a ↔ a.family = .v6 ∧ a.octets = octets := by
  obtain ⟨⟨family, os, hlen⟩, hzeros⟩ := a
  unfold v6?
  split
  · simp [v6, eq_comm]
  · rename_i hne
    simp only [reduceCtorEq, false_iff, not_and]
    rintro - rfl
    exact hne hlen

theorem parseV6_eq_some_iff {s : Bytes} {a : Address} :
    parseV6 s = some a ↔ a.family = .v6 ∧ SpellsV6 a.octets s := by
  constructor
  · intro h
    unfold parseV6 at h
    split at h
    · obtain ⟨octets, hoctets, h⟩ := Option.bind_eq_some_iff.1 h
      obtain ⟨hfamily, rfl⟩ := v6?_eq_some_iff.1 h
      refine ⟨hfamily, ?_⟩
      rw [← join_groupsOf s]
      exact .grouped (readGroups_eq_some_iff.1 hoctets)
    · rename_i front back hcut
      split at h
      · rename_i os os' hfront hback
        split at h
        · rename_i hle
          obtain ⟨hfamily, hoctets⟩ := v6?_eq_some_iff.1 h
          have hs : s = front ++ ascii "::" ++ back := cutPair_eq_some hcut
          refine ⟨hfamily, ?_⟩
          rw [hs, ← join_groupsOf front, ← join_groupsOf back]
          exact .shortened (readGroups_eq_some_iff.1 hfront) (readGroups_eq_some_iff.1 hback) hle
            hoctets
        · cases h
      · cases h
  · rintro ⟨hfamily, h⟩
    generalize hoctets : a.octets = octets at h
    unfold parseV6
    cases h with
    | grouped h =>
      simp only [h.undivided.cutPair_join, h.readGroups_groupsOf, Option.bind_some]
      exact v6?_eq_some_iff.2 ⟨hfamily, hoctets⟩
    | shortened hfront hback hle h =>
      simp only [hfront.undivided.cutPair_pair, hfront.readGroups_groupsOf,
        hback.readGroups_groupsOf, if_pos hle]
      exact v6?_eq_some_iff.2 ⟨hfamily, hoctets.trans h⟩

theorem SpellsV6.colon_mem {octets : List UInt8} {s : Bytes} (h : SpellsV6 octets s)
    (hlen : octets.length = 16) : Ascii.colon ∈ s := by
  cases h with
  | grouped h =>
    cases h with
    | nil => cases hlen
    | embedded => cases hlen
    | @cons s w rest octets hs hrest =>
      have hne : rest ≠ [] := by
        rintro rfl
        cases hrest
        cases hlen
      rw [join_cons hne]
      exact List.mem_append_right s List.mem_cons_self
  | shortened => exact List.mem_append_left _ (List.mem_append_right _ (by decide))

theorem parseV4_eq_some_iff {s : Bytes} {a : Address} :
    parseV4 s = some a ↔ ∃ p q r t, s = dottedText [p, q, r, t] ∧ a = .v4 p q r t := by
  unfold parseV4
  rw [Option.map_eq_some_iff]
  constructor
  · rintro ⟨⟨p, q, r, t⟩, h, rfl⟩
    exact ⟨p, q, r, t, readDotted_eq_some_iff.1 h, rfl⟩
  · rintro ⟨p, q, r, t, h, rfl⟩
    exact ⟨(p, q, r, t), readDotted_eq_some_iff.2 h, rfl⟩

theorem parseV4_or_parseV6_eq_some_iff {s : Bytes} {a : Address} :
    (parseV4 s).or (parseV6 s) = some a ↔ Spells s a := by
  rw [Option.or_eq_some_iff, parseV4_eq_some_iff, parseV6_eq_some_iff]
  constructor
  · rintro (⟨p, q, r, t, rfl, rfl⟩ | ⟨-, hfamily, h⟩)
    · exact .v4 p q r t
    · exact .v6 hfamily h
  · intro h
    cases h with
    | v4 p q r t => exact Or.inl ⟨p, q, r, t, rfl, rfl⟩
    | v6 hfamily h =>
      refine Or.inr ⟨Option.eq_none_iff_forall_ne_some.2 fun a' ha' => ?_, hfamily, h⟩
      obtain ⟨p, q, r, t, rfl, -⟩ := parseV4_eq_some_iff.1 ha'
      exact colon_notMem_dottedText _ (h.colon_mem a.length_octets)

/-! ## The bytes of a text -/

/-- Whether a byte can be part of the text of an address. -/
def isTextByte (c : UInt8) : Bool :=
  (Ascii.hexValue? c).isSome || c == Ascii.dot || c == Ascii.colon

theorem isTextByte_of_mem_dottedText {octets : List UInt8} {c : UInt8} (h : c ∈ dottedText octets) :
    isTextByte c = true := by
  rcases mem_dottedText h with h | rfl
  · simp [isTextByte, Ascii.hexValue?, h]
  · decide

theorem IsGroups.isTextByte {dotted : Bool} {parts : List Bytes} {octets : List UInt8}
    (h : IsGroups dotted parts octets) : ∀ c ∈ join [Ascii.colon] parts, isTextByte c = true := by
  have hparts : ∀ s ∈ parts, ∀ c ∈ s, Address.isTextByte c = true := by
    induction h with
    | nil => exact fun s hs => nomatch hs
    | embedded h a b c d =>
      exact List.forall_mem_singleton.2 fun c => isTextByte_of_mem_dottedText
    | cons hs hrest ih =>
      refine List.forall_mem_cons.2 ⟨fun c hc => ?_, ih⟩
      simp [Address.isTextByte, hs.hex.isSome_hexValue? c hc]
  intro c hc
  rcases mem_join hc with rfl | ⟨s, hs, hc⟩
  · decide
  · exact hparts s hs c hc

theorem Spells.isTextByte {s : Bytes} {a : Address} (h : Spells s a) :
    ∀ c ∈ s, isTextByte c = true := by
  cases h with
  | v4 p q r t => exact fun c => isTextByte_of_mem_dottedText
  | v6 hfamily h =>
    cases h with
    | grouped h => exact h.isTextByte
    | shortened hfront hback hle h =>
      have hpair := List.all_eq_true.1 (show (ascii "::").all Address.isTextByte = true by decide)
      simp only [List.forall_mem_append]
      exact ⟨⟨hfront.isTextByte, hpair⟩, hback.isTextByte⟩

theorem Spells.ne_nil {s : Bytes} {a : Address} (h : Spells s a) : s ≠ [] := by
  cases h with
  | v4 p q r t => exact dottedText_ne_nil p q r t
  | v6 hfamily h => exact List.ne_nil_of_mem (h.colon_mem a.length_octets)

theorem Spells.notMem {s : Bytes} {a : Address} (h : Spells s a) {c : UInt8}
    (hc : Address.isTextByte c = false) : c ∉ s := by
  intro hm
  rw [h.isTextByte c hm] at hc
  cases hc

/-! ## The length of a text -/

theorem IsGroups.length_join_le {dotted : Bool} {parts : List Bytes} {octets : List UInt8}
    (h : IsGroups dotted parts octets) :
    2 * (join [Ascii.colon] parts).length ≤ 5 * octets.length + if dotted then 10 else 0 := by
  induction h with
  | nil => exact Nat.zero_le _
  | embedded h a b c d =>
    have hlen := length_dottedText_le a b c d
    rw [h]
    show 2 * (dottedText [a, b, c, d]).length ≤ 5 * 4 + 10
    omega
  | @cons s w rest octets hs hrest ih =>
    have hlen := hs.length_le
    have hoctets : (groupOctets w ++ octets).length = 2 + octets.length :=
      List.length_append
    rw [hoctets]
    by_cases hne : rest = []
    · subst hne
      show 2 * s.length ≤ _
      omega
    · rw [join_cons hne, List.length_append, List.length_cons]
      omega

/-- No address has a text that is longer than those that are taken for one. -/
theorem Spells.length_le {s : Bytes} {a : Address} (h : Spells s a) : s.length ≤ maxTextBytes := by
  have hpair : (ascii "::").length = 2 := by decide
  show _ ≤ 45
  cases h with
  | v4 p q r t =>
    have := length_dottedText_le p q r t
    omega
  | v6 hfamily h =>
    have hoctets := a.length_octets
    cases h with
    | grouped h =>
      have := h.length_join_le
      rw [if_pos rfl] at this
      omega
    | shortened hfront hback hle h =>
      have hfrontLen := hfront.length_join_le
      have hbackLen := hback.length_join_le
      rw [if_neg (by decide)] at hfrontLen
      rw [if_pos rfl] at hbackLen
      rw [List.length_append, List.length_append, hpair]
      omega

/-! ## Reading -/

/-- A text is taken for an address if it is not too long without the blanks at its ends and spells
the address up to the first zero byte. -/
structure TakenFor (s : Bytes) (a : Address) : Prop where
  length_le : s.trim.length ≤ maxTextBytes
  spells : Spells (s.trim.before 0) a

theorem parse_eq_some_iff {s : Bytes} {a : Address} : parse s = some a ↔ TakenFor s a := by
  unfold parse
  dsimp only
  split
  · rename_i hguard
    simp only [reduceCtorEq, false_iff]
    rintro ⟨hlen, h⟩
    simp only [Bool.or_eq_true, decide_eq_true_eq] at hguard
    rcases hguard with hnil | hlong
    · rw [hnil] at h
      exact h.ne_nil rfl
    · omega
  · rename_i hguard
    simp only [Bool.or_eq_true, decide_eq_true_eq, not_or, Nat.not_lt] at hguard
    rw [parseV4_or_parseV6_eq_some_iff]
    exact ⟨fun h => ⟨hguard.2, h⟩, TakenFor.spells⟩

/-- Without a zero byte, the whole text between the blanks is an address. -/
theorem takenFor_iff_of_notMem {s : Bytes} {a : Address} (h : 0 ∉ s.trim) :
    TakenFor s a ↔ Spells s.trim a := by
  have hbefore := Bytes.before_of_notMem h
  constructor
  · rintro ⟨-, hspells⟩
    rwa [hbefore] at hspells
  · intro hspells
    exact ⟨hspells.length_le, by rwa [hbefore]⟩

end Address

end Net

end RoverControl
