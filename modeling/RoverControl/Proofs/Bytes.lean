import Mathlib.Algebra.Group.Nat.Defs
import Mathlib.Data.List.Basic
import Mathlib.Data.List.Induction
import Mathlib.Data.List.TakeWhile
import RoverControl.Bytes

/-!
# Decimal numbers and the cutting of texts

`readDecimal?` reads what `decimal` writes, which is a text of decimal digits without a superfluous
zero at the front.  `Bytes.cut` divides a text at its first separator (`Bytes.cut_eq_some_iff`), and
`Bytes.trim` takes the blanks off both its ends (`Bytes.trim_eq_iff`).
-/

namespace RoverControl

/-! ## Digits -/

theorem toNat_digit {d : Nat} (h : d < 10) : (UInt8.ofNat (0x30 + d)).toNat = 0x30 + d := by
  rw [UInt8.toNat_ofNat']
  omega

theorem isDigit_digit {d : Nat} (h : d < 10) : Ascii.isDigit (UInt8.ofNat (0x30 + d)) = true := by
  have := toNat_digit h
  simp only [Ascii.isDigit, Bool.and_eq_true, decide_eq_true_eq, UInt8.le_iff_toNat_le, this]
  refine ⟨?_, ?_⟩
  · show 0x30 ≤ 0x30 + d
    omega
  · show 0x30 + d ≤ 0x39
    omega

theorem digitValue_digit {d : Nat} (h : d < 10) :
    Ascii.digitValue (UInt8.ofNat (0x30 + d)) = d := by
  rw [Ascii.digitValue, toNat_digit h]
  omega

theorem exists_digit {c : UInt8} (h : Ascii.isDigit c = true) :
    ∃ d < 10, c = UInt8.ofNat (0x30 + d) := by
  simp only [Ascii.isDigit, Bool.and_eq_true, decide_eq_true_eq, UInt8.le_iff_toNat_le,
    UInt8.reduceToNat] at h
  have hc : 0x30 + (c.toNat - 0x30) = c.toNat := by omega
  exact ⟨c.toNat - 0x30, by omega, by rw [hc, UInt8.ofNat_toNat]⟩

theorem hexValue?_hexDigit {d : Nat} (h : d < 16) :
    Ascii.hexValue? (Ascii.hexDigit d) = some d := by
  have all : ∀ d : Fin 16, Ascii.hexValue? (Ascii.hexDigit d) = some d.val := by decide
  exact all ⟨d, h⟩

theorem hexValue?_lt {c : UInt8} {d : Nat} (h : Ascii.hexValue? c = some d) : d < 16 := by
  unfold Ascii.hexValue? Ascii.isDigit at h
  simp only [Bool.and_eq_true, decide_eq_true_eq, UInt8.le_iff_toNat_le, UInt8.reduceToNat] at h
  split at h
  · cases h
    omega
  · split at h
    · cases h
      omega
    · split at h
      · cases h
        omega
      · cases h

/-! ## Writing and reading -/

theorem decimal_of_lt {n : Nat} (h : n < 10) : decimal n = [UInt8.ofNat (0x30 + n)] := by
  rw [decimal, if_pos h]

theorem decimal_of_not_lt {n : Nat} (h : ¬ n < 10) :
    decimal n = decimal (n / 10) ++ [UInt8.ofNat (0x30 + n % 10)] := by
  rw [decimal, if_neg h]

theorem decimal_ne_nil (n : Nat) : decimal n ≠ [] := by
  by_cases h : n < 10
  · rw [decimal_of_lt h]
    exact List.cons_ne_nil _ _
  · rw [decimal_of_not_lt h]
    exact List.append_ne_nil_of_right_ne_nil _ (List.cons_ne_nil _ _)

theorem isDigit_of_mem_decimal {n : Nat} {c : UInt8} (h : c ∈ decimal n) :
    Ascii.isDigit c = true := by
  induction n using decimal.induct with
  | case1 n hn =>
    rw [decimal_of_lt hn] at h
    rw [List.mem_singleton.1 h]
    exact isDigit_digit hn
  | case2 n hn ih =>
    rw [decimal_of_not_lt hn] at h
    rcases List.mem_append.1 h with h | h
    · exact ih h
    · rw [List.mem_singleton.1 h]
      exact isDigit_digit (Nat.mod_lt n (by omega))

theorem notMem_decimal {c : UInt8} (hc : Ascii.isDigit c = false) (n : Nat) : c ∉ decimal n := by
  intro h
  rw [isDigit_of_mem_decimal h] at hc
  cases hc

theorem readDecimal_concat (s : Bytes) (c : UInt8) :
    readDecimal (s ++ [c]) = 10 * readDecimal s + Ascii.digitValue c := by
  rw [readDecimal, List.foldl_append]
  rfl

theorem readDecimal_decimal (n : Nat) : readDecimal (decimal n) = n := by
  induction n using decimal.induct with
  | case1 n hn =>
    rw [decimal_of_lt hn]
    show 10 * 0 + Ascii.digitValue _ = n
    rw [digitValue_digit hn]
    omega
  | case2 n hn ih =>
    rw [decimal_of_not_lt hn, readDecimal_concat, ih, digitValue_digit (Nat.mod_lt n (by omega))]
    omega

theorem decimal_injective {n m : Nat} (h : decimal n = decimal m) : n = m := by
  rw [← readDecimal_decimal n, h, readDecimal_decimal]

/-- A number is read as it was written. -/
theorem readDecimal?_decimal (n : Nat) : readDecimal? (decimal n) = some n := by
  have hall : (decimal n).all Ascii.isDigit = true :=
    List.all_eq_true.2 fun c hc => isDigit_of_mem_decimal hc
  rw [readDecimal?, if_pos (by simp [decimal_ne_nil, hall]), readDecimal_decimal]

/-- The first digit of a number is not zero, unless the number is. -/
theorem head?_decimal {n : Nat} (h : 0 < n) : (decimal n).head? ≠ some Ascii.zero := by
  induction n using decimal.induct with
  | case1 n hn =>
    rw [decimal_of_lt hn]
    intro hz
    have hz : (UInt8.ofNat (0x30 + n)).toNat = 0x30 := congrArg UInt8.toNat (Option.some.inj hz)
    rw [toNat_digit hn] at hz
    omega
  | case2 n hn ih =>
    rw [decimal_of_not_lt hn, List.head?_append_of_ne_nil _ (decimal_ne_nil _)]
    exact ih (by omega)

theorem length_decimal_of_lt {n : Nat} (h : n < 10) : (decimal n).length = 1 := by
  rw [decimal_of_lt h]
  rfl

/-- A number below a power of ten has no more digits than that. -/
theorem length_decimal_le {n k : Nat} (h : n < 10 ^ (k + 1)) : (decimal n).length ≤ k + 1 := by
  induction k generalizing n with
  | zero => exact Nat.le_of_eq (length_decimal_of_lt h)
  | succ k ih =>
    by_cases hn : n < 10
    · rw [length_decimal_of_lt hn]
      omega
    · have := ih (n := n / 10) (by rw [Nat.pow_succ] at h; omega)
      rw [decimal_of_not_lt hn, List.length_append, List.length_singleton]
      omega

/-- Digits without a superfluous zero at the front are those of the number that they denote. -/
theorem decimal_readDecimal {s : Bytes} (hne : s ≠ [])
    (hdigits : ∀ c ∈ s, Ascii.isDigit c = true)
    (hzero : s.length = 1 ∨ s.head? ≠ some Ascii.zero) : decimal (readDecimal s) = s := by
  induction s using List.reverseRecOn with
  | nil => exact absurd rfl hne
  | append_singleton front c ih =>
    obtain ⟨d, hd, rfl⟩ := exists_digit (hdigits c (by simp))
    rw [readDecimal_concat, digitValue_digit hd]
    by_cases hfront : front = []
    · subst hfront
      show decimal (10 * 0 + d) = _
      rw [Nat.mul_zero, Nat.zero_add, decimal_of_lt hd]
      rfl
    · have hhead : front.head? ≠ some Ascii.zero := by
        rw [List.head?_append_of_ne_nil _ hfront] at hzero
        refine hzero.resolve_left fun hlen => hfront ?_
        simpa using hlen
      have hwhole := ih hfront (fun c hc => hdigits c (List.mem_append_left _ hc)) (Or.inr hhead)
      -- the digits before the last one denote no zero, which is written with one digit
      have hpos : readDecimal front ≠ 0 := by
        intro h0
        rw [← hwhole, h0, decimal_of_lt (by decide)] at hhead
        exact hhead rfl
      have hdiv : (10 * readDecimal front + d) / 10 = readDecimal front := by omega
      have hmod : (10 * readDecimal front + d) % 10 = d := by omega
      rw [decimal_of_not_lt (by omega), hdiv, hmod, hwhole]

theorem readDecimal?_eq_some_iff {s : Bytes} {n : Nat} :
    readDecimal? s = some n ↔
      s ≠ [] ∧ (∀ c ∈ s, Ascii.isDigit c = true) ∧ readDecimal s = n := by
  simp [readDecimal?, and_assoc]

namespace Bytes

/-! ## Cutting at a separator -/

theorem before_of_notMem {sep : UInt8} {s : Bytes} (h : sep ∉ s) : s.before sep = s := by
  refine List.takeWhile_eq_self_iff.2 fun c hc => ?_
  rw [bne_iff_ne]
  rintro rfl
  exact h hc

theorem takeWhile_of_notMem {sep : UInt8} {front : Bytes} (h : sep ∉ front) (back : Bytes) :
    (front ++ sep :: back).takeWhile (· != sep) = front := by
  have hfront : ∀ c ∈ front, (c != sep) = true := fun c hc =>
    bne_iff_ne.2 (ne_of_mem_of_not_mem hc h)
  rw [List.takeWhile_append_of_pos hfront, List.takeWhile_cons_of_neg (by simp), List.append_nil]

theorem dropWhile_of_notMem {sep : UInt8} {front : Bytes} (h : sep ∉ front) (back : Bytes) :
    (front ++ sep :: back).dropWhile (· != sep) = sep :: back := by
  have hfront : ∀ c ∈ front, (c != sep) = true := fun c hc =>
    bne_iff_ne.2 (ne_of_mem_of_not_mem hc h)
  rw [List.dropWhile_append_of_pos hfront, List.dropWhile_cons_of_neg (by simp)]

theorem cut_of_notMem {sep : UInt8} {front : Bytes} (h : sep ∉ front) (back : Bytes) :
    cut sep (front ++ sep :: back) = some (front, back) := by
  rw [cut, dropWhile_of_notMem h, takeWhile_of_notMem h]

theorem cut_eq_none_iff {sep : UInt8} {s : Bytes} : cut sep s = none ↔ sep ∉ s := by
  constructor
  · intro h hmem
    obtain ⟨front, back, rfl, hfront⟩ := List.eq_append_cons_of_mem hmem
    rw [cut_of_notMem hfront] at h
    cases h
  · intro h
    have hdrop : s.dropWhile (· != sep) = [] := List.dropWhile_eq_nil_iff.2 fun c hc =>
      bne_iff_ne.2 (ne_of_mem_of_not_mem hc h)
    rw [cut, hdrop]

/-- A text is divided at the first separator in it. -/
theorem cut_eq_some_iff {sep : UInt8} {s front back : Bytes} :
    cut sep s = some (front, back) ↔ sep ∉ front ∧ s = front ++ sep :: back := by
  constructor
  · intro h
    by_cases hmem : sep ∈ s
    · obtain ⟨front', back', rfl, hfront⟩ := List.eq_append_cons_of_mem hmem
      rw [cut_of_notMem hfront] at h
      cases h
      exact ⟨hfront, rfl⟩
    · rw [cut_eq_none_iff.2 hmem] at h
      cases h
  · rintro ⟨hfront, rfl⟩
    exact cut_of_notMem hfront back

/-! ## Dropping what stands in front -/

theorem dropWhile_append {p : UInt8 → Bool} {front s : Bytes} (hfront : ∀ c ∈ front, p c = true)
    (hs : ∀ c ∈ s.head?, p c = false) : (front ++ s).dropWhile p = s := by
  rw [List.dropWhile_append_of_pos hfront]
  rcases s with _ | ⟨c, s⟩
  · rfl
  · exact List.dropWhile_cons_of_neg (by simp [hs c rfl])

theorem head?_dropWhile (p : UInt8 → Bool) (s : Bytes) :
    ∀ c ∈ (s.dropWhile p).head?, p c = false := by
  intro c hc
  have hhead := List.head?_dropWhile_not p s
  rw [hc] at hhead
  exact hhead

/-! ## Blanks at the ends -/

/-- A text of blanks. -/
def IsBlank (s : Bytes) : Prop := ∀ c ∈ s, Ascii.isBlank c = true

/-- A text that neither begins nor ends with a blank. -/
structure IsTrimmed (s : Bytes) : Prop where
  head : ∀ c ∈ s.head?, Ascii.isBlank c = false
  last : ∀ c ∈ s.getLast?, Ascii.isBlank c = false

theorem trim_of_isTrimmed {front s back : Bytes} (hfront : IsBlank front) (hback : IsBlank back)
    (hs : IsTrimmed s) : trim (front ++ s ++ back) = s := by
  rcases s with _ | ⟨c, s⟩
  · have hall : IsBlank (front ++ [] ++ back) := by
      intro c hc
      simp only [List.append_nil, List.mem_append] at hc
      exact hc.elim (hfront c) (hback c)
    rw [trim, List.dropWhile_eq_nil_iff.2 hall]
    rfl
  · rw [trim, List.append_assoc, dropWhile_append hfront (by simpa using hs.head),
      List.reverse_append, dropWhile_append (fun d hd => hback d (List.mem_reverse.1 hd)),
      List.reverse_reverse]
    rw [List.head?_reverse]
    exact hs.last

/-- What trimming takes off a text. -/
theorem exists_trim (s : Bytes) :
    ∃ front back, IsBlank front ∧ IsBlank back ∧ IsTrimmed s.trim ∧
      s = front ++ s.trim ++ back := by
  obtain ⟨back, hback, heq⟩ : ∃ back, IsBlank back ∧
      s.dropWhile Ascii.isBlank = s.trim ++ back := by
    refine ⟨((s.dropWhile Ascii.isBlank).reverse.takeWhile Ascii.isBlank).reverse,
      fun c hc => List.mem_takeWhile_imp (List.mem_reverse.1 hc), ?_⟩
    rw [trim, ← List.reverse_append, List.takeWhile_append_dropWhile, List.reverse_reverse]
  refine ⟨s.takeWhile Ascii.isBlank, back, fun c hc => List.mem_takeWhile_imp hc, hback,
    ⟨fun c hc => ?_, fun c hc => ?_⟩, ?_⟩
  · refine head?_dropWhile _ s c ?_
    rw [heq, List.head?_append, hc]
    rfl
  · rw [trim, List.getLast?_reverse] at hc
    exact head?_dropWhile _ _ c hc
  · rw [List.append_assoc, ← heq, List.takeWhile_append_dropWhile]

/-- Trimming takes the blanks off both ends of a text. -/
theorem trim_eq_iff {s v : Bytes} :
    s.trim = v ↔
      IsTrimmed v ∧ ∃ front back, IsBlank front ∧ IsBlank back ∧ s = front ++ v ++ back := by
  constructor
  · rintro rfl
    obtain ⟨front, back, hfront, hback, htrim, heq⟩ := exists_trim s
    exact ⟨htrim, front, back, hfront, hback, heq⟩
  · rintro ⟨htrim, front, back, hfront, hback, rfl⟩
    exact trim_of_isTrimmed hfront hback htrim

theorem notMem_trim {s : Bytes} {c : UInt8} (h : c ∉ s) : c ∉ s.trim := by
  obtain ⟨front, back, -, -, -, heq⟩ := exists_trim s
  intro hc
  rw [heq] at h
  exact h (List.mem_append_left _ (List.mem_append_right _ hc))

theorem trim_of_not_blank {s : Bytes} (h : ∀ c ∈ s, Ascii.isBlank c = false) : s.trim = s := by
  have htrim : IsTrimmed s :=
    ⟨fun c hc => h c (List.mem_of_mem_head? hc), fun c hc => h c (List.mem_of_mem_getLast? hc)⟩
  have hnil : IsBlank [] := fun c hc => by cases hc
  exact trim_eq_iff.2 ⟨htrim, [], [], hnil, hnil, (List.append_nil _).symm⟩

end Bytes

end RoverControl
