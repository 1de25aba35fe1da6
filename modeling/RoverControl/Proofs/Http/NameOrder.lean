import RoverControl.Proofs.Http.Headers

/-!
# The order of names

Names of header fields are compared byte by byte, a capital letter counting as the small one
(`comesBefore`).  That is a strict weak order, in which two names are level exactly if they are
equal up to the case of their letters (`level_iff`).  Fields that are added one after the other are
kept in this order, the first one of every name (`firstsInOrder_ofList`), so that the order in which
they are added does not matter if their names differ (`ofList_eq_of_perm`).
-/

namespace RoverControl

namespace Headers

/-! ## Comparing names -/

/-- Whether a name comes before another one: the first bytes that differ decide, and the beginning
of a longer name comes before it. -/
def comesBefore : Bytes → Bytes → Bool
  | _, [] => false
  | [], _ :: _ => true
  | c :: a, d :: b =>
    if Ascii.toLower c < Ascii.toLower d then true
    else if Ascii.toLower d < Ascii.toLower c then false
    else comesBefore a b

/-- Neither of two names comes before the other. -/
def Level (a b : Bytes) : Prop := comesBefore a b = false ∧ comesBefore b a = false

instance (a b : Bytes) : Decidable (Level a b) := inferInstanceAs (Decidable (_ ∧ _))

/-- A relation that orders things up to those that it does not tell apart. -/
structure IsStrictWeak {α : Type} (before : α → α → Bool) : Prop where
  irrefl : ∀ a, before a a = false
  trans : ∀ {a b c}, before a b = true → before b c = true → before a c = true
  level_trans : ∀ {a b c}, before a b = false ∧ before b a = false →
    before b c = false ∧ before c b = false → before a c = false ∧ before c a = false

variable {a b c : Bytes}

theorem comesBefore_iff : comesBefore a b = true ↔ a.toLower < b.toLower := by
  fun_induction comesBefore a b with
  | case1 a => simp [Bytes.toLower]
  | case2 d b => simp [Bytes.toLower]
  | case3 c a d b hlt => simp [Bytes.toLower, List.cons_lt_cons_iff, hlt]
  | case4 c a d b hlt hgt =>
    have hne : Ascii.toLower c ≠ Ascii.toLower d := fun heq => UInt8.lt_irrefl _ (heq ▸ hgt)
    simp [Bytes.toLower, List.cons_lt_cons_iff, hlt, hne]
  | case5 c a d b hlt hgt ih =>
    have heq : Ascii.toLower c = Ascii.toLower d :=
      UInt8.le_antisymm (UInt8.not_lt.1 hgt) (UInt8.not_lt.1 hlt)
    rw [ih]
    simp [Bytes.toLower, heq]

theorem comesBefore_eq_false_iff : comesBefore a b = false ↔ b.toLower ≤ a.toLower := by
  rw [← Bool.not_eq_true, comesBefore_iff, List.not_lt]

/-- Two names are level exactly if they are equal up to the case of their letters. -/
theorem level_iff : Level a b ↔ a.toLower = b.toLower := by
  unfold Level
  rw [comesBefore_eq_false_iff, comesBefore_eq_false_iff]
  constructor
  · rintro ⟨hba, hab⟩
    exact List.le_antisymm hab hba
  · intro h
    rw [h]
    exact ⟨List.le_refl _, List.le_refl _⟩

theorem sameName_iff_level : sameName a b = true ↔ Level a b := by
  rw [sameName_iff, level_iff]

theorem isStrictWeak_comesBefore : IsStrictWeak comesBefore where
  irrefl _ := comesBefore_eq_false_iff.2 (List.le_refl _)
  trans hab hbc := by
    rw [comesBefore_iff] at *
    exact List.lt_trans hab hbc
  level_trans hab hbc := level_iff.2 ((level_iff.1 hab).trans (level_iff.1 hbc))

/-- Where a field goes is decided by comparing names alone. -/
theorem add_cons (name value n v : Bytes) (rest : Headers) :
    add name value ((n, v) :: rest) =
      if comesBefore name n then (name, value) :: (n, v) :: rest
      else if comesBefore n name then (n, v) :: add name value rest
      else (n, v) :: rest := by
  rw [add]
  by_cases hlt : comesBefore name n = true
  · rw [if_pos (comesBefore_iff.1 hlt), if_pos hlt]
  · rw [if_neg (mt comesBefore_iff.2 hlt), if_neg hlt]
    by_cases hgt : comesBefore n name = true
    · have hne : name.toLower ≠ n.toLower := fun heq =>
        List.lt_irrefl _ (heq ▸ comesBefore_iff.1 hgt)
      rw [if_neg hne, if_pos hgt]
    · have hlevel : Level name n := ⟨Bool.eq_false_iff.2 hlt, Bool.eq_false_iff.2 hgt⟩
      rw [if_pos (level_iff.1 hlevel), if_neg hgt]

/-! ## The first field of every name -/

/-- A field of a list is the first one of its name. -/
def IsFirst (fields : List (Bytes × Bytes)) (field : Bytes × Bytes) : Prop :=
  ∃ front back, fields = front ++ field :: back ∧ ∀ f ∈ front, ¬ Level f.1 field.1

/-- The first fields of every name in a list, in the order of their names. -/
structure FirstsInOrder (fields : List (Bytes × Bytes)) (headers : Headers) : Prop where
  ordered : headers.Pairwise fun f g => comesBefore f.1 g.1 = true
  mem_iff : ∀ {field}, field ∈ headers ↔ IsFirst fields field
  /-- Every name has one field. -/
  existsUnique : ∀ {f}, f ∈ fields → ∃! g, g ∈ headers ∧ Level g.1 f.1
  /-- What is found under a name is the value of the first field of that name. -/
  find?_eq_some_iff : ∀ {name value}, headers.find? name = some value ↔
    ∃ m, IsFirst fields (m, value) ∧ Level m name
  find?_eq_none_iff : ∀ {name}, headers.find? name = none ↔ ∀ f ∈ fields, ¬ Level f.1 name

variable {fields fields' : List (Bytes × Bytes)} {field : Bytes × Bytes} {name : Bytes}

theorem first?_eq_some_iff : first? fields name = some field ↔
    IsFirst fields field ∧ Level field.1 name := by
  have hcongr : ∀ f : Bytes × Bytes, Level field.1 name → (Level f.1 name ↔ Level f.1 field.1) := by
    intro f h
    rw [level_iff, level_iff, level_iff.1 h]
  unfold first?
  rw [List.find?_eq_some_iff_append, sameName_iff_level, and_comm]
  refine and_congr_left fun hlevel => exists_congr fun front => exists_congr fun back =>
    and_congr_right fun _ => forall₂_congr fun f _ => ?_
  rw [← hcongr f hlevel, Bool.not_eq_true', ← Bool.not_eq_true, sameName_iff_level]

theorem first?_eq_none_iff : first? fields name = none ↔ ∀ f ∈ fields, ¬ Level f.1 name := by
  unfold first?
  rw [List.find?_eq_none]
  exact forall₂_congr fun f _ => not_congr sameName_iff_level

theorem mem_ofList_iff : field ∈ ofList fields ↔ IsFirst fields field := by
  rw [(sorted_ofList fields).mem_iff, first?_ofList, first?_eq_some_iff]
  exact and_iff_left (level_iff.2 rfl)

theorem existsUnique_ofList {f : Bytes × Bytes} (hf : f ∈ fields) :
    ∃! g, g ∈ ofList fields ∧ Level g.1 f.1 := by
  have hall : ∀ g, g ∈ ofList fields ∧ Level g.1 f.1 ↔ first? fields f.1 = some g := fun g => by
    rw [mem_ofList_iff, first?_eq_some_iff]
  cases hfirst : first? fields f.1 with
  | none => exact absurd (level_iff.2 rfl) (first?_eq_none_iff.1 hfirst f hf)
  | some g =>
    exact ⟨g, (hall g).2 hfirst, fun g' hg' =>
      Option.some.inj (((hall g').1 hg').symm.trans hfirst)⟩

theorem firstsInOrder_ofList (fields : List (Bytes × Bytes)) :
    FirstsInOrder fields (ofList fields) where
  ordered := (sorted_ofList fields).imp comesBefore_iff.2
  mem_iff := mem_ofList_iff
  existsUnique := existsUnique_ofList
  find?_eq_some_iff := by
    intro name value
    rw [find?_ofList, firstValue, Option.map_eq_some_iff]
    constructor
    · rintro ⟨⟨m, v⟩, hfirst, rfl⟩
      exact ⟨m, first?_eq_some_iff.1 hfirst⟩
    · rintro ⟨m, hm⟩
      exact ⟨(m, value), first?_eq_some_iff.2 hm, rfl⟩
  find?_eq_none_iff := by
    intro name
    rw [find?_ofList, firstValue, Option.map_eq_none_iff, first?_eq_none_iff]

example : (ofList [(ascii "X-Api-Key", ascii "a"), (ascii "x-api-KEY", ascii "b")]).find?
    (ascii "x-api-key") = some (ascii "a") := by decide

/-! ## Fields of different names -/

/-- No two fields of a list have the same name. -/
def AllDiffer (fields : List (Bytes × Bytes)) : Prop :=
  fields.Pairwise fun f g => ¬ Level f.1 g.1

instance (fields : List (Bytes × Bytes)) : Decidable (AllDiffer fields) :=
  inferInstanceAs (Decidable (List.Pairwise _ _))

theorem AllDiffer.isFirst_iff (h : AllDiffer fields) : IsFirst fields field ↔ field ∈ fields := by
  constructor
  · rintro ⟨front, back, rfl, -⟩
    exact List.mem_append_right _ List.mem_cons_self
  · intro hmem
    obtain ⟨front, back, rfl⟩ := List.append_of_mem hmem
    exact ⟨front, back, rfl, fun f hf =>
      (List.pairwise_append.1 h).2.2 f hf field List.mem_cons_self⟩

/-- Fields of different names may be added in any order. -/
theorem ofList_eq_of_perm (hperm : fields.Perm fields') (h : AllDiffer fields) :
    ofList fields = ofList fields' := by
  have h' : AllDiffer fields' := hperm.pairwise h fun hfg hgf => hfg ⟨hgf.2, hgf.1⟩
  refine (sorted_ofList fields).ext (sorted_ofList fields') fun name => Option.ext fun field => ?_
  rw [first?_ofList, first?_ofList, first?_eq_some_iff, first?_eq_some_iff, h.isFirst_iff,
    h'.isFirst_iff, hperm.mem_iff]

/-- Names are ordered up to the case of their letters; fields are added by that order alone, which
keeps the first one of every name, and those of different names in any order give the same. -/
theorem fields_in_order :
    IsStrictWeak comesBefore ∧
    (∀ a b, Level a b ↔ a.toLower = b.toLower) ∧
    (∀ name value n v rest, add name value ((n, v) :: rest) =
      if comesBefore name n then (name, value) :: (n, v) :: rest
      else if comesBefore n name then (n, v) :: add name value rest
      else (n, v) :: rest) ∧
    (∀ fields, FirstsInOrder fields (ofList fields)) ∧
    ∀ fields fields', fields.Perm fields' → AllDiffer fields → ofList fields = ofList fields' :=
  ⟨isStrictWeak_comesBefore, fun _ _ => level_iff, add_cons, firstsInOrder_ofList,
    fun _ _ => ofList_eq_of_perm⟩

theorem ofList_swap_of_host_and_key :
    AllDiffer [(ascii "Host", ascii "rover"), (ascii "X-Api-Key", ascii "local")] ∧
    ofList [(ascii "Host", ascii "rover"), (ascii "X-Api-Key", ascii "local")] =
      ofList [(ascii "X-Api-Key", ascii "local"), (ascii "Host", ascii "rover")] :=
  have hdiffer : AllDiffer [(ascii "Host", ascii "rover"), (ascii "X-Api-Key", ascii "local")] := by
    decide
  ⟨hdiffer, fields_in_order.2.2.2.2 _ _ (List.Perm.swap _ _ _) hdiffer⟩

end Headers

end RoverControl
