import Mathlib.Data.List.Basic
import RoverControl.Http.Headers

/-!
# The order of header fields

The fields of a request are sorted by name (`sorted_ofList`), and of several fields added under one
name the first one stays (`first?_ofList`).  The two determine the fields (`Sorted.ext`).
-/

namespace RoverControl

namespace Headers

theorem sameName_iff {a b : Bytes} : sameName a b = true ↔ a.toLower = b.toLower := beq_iff_eq

/-- The first field of a name. -/
def first? (fields : List (Bytes × Bytes)) (name : Bytes) : Option (Bytes × Bytes) :=
  fields.find? fun field => sameName field.1 name

theorem first?_cons (field : Bytes × Bytes) (rest : List (Bytes × Bytes)) (name : Bytes) :
    first? (field :: rest) name =
      if sameName field.1 name then some field else first? rest name := by
  unfold first?
  rw [List.find?_cons]
  cases sameName field.1 name <;> rfl

theorem find?_eq_map_first? (headers : Headers) (name : Bytes) :
    headers.find? name = (first? headers name).map Prod.snd := rfl

/-- The fields stand in the order of their names, and no two have the same name. -/
def Sorted (headers : Headers) : Prop :=
  headers.Pairwise fun f g => f.1.toLower < g.1.toLower

variable {headers : Headers} {name value : Bytes} {field : Bytes × Bytes}

theorem sorted_cons :
    Sorted (field :: headers) ↔
      (∀ g ∈ headers, field.1.toLower < g.1.toLower) ∧ Sorted headers := List.pairwise_cons

/-- There is no field of a name that comes before all others. -/
theorem first?_eq_none_of_lt (h : ∀ g ∈ headers, name.toLower < g.1.toLower) :
    first? headers name = none := by
  refine List.find?_eq_none.2 fun g hg hsame => ?_
  have hlt := h g hg
  rw [sameName_iff.1 hsame] at hlt
  exact List.lt_irrefl _ hlt

theorem first?_congr {name' : Bytes} (h : sameName name name' = true) :
    first? headers name = first? headers name' := by
  unfold first? sameName
  rw [sameName_iff.1 h]

theorem mem_of_mem_add (h : field ∈ headers.add name value) :
    field = (name, value) ∨ field ∈ headers := by
  induction headers with
  | nil => exact Or.inl (List.mem_singleton.1 h)
  | cons g rest ih =>
    obtain ⟨n, v⟩ := g
    unfold add at h
    split at h
    · exact List.mem_cons.1 h
    · split at h
      · exact Or.inr h
      · rcases List.mem_cons.1 h with rfl | h
        · exact Or.inr List.mem_cons_self
        · exact (ih h).imp_right (List.mem_cons_of_mem _)

theorem Sorted.add (h : Sorted headers) : Sorted (headers.add name value) := by
  induction headers with
  | nil => exact List.pairwise_singleton _ _
  | cons g rest ih =>
    obtain ⟨n, v⟩ := g
    obtain ⟨hg, hrest⟩ := sorted_cons.1 h
    unfold Headers.add
    split
    · rename_i hlt
      refine sorted_cons.2 ⟨fun f hf => ?_, h⟩
      rcases List.mem_cons.1 hf with rfl | hf
      · exact hlt
      · exact List.lt_trans hlt (hg f hf)
    · rename_i hnlt
      split
      · exact h
      · rename_i hne
        refine sorted_cons.2 ⟨fun f hf => ?_, ih hrest⟩
        rcases mem_of_mem_add hf with rfl | hf
        · exact Std.lt_of_le_of_ne (List.not_lt.1 hnlt) (Ne.symm hne)
        · exact hg f hf

/-- A field that is added is found unless there was one of its name before. -/
theorem Sorted.first?_add (h : Sorted headers) (m : Bytes) :
    first? (headers.add name value) m =
      (first? headers m).or (if sameName name m then some (name, value) else none) := by
  induction headers with
  | nil => exact first?_cons (name, value) [] m
  | cons g rest ih =>
    obtain ⟨n, v⟩ := g
    obtain ⟨hg, hrest⟩ := sorted_cons.1 h
    unfold Headers.add
    split
    · rename_i hlt
      rw [first?_cons]
      by_cases hm : sameName name m = true
      · have hnone : first? ((n, v) :: rest) m = none := by
          rw [← first?_congr hm]
          refine first?_eq_none_of_lt fun f hf => ?_
          rcases List.mem_cons.1 hf with rfl | hf
          · exact hlt
          · exact List.lt_trans hlt (hg f hf)
        rw [if_pos hm, if_pos hm, hnone, Option.none_or]
      · rw [if_neg hm, if_neg hm, Option.or_none]
    · split
      · rename_i heq
        by_cases hm : sameName name m = true
        · have hn : sameName n m = true := sameName_iff.2 (heq ▸ sameName_iff.1 hm)
          rw [first?_cons, if_pos hn, Option.some_or]
        · rw [if_neg hm, Option.or_none]
      · rw [first?_cons, first?_cons, ih hrest]
        by_cases hn : sameName n m = true
        · rw [if_pos hn, if_pos hn, Option.some_or]
        · rw [if_neg hn, if_neg hn]

theorem Sorted.find?_add (h : Sorted headers) (m : Bytes) :
    (headers.add name value).find? m =
      (headers.find? m).or (if sameName name m then some value else none) := by
  rw [find?_eq_map_first?, h.first?_add, Option.map_or, find?_eq_map_first?]
  split <;> rfl

/-! ## Fields added in the order of a list -/

/-- The fields of a list added to those that are there. -/
def addAll (headers : Headers) (fields : List (Bytes × Bytes)) : Headers :=
  fields.foldl (fun headers (name, value) => headers.add name value) headers

theorem Sorted.addAll (h : Sorted headers) (fields : List (Bytes × Bytes)) :
    Sorted (headers.addAll fields) := by
  induction fields generalizing headers with
  | nil => exact h
  | cons field rest ih => exact ih h.add

theorem Sorted.first?_addAll (h : Sorted headers) (fields : List (Bytes × Bytes)) (m : Bytes) :
    first? (headers.addAll fields) m = (first? headers m).or (first? fields m) := by
  induction fields generalizing headers with
  | nil => exact (Option.or_none).symm
  | cons field rest ih =>
    show first? ((headers.add field.1 field.2).addAll rest) m = _
    rw [ih h.add, h.first?_add, Option.or_assoc, first?_cons]
    split <;> rfl

theorem sorted_nil : Sorted [] := List.Pairwise.nil

theorem sorted_ofList (fields : List (Bytes × Bytes)) : Sorted (ofList fields) :=
  sorted_nil.addAll fields

/-- Of the fields of one name the first one stays. -/
theorem first?_ofList (fields : List (Bytes × Bytes)) (m : Bytes) :
    first? (ofList fields) m = first? fields m :=
  (sorted_nil.first?_addAll fields m).trans Option.none_or

/-- The value of the first field of a name. -/
def firstValue (fields : List (Bytes × Bytes)) (name : Bytes) : Option Bytes :=
  (first? fields name).map Prod.snd

theorem find?_ofList (fields : List (Bytes × Bytes)) (m : Bytes) :
    (ofList fields).find? m = firstValue fields m := by
  rw [find?_eq_map_first?, first?_ofList, firstValue]

/-! ## Fields that are determined -/

theorem Sorted.mem_iff (h : Sorted headers) :
    field ∈ headers ↔ first? headers field.1 = some field := by
  constructor
  · intro hmem
    induction headers with
    | nil => cases hmem
    | cons g rest ih =>
      obtain ⟨hg, hrest⟩ := sorted_cons.1 h
      rw [first?_cons]
      rcases List.mem_cons.1 hmem with rfl | hmem
      · rw [if_pos (sameName_iff.2 rfl)]
      · rw [if_neg, ih hrest hmem]
        intro hsame
        have hlt := hg field hmem
        rw [sameName_iff.1 hsame] at hlt
        exact List.lt_irrefl _ hlt
  · exact List.mem_of_find?_eq_some

/-- Sorted fields with the same first field of every name are the same. -/
theorem Sorted.ext {headers' : Headers} (h : Sorted headers) (h' : Sorted headers')
    (hfirst : ∀ m, first? headers m = first? headers' m) : headers = headers' := by
  have hmem : ∀ f, f ∈ headers ↔ f ∈ headers' := fun f => by
    rw [h.mem_iff, h'.mem_iff, hfirst]
  have hne : ∀ {l : Headers}, Sorted l → l.Nodup := by
    intro l hl
    refine hl.imp fun hlt heq => ?_
    rw [heq] at hlt
    exact List.lt_irrefl _ hlt
  have hperm : headers.Perm headers' := (List.perm_ext_iff_of_nodup (hne h) (hne h')).2 hmem
  exact hperm.eq_of_pairwise (fun _ _ _ _ hab hba => absurd hba (List.lt_asymm hab)) h h'

end Headers

end RoverControl
