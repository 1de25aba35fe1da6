import Mathlib.Data.List.Induction
import Mathlib.Data.List.Nodup
import RoverControl.Json.Basic

/-!
# Members of objects

A member that is set stays in the place of its key or comes last (`keys_setMember`), and it changes
no other one (`lookup_setMember`).  Members that are set one after the other hence have the keys in
the order of their first occurrences and the value of the last one (`lastOfEach_iff`), so that no
key is there twice.
-/

namespace RoverControl

namespace Json

variable {key : Bytes} {value : Json} {members pairs : List (Bytes × Json)}

theorem lookup_cons_eq_ite (k : Bytes) (v : Json) (rest : List (Bytes × Json)) (key : Bytes) :
    ((k, v) :: rest).lookup key = if key = k then some v else rest.lookup key := by
  rw [List.lookup_cons]
  by_cases hk : key = k
  · rw [if_pos hk, beq_iff_eq.2 hk]
  · rw [if_neg hk, beq_false_of_ne hk]

theorem lookup_eq_none_of_notMem (h : key ∉ members.map Prod.fst) : members.lookup key = none := by
  refine List.lookup_eq_none_iff.2 fun m hm => ?_
  rw [bne_iff_ne]
  rintro rfl
  exact h (List.mem_map_of_mem hm)

/-- Members with other keys do not count. -/
theorem lookup_filter {p : Bytes → Bool} (hp : p key = true) (members : List (Bytes × Json)) :
    (members.filter fun m => p m.1).lookup key = members.lookup key := by
  induction members with
  | nil => rfl
  | cons m rest ih =>
    obtain ⟨k, v⟩ := m
    by_cases hk : key = k
    · subst hk
      rw [List.filter_cons, if_pos hp, lookup_cons_eq_ite, lookup_cons_eq_ite, if_pos rfl,
        if_pos rfl]
    · rw [lookup_cons_eq_ite, if_neg hk, ← ih, List.filter_cons]
      split
      · rw [lookup_cons_eq_ite, if_neg hk]
      · rfl

/-- The order of members with different keys does not count. -/
theorem lookup_perm {members' : List (Bytes × Json)} (h : members.Perm members')
    (hnodup : (members.map Prod.fst).Nodup) : members.lookup key = members'.lookup key := by
  induction h with
  | nil => rfl
  | cons m _ ih =>
    obtain ⟨k, v⟩ := m
    rw [lookup_cons_eq_ite, lookup_cons_eq_ite, ih (List.nodup_cons.1 hnodup).2]
  | swap m n rest =>
    obtain ⟨k, v⟩ := m
    obtain ⟨l, w⟩ := n
    have hne : l ≠ k := by
      rintro rfl
      simp at hnodup
    simp only [lookup_cons_eq_ite]
    by_cases hl : key = l
    · rw [if_pos hl, if_neg (hl ▸ hne), if_pos hl]
    · rw [if_neg hl, if_neg hl]
  | trans h₁ _ ih₁ ih₂ => exact (ih₁ hnodup).trans (ih₂ ((h₁.map Prod.fst).nodup_iff.1 hnodup))

/-! ## Setting a member -/

theorem keys_setMember (key : Bytes) (value : Json) (members : List (Bytes × Json)) :
    (setMember key value members).map Prod.fst =
      if key ∈ members.map Prod.fst then members.map Prod.fst
      else members.map Prod.fst ++ [key] := by
  induction members with
  | nil => simp [setMember]
  | cons m rest ih =>
    obtain ⟨k, v⟩ := m
    unfold setMember
    by_cases hk : k = key
    · simp [hk]
    · rw [if_neg hk, List.map_cons, ih]
      simp only [List.map_cons, List.mem_cons, Ne.symm hk, false_or]
      split <;> rfl

theorem lookup_setMember (key : Bytes) (value : Json) (members : List (Bytes × Json))
    (k : Bytes) :
    (setMember key value members).lookup k = if k = key then some value else members.lookup k := by
  induction members with
  | nil => exact lookup_cons_eq_ite key value [] k
  | cons m rest ih =>
    obtain ⟨l, v⟩ := m
    unfold setMember
    by_cases hl : l = key
    · rw [if_pos hl, hl, lookup_cons_eq_ite, lookup_cons_eq_ite]
      split <;> rfl
    · rw [if_neg hl, lookup_cons_eq_ite, lookup_cons_eq_ite, ih]
      by_cases hk : k = key
      · rw [if_pos hk, if_pos hk, if_neg (hk ▸ Ne.symm hl)]
      · rw [if_neg hk, if_neg hk]

theorem eq_or_mem_of_mem_setMember {m : Bytes × Json} (h : m ∈ setMember key value members) :
    m = (key, value) ∨ m ∈ members := by
  induction members with
  | nil => exact Or.inl (List.mem_singleton.1 h)
  | cons n rest ih =>
    obtain ⟨k, v⟩ := n
    unfold setMember at h
    split at h
    · rename_i hk
      rcases List.mem_cons.1 h with rfl | h
      · exact Or.inl (by rw [hk])
      · exact Or.inr (List.mem_cons_of_mem _ h)
    · rcases List.mem_cons.1 h with rfl | h
      · exact Or.inr List.mem_cons_self
      · exact (ih h).imp_right (List.mem_cons_of_mem _)

/-- A new member comes last. -/
theorem setMember_of_notMem (h : key ∉ members.map Prod.fst) :
    setMember key value members = members ++ [(key, value)] := by
  induction members with
  | nil => rfl
  | cons m rest ih =>
    obtain ⟨k, v⟩ := m
    rw [List.map_cons, List.mem_cons, not_or] at h
    rw [setMember, if_neg (Ne.symm h.1), ih h.2, List.cons_append]

/-! ## Setting one after the other -/

theorem membersOf_concat (pairs : List (Bytes × Json)) (key : Bytes) (value : Json) :
    membersOf (pairs ++ [(key, value)]) = setMember key value (membersOf pairs) := by
  rw [membersOf, List.foldl_append]
  rfl

theorem eraseDups_concat (keys : List Bytes) (key : Bytes) :
    (keys ++ [key]).eraseDups =
      if key ∈ keys then keys.eraseDups else keys.eraseDups ++ [key] := by
  rw [List.eraseDups_append]
  simp only [List.removeAll, List.filter_cons, List.filter_nil, List.contains_eq_mem,
    Bool.not_eq_eq_eq_not, Bool.not_true, decide_eq_false_iff_not]
  by_cases hmem : key ∈ keys
  · simp [hmem]
  · rw [if_pos hmem, if_neg hmem]
    rfl

theorem keys_membersOf (pairs : List (Bytes × Json)) :
    (membersOf pairs).map Prod.fst = (pairs.map Prod.fst).eraseDups := by
  induction pairs using List.reverseRecOn with
  | nil => rfl
  | append_singleton pairs pair ih =>
    obtain ⟨key, value⟩ := pair
    rw [membersOf_concat, keys_setMember, ih, List.map_append, List.map_singleton,
      eraseDups_concat]
    simp only [List.mem_eraseDups]

theorem lookup_membersOf (pairs : List (Bytes × Json)) (key : Bytes) :
    (membersOf pairs).lookup key = pairs.reverse.lookup key := by
  induction pairs using List.reverseRecOn with
  | nil => rfl
  | append_singleton pairs pair ih =>
    obtain ⟨k, value⟩ := pair
    rw [membersOf_concat, lookup_setMember, List.reverse_append, ih]
    exact (lookup_cons_eq_ite k value pairs.reverse key).symm

theorem mem_of_mem_membersOf {m : Bytes × Json} (h : m ∈ membersOf pairs) : m ∈ pairs := by
  induction pairs using List.reverseRecOn with
  | nil => exact h
  | append_singleton pairs pair ih =>
    obtain ⟨key, value⟩ := pair
    rw [membersOf_concat] at h
    rcases eq_or_mem_of_mem_setMember h with rfl | h
    · exact List.mem_append_right _ (List.mem_singleton_self _)
    · exact List.mem_append_left _ (ih h)

/-- Members with different keys are all there in their order. -/
theorem membersOf_of_nodup (h : (pairs.map Prod.fst).Nodup) : membersOf pairs = pairs := by
  induction pairs using List.reverseRecOn with
  | nil => rfl
  | append_singleton pairs pair ih =>
    obtain ⟨key, value⟩ := pair
    rw [List.map_append, List.map_singleton, ← List.concat_eq_append, List.nodup_concat] at h
    rw [membersOf_concat, ih h.2, setMember_of_notMem h.1]

/-! ## The last of each key -/

/-- The members are those of a list of pairs, each key in the place of its first occurrence and
with the value of its last one. -/
structure LastOfEach (pairs members : List (Bytes × Json)) : Prop where
  keys : members.map Prod.fst = (pairs.map Prod.fst).eraseDups
  lookup : ∀ key, members.lookup key = pairs.reverse.lookup key

theorem nodup_eraseDups (keys : List Bytes) : keys.eraseDups.Nodup := by
  induction h : keys.length using Nat.strongRecOn generalizing keys with
  | _ n ih =>
    rcases keys with _ | ⟨k, keys⟩
    · exact List.nodup_nil
    · rw [List.eraseDups_cons, List.nodup_cons]
      refine ⟨by simp, ih _ ?_ _ rfl⟩
      rw [← h, List.length_cons]
      exact Nat.lt_succ_of_le (List.length_filter_le _ _)

theorem LastOfEach.nodup_keys (h : LastOfEach pairs members) : (members.map Prod.fst).Nodup :=
  h.keys ▸ nodup_eraseDups _

/-- Members with the same keys and the same value of each are the same. -/
theorem members_ext {members' : List (Bytes × Json)}
    (hkeys : members.map Prod.fst = members'.map Prod.fst) (hnodup : (members.map Prod.fst).Nodup)
    (hlookup : ∀ key, members.lookup key = members'.lookup key) : members = members' := by
  induction members generalizing members' with
  | nil => exact (List.map_eq_nil_iff.1 hkeys.symm).symm
  | cons m rest ih =>
    obtain ⟨k, v⟩ := m
    rcases members' with _ | ⟨⟨k', v'⟩, rest'⟩
    · cases hkeys
    · obtain ⟨hk, hrest⟩ := List.cons_eq_cons.1 hkeys
      change k = k' at hk
      subst hk
      obtain ⟨hnotMem, hnodup⟩ := List.nodup_cons.1 hnodup
      have hv : v = v' := by simpa [lookup_cons_eq_ite] using hlookup k
      rw [hv, ih hrest hnodup fun key => ?_]
      by_cases hkey : key = k
      · rw [hkey, lookup_eq_none_of_notMem hnotMem, lookup_eq_none_of_notMem (hrest ▸ hnotMem)]
      · have := hlookup key
        rwa [lookup_cons_eq_ite, lookup_cons_eq_ite, if_neg hkey, if_neg hkey] at this

theorem lastOfEach_iff : LastOfEach pairs members ↔ members = membersOf pairs := by
  constructor
  · intro h
    refine members_ext (h.keys.trans (keys_membersOf pairs).symm) h.nodup_keys fun key => ?_
    rw [h.lookup, lookup_membersOf]
  · rintro rfl
    exact ⟨keys_membersOf pairs, lookup_membersOf pairs⟩

/-! ## Values without repeated keys -/

/-- No object in the value has a key twice. -/
inductive UniqueKeys : Json → Prop
  | null : UniqueKeys .null
  | bool (b : Bool) : UniqueKeys (.bool b)
  | number (x : Float) : UniqueKeys (.number x)
  | string (s : Bytes) : UniqueKeys (.string s)
  | array {items : List Json} (h : ∀ v ∈ items, UniqueKeys v) : UniqueKeys (.array items)
  | object {members : List (Bytes × Json)} (hkeys : (members.map Prod.fst).Nodup)
      (h : ∀ m ∈ members, UniqueKeys m.2) : UniqueKeys (.object members)

end Json

end RoverControl
