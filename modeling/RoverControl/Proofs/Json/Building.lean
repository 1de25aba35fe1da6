import Mathlib.Data.Finset.Card
import RoverControl.Proofs.Json.Members

/-!
# Objects that are built up

A value is changed by a call that sets a member or appends an item, unless the call is refused.
Calls that set members one after the other, starting from null or the empty object, are never
refused, and what they build has each key once, in the order in which the keys were first set, with
the value that was set last (`Json.objects_built_by_sets`).
-/

namespace RoverControl

namespace Json

/-! ## Calls on a value -/

section Calls

variable {α : Type} (f : Json → α → Option Json) {v : Json} {calls : List α}

/-- A value after a number of calls, of which one that is refused changes nothing. -/
def afterCalls (v : Json) (calls : List α) : Json :=
  calls.foldl (fun v call => (f v call).getD v) v

theorem afterCalls_of_accepted {v' : Json} (h : calls.foldlM f v = some v') :
    afterCalls f v calls = v' := by
  induction calls generalizing v with
  | nil => exact Option.some.inj h
  | cons call rest ih =>
    rw [List.foldlM_cons] at h
    obtain ⟨w, hw, hrest⟩ := Option.bind_eq_some_iff.1 h
    rw [afterCalls, List.foldl_cons, hw]
    exact ih hrest

theorem afterCalls_of_refused (h : ∀ call, f v call = none) : afterCalls f v calls = v := by
  induction calls with
  | nil => rfl
  | cons call rest ih =>
    rw [afterCalls, List.foldl_cons, h call]
    exact ih

end Calls

/-- The call that sets a member. -/
def setCall (v : Json) (member : Bytes × Json) : Option Json := v.set? member.1 member.2

/-! ## One call -/

theorem set?_eq_none_iff {v : Json} {key : Bytes} {value : Json} :
    v.set? key value = none ↔ v.isNull = false ∧ v.isObject = false := by
  cases v <;> simp [set?, isNull, isObject]

theorem push?_eq_none_iff {v item : Json} :
    v.push? item = none ↔ v.isNull = false ∧ v.array? = none := by
  cases v <;> simp [push?, isNull, array?]

/-- A member that is set is found, and every other one is found as before. -/
theorem find?_of_set? {v v' : Json} {key : Bytes} {value : Json} (h : v.set? key value = some v')
    (k : Bytes) : v'.find? k = if k = key then some value else v.find? k := by
  cases v with
  | null =>
    cases h
    exact lookup_setMember key value [] k
  | object members =>
    cases h
    exact lookup_setMember key value members k
  | _ => cases h

/-! ## Calls one after the other -/

theorem sets_object (members calls : List (Bytes × Json)) :
    calls.foldlM setCall (.object members) =
      some (.object (calls.foldl (fun members (key, value) => setMember key value members)
        members)) := by
  induction calls generalizing members with
  | nil => rfl
  | cons call rest ih => exact ih (setMember call.1 call.2 members)

/-- The first call makes an object of null. -/
theorem sets_null {calls : List (Bytes × Json)} (h : calls ≠ []) :
    calls.foldlM setCall .null = some (ofMembers calls) := by
  rcases calls with _ | ⟨call, rest⟩
  · exact absurd rfl h
  · exact sets_object (setMember call.1 call.2 []) rest

/-- Keys without repetitions stand in the order of their first occurrences. -/
theorem eraseDups_pairwise_idxOf (keys : List Bytes) :
    keys.eraseDups.Pairwise fun k l => keys.idxOf k < keys.idxOf l := by
  induction keys using List.reverseRecOn with
  | nil => exact List.Pairwise.nil
  | append_singleton keys key ih =>
    have hold : keys.eraseDups.Pairwise fun k l =>
        (keys ++ [key]).idxOf k < (keys ++ [key]).idxOf l :=
      ih.imp_of_mem fun hk hl hlt => by
        rwa [List.idxOf_append_of_mem (List.mem_eraseDups.1 hk),
          List.idxOf_append_of_mem (List.mem_eraseDups.1 hl)]
    rw [eraseDups_concat]
    split
    · exact hold
    · rename_i hkey
      refine List.pairwise_append.2 ⟨hold, List.pairwise_singleton _ _, ?_⟩
      intro k hk l hl
      cases List.mem_singleton.1 hl
      have hk := List.mem_eraseDups.1 hk
      rw [List.idxOf_append_of_mem hk, List.idxOf_append_of_notMem hkey]
      exact (List.idxOf_lt_length_iff.2 hk).trans_le (Nat.le_add_right _ _)

/-- The keys of an object. -/
def keys (v : Json) : List Bytes := (v.object?.getD []).map Prod.fst

/-- A value that has the members of a number of calls, each key in the place of the first call for
it and with the value of the last one. -/
structure BuiltBy (calls : List (Bytes × Json)) (v : Json) : Prop where
  isObject : calls ≠ [] → v.isObject = true
  nodup : v.keys.Nodup
  mem_keys_iff : ∀ key, key ∈ v.keys ↔ key ∈ calls.map Prod.fst
  /-- Of two keys, the one that was first set before the other was stands first. -/
  order : v.keys.Pairwise fun k l =>
    (calls.map Prod.fst).idxOf k < (calls.map Prod.fst).idxOf l
  find?_of_last : ∀ pre key value post, calls = pre ++ (key, value) :: post →
    key ∉ post.map Prod.fst → v.find? key = some value
  find?_of_not_set : ∀ key, key ∉ calls.map Prod.fst → v.find? key = none
  size_eq : v.size = (calls.map Prod.fst).toFinset.card

theorem builtBy_null : BuiltBy [] .null where
  isObject h := absurd rfl h
  nodup := List.nodup_nil
  mem_keys_iff _ := Iff.rfl
  order := List.Pairwise.nil
  find?_of_last pre key value post h := by simp at h
  find?_of_not_set _ _ := rfl
  size_eq := rfl

theorem builtBy_ofMembers (calls : List (Bytes × Json)) : BuiltBy calls (ofMembers calls) := by
  have hkeys : (ofMembers calls).keys = (calls.map Prod.fst).eraseDups := keys_membersOf calls
  have hnodup : (ofMembers calls).keys.Nodup := hkeys ▸ nodup_eraseDups _
  have hmem : ∀ key, key ∈ (ofMembers calls).keys ↔ key ∈ calls.map Prod.fst := fun key => by
    rw [hkeys, List.mem_eraseDups]
  refine ⟨fun _ => rfl, hnodup, hmem, ?_, ?_, ?_, ?_⟩
  · rw [hkeys]
    exact eraseDups_pairwise_idxOf _
  · rintro pre key value post rfl hpost
    -- read backwards, the last call for a key is the first one
    have hlast : key ∉ post.reverse.map Prod.fst := by
      rwa [List.map_reverse, List.mem_reverse]
    show (membersOf (pre ++ (key, value) :: post)).lookup key = some value
    rw [lookup_membersOf, List.reverse_append, List.reverse_cons, List.append_assoc,
      List.lookup_append, lookup_eq_none_of_notMem hlast, Option.none_or, List.singleton_append,
      List.lookup_cons_self]
  · intro key hkey
    exact lookup_eq_none_of_notMem fun h => hkey ((hmem key).1 h)
  · calc (ofMembers calls).size
        = (ofMembers calls).keys.length := (List.length_map _).symm
      _ = (ofMembers calls).keys.toFinset.card := (List.toFinset_card_of_nodup hnodup).symm
      _ = (calls.map Prod.fst).toFinset.card := by
        congr 1
        ext key
        rw [List.mem_toFinset, List.mem_toFinset, hmem]

/-- Calls that set members, starting from null or the empty object, are never refused, and build an
object that has each key once, in the order of the first calls for them and with the values of the
last ones.  A call changes no other member than its own.  Calls on a value that is neither null nor
an object are all refused and change nothing, and so are calls that append an item to a value that
is neither null nor a list. -/
theorem objects_built_by_sets (calls : List (Bytes × Json)) :
    (∀ start : Json, start = .null ∨ start = .object [] →
      calls.foldlM setCall start = some (afterCalls setCall start calls) ∧
        BuiltBy calls (afterCalls setCall start calls)) ∧
    (∀ v : Json, v.isNull = true ∨ v.isObject = true → ∀ key value,
      ∃ v', v.set? key value = some v' ∧ v'.find? key = some value ∧
        ∀ k, k ≠ key → v'.find? k = v.find? k) ∧
    (∀ v : Json, v.isNull = false → v.isObject = false →
      (∀ key value, v.set? key value = none) ∧ afterCalls setCall v calls = v) ∧
    (∀ v : Json, v.isNull = false → v.array? = none → ∀ items,
      (∀ item, v.push? item = none) ∧ afterCalls push? v items = v) := by
  refine ⟨fun start hstart => ?_, fun v hv key value => ?_, fun v hnull hobject => ?_,
    fun v hnull harray items => ?_⟩
  · have hbuilt : ∃ v, calls.foldlM setCall start = some v ∧ BuiltBy calls v := by
      rcases hstart with rfl | rfl
      · by_cases hcalls : calls = []
        · subst hcalls
          exact ⟨.null, rfl, builtBy_null⟩
        · exact ⟨_, sets_null hcalls, builtBy_ofMembers calls⟩
      · exact ⟨_, sets_object [] calls, builtBy_ofMembers calls⟩
    obtain ⟨v, hv, hbuilt⟩ := hbuilt
    rw [afterCalls_of_accepted setCall hv]
    exact ⟨hv, hbuilt⟩
  · rcases hset : v.set? key value with _ | v'
    · obtain ⟨hnull, hobject⟩ := set?_eq_none_iff.1 hset
      rw [hnull, hobject] at hv
      simp at hv
    · refine ⟨v', rfl, ?_, fun k hk => ?_⟩
      · rw [find?_of_set? hset, if_pos rfl]
      · rw [find?_of_set? hset, if_neg hk]
  · have hrefused : ∀ key value, v.set? key value = none := fun _ _ =>
      set?_eq_none_iff.2 ⟨hnull, hobject⟩
    exact ⟨hrefused, afterCalls_of_refused setCall fun call => hrefused call.1 call.2⟩
  · have hrefused : ∀ item, v.push? item = none := fun _ => push?_eq_none_iff.2 ⟨hnull, harray⟩
    exact ⟨hrefused, afterCalls_of_refused push? hrefused⟩

/-- A key that is set again keeps its place. -/
example : afterCalls setCall .null
    [(ascii "a", .bool true), (ascii "b", .null), (ascii "a", .bool false)] =
      .object [(ascii "a", .bool false), (ascii "b", .null)] := rfl

end Json

end RoverControl
