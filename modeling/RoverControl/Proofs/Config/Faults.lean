import RoverControl.Proofs.Config.Validation
import RoverControl.Proofs.Json.Members

/-!
# Faults of patches

A payload that denotes no patch has a first faulty field, and its fault is the one that is told
(`ofJson_eq_error_iff`).  Nothing but the fields counts: neither the order in which they stand nor
what else there is in the payload (`ofJson_congr`).  Together with what a patch denotes this settles
what comes of every payload (`patch_decided`).
-/

namespace RoverControl

namespace Config

namespace Patch

/-! ## Fields -/

/-- The fields of a patch. -/
inductive Field where
  | limit (field : LimitField)
  | queueMaxsize
  | allowedNetworks
  deriving DecidableEq

namespace Field

def key : Field → Bytes
  | .limit field => field.name
  | .queueMaxsize => ascii "queue_maxsize"
  | .allowedNetworks => ascii "allowed_networks"

/-- The fields in the order in which they are read. -/
def inOrder : List Field := [.limit .ingress, .limit .execution, .queueMaxsize, .allowedNetworks]

theorem mem_inOrder (field : Field) : field ∈ inOrder := by
  cases field with
  | limit field => cases field <;> decide
  | queueMaxsize | allowedNetworks => decide

theorem key_injective {field other : Field} (h : field.key = other.key) : field = other := by
  have all : ∀ f ∈ inOrder, ∀ g ∈ inOrder, f.key = g.key → f = g := by decide
  exact all field field.mem_inOrder other other.mem_inOrder h

/-- A value that the field can have. -/
def IsValid : Field → Json → Prop
  | .limit _, v => ∃ l, DenotesLimit v l
  | .queueMaxsize, v => ∃ n, DenotesMaxsize v n
  | .allowedNetworks, v => ∃ texts blocks, DenotesNetworks v texts blocks

end Field

/-- What keeps a value from being a limit; the object comes before the rate, and the rate before the
burst. -/
inductive HasLimitFault (v : Json) : LimitFault → Prop
  | notAnObject (h : v.isObject = false) : HasLimitFault v .notAnObject
  | rateMissing (h : v.isObject = true)
      (hrate : ∀ rate, v.find? (ascii "rate_per_second") ≠ some (.number rate)) :
      HasLimitFault v .rateMissing
  | rateNotPositive {rate : Float} (h : v.find? (ascii "rate_per_second") = some (.number rate))
      (hrate : Quantity.isRate rate = false) : HasLimitFault v .rateNotPositive
  | burstMissing {rate : Float} (h : v.find? (ascii "rate_per_second") = some (.number rate))
      (hrate : Quantity.isRate rate = true)
      (hburst : ∀ burst, v.find? (ascii "burst") ≠ some (.number burst)) :
      HasLimitFault v .burstMissing
  | burstNotPositiveInteger {rate burst : Float}
      (h : v.find? (ascii "rate_per_second") = some (.number rate))
      (hrate : Quantity.isRate rate = true)
      (hburst : v.find? (ascii "burst") = some (.number burst))
      (hrange : ∀ n, Binary64.StandsFor burst n → n ≤ 0 ∨ 2 ^ 32 ≤ n) :
      HasLimitFault v .burstNotPositiveInteger

/-- The first item of a list that is not the text of a block. -/
inductive HasBadItem : List Json → Error → Prop
  | notString {item : Json} {rest : List Json} (h : ∀ text, item ≠ .string text) :
      HasBadItem (item :: rest) .networksNotStrings
  | invalid {text : Bytes} {rest : List Json} (h : Net.Block.parse text = none) :
      HasBadItem (.string text :: rest) (.networkInvalid text)
  | later {text : Bytes} {rest : List Json} {e : Error} (htext : Net.Block.parse text ≠ none)
      (h : HasBadItem rest e) : HasBadItem (.string text :: rest) e

/-- What keeps a value from being that of a field. -/
inductive Field.HasFault : Field → Json → Error → Prop
  | limit {field : LimitField} {v : Json} {fault : LimitFault} (h : HasLimitFault v fault) :
      HasFault (.limit field) v (.limit field fault)
  | queueNotInteger {v : Json} (h : ∀ x n, v = .number x → ¬ Binary64.StandsFor x n) :
      HasFault .queueMaxsize v .queueNotInteger
  | queueNotPositive {x : Float} {n : Int} (h : Binary64.StandsFor x n) (hn : n ≤ 0) :
      HasFault .queueMaxsize (.number x) .queueNotPositive
  | queueTooLarge {x : Float} {n : Int} (h : Binary64.StandsFor x n) (hn : 2 ^ 32 ≤ n) :
      HasFault .queueMaxsize (.number x) .queueTooLarge
  | networksNotArray {v : Json} (h : ∀ item rest, v ≠ .array (item :: rest)) :
      HasFault .allowedNetworks v .networksNotArray
  | badItem {items : List Json} {e : Error} (h : HasBadItem items e) :
      HasFault .allowedNetworks (.array items) e

/-- A field is absent, or has a value that it can have. -/
def Field.IsFine (payload : Json) (field : Field) : Prop :=
  ∀ v ∈ present? payload field.key, field.IsValid v

/-- A field is present with a fault. -/
def Field.Fails (payload : Json) (e : Error) (field : Field) : Prop :=
  ∃ v ∈ present? payload field.key, field.HasFault v e

/-- The first of some fields that is not fine has a fault. -/
def FirstFails (payload : Json) (e : Error) (fields : List Field) : Prop :=
  ∃ before field after, fields = before ++ field :: after ∧
    (∀ f ∈ before, f.IsFine payload) ∧ field.Fails payload e

/-- A payload is no object, or the first of its fields that is not fine has a fault. -/
inductive FirstFault (payload : Json) : Error → Prop
  | notAnObject (h : payload.isObject = false) : FirstFault payload .notAnObject
  | field {e : Error} (h : payload.isObject = true)
      (hfields : FirstFails payload e Field.inOrder) : FirstFault payload e

/-! ## Faults of one field -/

theorem find?_bind_number?_eq_none {v : Json} {key : Bytes} :
    (v.find? key).bind Json.number? = none ↔ ∀ x, v.find? key ≠ some (.number x) := by
  rw [Option.eq_none_iff_forall_ne_some]
  exact forall_congr' fun x => not_congr find?_bind_number?

theorem isObject_of_find? {v w : Json} {key : Bytes} (h : v.find? key = some w) :
    v.isObject = true := by
  cases v with
  | object members => rfl
  | _ => cases h

theorem hasLimitFault_of_readLimit {v : Json} {fault : LimitFault}
    (h : readLimit v = .error fault) : HasLimitFault v fault := by
  unfold readLimit at h
  split at h
  · rename_i hobject
    cases h
    exact .notAnObject (by simpa using hobject)
  rename_i hobject
  split at h
  · rename_i hrate
    cases h
    exact .rateMissing (by simpa using hobject) (find?_bind_number?_eq_none.1 hrate)
  rename_i rate hrate
  replace hrate := find?_bind_number?.1 hrate
  split at h
  · rename_i hpositive
    cases h
    exact .rateNotPositive hrate (by simpa using hpositive)
  rename_i hpositive
  replace hpositive : Quantity.isRate rate = true := by simpa using hpositive
  split at h
  · rename_i hburst
    cases h
    exact .burstMissing hrate hpositive (find?_bind_number?_eq_none.1 hburst)
  rename_i burst hburst
  replace hburst := find?_bind_number?.1 hburst
  split at h
  · rename_i hn
    cases h
    have hnone := Binary64.integer?_eq_none_iff.1 hn
    exact .burstNotPositiveInteger hrate hpositive hburst fun m hm => absurd hm (hnone m)
  rename_i n hn
  split at h
  · cases h
  · rename_i hrange
    cases h
    refine .burstNotPositiveInteger hrate hpositive hburst fun m hm => ?_
    cases hn.symm.trans (Binary64.integer?_eq_some_iff.2 hm)
    simp only [Bool.and_eq_true, decide_eq_true_eq] at hrange
    have hmax : maxInteger = 2 ^ 32 - 1 := rfl
    omega

theorem readLimit_of_hasLimitFault {v : Json} {fault : LimitFault} (h : HasLimitFault v fault) :
    readLimit v = .error fault := by
  cases h with
  | notAnObject h => simp [readLimit, h]
  | rateMissing h hrate => simp [readLimit, h, find?_bind_number?_eq_none.2 hrate]
  | rateNotPositive h hrate =>
    simp [readLimit, isObject_of_find? h, find?_bind_number?.2 h, hrate]
  | burstMissing h hrate hburst =>
    simp [readLimit, isObject_of_find? h, find?_bind_number?.2 h, hrate,
      find?_bind_number?_eq_none.2 hburst]
  | @burstNotPositiveInteger rate burst h hrate hburst hrange =>
    rcases hn : Binary64.integer? burst with _ | n
    · simp [readLimit, isObject_of_find? h, find?_bind_number?.2 h, hrate,
        find?_bind_number?.2 hburst, hn]
    · have hout : ¬ (0 < n ∧ n ≤ maxInteger) := by
        have hmax : maxInteger = 2 ^ 32 - 1 := rfl
        have := hrange n (Binary64.integer?_eq_some_iff.1 hn)
        omega
      simp [readLimit, isObject_of_find? h, find?_bind_number?.2 h, hrate,
        find?_bind_number?.2 hburst, hn, hout]

theorem readLimit_eq_error_iff {v : Json} {fault : LimitFault} :
    readLimit v = .error fault ↔ HasLimitFault v fault :=
  ⟨hasLimitFault_of_readLimit, readLimit_of_hasLimitFault⟩

theorem number?_bind_integer?_eq_some_iff {v : Json} {n : Int} :
    v.number?.bind Binary64.integer? = some n ↔
      ∃ x, v = .number x ∧ Binary64.StandsFor x n := by
  cases v <;> simp [Json.number?, Binary64.integer?_eq_some_iff]

theorem number?_bind_integer?_eq_none {v : Json} :
    v.number?.bind Binary64.integer? = none ↔
      ∀ x n, v = .number x → ¬ Binary64.StandsFor x n := by
  simp only [Option.eq_none_iff_forall_ne_some, ne_eq, number?_bind_integer?_eq_some_iff,
    not_exists, not_and]
  exact forall_comm

theorem readQueueMaxsize_eq_error_iff {v : Json} {e : Error} :
    readQueueMaxsize v = .error e ↔ Field.HasFault .queueMaxsize v e := by
  constructor
  · intro h
    unfold readQueueMaxsize at h
    split at h
    · rename_i hn
      cases h
      exact .queueNotInteger (number?_bind_integer?_eq_none.1 hn)
    rename_i n hn
    obtain ⟨x, rfl, hx⟩ := number?_bind_integer?_eq_some_iff.1 hn
    split at h
    · rename_i hpos
      cases h
      exact .queueNotPositive hx hpos
    split at h
    · rename_i hlarge
      cases h
      have hmax : maxInteger = 2 ^ 32 - 1 := rfl
      exact .queueTooLarge hx (by omega)
    · cases h
  · intro h
    cases h with
    | queueNotInteger h => simp [readQueueMaxsize, number?_bind_integer?_eq_none.2 h]
    | queueNotPositive h hn =>
      simp [readQueueMaxsize, Json.number?, Binary64.integer?_eq_some_iff.2 h, hn]
    | @queueTooLarge x n h hn =>
      have hpos : ¬ n ≤ 0 := by omega
      have hlarge : maxInteger < n := by
        have hmax : maxInteger = 2 ^ 32 - 1 := rfl
        omega
      simp [readQueueMaxsize, Json.number?, Binary64.integer?_eq_some_iff.2 h, hpos, hlarge]

theorem readBlocks_eq_error_iff {items : List Json} {e : Error} :
    readBlocks items = .error e ↔ HasBadItem items e := by
  constructor
  · intro h
    induction items with
    | nil => cases h
    | cons item rest ih =>
      unfold readBlocks at h
      split at h
      · rename_i hitem
        cases h
        refine .notString ?_
        rintro text rfl
        cases hitem
      rename_i text htext
      obtain rfl := Json.string?_eq_some_iff.1 htext
      split at h
      · rename_i hblock
        cases h
        exact .invalid hblock
      rename_i block hblock
      split at h
      · rename_i e' hrest
        cases h
        exact .later (by simp [hblock]) (ih hrest)
      · cases h
  · intro h
    induction h with
    | notString h =>
      have hnone : Json.string? _ = none :=
        Option.eq_none_iff_forall_ne_some.2 fun text ht => h text (Json.string?_eq_some_iff.1 ht)
      simp [readBlocks, hnone]
    | invalid h => simp [readBlocks, Json.string?, h]
    | later htext _ ih =>
      obtain ⟨block, hblock⟩ := Option.ne_none_iff_exists'.1 htext
      simp [readBlocks, Json.string?, hblock, ih]

theorem readNetworks_eq_error_iff {v : Json} {e : Error} :
    readNetworks v = .error e ↔ Field.HasFault .allowedNetworks v e := by
  constructor
  · intro h
    unfold readNetworks at h
    split at h
    · rename_i hv
      cases h
      refine .networksNotArray ?_
      rintro item rest rfl
      cases hv
    · rename_i hv
      cases h
      refine .networksNotArray ?_
      rintro item rest rfl
      cases hv
    · rename_i items _ hv
      obtain rfl : v = .array items := by
        cases v <;> simp_all [Json.array?]
      exact .badItem (readBlocks_eq_error_iff.1 h)
  · intro h
    cases h with
    | networksNotArray h =>
      unfold readNetworks
      split
      · rfl
      · rfl
      · rename_i items hne hv
        obtain ⟨item, rest, rfl⟩ := List.exists_cons_of_ne_nil hne
        cases v <;> simp_all [Json.array?]
    | badItem h =>
      have hread := readBlocks_eq_error_iff.2 h
      unfold readNetworks
      cases h <;> exact hread

/-! ## Reading the fields -/

/-- A way to read a field: it reads the values that the field can have and tells the faults of the
others. -/
structure Reads {α : Type} (field : Field) (read : Json → Except Error α) : Prop where
  ok : ∀ v, (∃ a, read v = .ok a) ↔ field.IsValid v
  error : ∀ v e, read v = .error e ↔ field.HasFault v e

theorem reads_limit (field : LimitField) :
    Reads (.limit field) fun v =>
      match readLimit v with
      | .error fault => .error (.limit field fault)
      | .ok limit => .ok limit where
  ok v := by
    refine Iff.trans ?_ (exists_congr fun l => readLimit_eq_ok_iff)
    rcases readLimit v with fault | limit <;> simp
  error v e := by
    constructor
    · intro h
      rcases hread : readLimit v with fault | limit
      · rw [hread] at h
        cases h
        exact .limit (readLimit_eq_error_iff.1 hread)
      · rw [hread] at h
        cases h
    · rintro ⟨h⟩
      rw [readLimit_eq_error_iff.2 h]

theorem reads_queueMaxsize : Reads .queueMaxsize readQueueMaxsize where
  ok _ := exists_congr fun _ => readQueueMaxsize_eq_ok_iff
  error _ _ := readQueueMaxsize_eq_error_iff

theorem reads_allowedNetworks : Reads .allowedNetworks readNetworks where
  ok _ := Prod.exists.trans (exists_congr fun _ => exists_congr fun _ => readNetworks_eq_ok_iff)
  error _ _ := readNetworks_eq_error_iff

section Reads

variable {α : Type} {field : Field} {read : Json → Except Error α} {payload : Json} {e : Error}

theorem Reads.isFine_iff (h : Reads field read) :
    field.IsFine payload ↔ ∃ a?, readField payload field.key read = .ok a? := by
  unfold Field.IsFine readField
  rcases present? payload field.key with _ | v
  · simp
  · simp only [Option.mem_some_iff, forall_eq']
    rw [← h.ok]
    rcases read v with e | a <;> simp

theorem Reads.fails_iff (h : Reads field read) :
    field.Fails payload e ↔ readField payload field.key read = .error e := by
  unfold Field.Fails readField
  rcases present? payload field.key with _ | v
  · simp
  · simp only [Option.mem_some_iff, exists_eq_left']
    rw [← h.error]
    rcases read v with e | a <;> simp

end Reads

theorem limit_isFine_iff {payload : Json} {field : LimitField} :
    (Field.limit field).IsFine payload ↔ ∃ limit?, readLimitField payload field = .ok limit? :=
  (reads_limit field).isFine_iff

theorem limit_fails_iff {payload : Json} {field : LimitField} {e : Error} :
    (Field.limit field).Fails payload e ↔ readLimitField payload field = .error e :=
  (reads_limit field).fails_iff

theorem firstFails_nil {payload : Json} {e : Error} : ¬ FirstFails payload e [] := by
  rintro ⟨before, field, after, h, -⟩
  simp at h

theorem firstFails_cons {payload : Json} {e : Error} {field : Field} {rest : List Field} :
    FirstFails payload e (field :: rest) ↔
      field.Fails payload e ∨ field.IsFine payload ∧ FirstFails payload e rest := by
  constructor
  · rintro ⟨before, f, after, h, hbefore, hfails⟩
    rcases before with _ | ⟨first, before⟩
    · obtain ⟨rfl, -⟩ := List.cons_eq_cons.1 h
      exact Or.inl hfails
    · obtain ⟨rfl, hrest⟩ := List.cons_eq_cons.1 h
      obtain ⟨hfirst, hbefore⟩ := List.forall_mem_cons.1 hbefore
      exact Or.inr ⟨hfirst, before, f, after, hrest, hbefore, hfails⟩
  · rintro (hfails | ⟨hfine, before, f, after, rfl, hbefore, hfails⟩)
    · exact ⟨[], field, rest, rfl, by simp, hfails⟩
    · exact ⟨field :: before, f, after, rfl, List.forall_mem_cons.2 ⟨hfine, hbefore⟩, hfails⟩

/-- The fault of a payload is that of its first faulty field. -/
theorem ofJson_eq_error_iff {payload : Json} {e : Error} :
    ofJson payload = .error e ↔ FirstFault payload e := by
  rcases hobject : payload.isObject with _ | _
  · have hread : ofJson payload = .error .notAnObject := by simp [ofJson, hobject]
    rw [hread]
    constructor
    · intro h
      cases h
      exact .notAnObject hobject
    · intro h
      cases h with
      | notAnObject h => rfl
      | field h => simp [hobject] at h
  · have hfirst : FirstFault payload e ↔ FirstFails payload e Field.inOrder := by
      refine ⟨fun h => ?_, .field hobject⟩
      cases h with
      | notAnObject h => simp [hobject] at h
      | field h hfields => exact hfields
    rw [hfirst]
    simp only [Field.inOrder, firstFails_cons, firstFails_nil, and_false, or_false, limit_fails_iff,
      limit_isFine_iff, reads_queueMaxsize.fails_iff, reads_queueMaxsize.isFine_iff,
      reads_allowedNetworks.fails_iff, Field.key]
    unfold ofJson
    rw [hobject]
    rcases readLimitField payload .ingress with e₁ | ingress
    · simp
    rcases readLimitField payload .execution with e₂ | execution
    · simp
    rcases readField payload (ascii "queue_maxsize") readQueueMaxsize with e₃ | maxsize
    · simp
    rcases readField payload (ascii "allowed_networks") readNetworks with e₄ | networks <;> simp

/-- A payload denotes a patch if it is an object all of whose fields are fine. -/
theorem exists_ofJson_eq_ok_iff {payload : Json} :
    (∃ p, ofJson payload = .ok p) ↔
      payload.isObject = true ∧ ∀ field : Field, field.IsFine payload := by
  have hall : (∀ field : Field, field.IsFine payload) ↔
      ∀ field ∈ Field.inOrder, field.IsFine payload :=
    forall_congr' fun field => ⟨fun h _ => h, fun h => h field.mem_inOrder⟩
  rw [hall]
  simp only [Field.inOrder, List.forall_mem_cons, List.not_mem_nil, false_implies, implies_true,
    and_true, limit_isFine_iff, reads_queueMaxsize.isFine_iff, reads_allowedNetworks.isFine_iff,
    Field.key]
  unfold ofJson
  rcases payload.isObject with _ | _
  · simp
  rcases readLimitField payload .ingress with e₁ | ingress
  · simp
  rcases readLimitField payload .execution with e₂ | execution
  · simp
  rcases readField payload (ascii "queue_maxsize") readQueueMaxsize with e₃ | maxsize
  · simp
  rcases readField payload (ascii "allowed_networks") readNetworks with e₄ | networks <;> simp

/-! ## What does not count -/

/-- Payloads whose limits are read alike and whose other fields have the same values are read
alike. -/
theorem ofJson_congr {payload payload' : Json} (hobject : payload'.isObject = payload.isObject)
    (hlimit : ∀ field, readLimitField payload' field = readLimitField payload field)
    (hmaxsize : payload'.find? Field.queueMaxsize.key = payload.find? Field.queueMaxsize.key)
    (hnetworks : payload'.find? Field.allowedNetworks.key =
      payload.find? Field.allowedNetworks.key) :
    ofJson payload' = ofJson payload := by
  simp only [Field.key] at hmaxsize hnetworks
  simp only [ofJson, hobject, hlimit, readField, present?, hmaxsize, hnetworks]

theorem ofJson_congr_fields {payload payload' : Json}
    (hobject : payload'.isObject = payload.isObject)
    (h : ∀ field : Field, payload'.find? field.key = payload.find? field.key) :
    ofJson payload' = ofJson payload := by
  refine ofJson_congr hobject (fun field => ?_) (h .queueMaxsize) (h .allowedNetworks)
  have hfield : payload'.find? field.name = payload.find? field.name := h (.limit field)
  simp only [readLimitField, readField, present?, hfield]

/-- Two lists have the same members of some keys: they differ in nothing but the order of members
with different keys, and in members with other keys. -/
def SameMembers (keys : List Bytes) (ms ns : List (Bytes × Json)) : Prop :=
  ∀ key ∈ keys, ms.filter (·.1 == key) = ns.filter (·.1 == key)

/-- The keys of the fields. -/
def fieldKeys : List Bytes := Field.inOrder.map Field.key

/-- The keys of the two parts of a limit. -/
def limitKeys : List Bytes := [ascii "rate_per_second", ascii "burst"]

theorem Field.key_mem_fieldKeys (field : Field) : field.key ∈ fieldKeys :=
  List.mem_map_of_mem field.mem_inOrder

section SameMembers

variable {keys : List Bytes} {ms ns : List (Bytes × Json)}

theorem SameMembers.lookup_eq (h : SameMembers keys ms ns) {key : Bytes} (hkey : key ∈ keys) :
    ns.lookup key = ms.lookup key := by
  have hself := Json.lookup_filter (p := (· == key)) (beq_self_eq_true key)
  rw [← hself ns, ← hself ms]
  exact congrArg (List.lookup key) (h key hkey).symm

theorem ofJson_of_sameMembers (h : SameMembers fieldKeys ms ns) :
    ofJson (.object ns) = ofJson (.object ms) :=
  ofJson_congr_fields rfl fun field => h.lookup_eq field.key_mem_fieldKeys

/-- The members that are fields. -/
def fieldsOf (ms : List (Bytes × Json)) : List (Bytes × Json) :=
  ms.filter fun m => fieldKeys.contains m.1

theorem ofJson_of_perm (hnodup : ((fieldsOf ms).map Prod.fst).Nodup)
    (h : (fieldsOf ms).Perm (fieldsOf ns)) : ofJson (.object ns) = ofJson (.object ms) := by
  refine ofJson_congr_fields rfl fun field => ?_
  have hfield : fieldKeys.contains field.key = true :=
    List.contains_iff_mem.2 field.key_mem_fieldKeys
  show ns.lookup field.key = ms.lookup field.key
  rw [← Json.lookup_filter hfield ns, ← Json.lookup_filter hfield ms]
  exact (Json.lookup_perm h hnodup).symm

theorem readLimit_of_sameMembers (h : SameMembers limitKeys ms ns) :
    readLimit (.object ns) = readLimit (.object ms) := by
  have hrate : Json.find? (.object ns) (ascii "rate_per_second") =
      Json.find? (.object ms) (ascii "rate_per_second") := h.lookup_eq (by decide)
  have hburst : Json.find? (.object ns) (ascii "burst") = Json.find? (.object ms) (ascii "burst") :=
    h.lookup_eq (by decide)
  unfold readLimit
  rw [hrate, hburst]
  rfl

/-- Neither do other members of a limit count, nor the order of its two parts. -/
theorem ofJson_of_sameLimit (h : SameMembers limitKeys ms ns) (field : LimitField)
    (rest : List (Bytes × Json)) :
    ofJson (.object ((field.name, .object ns) :: rest)) =
      ofJson (.object ((field.name, .object ms) :: rest)) := by
  have hfind (v : Json) (other : Field) :
      Json.find? (.object ((field.name, v) :: rest)) other.key =
        if other = .limit field then some v else rest.lookup other.key := by
    refine (Json.lookup_cons_eq_ite field.name v rest other.key).trans ?_
    exact if_congr ⟨fun h => Field.key_injective h, fun h => h ▸ rfl⟩ rfl rfl
  refine ofJson_congr rfl (fun other => ?_) (by simp [hfind]) (by simp [hfind])
  have hname (v : Json) : Json.find? (.object ((field.name, v) :: rest)) other.name =
      if Field.limit other = .limit field then some v else rest.lookup other.name :=
    hfind v (.limit other)
  by_cases hother : other = field
  · subst hother
    have hpresent (members : List (Bytes × Json)) :
        (some (Json.object members)).filter (!·.isNull) = some (.object members) := rfl
    simp only [readLimitField, readField, present?, hname, if_true, hpresent,
      readLimit_of_sameMembers h]
  · have hne : Field.limit other ≠ .limit field := by simpa using hother
    simp only [readLimitField, readField, present?, hname, if_neg hne]

end SameMembers

/-- What comes of a payload.  It is read exactly as the patch that it denotes, which is there if it
is an object in which every field that is present has a value that the field can have; else the
fault of the first other field is told.  Neither other members count nor the order of members with
different keys, in the payload and in its limits. -/
theorem patch_decided (payload : Json) :
    (∀ p, ofJson payload = .ok p ↔ Denotes payload p) ∧
    ((∃ p, ofJson payload = .ok p) ↔
      payload.isObject = true ∧ ∀ field : Field, field.IsFine payload) ∧
    (∀ e, ofJson payload = .error e ↔ FirstFault payload e) ∧
    (∀ ms ns, SameMembers fieldKeys ms ns → ofJson (.object ns) = ofJson (.object ms)) ∧
    (∀ ms ns, ((fieldsOf ms).map Prod.fst).Nodup → (fieldsOf ms).Perm (fieldsOf ns) →
      ofJson (.object ns) = ofJson (.object ms)) ∧
    ∀ (field : LimitField) (ms ns rest : List (Bytes × Json)), SameMembers limitKeys ms ns →
      ofJson (.object ((field.name, .object ns) :: rest)) =
        ofJson (.object ((field.name, .object ms) :: rest)) :=
  ⟨fun _ => ofJson_eq_ok_iff, exists_ofJson_eq_ok_iff, fun _ => ofJson_eq_error_iff,
    fun _ _ h => ofJson_of_sameMembers h, fun _ _ hnodup h => ofJson_of_perm hnodup h,
    fun field _ _ rest h => ofJson_of_sameLimit h field rest⟩

/-- A queue length that is not positive. -/
def faultyQueue : Bytes × Json := (ascii "queue_maxsize", .number (-1))

/-- A limit with a burst that is no integer, and one that counts as absent. -/
def faultyLimits : List (Bytes × Json) :=
  [(ascii "execution_rate_limit",
      .object [(ascii "burst", .number 2.5), (ascii "rate_per_second", .number 1)]),
    (ascii "ingress_rate_limit", .null)]

/-- The fault of the limit is told although the queue length stands before it, and also if it stands
after it and a member that is no field is left out. -/
theorem patch_decided_faulty :
    let ms := faultyQueue :: (ascii "comment", .null) :: faultyLimits
    let ns := faultyLimits ++ [faultyQueue]
    ((fieldsOf ms).map Prod.fst).Nodup ∧ (fieldsOf ms).Perm (fieldsOf ns) ∧
      FirstFault (.object ms) (.limit .execution .burstNotPositiveInteger) ∧
      ofJson (.object ns) = ofJson (.object ms) := by
  intro ms ns
  have hnodup : ((fieldsOf ms).map Prod.fst).Nodup := by decide
  have hperm : (fieldsOf ms).Perm (fieldsOf ns) := by
    have hms : fieldsOf ms = [faultyQueue] ++ faultyLimits := rfl
    have hns : fieldsOf ns = faultyLimits ++ [faultyQueue] := rfl
    rw [hms, hns]
    exact List.perm_append_comm
  obtain ⟨-, -, herror, -, hpermuted, -⟩ := patch_decided (.object ms)
  exact ⟨hnodup, hperm, (herror _).1 rfl, hpermuted ms ns hnodup hperm⟩

end Patch

end Config

end RoverControl
