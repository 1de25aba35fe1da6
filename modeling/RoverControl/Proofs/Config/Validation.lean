import RoverControl.Config.Patch
import RoverControl.Proofs.Number.Integral

/-!
# Valid configurations and patches

`Config.validate` accepts the configurations that are usable throughout and whose networks all
denote blocks (`validate_eq_ok_iff`), and `Patch.ofJson` reads a patch exactly where the payload
denotes one (`ofJson_eq_ok_iff`).  The two agree: a valid store stays valid under every patch that
a payload denotes (`Store.validate_apply`).
-/

namespace RoverControl

theorem Json.number?_eq_some_iff {v : Json} {x : Float} : v.number? = some x ↔ v = .number x := by
  cases v <;> simp [Json.number?]

theorem Json.string?_eq_some_iff {v : Json} {s : Bytes} : v.string? = some s ↔ v = .string s := by
  cases v <;> simp [Json.string?]

theorem Net.Block.parseAll_eq_some_iff {texts : List Bytes} {blocks : List Net.Block} :
    Net.Block.parseAll texts = some blocks ↔
      texts ≠ [] ∧ texts.mapM Net.Block.parse = some blocks := by
  unfold Net.Block.parseAll
  split <;> simp [*]

theorem Net.Block.forall₂_of_parseAll {texts : List Bytes} {blocks : List Net.Block}
    (h : Net.Block.parseAll texts = some blocks) :
    List.Forall₂ (fun t block => Net.Block.parse t = some block) texts blocks := by
  replace h := (Net.Block.parseAll_eq_some_iff.1 h).2
  induction texts generalizing blocks with
  | nil =>
    cases h
    exact .nil
  | cons t texts ih =>
    simp only [List.mapM_cons, Option.bind_eq_bind, Option.pure_def, Option.bind_eq_some_iff,
      Option.some.injEq] at h
    obtain ⟨first, hfirst, rest, hrest, rfl⟩ := h
    exact .cons hfirst (ih hrest)

theorem RateLimit.isValid_iff {l : RateLimit Float} :
    l.isValid = true ↔ Quantity.isRate l.rate = true ∧ l.burst ≠ 0 := by
  simp [RateLimit.isValid, UInt32.pos_iff_ne_zero]

namespace Config

/-! ## Configurations -/

/-- The keys, the limits and the length of the queue can be used. -/
structure Usable (c : Config) : Prop where
  apiKeys_ne : c.apiKeys ≠ []
  nil_notMem : [] ∉ c.apiKeys
  ingress : c.ingress.isValid = true
  execution : c.execution.isValid = true
  queueMaxsize_ne : c.queueMaxsize ≠ 0

theorem validate_eq_ok_iff {c : Config} {s : Store} :
    c.validate = .ok s ↔
      c.Usable ∧ s.config = c ∧ Net.Block.parseAll c.allowedNetworks = some s.networks := by
  constructor
  · intro h
    unfold validate at h
    split at h
    · cases h
    rename_i hkeys
    split at h
    · cases h
    rename_i hnil
    split at h
    · cases h
    rename_i hingressRate
    split at h
    · cases h
    rename_i hingressBurst
    split at h
    · cases h
    rename_i hexecutionRate
    split at h
    · cases h
    rename_i hexecutionBurst
    split at h
    · cases h
    rename_i hmaxsize
    split at h
    · cases h
    split at h
    · cases h
    rename_i networks hnetworks
    cases h
    refine ⟨⟨hkeys, by simpa using hnil, ?_, ?_, hmaxsize⟩, rfl, hnetworks⟩
    · exact RateLimit.isValid_iff.2 ⟨by simpa using hingressRate, hingressBurst⟩
    · exact RateLimit.isValid_iff.2 ⟨by simpa using hexecutionRate, hexecutionBurst⟩
  · rintro ⟨⟨hkeys, hnil, hingress, hexecution, hmaxsize⟩, rfl, hnetworks⟩
    rw [RateLimit.isValid_iff] at hingress hexecution
    have hne := (Net.Block.parseAll_eq_some_iff.1 hnetworks).1
    simp [validate, hkeys, hnil, hingress, hexecution, hmaxsize, hne, hnetworks]

/-- The configuration for development with other networks. -/
def listing (texts : List Bytes) : Config := { standard with allowedNetworks := texts }

/-! ## Fields of a patch -/

namespace Patch

/-- A value is an object that tells a limit: a rate which is finite and positive, and a burst that
is a whole number of 32 bits other than zero. -/
structure DenotesLimit (v : Json) (l : RateLimit Float) : Prop where
  isObject : v.isObject = true
  rate : v.find? (ascii "rate_per_second") = some (.number l.rate)
  isRate : Quantity.isRate l.rate = true
  burst : ∃ x, v.find? (ascii "burst") = some (.number x) ∧ Binary64.StandsFor x l.burst.toNat
  burst_ne : l.burst ≠ 0

theorem DenotesLimit.isValid {v : Json} {l : RateLimit Float} (h : DenotesLimit v l) :
    l.isValid = true := RateLimit.isValid_iff.2 ⟨h.isRate, h.burst_ne⟩

/-- A value is a number that the length of the queue can be: a whole number of 32 bits other than
zero. -/
structure DenotesMaxsize (v : Json) (n : Nat) : Prop where
  number : ∃ x, v = .number x ∧ Binary64.StandsFor x n
  ne : n ≠ 0
  lt : n < 2 ^ 32

/-- A value is a list of texts that denote blocks. -/
structure DenotesNetworks (v : Json) (texts : List Bytes) (blocks : List Net.Block) : Prop where
  array : v.array? = some (texts.map .string)
  parseAll : Net.Block.parseAll texts = some blocks

theorem find?_bind_number? {v : Json} {key : Bytes} {x : Float} :
    (v.find? key).bind Json.number? = some x ↔ v.find? key = some (.number x) := by
  simp [Option.bind_eq_some_iff, Json.number?_eq_some_iff]

theorem readLimit_eq_ok_iff {v : Json} {l : RateLimit Float} :
    readLimit v = .ok l ↔ DenotesLimit v l := by
  constructor
  · intro h
    unfold readLimit at h
    split at h
    · cases h
    rename_i hobject
    split at h
    · cases h
    rename_i rate hrate
    split at h
    · cases h
    rename_i hpositive
    split at h
    · cases h
    rename_i burst hburst
    split at h
    · cases h
    rename_i n hn
    split at h
    · rename_i hrange
      cases h
      simp only [Bool.and_eq_true, decide_eq_true_eq] at hrange
      have hmax : maxInteger = 2 ^ 32 - 1 := rfl
      have htoNat : (UInt32.ofNat n.toNat).toNat = n.toNat :=
        UInt32.toNat_ofNat_of_lt' (by simp only [UInt32.size]; omega)
      have hstands : Binary64.StandsFor burst (UInt32.ofNat n.toNat).toNat := by
        rw [htoNat, Int.toNat_of_nonneg (by omega)]
        exact Binary64.integer?_eq_some_iff.1 hn
      refine ⟨by simpa using hobject, find?_bind_number?.1 hrate, by simpa using hpositive,
        ⟨burst, find?_bind_number?.1 hburst, hstands⟩, fun hzero => ?_⟩
      have : n.toNat = 0 := htoNat.symm.trans (congrArg UInt32.toNat hzero)
      omega
    · cases h
  · rintro ⟨hobject, hrate, hrange, ⟨burst, hburst, hn⟩, hne⟩
    have hpos : 0 < l.burst.toNat := UInt32.pos_iff_ne_zero.2 hne
    have hle : (l.burst.toNat : Int) ≤ maxInteger := by
      have := l.burst.toNat_lt
      simp only [maxInteger]
      omega
    simp [readLimit, hobject, find?_bind_number?.2 hrate, hrange, find?_bind_number?.2 hburst,
      Binary64.integer?_eq_some_iff.2 hn, hpos, hle]

theorem readQueueMaxsize_eq_ok_iff {v : Json} {n : Nat} :
    readQueueMaxsize v = .ok n ↔ DenotesMaxsize v n := by
  constructor
  · intro h
    unfold readQueueMaxsize at h
    split at h
    · cases h
    rename_i n hn
    split at h
    · cases h
    rename_i hpos
    split at h
    · cases h
    rename_i hle
    cases h
    obtain ⟨x, hx, hn⟩ := Option.bind_eq_some_iff.1 hn
    have htoNat : (n.toNat : Int) = n := Int.toNat_of_nonneg (by omega)
    simp only [maxInteger] at hle
    refine ⟨⟨x, Json.number?_eq_some_iff.1 hx, ?_⟩, by omega, by omega⟩
    rw [htoNat]
    exact Binary64.integer?_eq_some_iff.1 hn
  · rintro ⟨⟨x, rfl, hn⟩, hne, hlt⟩
    have hle : ¬ maxInteger < n := by
      simp only [maxInteger]
      omega
    simp [readQueueMaxsize, Json.number?, Binary64.integer?_eq_some_iff.2 hn, hne, hle]

theorem readBlocks_eq_ok_iff {items : List Json} {texts : List Bytes} {blocks : List Net.Block} :
    readBlocks items = .ok (texts, blocks) ↔
      items = texts.map .string ∧ texts.mapM Net.Block.parse = some blocks := by
  induction items generalizing texts blocks with
  | nil =>
    constructor
    · intro h
      cases h
      exact ⟨rfl, rfl⟩
    · rintro ⟨ht, hb⟩
      obtain rfl := List.map_eq_nil_iff.1 ht.symm
      cases hb
      rfl
  | cons item rest ih =>
    constructor
    · intro h
      unfold readBlocks at h
      split at h
      · cases h
      rename_i text htext
      split at h
      · cases h
      rename_i block hblock
      split at h
      · cases h
      rename_i texts' blocks' hrest
      cases h
      obtain ⟨hr, hb⟩ := ih.1 hrest
      refine ⟨?_, ?_⟩
      · rw [List.map_cons, ← hr, Json.string?_eq_some_iff.1 htext]
      · simp [List.mapM_cons, hblock, hb]
    · rintro ⟨ht, hb⟩
      cases texts with
      | nil => cases ht
      | cons text texts =>
        obtain ⟨rfl, hr⟩ := List.cons.inj ht
        simp only [List.mapM_cons, Option.bind_eq_bind, Option.pure_def,
          Option.bind_eq_some_iff, Option.some.injEq] at hb
        obtain ⟨block, hblock, blocks', hb, rfl⟩ := hb
        simp [readBlocks, Json.string?, hblock, ih.2 ⟨hr, hb⟩]

theorem readNetworks_eq_ok_iff {v : Json} {texts : List Bytes} {blocks : List Net.Block} :
    readNetworks v = .ok (texts, blocks) ↔ DenotesNetworks v texts blocks := by
  constructor
  · intro h
    unfold readNetworks at h
    split at h
    · cases h
    · cases h
    · rename_i items hne harray
      obtain ⟨ht, hb⟩ := readBlocks_eq_ok_iff.1 h
      refine ⟨by rw [harray, ht], Net.Block.parseAll_eq_some_iff.2 ⟨?_, hb⟩⟩
      rintro rfl
      exact hne ht
  · rintro ⟨harray, hparse⟩
    obtain ⟨hne, hb⟩ := Net.Block.parseAll_eq_some_iff.1 hparse
    obtain ⟨text, rest, rfl⟩ := List.exists_cons_of_ne_nil hne
    unfold readNetworks
    rw [harray]
    exact readBlocks_eq_ok_iff.2 ⟨rfl, hb⟩

/-- A field is read if it is absent or its value can be read. -/
theorem readField_eq_ok_iff {α : Type} {payload : Json} {key : Bytes}
    {read : Json → Except Error α} {a? : Option α} :
    readField payload key read = .ok a? ↔
      Option.Rel (fun v a => read v = .ok a) (present? payload key) a? := by
  unfold readField
  rcases present? payload key with _ | v
  · rcases a? with _ | a <;> simp
  · rcases hread : read v with e | b <;> rcases a? with _ | a <;> simp [hread]

theorem readLimitField_eq_ok_iff {payload : Json} {field : LimitField}
    {limit? : Option (RateLimit Float)} :
    readLimitField payload field = .ok limit? ↔
      Option.Rel DenotesLimit (present? payload field.name) limit? := by
  rw [readLimitField, readField_eq_ok_iff]
  rcases present? payload field.name with _ | v <;> rcases limit? with _ | limit
  iterate 3 simp
  rw [Option.rel_some_some, Option.rel_some_some, ← readLimit_eq_ok_iff]
  rcases readLimit v with fault | limit' <;> simp

theorem readNetworksField_eq_ok_iff {payload : Json} {key : Bytes}
    {networks? : Option (List Bytes × List Net.Block)} :
    readField payload key readNetworks = .ok networks? ↔
      Option.Rel (DenotesNetworks · · ((networks?.map Prod.snd).getD []))
        (present? payload key) (networks?.map Prod.fst) := by
  rw [readField_eq_ok_iff]
  rcases present? payload key with _ | v <;> rcases networks? with _ | ⟨texts, blocks⟩
  iterate 3 simp
  simp [readNetworks_eq_ok_iff]

/-! ## Patches -/

/-- A payload is an object that tells the fields of a patch: those that are absent or null in the
payload are absent in the patch. -/
structure Denotes (payload : Json) (p : Patch) : Prop where
  isObject : payload.isObject = true
  ingress : Option.Rel DenotesLimit (present? payload LimitField.ingress.name) p.ingress
  execution : Option.Rel DenotesLimit (present? payload LimitField.execution.name) p.execution
  queueMaxsize :
    Option.Rel DenotesMaxsize (present? payload (ascii "queue_maxsize")) p.queueMaxsize
  allowedNetworks : Option.Rel (DenotesNetworks · · p.networks)
    (present? payload (ascii "allowed_networks")) p.allowedNetworks
  networks_eq_nil : p.allowedNetworks = none → p.networks = []

theorem ofJson_eq_ok_iff {payload : Json} {p : Patch} :
    ofJson payload = .ok p ↔ Denotes payload p := by
  constructor
  · intro h
    unfold ofJson at h
    split at h
    · cases h
    rename_i hobject
    split at h
    · cases h
    rename_i ingress hingress
    split at h
    · cases h
    rename_i execution hexecution
    split at h
    · cases h
    rename_i maxsize hmaxsize
    split at h
    · cases h
    rename_i networks? hnetworks
    cases h
    refine ⟨by simpa using hobject, readLimitField_eq_ok_iff.1 hingress,
      readLimitField_eq_ok_iff.1 hexecution, ?_, ?_, ?_⟩
    · simpa only [readField_eq_ok_iff, readQueueMaxsize_eq_ok_iff] using hmaxsize
    · exact readNetworksField_eq_ok_iff.1 hnetworks
    · intro hnone
      rw [Option.map_eq_none_iff.1 hnone]
      rfl
  · rintro ⟨hobject, hingress, hexecution, hmaxsize, hnetworks, hnil⟩
    -- the texts and the blocks as the pair that is read
    obtain ⟨networks?, htexts, hblocks⟩ : ∃ networks? : Option (List Bytes × List Net.Block),
        networks?.map Prod.fst = p.allowedNetworks ∧
          (networks?.map Prod.snd).getD [] = p.networks := by
      rcases h : p.allowedNetworks with _ | texts
      · exact ⟨none, rfl, (hnil h).symm⟩
      · exact ⟨some (texts, p.networks), rfl, rfl⟩
    rw [← htexts, ← hblocks] at hnetworks
    have hmaxsize : readField payload (ascii "queue_maxsize") readQueueMaxsize =
        .ok p.queueMaxsize := by
      simpa only [readField_eq_ok_iff, readQueueMaxsize_eq_ok_iff] using hmaxsize
    simp [ofJson, hobject, readLimitField_eq_ok_iff.2 hingress,
      readLimitField_eq_ok_iff.2 hexecution, hmaxsize, readNetworksField_eq_ok_iff.2 hnetworks,
      htexts, hblocks]

theorem exists_of_rel {α : Type} {R : Json → α → Prop} {v? : Option Json} {a? : Option α} {a : α}
    (h : Option.Rel R v? a?) (ha : a ∈ a?) : ∃ v, R v a := by
  cases ha
  cases h with
  | some h => exact ⟨_, h⟩

/-- Every value of a patch can be used. -/
structure Usable (p : Patch) : Prop where
  ingress : ∀ l ∈ p.ingress, l.isValid = true
  execution : ∀ l ∈ p.execution, l.isValid = true
  queueMaxsize_ne : ∀ n ∈ p.queueMaxsize, n ≠ 0
  networks : ∀ texts ∈ p.allowedNetworks, Net.Block.parseAll texts = some p.networks

/-- What a payload denotes can be used. -/
theorem Denotes.usable {payload : Json} {p : Patch} (h : Denotes payload p) : p.Usable where
  ingress l hl := by
    obtain ⟨v, hv⟩ := exists_of_rel h.ingress hl
    exact hv.isValid
  execution l hl := by
    obtain ⟨v, hv⟩ := exists_of_rel h.execution hl
    exact hv.isValid
  queueMaxsize_ne n hn := by
    obtain ⟨v, hv⟩ := exists_of_rel h.queueMaxsize hn
    exact hv.ne
  networks texts ht := by
    obtain ⟨v, hv⟩ := exists_of_rel h.allowedNetworks ht
    exact hv.parseAll

end Patch

theorem getD_of_forall_mem {α : Type} {P : α → Prop} {a? : Option α} {b : α}
    (ha : ∀ a ∈ a?, P a) (hb : P b) : P (a?.getD b) := by
  rcases a? with _ | a
  · exact hb
  · exact ha a rfl

/-- A store that is valid stays so under every patch whose values can be used. -/
theorem Store.validate_apply {s : Store} {p : Patch} (hs : s.config.validate = .ok s)
    (hp : p.Usable) : (s.apply p).config.validate = .ok (s.apply p) := by
  obtain ⟨husable, -, hparse⟩ := validate_eq_ok_iff.1 hs
  refine validate_eq_ok_iff.2 ⟨⟨husable.apiKeys_ne, husable.nil_notMem, ?_, ?_, ?_⟩, rfl, ?_⟩
  · exact getD_of_forall_mem (P := (RateLimit.isValid · = true)) hp.ingress husable.ingress
  · exact getD_of_forall_mem (P := (RateLimit.isValid · = true)) hp.execution husable.execution
  · exact getD_of_forall_mem (P := (· ≠ 0)) hp.queueMaxsize_ne husable.queueMaxsize_ne
  · unfold apply
    rcases htexts : p.allowedNetworks with _ | texts
    · exact hparse
    · exact hp.networks texts htexts

end Config

end RoverControl
