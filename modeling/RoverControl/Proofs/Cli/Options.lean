import Mathlib.Algebra.Group.Nat.Even
import Mathlib.Data.List.Basic
import Mathlib.Data.List.Sort
import RoverControl.Cli.Options

/-!
# How options combine

What is asked for is found in the values that are given with each flag, wherever they stand among
the arguments (`givenBy`): the last one, or all of them in the case of keys and networks
(`Combined`).  The arguments that are accepted are flags with values that can be read, and they ask
for what their values combine to (`parse_eq_ok_iff`), so that different flags may change places
(`parse_swap`).
-/

namespace RoverControl

/-! ## Sets of keys -/

namespace Config

variable {key k : Bytes} {keys : List Bytes}

theorem mem_insertKey : k ∈ insertKey key keys ↔ k = key ∨ k ∈ keys := by
  induction keys with
  | nil => simp [insertKey]
  | cons first rest ih =>
    unfold insertKey
    split
    · exact List.mem_cons
    · split
      · rename_i heq
        rw [heq, List.mem_cons, ← or_assoc, or_self]
      · rw [List.mem_cons, List.mem_cons, ih]
        exact or_left_comm

theorem pairwise_insertKey (h : keys.Pairwise (· < ·)) :
    (insertKey key keys).Pairwise (· < ·) := by
  induction keys with
  | nil => exact List.pairwise_singleton _ _
  | cons first rest ih =>
    obtain ⟨hfirst, hrest⟩ := List.pairwise_cons.1 h
    unfold insertKey
    split
    · rename_i hlt
      refine List.pairwise_cons.2 ⟨fun k hk => ?_, h⟩
      rcases List.mem_cons.1 hk with rfl | hk
      · exact hlt
      · exact List.lt_trans hlt (hfirst k hk)
    · rename_i hnlt
      split
      · exact h
      · rename_i hne
        refine List.pairwise_cons.2 ⟨fun k hk => ?_, ih hrest⟩
        rcases mem_insertKey.1 hk with rfl | hk
        · exact Std.lt_of_le_of_ne (List.not_lt.1 hnlt) (Ne.symm hne)
        · exact hfirst k hk

theorem mem_foldl_insertKey (set : List Bytes) :
    k ∈ keys.foldl (fun set key => insertKey key set) set ↔ k ∈ keys ∨ k ∈ set := by
  induction keys generalizing set with
  | nil => simp
  | cons key rest ih =>
    rw [List.foldl_cons, ih, mem_insertKey, List.mem_cons, or_assoc]
    exact or_left_comm

theorem mem_keySet : k ∈ keySet keys ↔ k ∈ keys := by
  simp [keySet, mem_foldl_insertKey]

theorem pairwise_keySet (keys : List Bytes) : (keySet keys).Pairwise (· < ·) :=
  List.foldlRecOn keys _ List.Pairwise.nil fun _ h _ _ => pairwise_insertKey h

end Config

namespace Cli

/-! ## Flags and values -/

/-- The flags that are followed by a value. -/
inductive Flag where
  | port | bind | apiKey | allow | queueSize | ingress | execution
  deriving DecidableEq

def Flag.text : Flag → Bytes
  | .port => ascii "--port"
  | .bind => ascii "--bind"
  | .apiKey => ascii "--api-key"
  | .allow => ascii "--allow"
  | .queueSize => ascii "--queue-size"
  | .ingress => ascii "--ingress"
  | .execution => ascii "--execution"

theorem Flag.text_injective {f g : Flag} (h : f.text = g.text) : f = g := by
  revert h
  cases f <;> cases g <;> decide

theorem Flag.text_ne_help (f : Flag) : f.text ≠ ascii "--help" := by
  cases f <;> decide

/-- Arguments in pairs, the second of which is the value of the first. -/
def pairs : List Bytes → List (Bytes × Bytes)
  | flag :: value :: rest => (flag, value) :: pairs rest
  | _ => []

/-- The flags and values that the arguments give; an argument ends at its first zero byte. -/
def settings (args : List Bytes) : List (Bytes × Bytes) := pairs (args.map (Bytes.before 0))

/-- The values that are given with a flag, in order. -/
def values (flag : Flag) (given : List (Bytes × Bytes)) : List Bytes :=
  (given.filter fun setting => setting.1 = flag.text).map Prod.snd

/-- A number of 16 bits. -/
def readPort (value : Bytes) : Option UInt16 :=
  ((readUnsigned value).filter (· ≤ 65535)).map UInt16.ofNat

/-- A flag with its value changes the options read so far. -/
inductive Sets : Flag → Bytes → (Progress → Progress) → Prop
  | port {value : Bytes} {n : UInt16} (h : readPort value = some n) :
    Sets .port value fun p => { p with options := { p.options with port := n } }
  | bind (value : Bytes) :
    Sets .bind value fun p => { p with options := { p.options with bindAddress := value } }
  | apiKey (value : Bytes) : Sets .apiKey value (·.addKey value)
  | allow (value : Bytes) : Sets .allow value (·.addNetwork value)
  | queueSize {value : Bytes} {n : Nat} (h : readUnsigned value = some n) :
    Sets .queueSize value (·.mapConfig ({ · with queueMaxsize := n }))
  | ingress {value : Bytes} {limit : RateLimit Float} (h : readRateLimit value = some limit) :
    Sets .ingress value (·.mapConfig ({ · with ingress := limit }))
  | execution {value : Bytes} {limit : RateLimit Float} (h : readRateLimit value = some limit) :
    Sets .execution value (·.mapConfig ({ · with execution := limit }))

variable {p p' : Progress} {flag : Bytes} {value : Bytes}

theorem readPort_of_le {n : Nat} (h : readUnsigned value = some n) (hle : n ≤ 65535) :
    readPort value = some (UInt16.ofNat n) := by
  simp [readPort, h, hle]

theorem readPort_eq_some_iff {n : UInt16} :
    readPort value = some n ↔ readUnsigned value = some n.toNat := by
  constructor
  · intro h
    obtain ⟨m, hm, rfl⟩ := Option.map_eq_some_iff.1 h
    obtain ⟨hread, hle⟩ := Option.filter_eq_some_iff.1 hm
    rw [UInt16.toNat_ofNat_of_lt' (Nat.lt_succ_of_le (of_decide_eq_true hle)), hread]
  · intro h
    rw [readPort_of_le h (Nat.le_of_lt_succ n.toNat_lt), UInt16.ofNat_toNat]

theorem Sets.follow {f : Flag} {change : Progress → Progress} (h : Sets f value change)
    (p : Progress) : p.follow f.text value = .ok (change p) := by
  unfold Progress.follow
  cases h with
  | port h =>
    rw [if_pos (by decide), readPort_eq_some_iff.1 h]
    exact (if_pos (Nat.le_of_lt_succ (UInt16.toNat_lt _))).trans (by rw [UInt16.ofNat_toNat])
  | bind => rw [if_neg (by decide), if_pos (by decide)]
  | apiKey => rw [if_neg (by decide), if_neg (by decide), if_pos (by decide)]
  | allow => rw [if_neg (by decide), if_neg (by decide), if_neg (by decide), if_pos (by decide)]
  | queueSize h =>
    rw [if_neg (by decide), if_neg (by decide), if_neg (by decide), if_neg (by decide),
      if_pos (by decide), h]
  | ingress h =>
    rw [if_neg (by decide), if_neg (by decide), if_neg (by decide), if_neg (by decide),
      if_neg (by decide), if_pos (by decide), h]
  | execution h =>
    rw [if_neg (by decide), if_neg (by decide), if_neg (by decide), if_neg (by decide),
      if_neg (by decide), if_neg (by decide), if_pos (by decide), h]

theorem exists_sets_of_follow (h : p.follow flag value = .ok p') :
    ∃ f change, flag = f.text ∧ Sets f value change ∧ p' = change p := by
  unfold Progress.follow at h
  split_ifs at h with hport hbind hkey hallow hqueue hingress hexecution
  · split at h
    · rename_i n hread
      split_ifs at h with hle
      cases h
      exact ⟨.port, _, hport, .port (readPort_of_le hread hle), rfl⟩
    · cases h
  · cases h
    exact ⟨.bind, _, hbind, .bind value, rfl⟩
  · cases h
    exact ⟨.apiKey, _, hkey, .apiKey value, rfl⟩
  · cases h
    exact ⟨.allow, _, hallow, .allow value, rfl⟩
  · split at h
    · rename_i n hread
      cases h
      exact ⟨.queueSize, _, hqueue, .queueSize hread, rfl⟩
    · cases h
  · split at h
    · rename_i limit hread
      cases h
      exact ⟨.ingress, _, hingress, .ingress hread, rfl⟩
    · cases h
  · split at h
    · rename_i limit hread
      cases h
      exact ⟨.execution, _, hexecution, .execution hread, rfl⟩
    · cases h

variable {args : List Bytes} {o : Options}

theorem followAll_cons_cons_eq_ok_iff {rest : List Bytes} :
    p.followAll (flag :: value :: rest) = .ok o ↔
      ∃ f change, flag = f.text ∧ Sets f value change ∧ (change p).followAll rest = .ok o := by
  rw [Progress.followAll]
  constructor
  · intro h
    split at h
    · cases h
    · split at h
      · cases h
      · rename_i hfollow
        obtain ⟨f, change, hf, hsets, rfl⟩ := exists_sets_of_follow hfollow
        exact ⟨f, change, hf, hsets, h⟩
  · rintro ⟨f, change, rfl, hsets, h⟩
    rw [if_neg f.text_ne_help, hsets.follow]
    exact h

/-- What holds at the end of the arguments, and before a flag with its value if it holds after
them, holds of all arguments that are followed to the end. -/
theorem followAll_induction {motive : Progress → List (Bytes × Bytes) → Prop}
    (nil : ∀ p, p.options = o → motive p [])
    (cons : ∀ p f value change given, Sets f value change → motive (change p) given →
      motive p ((f.text, value) :: given))
    (h : p.followAll args = .ok o) : motive p (pairs args) := by
  induction args using pairs.induct generalizing p with
  | case1 flag value rest ih =>
    obtain ⟨f, change, rfl, hsets, hrest⟩ := followAll_cons_cons_eq_ok_iff.1 h
    exact cons p f value change _ hsets (ih hrest)
  | case2 args hshort =>
    rcases args with _ | ⟨flag, _ | ⟨value, rest⟩⟩
    · exact nil p (Except.ok.inj h)
    · cases h
    · exact absurd rfl (hshort flag value rest)

variable {given : List (Bytes × Bytes)}

theorem values_cons (f g : Flag) (value : Bytes) (given : List (Bytes × Bytes)) :
    values g ((f.text, value) :: given) =
      if f = g then value :: values g given else values g given := by
  by_cases h : f = g
  · simp [values, h]
  · have hne : f.text ≠ g.text := mt Flag.text_injective h
    simp [values, h, hne]

theorem values_append (f : Flag) (given more : List (Bytes × Bytes)) :
    values f (given ++ more) = values f given ++ values f more := by
  rw [values, List.filter_append, List.map_append]
  rfl

/-! ## Options of which the last value counts -/

/-- An option of which the last value counts. -/
structure Choice (α : Type) where
  flag : Flag
  read : Bytes → Option α
  get : Options → α

namespace Choice

def port : Choice UInt16 := ⟨.port, readPort, Options.port⟩

def bindAddress : Choice Bytes := ⟨.bind, some, Options.bindAddress⟩

def queueMaxsize : Choice Nat := ⟨.queueSize, readUnsigned, (·.config.queueMaxsize)⟩

def ingress : Choice (RateLimit Float) := ⟨.ingress, readRateLimit, (·.config.ingress)⟩

def execution : Choice (RateLimit Float) := ⟨.execution, readRateLimit, (·.config.execution)⟩

variable {α : Type} {c : Choice α}

/-- The options hold what the last value says, or what was there before if there is no value. -/
def From (c : Choice α) (before : α) (values : List Bytes) (o : Options) : Prop :=
  match values.getLast? with
  | some value => c.read value = some (c.get o)
  | none => c.get o = before

/-- Values of an option change what it says, and those of others do not. -/
structure Lawful (c : Choice α) : Prop where
  same : ∀ {value change}, Sets c.flag value change → ∀ p,
    c.read value = some (c.get (change p).options)
  other : ∀ {f value change}, Sets f value change → f ≠ c.flag → ∀ p,
    c.get (change p).options = c.get p.options

theorem lawful_port : port.Lawful where
  same h p := by cases h; assumption
  other h hne p := by cases h <;> first | rfl | exact absurd rfl hne

theorem lawful_bindAddress : bindAddress.Lawful where
  same h p := by cases h; rfl
  other h hne p := by cases h <;> first | rfl | exact absurd rfl hne

theorem lawful_queueMaxsize : queueMaxsize.Lawful where
  same h p := by cases h; assumption
  other h hne p := by cases h <;> first | rfl | exact absurd rfl hne

theorem lawful_ingress : ingress.Lawful where
  same h p := by cases h; assumption
  other h hne p := by cases h <;> first | rfl | exact absurd rfl hne

theorem lawful_execution : execution.Lawful where
  same h p := by cases h; assumption
  other h hne p := by cases h <;> first | rfl | exact absurd rfl hne

theorem from_cons {f : Flag} {before after : α} (hsame : f = c.flag → c.read value = some after)
    (hother : f ≠ c.flag → after = before) (h : c.From after (values c.flag given) o) :
    c.From before (values c.flag ((f.text, value) :: given)) o := by
  unfold From at h ⊢
  rw [values_cons]
  by_cases hf : f = c.flag
  · rw [if_pos hf, List.getLast?_cons]
    cases hlast : (values c.flag given).getLast? with
    | none =>
      rw [hlast] at h
      rw [Option.getD_none, h]
      exact hsame hf
    | some last =>
      rw [hlast] at h
      exact h
  · rw [if_neg hf, ← hother hf]
    exact h

theorem Lawful.from_followAll (hc : c.Lawful) (h : p.followAll args = .ok o) :
    c.From (c.get p.options) (values c.flag (pairs args)) o := by
  refine followAll_induction
    (motive := fun p given => c.From (c.get p.options) (values c.flag given) o) ?_ ?_ h
  · intro p hp
    exact congrArg c.get hp.symm
  · intro p f value change given hsets ih
    refine from_cons (fun hf => ?_) (fun hf => hc.other hsets hf p) ih
    subst hf
    exact hc.same hsets p

theorem From.unique {before : α} {values : List Bytes} {o' : Options}
    (h : c.From before values o) (h' : c.From before values o') : c.get o = c.get o' := by
  unfold From at h h'
  cases hlast : values.getLast? with
  | none =>
    rw [hlast] at h h'
    exact h.trans h'.symm
  | some value =>
    rw [hlast] at h h'
    exact Option.some.inj (h.symm.trans h')

end Choice

/-! ## Options of which all values count -/

/-- An option of which all values count; the first one replaces what is standard. -/
structure Collection where
  flag : Flag
  add : Bytes → List Bytes → List Bytes
  get : Options → List Bytes
  begun : Progress → Bool

namespace Collection

def apiKeys : Collection := ⟨.apiKey, Config.insertKey, (·.config.apiKeys), Progress.keyGiven⟩

def allowedNetworks : Collection :=
  ⟨.allow, fun network all => all ++ [network], (·.config.allowedNetworks), Progress.networkGiven⟩

variable {c : Collection}

/-- What there is to add the next value to. -/
def held (c : Collection) (p : Progress) : List Bytes := if c.begun p then c.get p.options else []

/-- What there is after some more values. -/
def gathered (c : Collection) (p : Progress) (values : List Bytes) : List Bytes :=
  if values = [] then c.get p.options
  else values.foldl (fun all value => c.add value all) (c.held p)

/-- Values of an option are added to what it holds, and those of others do not change it. -/
structure Lawful (c : Collection) : Prop where
  same : ∀ {value change}, Sets c.flag value change → ∀ p,
    c.begun (change p) = true ∧ c.get (change p).options = c.add value (c.held p)
  other : ∀ {f value change}, Sets f value change → f ≠ c.flag → ∀ p,
    c.begun (change p) = c.begun p ∧ c.get (change p).options = c.get p.options

theorem lawful_apiKeys : apiKeys.Lawful where
  same h p := by cases h; exact ⟨rfl, rfl⟩
  other h hne p := by cases h <;> first | exact ⟨rfl, rfl⟩ | exact absurd rfl hne

theorem lawful_allowedNetworks : allowedNetworks.Lawful where
  same h p := by cases h; exact ⟨rfl, rfl⟩
  other h hne p := by cases h <;> first | exact ⟨rfl, rfl⟩ | exact absurd rfl hne

theorem Lawful.gathered_same {change : Progress → Progress} (hc : c.Lawful)
    (h : Sets c.flag value change) (p : Progress) (values : List Bytes) :
    c.gathered (change p) values = c.gathered p (value :: values) := by
  obtain ⟨hbegun, hget⟩ := hc.same h p
  unfold gathered
  rw [if_neg (List.cons_ne_nil _ _), List.foldl_cons, ← hget]
  split
  · rename_i hnil
    rw [hnil]
    rfl
  · rw [held, if_pos hbegun]

theorem Lawful.gathered_other {f : Flag} {change : Progress → Progress} (hc : c.Lawful)
    (h : Sets f value change) (hne : f ≠ c.flag) (p : Progress) (values : List Bytes) :
    c.gathered (change p) values = c.gathered p values := by
  obtain ⟨hbegun, hget⟩ := hc.other h hne p
  rw [gathered, gathered, held, held, hbegun, hget]

theorem Lawful.get_followAll (hc : c.Lawful) (h : p.followAll args = .ok o) :
    c.get o = c.gathered p (values c.flag (pairs args)) := by
  refine followAll_induction
    (motive := fun p given => c.get o = c.gathered p (values c.flag given)) ?_ ?_ h
  · intro p hp
    exact congrArg c.get hp.symm
  · intro p f value change given hsets ih
    rw [ih, values_cons]
    by_cases hf : f = c.flag
    · subst hf
      rw [if_pos rfl, hc.gathered_same hsets]
    · rw [if_neg hf, hc.gathered_other hsets hf]

end Collection

/-! ## All options -/

/-- Values, or what is standard if there are none. -/
def orStandard (values standard : List Bytes) : List Bytes :=
  if values = [] then standard else values

/-- The options that the values of the flags ask for. -/
structure Combined (given : Flag → List Bytes) (o : Options) : Prop where
  port : Choice.port.From 8080 (given .port) o
  bindAddress : Choice.bindAddress.From (ascii "127.0.0.1") (given .bind) o
  queueMaxsize : Choice.queueMaxsize.From 32 (given .queueSize) o
  ingress : Choice.ingress.From ⟨5, 5⟩ (given .ingress) o
  execution : Choice.execution.From ⟨10, 5⟩ (given .execution) o
  mem_apiKeys : ∀ {key}, key ∈ o.config.apiKeys ↔ key ∈ orStandard (given .apiKey) [ascii "local"]
  sorted_apiKeys : o.config.apiKeys.Pairwise (· < ·)
  allowedNetworks : o.config.allowedNetworks = orStandard (given .allow) [ascii "127.0.0.0/8"]

/-- The values that the arguments give with each flag. -/
def givenBy (args : List Bytes) (f : Flag) : List Bytes := values f (settings args)

theorem apiKeys_of_parse (h : Options.parse args = .ok o) :
    o.config.apiKeys =
      if givenBy args .apiKey = [] then [ascii "local"]
      else Config.keySet (givenBy args .apiKey) :=
  Collection.lawful_apiKeys.get_followAll h

theorem allowedNetworks_of_parse (h : Options.parse args = .ok o) :
    o.config.allowedNetworks = orStandard (givenBy args .allow) [ascii "127.0.0.0/8"] := by
  have hall : o.config.allowedNetworks =
      if givenBy args .allow = [] then [ascii "127.0.0.0/8"]
      else (givenBy args .allow).foldl (fun all network => all ++ [network]) [] :=
    Collection.lawful_allowedNetworks.get_followAll h
  rw [hall, List.foldl_append_eq_append, ← List.flatMap_def, List.flatMap_singleton',
    List.nil_append, orStandard]

theorem combined_of_parse (h : Options.parse args = .ok o) : Combined (givenBy args) o where
  port := Choice.lawful_port.from_followAll h
  bindAddress := Choice.lawful_bindAddress.from_followAll h
  queueMaxsize := Choice.lawful_queueMaxsize.from_followAll h
  ingress := Choice.lawful_ingress.from_followAll h
  execution := Choice.lawful_execution.from_followAll h
  mem_apiKeys := by
    intro key
    rw [apiKeys_of_parse h, orStandard]
    split
    · exact Iff.rfl
    · exact Config.mem_keySet
  sorted_apiKeys := by
    rw [apiKeys_of_parse h]
    split
    · exact List.pairwise_singleton _ _
    · exact Config.pairwise_keySet _
  allowedNetworks := allowedNetworks_of_parse h

theorem Combined.unique {given : Flag → List Bytes} {o' : Options} (h : Combined given o)
    (h' : Combined given o') : o = o' := by
  have hkeys : o.config.apiKeys = o'.config.apiKeys :=
    h.sorted_apiKeys.eq_of_mem_iff h'.sorted_apiKeys fun _ =>
      h.mem_apiKeys.trans h'.mem_apiKeys.symm
  have hnetworks := h.allowedNetworks.trans h'.allowedNetworks.symm
  have hport := h.port.unique h'.port
  have hbind := h.bindAddress.unique h'.bindAddress
  have hqueue := h.queueMaxsize.unique h'.queueMaxsize
  have hingress := h.ingress.unique h'.ingress
  have hexecution := h.execution.unique h'.execution
  rcases o with ⟨port, bind, ⟨keys, networks, ingress, execution, queue⟩⟩
  rcases o' with ⟨port', bind', ⟨keys', networks', ingress', execution', queue'⟩⟩
  cases hkeys
  cases hnetworks
  cases hport
  cases hbind
  cases hqueue
  cases hingress
  cases hexecution
  rfl

/-! ## Arguments that are accepted -/

/-- A flag is known, and its value can be read. -/
def IsReadable (setting : Bytes × Bytes) : Prop :=
  ∃ f change, setting.1 = f.text ∧ Sets f setting.2 change

/-- The arguments are flags with values that can be read. -/
structure Accepted (args : List Bytes) : Prop where
  even : Even args.length
  isReadable : ∀ setting ∈ settings args, IsReadable setting

theorem even_length_cons_cons {rest : List Bytes} :
    Even (flag :: value :: rest).length ↔ Even rest.length := by
  rw [List.length_cons, List.length_cons, Nat.even_add_one, Nat.even_add_one, not_not]

theorem exists_followAll_iff (p : Progress) (args : List Bytes) :
    (∃ o, p.followAll args = .ok o) ↔
      Even args.length ∧ ∀ setting ∈ pairs args, IsReadable setting := by
  induction args using pairs.induct generalizing p with
  | case1 flag value rest ih =>
    rw [even_length_cons_cons, pairs, List.forall_mem_cons, and_left_comm]
    constructor
    · rintro ⟨o, ho⟩
      obtain ⟨f, change, hf, hsets, hrest⟩ := followAll_cons_cons_eq_ok_iff.1 ho
      exact ⟨⟨f, change, hf, hsets⟩, (ih (change p)).1 ⟨o, hrest⟩⟩
    · rintro ⟨⟨f, change, hf, hsets⟩, hrest⟩
      obtain ⟨o, ho⟩ := (ih (change p)).2 hrest
      exact ⟨o, followAll_cons_cons_eq_ok_iff.2 ⟨f, change, hf, hsets, ho⟩⟩
  | case2 args hshort =>
    rcases args with _ | ⟨flag, _ | ⟨value, rest⟩⟩
    · simp [Progress.followAll, pairs]
    · simp [Progress.followAll]
    · exact absurd rfl (hshort flag value rest)

theorem exists_parse_iff : (∃ o, Options.parse args = .ok o) ↔ Accepted args := by
  unfold Options.parse
  rw [exists_followAll_iff, List.length_map]
  exact ⟨fun h => ⟨h.1, h.2⟩, fun h => ⟨h.even, h.isReadable⟩⟩

/-- Arguments ask for some options exactly if they are accepted, and these are what their values
combine to. -/
theorem parse_eq_ok_iff :
    Options.parse args = .ok o ↔ Accepted args ∧ Combined (givenBy args) o := by
  constructor
  · intro h
    exact ⟨exists_parse_iff.1 ⟨o, h⟩, combined_of_parse h⟩
  · rintro ⟨haccepted, hcombined⟩
    obtain ⟨o', ho'⟩ := exists_parse_iff.2 haccepted
    rw [ho', (combined_of_parse ho').unique hcombined]

/-! ## Options in another order -/

theorem pairs_append {front : List Bytes} (h : Even front.length) (back : List Bytes) :
    pairs (front ++ back) = pairs front ++ pairs back := by
  induction front using pairs.induct with
  | case1 flag value rest ih =>
    rw [List.cons_append, List.cons_append, pairs, pairs, ih (even_length_cons_cons.1 h),
      List.cons_append]
  | case2 front hshort =>
    rcases front with _ | ⟨flag, _ | ⟨value, rest⟩⟩
    · rfl
    · exact absurd h Nat.not_even_one
    · exact absurd rfl (hshort flag value rest)

theorem settings_append {front : List Bytes} (h : Even front.length) (back : List Bytes) :
    settings (front ++ back) = settings front ++ settings back := by
  rw [settings, List.map_append]
  exact pairs_append (by rwa [List.length_map]) _

theorem values_swap {f f' : Flag} (hne : f ≠ f') (value value' : Bytes) (g : Flag)
    (front back : List (Bytes × Bytes)) :
    values g (front ++ (f.text, value) :: (f'.text, value') :: back) =
      values g (front ++ (f'.text, value') :: (f.text, value) :: back) := by
  rw [values_append, values_append, values_cons, values_cons, values_cons, values_cons]
  by_cases hf : f = g
  · have hf' : f' ≠ g := fun h => hne (hf.trans h.symm)
    rw [if_pos hf, if_neg hf', if_neg hf', if_pos hf]
  · rw [if_neg hf, if_neg hf]

/-- Two flags next to each other may change places, each with its value, if they differ. -/
theorem parse_swap {front : List Bytes} {flag value flag' value' : Bytes} {back : List Bytes}
    (heven : Even front.length) (hne : flag.before 0 ≠ flag'.before 0)
    (h : Options.parse (front ++ flag :: value :: flag' :: value' :: back) = .ok o) :
    Options.parse (front ++ flag' :: value' :: flag :: value :: back) = .ok o := by
  have hsettings : ∀ flag value flag' value',
      settings (front ++ flag :: value :: flag' :: value' :: back) =
        settings front ++ (flag.before 0, value.before 0) :: (flag'.before 0, value'.before 0) ::
          settings back := fun _ _ _ _ => settings_append heven _
  obtain ⟨haccepted, hcombined⟩ := parse_eq_ok_iff.1 h
  have hreadable := haccepted.isReadable
  rw [hsettings] at hreadable
  obtain ⟨f, -, hf, -⟩ := hreadable (flag.before 0, value.before 0) (by simp)
  obtain ⟨f', -, hf', -⟩ := hreadable (flag'.before 0, value'.before 0) (by simp)
  simp only at hf hf'
  have hvalues : givenBy (front ++ flag' :: value' :: flag :: value :: back) =
      givenBy (front ++ flag :: value :: flag' :: value' :: back) := by
    funext g
    unfold givenBy
    rw [hsettings, hsettings, hf, hf']
    exact values_swap (fun heq => hne (by rw [hf, hf', heq])) _ _ g _ _
  refine parse_eq_ok_iff.2 ⟨⟨?_, fun setting hmem => hreadable setting ?_⟩, hvalues ▸ hcombined⟩
  · have := haccepted.even
    simp only [List.length_append, List.length_cons] at this ⊢
    exact this
  · rw [hsettings] at hmem
    exact ((List.Perm.swap _ _ _).append_left _).mem_iff.1 hmem

/-- The options are what the values of each flag combine to, whatever stands between them, and they
are the same if two different flags next to each other change places, each with its value. -/
theorem options_combine :
    (∀ args o, Options.parse args = .ok o ↔ Accepted args ∧ Combined (givenBy args) o) ∧
    ∀ front flag value flag' value' back o, Even front.length → flag.before 0 ≠ flag'.before 0 →
      Options.parse (front ++ flag :: value :: flag' :: value' :: back) = .ok o →
      Options.parse (front ++ flag' :: value' :: flag :: value :: back) = .ok o :=
  ⟨fun _ _ => parse_eq_ok_iff, fun _ _ _ _ _ _ _ => parse_swap⟩

theorem options_combine_of_key_and_port :
    ∃ o, Options.parse [ascii "--port", ascii "80", ascii "--api-key", ascii "rover"] = .ok o ∧
      Options.parse [ascii "--api-key", ascii "rover", ascii "--port", ascii "80"] = .ok o ∧
      o.port = 80 ∧ ascii "local" ∉ o.config.apiKeys := by
  have hparse : Options.parse [ascii "--port", ascii "80", ascii "--api-key", ascii "rover"] =
      .ok ⟨80, ascii "127.0.0.1", { Config.standard with apiKeys := [ascii "rover"] }⟩ := rfl
  have hswap := options_combine.2 [] _ _ _ _ [] _ (by decide) (by decide) hparse
  exact ⟨_, hparse, hswap, rfl, by decide⟩

end Cli

end RoverControl
