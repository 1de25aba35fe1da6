import RoverControl.Proofs.Bytes
import RoverControl.Proofs.Cli.Options

/-!
# Numbers that options are given

A natural number may have white space and a plus sign in front of it, and after white space a minus
sign, too; a number that is too large counts as the largest one, and a negative one wraps around
(`readUnsigned_eq_some_iff`).  A text that begins with neither white space nor a plus sign is read
as the decimal number that it is, as long as that is one of 64 bits (`readUnsigned_of_isPlain`).
-/

namespace RoverControl

namespace Cli

/-! ## Texts of natural numbers -/

/-- A text of white space. -/
def IsSpaces (s : Bytes) : Prop := ∀ c ∈ s, Ascii.isSpace c = true

/-- The negative of a natural number modulo the numbers of 64 bits. -/
def wrapped (n : Nat) : Nat := (maxUnsigned + 1 - n) % (maxUnsigned + 1)

/-- A text is read as a natural number of 64 bits. -/
inductive ReadAs : Bytes → Nat → Prop
  | unsigned {spaces digits : Bytes} {n : Nat} (hspaces : IsSpaces spaces)
      (hdigits : readDecimal? digits = some n) : ReadAs (spaces ++ digits) (min n maxUnsigned)
  | plus {spaces digits : Bytes} {n : Nat} (hspaces : IsSpaces spaces)
      (hdigits : readDecimal? digits = some n) :
      ReadAs (spaces ++ Ascii.plus :: digits) (min n maxUnsigned)
  | minus {spaces digits : Bytes} {n : Nat} (hspaces : IsSpaces spaces) (hne : spaces ≠ [])
      (hdigits : readDecimal? digits = some n) :
      ReadAs (spaces ++ Ascii.minus :: digits) (if maxUnsigned < n then maxUnsigned else wrapped n)

/-- A text begins neither with white space nor with a plus sign. -/
def IsPlain (s : Bytes) : Prop := ∀ c ∈ s.head?, Ascii.isSpace c = false ∧ c ≠ Ascii.plus

variable {s spaces digits : Bytes} {n v : Nat}

theorem isSpaces_nil : IsSpaces [] := List.forall_mem_nil _

theorem exists_cons_of_readDecimal? (h : readDecimal? digits = some n) :
    ∃ c rest, digits = c :: rest ∧ Ascii.isDigit c = true := by
  obtain ⟨hne, hall, -⟩ := readDecimal?_eq_some_iff.1 h
  obtain ⟨c, rest, rfl⟩ := List.exists_cons_of_ne_nil hne
  exact ⟨c, rest, rfl, hall c List.mem_cons_self⟩

theorem isSpace_of_isDigit {c : UInt8} (h : Ascii.isDigit c = true) : Ascii.isSpace c = false := by
  obtain ⟨d, hd, rfl⟩ := exists_digit h
  have hall : ∀ d : Fin 10, Ascii.isSpace (UInt8.ofNat (0x30 + d)) = false := by decide
  exact hall ⟨d, hd⟩

theorem isPlain_of_readDecimal? (h : readDecimal? s = some n) : IsPlain s := by
  obtain ⟨c, rest, rfl, hc⟩ := exists_cons_of_readDecimal? h
  intro d hd
  cases hd
  refine ⟨isSpace_of_isDigit hc, ?_⟩
  rintro rfl
  cases hc

theorem head?_ne_minus_of_readDecimal? (h : readDecimal? s = some n) :
    s.head? ≠ some Ascii.minus := by
  obtain ⟨c, rest, rfl, hc⟩ := exists_cons_of_readDecimal? h
  intro hminus
  cases hminus
  cases hc

theorem IsPlain.readSign (h : IsPlain s) (hminus : s.head? ≠ some Ascii.minus) :
    readSign s = (false, s) := by
  unfold Cli.readSign
  split
  · exact absurd rfl hminus
  · exact absurd rfl (h _ rfl).2
  · rfl

/-- A text without a minus sign at its front is read by the sign and the digits that stand behind
its white space. -/
theorem readUnsigned_append {negative : Bool} (hspaces : IsSpaces spaces)
    (hs : ∀ c ∈ s.head?, Ascii.isSpace c = false)
    (hminus : spaces = [] → s.head? ≠ some Ascii.minus) (hsign : readSign s = (negative, digits)) :
    readUnsigned (spaces ++ s) = (readDecimal? digits).map fun n =>
      if maxUnsigned < n then maxUnsigned else if negative then wrapped n else n := by
  have hhead : (spaces ++ s).head? ≠ some Ascii.minus := by
    rcases spaces with _ | ⟨c, spaces⟩
    · exact hminus rfl
    · intro h
      have hc := hspaces c List.mem_cons_self
      rw [Option.some.inj h] at hc
      cases hc
  rw [readUnsigned, if_neg hhead, Bytes.dropWhile_append hspaces hs, hsign]
  dsimp only
  cases readDecimal? digits with
  | none => rfl
  | some n =>
    dsimp only [Option.map_some]
    split
    · rfl
    · split <;> rfl

theorem ite_lt_eq_min (n : Nat) :
    (if maxUnsigned < n then maxUnsigned else n) = min n maxUnsigned := by
  split <;> omega

theorem ReadAs.readUnsigned (h : ReadAs s v) : readUnsigned s = some v := by
  cases h with
  | @unsigned spaces digits n hspaces hdigits =>
    have hplain := isPlain_of_readDecimal? hdigits
    have hminus := head?_ne_minus_of_readDecimal? hdigits
    have hsign := hplain.readSign hminus
    rw [readUnsigned_append hspaces (fun c hc => (hplain c hc).1) (fun _ => hminus) hsign, hdigits]
    exact congrArg some (ite_lt_eq_min n)
  | @plus spaces digits n hspaces hdigits =>
    have hsign : readSign (Ascii.plus :: digits) = (false, digits) := rfl
    have hhead : ∀ c ∈ (Ascii.plus :: digits).head?, Ascii.isSpace c = false := by
      rintro c ⟨⟩
      rfl
    have hminus : (Ascii.plus :: digits).head? ≠ some Ascii.minus := fun h => by cases h
    rw [readUnsigned_append hspaces hhead (fun _ => hminus) hsign, hdigits]
    exact congrArg some (ite_lt_eq_min n)
  | @minus spaces digits n hspaces hne hdigits =>
    have hsign : readSign (Ascii.minus :: digits) = (true, digits) := rfl
    have hhead : ∀ c ∈ (Ascii.minus :: digits).head?, Ascii.isSpace c = false := by
      rintro c ⟨⟩
      rfl
    rw [readUnsigned_append hspaces hhead (fun h => absurd h hne) hsign, hdigits]
    rfl

theorem readAs_of_readUnsigned (h : readUnsigned s = some v) : ReadAs s v := by
  have hhead : s.head? ≠ some Ascii.minus := by
    intro hhead
    rw [readUnsigned, if_pos hhead] at h
    cases h
  obtain ⟨spaces, rest, rfl, hspaces, hrest⟩ : ∃ spaces rest, s = spaces ++ rest ∧
      IsSpaces spaces ∧ ∀ c ∈ rest.head?, Ascii.isSpace c = false :=
    ⟨s.takeWhile Ascii.isSpace, s.dropWhile Ascii.isSpace, List.takeWhile_append_dropWhile.symm,
      fun c hc => List.mem_takeWhile_imp hc, Bytes.head?_dropWhile _ s⟩
  have hminus : spaces = [] → rest.head? ≠ some Ascii.minus := by
    rintro rfl
    exact hhead
  -- what stands behind the white space begins with a sign or not
  obtain ⟨negative, digits, hsign⟩ : ∃ negative digits, readSign rest = (negative, digits) :=
    ⟨_, _, rfl⟩
  rw [readUnsigned_append hspaces hrest hminus hsign, Option.map_eq_some_iff] at h
  obtain ⟨n, hdigits, rfl⟩ := h
  unfold readSign at hsign
  split at hsign
  · cases hsign
    exact .minus hspaces (fun hnil => hminus hnil rfl) hdigits
  · cases hsign
    rw [if_neg Bool.false_ne_true, ite_lt_eq_min]
    exact .plus hspaces hdigits
  · cases hsign
    rw [if_neg Bool.false_ne_true, ite_lt_eq_min]
    exact .unsigned hspaces hdigits

/-- The texts that are read as natural numbers, and what they are read as. -/
theorem readUnsigned_eq_some_iff : readUnsigned s = some v ↔ ReadAs s v :=
  ⟨readAs_of_readUnsigned, ReadAs.readUnsigned⟩

example : readUnsigned (ascii "\t+07") = some 7 ∧
    readUnsigned (ascii " -18446744073709551615") = some 1 := by decide

/-! ## Decimal numbers -/

/-- A text that begins neither with white space nor with a plus sign is read as the decimal number
that it is, or as the largest one of 64 bits. -/
theorem readUnsigned_of_isPlain (h : IsPlain s) :
    readUnsigned s = (readDecimal? s).map (min · maxUnsigned) := by
  by_cases hminus : s.head? = some Ascii.minus
  · have hnone : readDecimal? s = none := Option.eq_none_iff_forall_not_mem.2 fun n hn =>
      head?_ne_minus_of_readDecimal? hn hminus
    rw [readUnsigned, if_pos hminus, hnone]
    rfl
  · have hread := readUnsigned_append isSpaces_nil (fun c hc => (h c hc).1) (fun _ => hminus)
      (h.readSign hminus)
    rw [List.nil_append] at hread
    simp only [hread, if_neg Bool.false_ne_true, ite_lt_eq_min]

theorem readUnsigned_of_readDecimal? (h : readDecimal? s = some n) :
    readUnsigned s = some (min n maxUnsigned) :=
  (ReadAs.unsigned isSpaces_nil h).readUnsigned

/-- A text that is read is the decimal number that it is read as if it begins with neither white
space nor a plus sign and is not too large, and only then. -/
theorem readDecimal?_eq_some_iff_of_readUnsigned (h : readUnsigned s = some v) :
    readDecimal? s = some v ↔ IsPlain s ∧ readDecimal s ≤ maxUnsigned := by
  constructor
  · intro hv
    have hplain := isPlain_of_readDecimal? hv
    have hvalue := (readDecimal?_eq_some_iff.1 hv).2.2
    rw [readUnsigned_of_readDecimal? hv] at h
    have hmin := Option.some.inj h
    exact ⟨hplain, by omega⟩
  · rintro ⟨hplain, hle⟩
    rw [readUnsigned_of_isPlain hplain, Option.map_eq_some_iff] at h
    obtain ⟨n, hn, hmin⟩ := h
    have hvalue := (readDecimal?_eq_some_iff.1 hn).2.2
    have heq : n = v := by omega
    rw [hn, heq]

/-- A text is read as a number up to a limit, and if it is plain, it is that number in decimal. -/
structure ReadWithin (limit : Nat) (s : Bytes) (n : Nat) : Prop where
  readAs : ReadAs s n
  le : n ≤ limit
  eq_of_isPlain : IsPlain s → readDecimal? s = some n

theorem readWithin_of_readUnsigned {limit : Nat} (h : readUnsigned s = some n) (hle : n ≤ limit)
    (hlimit : limit < maxUnsigned) : ReadWithin limit s n where
  readAs := readAs_of_readUnsigned h
  le := hle
  eq_of_isPlain := by
    intro hplain
    rw [readUnsigned_of_isPlain hplain, Option.map_eq_some_iff] at h
    obtain ⟨m, hm, hmin⟩ := h
    rw [hm]
    have heq : m = n := by omega
    rw [heq]

/-! ## Options -/

theorem readRateLimit_eq_some_iff {limit : RateLimit Float} :
    readRateLimit s = some limit ↔ ∃ rate burst, Ascii.colon ∉ rate ∧
      s = rate ++ Ascii.colon :: burst ∧ readRate rate = some limit.rate ∧
      readUnsigned burst = some limit.burst.toNat := by
  unfold readRateLimit
  constructor
  · intro h
    split at h
    · cases h
    · rename_i rateText burstText hcut
      obtain ⟨hnotMem, hs⟩ := Bytes.cut_eq_some_iff.1 hcut
      split at h
      · rename_i hrate hburst
        split at h
        · rename_i hlt
          cases h
          exact ⟨rateText, burstText, hnotMem, hs, hrate,
            hburst.trans (congrArg some (UInt32.toNat_ofNat_of_lt' hlt).symm)⟩
        · cases h
      · cases h
  · rintro ⟨rateText, burstText, hnotMem, rfl, hrate, hburst⟩
    rw [Bytes.cut_of_notMem hnotMem]
    dsimp only
    rw [hrate, hburst]
    exact (if_pos limit.burst.toNat_lt).trans (by rw [UInt32.ofNat_toNat])

variable {args : List Bytes} {o : Options} {text : Bytes}

theorem Choice.From.read {α : Type} {c : Choice α} {before : α} {values : List Bytes}
    (h : c.From before values o) (hlast : values.getLast? = some text) :
    c.read text = some (c.get o) := by
  unfold Choice.From at h
  rwa [hlast] at h

theorem Accepted.sets {f : Flag} (h : Accepted args) (htext : text ∈ givenBy args f) :
    ∃ change, Sets f text change := by
  obtain ⟨setting, hmem, rfl⟩ := List.mem_map.1 htext
  obtain ⟨hmem, hflag⟩ := List.mem_filter.1 hmem
  obtain ⟨g, change, hg, hsets⟩ := h.isReadable setting hmem
  have hfg : g = f := Flag.text_injective (hg.symm.trans (of_decide_eq_true hflag))
  exact ⟨change, hfg ▸ hsets⟩

/-- The flags that are followed by a rate and a burst. -/
def Flag.isLimit : Flag → Bool
  | .ingress | .execution => true
  | _ => false

/-- What the last value of a limit says about its burst. -/
def BurstRead (text : Bytes) (limit : RateLimit Float) : Prop :=
  ∃ rate burst, Ascii.colon ∉ rate ∧ text = rate ++ Ascii.colon :: burst ∧
    ReadWithin (UInt32.size - 1) burst limit.burst.toNat

/-- The numbers among the options are read from the last values that are given, and among all the
values there is no decimal number that is too large, but for the length of the queue. -/
structure NumbersRead (given : Flag → List Bytes) (o : Options) : Prop where
  port : ∀ {text}, (given .port).getLast? = some text → ReadWithin 65535 text o.port.toNat
  queueMaxsize : ∀ {text}, (given .queueSize).getLast? = some text →
    ReadAs text o.config.queueMaxsize ∧
      (IsPlain text → ∃ n, readDecimal? text = some n ∧ o.config.queueMaxsize = min n maxUnsigned)
  ingress : ∀ {text}, (given .ingress).getLast? = some text → BurstRead text o.config.ingress
  execution : ∀ {text}, (given .execution).getLast? = some text → BurstRead text o.config.execution
  port_fits : ∀ {text n}, text ∈ given .port → readDecimal? text = some n → n ≤ 65535
  burst_fits : ∀ {f rate burst n}, f.isLimit = true → rate ++ Ascii.colon :: burst ∈ given f →
    Ascii.colon ∉ rate → readDecimal? burst = some n → n < UInt32.size

theorem burstRead_of_readRateLimit {limit : RateLimit Float} (h : readRateLimit text = some limit) :
    BurstRead text limit := by
  obtain ⟨rate, burst, hrate, htext, -, hburst⟩ := readRateLimit_eq_some_iff.1 h
  exact ⟨rate, burst, hrate, htext,
    readWithin_of_readUnsigned hburst (Nat.le_sub_one_of_lt limit.burst.toNat_lt) (by decide)⟩

theorem le_of_readPort {port : UInt16} (h : readPort text = some port)
    (hn : readDecimal? text = some n) : n ≤ 65535 := by
  have hread := readPort_eq_some_iff.1 h
  rw [readUnsigned_of_readDecimal? hn] at hread
  have hmin := Option.some.inj hread
  have hlt := port.toNat_lt
  have hlimit : 65535 < maxUnsigned := by decide
  omega

theorem lt_of_readRateLimit {limit : RateLimit Float} {rate burst : Bytes}
    (h : readRateLimit (rate ++ Ascii.colon :: burst) = some limit) (hrate : Ascii.colon ∉ rate)
    (hn : readDecimal? burst = some n) : n < UInt32.size := by
  obtain ⟨rate', burst', hrate', htext, -, hread⟩ := readRateLimit_eq_some_iff.1 h
  have hcut : some (rate, burst) = some (rate', burst') := by
    rw [← Bytes.cut_of_notMem hrate burst, htext, Bytes.cut_of_notMem hrate' burst']
  cases hcut
  rw [readUnsigned_of_readDecimal? hn] at hread
  have hmin := Option.some.inj hread
  have hlt := limit.burst.toNat_lt
  have hsize : UInt32.size = 2 ^ 32 := rfl
  have hlimit : UInt32.size < maxUnsigned := by decide
  omega

theorem Sets.exists_readRateLimit {f : Flag} {change : Progress → Progress}
    (h : Sets f text change) (hf : f.isLimit = true) :
    ∃ limit, readRateLimit text = some limit := by
  cases h with
  | ingress hread => exact ⟨_, hread⟩
  | execution hread => exact ⟨_, hread⟩
  | _ => cases hf

theorem numbersRead_of_parse (h : Options.parse args = .ok o) : NumbersRead (givenBy args) o where
  port hlast := by
    have hread := (combined_of_parse h).port.read hlast
    exact readWithin_of_readUnsigned (readPort_eq_some_iff.1 hread)
      (Nat.le_of_lt_succ o.port.toNat_lt) (by decide)
  queueMaxsize hlast := by
    have hread : readUnsigned _ = some _ := (combined_of_parse h).queueMaxsize.read hlast
    refine ⟨readAs_of_readUnsigned hread, fun hplain => ?_⟩
    rw [readUnsigned_of_isPlain hplain, Option.map_eq_some_iff] at hread
    obtain ⟨n, hn, hmin⟩ := hread
    exact ⟨n, hn, hmin.symm⟩
  ingress hlast := burstRead_of_readRateLimit ((combined_of_parse h).ingress.read hlast)
  execution hlast := burstRead_of_readRateLimit ((combined_of_parse h).execution.read hlast)
  port_fits hmem hn := by
    obtain ⟨change, hsets⟩ := (exists_parse_iff.1 ⟨o, h⟩).sets hmem
    cases hsets with
    | port hread => exact le_of_readPort hread hn
  burst_fits hf hmem hrate hn := by
    obtain ⟨change, hsets⟩ := (exists_parse_iff.1 ⟨o, h⟩).sets hmem
    obtain ⟨limit, hlimit⟩ := hsets.exists_readRateLimit hf
    exact lt_of_readRateLimit hlimit hrate hn

/-- Which texts are read as natural numbers, which of these are the decimal numbers that they are
read as, and how the numbers among the options are read. -/
theorem numbers_read_leniently (s : Bytes) (v : Nat) (args : List Bytes) (o : Options) :
    (readUnsigned s = some v ↔ ReadAs s v) ∧
    (readUnsigned s = some v →
      (readDecimal? s = some v ↔ IsPlain s ∧ readDecimal s ≤ maxUnsigned)) ∧
    (Options.parse args = .ok o → NumbersRead (givenBy args) o) :=
  ⟨readUnsigned_eq_some_iff, readDecimal?_eq_some_iff_of_readUnsigned, numbersRead_of_parse⟩

theorem numbers_read_leniently_of_port :
    readDecimal? (ascii "0443") = some 443 ∧
    ∃ o, Options.parse [ascii "--port", ascii "80", ascii "--port", ascii "0443"] = .ok o ∧
      ReadWithin 65535 (ascii "0443") o.port.toNat := by
  have hparse : Options.parse [ascii "--port", ascii "80", ascii "--port", ascii "0443"] =
      .ok ⟨443, ascii "127.0.0.1", Config.standard⟩ := rfl
  have hplain : IsPlain (ascii "0443") := by
    intro c hc
    cases hc
    exact ⟨rfl, by decide⟩
  obtain ⟨-, hexact, hoptions⟩ := numbers_read_leniently (ascii "0443") 443 _ _
  exact ⟨(hexact (by decide)).2 ⟨hplain, by decide⟩, _, hparse, (hoptions hparse).port rfl⟩

/-- White space hides a minus sign: a text that is no decimal number is accepted as the largest
number of 64 bits. -/
theorem negative_length_accepted :
    (¬ ∀ s v, readUnsigned s = some v → readDecimal? s = some v) ∧
    ∃ o, Options.parse [ascii "--queue-size", ascii " -1"] = .ok o ∧
      o.config.queueMaxsize = 18446744073709551615 := by
  have hread : readUnsigned (ascii " -1") = some 18446744073709551615 := by decide
  refine ⟨fun h => ?_, ⟨8080, ascii "127.0.0.1",
    { Config.standard with queueMaxsize := 18446744073709551615 }⟩, rfl, rfl⟩
  exact absurd (h _ _ hread) (by decide)

end Cli

end RoverControl
