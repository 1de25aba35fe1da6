import RoverControl.Proofs.Config.Validation
import RoverControl.Proofs.Net.BlockText
import RoverControl.Proofs.Number.Integral

/-!
# Snapshots as patches

The snapshot of a store denotes the patch that gives every visible field the value that it has, with
the networks in canonical text (`Store.denotes_snapshot`).  So a snapshot can be sent back: the
store that it leads to differs in the texts of its networks only, and has the same snapshot
(`snapshot_patches_back`).
-/

namespace RoverControl

namespace Config

/-! ## Networks -/

theorem canonicalNetwork_of_parse {t : Bytes} {block : Net.Block}
    (h : Net.Block.parse t = some block) : canonicalNetwork t = block.text := by
  rw [canonicalNetwork, h]
  rfl

/-- A network in canonical text denotes the same block. -/
theorem parse_canonicalNetwork (t : Bytes) :
    Net.Block.parse (canonicalNetwork t) = Net.Block.parse t := by
  rcases h : Net.Block.parse t with _ | block
  · rw [canonicalNetwork, h]
    exact h
  · rw [canonicalNetwork_of_parse h]
    exact Net.Block.parse_text (Net.Block.isCanonical_of_parse h)

theorem canonicalNetwork_canonicalNetwork (t : Bytes) :
    canonicalNetwork (canonicalNetwork t) = canonicalNetwork t := by
  rcases h : Net.Block.parse t with _ | block
  · have hself : canonicalNetwork t = t := by
      rw [canonicalNetwork, h]
      rfl
    rw [hself, hself]
  · rw [canonicalNetwork_of_parse h, canonicalNetwork_of_parse]
    exact Net.Block.parse_text (Net.Block.isCanonical_of_parse h)

theorem parseAll_map_canonicalNetwork (texts : List Bytes) :
    Net.Block.parseAll (texts.map canonicalNetwork) = Net.Block.parseAll texts := by
  have hparse : ∀ ts : List Bytes,
      (ts.map canonicalNetwork).mapM Net.Block.parse = ts.mapM Net.Block.parse := by
    intro ts
    induction ts with
    | nil => rfl
    | cons t ts ih => simp only [List.map_cons, List.mapM_cons, parse_canonicalNetwork, ih]
  simp only [Net.Block.parseAll, List.map_eq_nil_iff, hparse]

/-- The canonical texts of networks are the texts of their blocks. -/
theorem map_canonicalNetwork {texts : List Bytes} {blocks : List Net.Block}
    (h : Net.Block.parseAll texts = some blocks) :
    texts.map canonicalNetwork = blocks.map Net.Block.text := by
  replace h := Net.Block.forall₂_of_parseAll h
  induction h with
  | nil => rfl
  | cons hfirst _ ih =>
    rw [List.map_cons, List.map_cons, canonicalNetwork_of_parse hfirst, ih]

/-! ## Numbers -/

namespace Patch

/-- A whole number that a patch takes is told by the double that it is written as. -/
theorem standsFor_ofNat {n : ℕ} (hne : n ≠ 0) (hlt : n < 2 ^ 32) :
    Binary64.StandsFor (Binary64.ofNat n) n :=
  Binary64.standsFor_ofNat (Nat.pos_of_ne_zero hne) (by omega)

theorem denotesLimit_limitJson {l : RateLimit Float} (hvalid : l.isValid = true) :
    DenotesLimit (limitJson l) l := by
  obtain ⟨hrate, hburst⟩ := RateLimit.isValid_iff.1 hvalid
  have hne : l.burst.toNat ≠ 0 := fun h => hburst (UInt32.toNat_inj.1 h)
  exact ⟨rfl, rfl, hrate, ⟨_, rfl, standsFor_ofNat hne l.burst.toNat_lt⟩, hburst⟩

theorem denotesMaxsize_ofNat {n : ℕ} (hne : n ≠ 0) (hlt : n < 2 ^ 32) :
    DenotesMaxsize (.number (Binary64.ofNat n)) n where
  number := ⟨_, rfl, standsFor_ofNat hne hlt⟩
  ne := hne
  lt := hlt

end Patch

/-! ## Snapshots -/

/-- The patch that gives every visible field the value that it has. -/
def Store.asPatch (s : Store) : Patch where
  ingress := some s.config.ingress
  execution := some s.config.execution
  queueMaxsize := some s.config.queueMaxsize
  allowedNetworks := some (s.networks.map Net.Block.text)
  networks := s.networks

/-- A store with its networks in canonical text. -/
def Store.canonical (s : Store) : Store :=
  { s with config := { s.config with allowedNetworks := s.networks.map Net.Block.text } }

theorem Store.apply_asPatch (s : Store) : s.apply s.asPatch = s.canonical := rfl

theorem Store.denotes_snapshot {s : Store} (hs : s.config.validate = .ok s)
    (hn : s.config.queueMaxsize < 2 ^ 32) : Patch.Denotes s.config.snapshot s.asPatch := by
  obtain ⟨husable, -, hparse⟩ := validate_eq_ok_iff.1 hs
  refine ⟨rfl, ?_, ?_, ?_, ?_, fun h => by cases h⟩
  · exact .some (Patch.denotesLimit_limitJson husable.ingress)
  · exact .some (Patch.denotesLimit_limitJson husable.execution)
  · exact .some (Patch.denotesMaxsize_ofNat husable.queueMaxsize_ne hn)
  · refine .some ⟨?_, ?_⟩
    · rw [← map_canonicalNetwork hparse, List.map_map]
      rfl
    · rw [← map_canonicalNetwork hparse, parseAll_map_canonicalNetwork]
      exact hparse

/-- A snapshot tells no more of the networks than their canonical texts. -/
theorem snapshot_congr {c : Config} {texts : List Bytes}
    (h : texts.map canonicalNetwork = c.allowedNetworks.map canonicalNetwork) :
    ({ c with allowedNetworks := texts } : Config).snapshot = c.snapshot := by
  have hitems : ∀ ts : List Bytes, (ts.map fun text => Json.string (canonicalNetwork text)) =
      (ts.map canonicalNetwork).map Json.string := fun ts => (List.map_map ..).symm
  simp only [snapshot, hitems, h]

theorem Store.snapshot_canonical {s : Store} (hs : s.config.validate = .ok s) :
    s.canonical.config.snapshot = s.config.snapshot := by
  refine snapshot_congr ?_
  rw [← map_canonicalNetwork (validate_eq_ok_iff.1 hs).2.2, List.map_map]
  exact List.map_congr_left fun t _ => canonicalNetwork_canonicalNetwork t

/-- The snapshot of a valid store is read as a patch, and that patch changes nothing but the texts
of the networks, which become canonical: the blocks stay as they are, so that the same addresses are
allowed, and so does the snapshot. -/
theorem snapshot_patches_back {s : Store} (hs : s.config.validate = .ok s)
    (hn : s.config.queueMaxsize < 2 ^ 32) :
    ∃ p, Patch.ofJson s.config.snapshot = .ok p ∧
      (s.apply p).config = { s.config with
        allowedNetworks := s.config.allowedNetworks.map canonicalNetwork } ∧
      (s.apply p).networks = s.networks ∧
      (∀ a, (s.apply p).isAllowed a = s.isAllowed a) ∧
      (s.apply p).config.validate = .ok (s.apply p) ∧
      (s.apply p).config.snapshot = s.config.snapshot := by
  have hparse := (validate_eq_ok_iff.1 hs).2.2
  have hdenotes := Store.denotes_snapshot hs hn
  refine ⟨s.asPatch, Patch.ofJson_eq_ok_iff.2 hdenotes, ?_, rfl, fun a => rfl,
    Store.validate_apply hs hdenotes.usable, ?_⟩
  · rw [map_canonicalNetwork hparse]
    rfl
  · rw [Store.apply_asPatch]
    exact Store.snapshot_canonical hs

/-- Networks that are not written in canonical text: one with superfluous zeros, and an address that
stands for a block of one. -/
theorem snapshot_patches_back_uncompressed :
    let texts := [ascii "2001:0db8:0::/32", ascii " 192.168.1.130"]
    let base : Net.Address :=
      .v6 [0x20, 0x01, 0x0d, 0xb8, 0, 0, 0, 0, 0, 0, 0, 0, 0, 0, 0, 0] rfl
    let blocks : List Net.Block := [⟨base, 32⟩, ⟨.v4 192 168 1 130, 32⟩]
    let s : Store := ⟨listing texts, blocks⟩
    s.config.validate = .ok s ∧ s.config.queueMaxsize < 2 ^ 32 ∧
      texts.map canonicalNetwork = [ascii "2001:db8::/32", ascii "192.168.1.130/32"] ∧
      ∃ p, Patch.ofJson s.config.snapshot = .ok p ∧
        (s.apply p).config.allowedNetworks = [ascii "2001:db8::/32", ascii "192.168.1.130/32"] ∧
        (s.apply p).networks = blocks ∧ (s.apply p).config.snapshot = s.config.snapshot := by
  intro texts base blocks s
  have hvalid : s.config.validate = .ok s := validate_eq_ok_iff.2
    ⟨⟨by decide, by decide, by decide +kernel, by decide +kernel, by decide⟩, rfl,
      by decide +kernel⟩
  have hn : s.config.queueMaxsize < 2 ^ 32 := by decide
  have htexts : texts.map canonicalNetwork =
      [ascii "2001:db8::/32", ascii "192.168.1.130/32"] := by decide +kernel
  obtain ⟨p, hp, hconfig, hnetworks, -, -, hsnapshot⟩ := snapshot_patches_back hvalid hn
  refine ⟨hvalid, hn, htexts, p, hp, ?_, hnetworks, hsnapshot⟩
  rw [hconfig]
  exact htexts

end Config

end RoverControl
