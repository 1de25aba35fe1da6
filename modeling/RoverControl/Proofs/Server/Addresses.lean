import RoverControl.Proofs.Config.Snapshot
import RoverControl.Proofs.Server.Visit

/-!
# Addresses that are shown

The report of a visit shows the text of the peer's address (`peer_serve`) and the configuration
shows the canonical texts of its networks.  Both are read as the address and the blocks that they
were written for (`addresses_read_as_written`).
-/

namespace RoverControl

namespace Server

theorem peer_converse (s : Server) (v : Visit) (peer : Bytes) :
    (s.converse v peer).1.peer = peer := by
  unfold converse
  dsimp only
  split <;> rfl

theorem peer_serve (s : Server) {v : Visit} {peer : Option Net.Address} (hpoll : v.poll = .ready)
    (hpeer : v.peer = .ok peer) : (s.serve v).1.peer = peerText peer := by
  rw [serve_of_peer s hpoll hpeer]
  exact peer_converse s.connected v (peerText peer)

/-- The text of a peer is read as its address, and as none if it is of an unknown family. -/
theorem parse_peerText (peer : Option Net.Address) : Net.Address.parse (peerText peer) = peer := by
  cases peer with
  | none => decide
  | some a => exact a.parse_text

/-- A canonical block is read from its own text, and the address of a peer from the text in the
report of its visit.  Whatever is read as a block is canonical, and its canonical text is that of
the block, from which the same block is read: written once more, it is the same text. -/
theorem addresses_read_as_written :
    (∀ block : Net.Block, block.IsCanonical → Net.Block.parse block.text = some block) ∧
    (∀ (s : Server) (v : Visit) (peer : Option Net.Address), v.poll = .ready → v.peer = .ok peer →
      Net.Address.parse (s.serve v).1.peer = peer) ∧
    ∀ (t : Bytes) (block : Net.Block), Net.Block.parse t = some block →
      block.IsCanonical ∧ Config.canonicalNetwork t = block.text ∧
        Net.Block.parse block.text = some block ∧
        Config.canonicalNetwork block.text = block.text := by
  refine ⟨fun block h => Net.Block.parse_text h, fun s v peer hpoll hpeer => ?_,
    fun t block h => ?_⟩
  · rw [peer_serve s hpoll hpeer, parse_peerText]
  · have hcanonical := Net.Block.isCanonical_of_parse h
    have hparse := Net.Block.parse_text hcanonical
    exact ⟨hcanonical, Config.canonicalNetwork_of_parse h, hparse,
      Config.canonicalNetwork_of_parse hparse⟩

/-- A spelling that is not the shortest, with an IPv4 address at its end, and a visit from an
address with two runs of zeros of the same length. -/
theorem addresses_read_as_written_mixed :
    let mapped : Net.Block :=
      ⟨.v6 [0, 0, 0, 0, 0, 0, 0, 0, 0, 0, 0xff, 0xff, 10, 1, 0, 0] rfl, 112⟩
    let tie : Net.Address := .v6 [0x20, 0x01, 0, 0, 0, 0, 0, 1, 0, 0, 0, 0, 0, 0x0a, 0, 1] rfl
    let v : Visit := { poll := .ready, peer := .ok (some tie), arrivals := [], takes := [] }
    Net.Block.parse (ascii "0:0:0::00:FFFF:10.1.0.0/112") = some mapped ∧ mapped.IsCanonical ∧
      Net.Block.parse mapped.text = some mapped ∧
      Config.canonicalNetwork mapped.text = ascii "::ffff:10.1.0.0/112" ∧
      Net.Address.parse (standard.serve v).1.peer = some tie ∧
      (standard.serve v).1.peer = ascii "2001::1:0:0:a:1" := by
  intro mapped tie v
  have hread : Net.Block.parse (ascii "0:0:0::00:FFFF:10.1.0.0/112") = some mapped := by
    decide +kernel
  obtain ⟨hcanonical, -, -, hagain⟩ := addresses_read_as_written.2.2 _ _ hread
  have htext : mapped.text = ascii "::ffff:10.1.0.0/112" := by decide +kernel
  have hpeer := addresses_read_as_written.2.1 standard v (some tie) rfl rfl
  exact ⟨hread, hcanonical, addresses_read_as_written.1 _ hcanonical, hagain.trans htext, hpeer,
    by decide +kernel⟩

end Server

end RoverControl
