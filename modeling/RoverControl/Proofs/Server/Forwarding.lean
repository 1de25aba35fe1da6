import RoverControl.Proofs.Http.Grammar
import RoverControl.Proofs.Server.Reading
import RoverControl.Proofs.Server.Untrusted
import RoverControl.Proofs.Service.Gate

/-!
# The address that a visitor is judged by

A visitor is judged by the address they connect from unless that lies in an allowed network and
they name another one (`Server.judged_by_peer_or_forwarded`).  An allowed visitor who names none in
a field without a value is judged by the loopback address instead, which is neither
(`Server.judged_by_neither`).
-/

namespace RoverControl

/-- What a message tells was written as a request in the bytes that arrived. -/
theorem Visit.exists_request_of_message? {v : Visit} {m : Message} (h : v.message? = some m) :
    ∃ raw method target fields body, raw <+: v.arrived ∧
      Http.IsRequest raw method target fields body ∧
      m.headers = .ofList fields := by
  unfold message? at h
  split at h
  · rename_i r hr
    split at h
    · cases h
      obtain ⟨raw, hraw, hparse⟩ := exists_prefix_of_read hr
      obtain ⟨method, target, fields, body, hrequest, htells⟩ :=
        Http.Request.parse_eq_ok_iff_tells.1 hparse
      refine ⟨raw, method, target, fields, body, v.received_receipts ▸ hraw, hrequest, ?_⟩
      refine htells.sorted.ext (Headers.sorted_ofList fields) fun name => ?_
      rw [htells.first?, Headers.first?_ofList]
    · cases h
  · cases h

namespace Server

open Headers (firstValue)

/-! ## Whom the service is shown -/

/-- A peer has an address in one of the allowed networks. -/
def Trusted (store : Config.Store) (peer : Option Net.Address) : Prop :=
  ∃ a, peer = some a ∧ store.isAllowed a = true

/-- The address that a request is judged by which came from a peer with these fields: that of the
peer, unless the peer is trusted and there is a field for the addresses that the request was
forwarded for. -/
inductive JudgedBy (store : Config.Store) (peer : Option Net.Address)
    (fields : List (Bytes × Bytes)) : Option Net.Address → Prop
  | untrusted (h : Untrusted store peer) : JudgedBy store peer fields peer
  | direct (h : Trusted store peer) (hfields : firstValue fields forwardedForHeader = none) :
      JudgedBy store peer fields peer
  | forwarded {chain : Bytes} (h : Trusted store peer)
      (hfields : firstValue fields forwardedForHeader = some chain) (hne : chain ≠ []) :
      JudgedBy store peer fields (Net.Address.parse (chain.before Ascii.comma))
  | unnamed (h : Trusted store peer) (hfields : firstValue fields forwardedForHeader = some []) :
      JudgedBy store peer fields (some (.v4 127 0 0 1))

variable {store : Config.Store} {peer : Option Net.Address}

theorem untrusted_or_trusted (store : Config.Store) (peer : Option Net.Address) :
    Untrusted store peer ∨ Trusted store peer := by
  cases peer with
  | none => exact Or.inl fun a ha => nomatch ha
  | some a =>
    rcases h : store.isAllowed a with _ | _
    · exact Or.inl fun a' ha => Option.some.inj ha ▸ h
    · exact Or.inr ⟨a, rfl, h⟩

/-- For a trusted peer, an address that was forwarded is kept, and that of the peer is added if none
was. -/
theorem forwardedHeaders_trusted (h : Trusted store peer) (headers : Headers) :
    forwardedHeaders store (peerText peer) headers =
      headers.add forwardedForHeader (shownText peer) := by
  obtain ⟨a, rfl, ha⟩ := h
  have hparse : Net.Address.parse (peerText (some a)) = some a := parse_shownText (some a)
  unfold forwardedHeaders
  rw [hparse, Option.any_some, ha, if_pos rfl]
  rfl

theorem namedClient_shownText (peer : Option Net.Address) :
    namedClient (some (shownText peer)) = peer := by
  rw [namedClient_of_ne_nil (shownText_ne_nil peer),
    Bytes.before_of_notMem (comma_notMem_shownText peer), parse_shownText]

theorem judgedBy_forwarded (store : Config.Store) (peer : Option Net.Address)
    (fields : List (Bytes × Bytes)) :
    JudgedBy store peer fields (namedClient
      ((forwardedHeaders store (peerText peer) (.ofList fields)).find? forwardedForHeader)) := by
  rcases untrusted_or_trusted store peer with h | h
  · rw [forwardedHeaders_untrusted h, Headers.find?_assign, namedClient_shownText]
    exact .untrusted h
  · rw [forwardedHeaders_trusted h, (Headers.sorted_ofList fields).find?_add,
      Headers.find?_ofList, if_pos (Headers.sameName_self forwardedForHeader)]
    rcases hfields : firstValue fields forwardedForHeader with _ | _ | ⟨c, rest⟩
    · rw [Option.none_or, namedClient_shownText]
      exact .direct h hfields
    · exact .unnamed h hfields
    · exact .forwarded h hfields (List.cons_ne_nil c rest)

/-- The key of a request is shown to the service as it was sent. -/
theorem find?_apiKey_forwarded (store : Config.Store) (peer : Option Net.Address)
    (fields : List (Bytes × Bytes)) :
    (forwardedHeaders store (peerText peer) (.ofList fields)).find? apiKeyHeader =
      firstValue fields apiKeyHeader := by
  have hne : Headers.sameName forwardedForHeader apiKeyHeader = false := by decide
  rcases untrusted_or_trusted store peer with h | h
  · rw [forwardedHeaders_untrusted h, Headers.find?_assign_of_ne hne,
      Headers.find?_ofList]
  · rw [forwardedHeaders_trusted h, (Headers.sorted_ofList fields).find?_add,
      Headers.find?_ofList, hne, if_neg (by decide), Option.or_none]

/-- A request is judged by the loopback address only if it came from there, or a trusted peer named
that address or none. -/
theorem JudgedBy.loopback {fields : List (Bytes × Bytes)} {client : Option Net.Address}
    (h : JudgedBy store peer fields client) (hclient : client = some (.v4 127 0 0 1)) :
    peer = some (.v4 127 0 0 1) ∨
      Trusted store peer ∧ ∃ chain, firstValue fields forwardedForHeader = some chain ∧
        (chain = [] ∨ Net.Address.parse (chain.before Ascii.comma) = some (.v4 127 0 0 1)) := by
  cases h with
  | untrusted => exact Or.inl hclient
  | direct => exact Or.inl hclient
  | forwarded h hfields => exact Or.inr ⟨h, _, hfields, Or.inr hclient⟩
  | unnamed h hfields => exact Or.inr ⟨h, _, hfields, Or.inl rfl⟩

/-- A request that is handed to the service is let in or refused by the key it was sent with and by
the address of the peer, unless the peer is in an allowed network and the first field for the
addresses that the request was forwarded for was sent: then the first of these addresses counts,
and the loopback address if the field has no value. -/
theorem judged_by_peer_or_forwarded {s : Server} {v : Visit} {m : Message}
    (hm : s.handedOf v = some m) :
    ∃ peer raw method target fields body client,
      v.peer = .ok peer ∧ raw <+: v.arrived ∧ Http.IsRequest raw method target fields body ∧
      v.message? = some { m with headers := .ofList fields } ∧
      JudgedBy s.service.store peer fields client ∧
      (client = some (.v4 127 0 0 1) → peer = some (.v4 127 0 0 1) ∨
        Trusted s.service.store peer ∧ ∃ chain, firstValue fields forwardedForHeader = some chain ∧
          (chain = [] ∨ Net.Address.parse (chain.before Ascii.comma) = some (.v4 127 0 0 1))) ∧
      ((s.service.store.Admits (firstValue fields apiKeyHeader) client ∧
          s.service.store.denial m.headers = none) ∨
        ∃ e, s.service.store.Refuses (firstValue fields apiKeyHeader) client e.kind ∧
          s.service.store.denial m.headers = some e) := by
  obtain ⟨peer, sent, hpeer, hsent, rfl⟩ := eq_forwarded_of_handedOf hm
  obtain ⟨raw, method, target, fields, body, hraw, hrequest, hheaders⟩ :=
    Visit.exists_request_of_message? hsent
  have hmessage : v.message? =
      some { forwarded s.service.store peer sent with headers := .ofList fields } := by
    rw [hsent, ← hheaders]
    rfl
  have hjudged := judgedBy_forwarded s.service.store peer fields
  have hkey := find?_apiKey_forwarded s.service.store peer fields
  rw [← hheaders] at hjudged hkey
  exact ⟨peer, raw, method, target, fields, body, _, hpeer, hraw, hrequest, hmessage, hjudged,
    hjudged.loopback, s.service.store.denial_cases hkey rfl⟩

/-- The impostor is judged by the address they connect from. -/
theorem judged_by_peer_or_forwarded_impostor :
    ∃ m, standard.handedOf impostor = some m ∧
      standard.service.store.isAllowed (.v4 10 0 0 1) = false ∧
      ∃ key e, standard.service.store.Refuses key (some (.v4 10 0 0 1)) e.kind ∧
        standard.service.store.denial m.headers = some e := by
  have hallowed : standard.service.store.isAllowed (.v4 10 0 0 1) = false := by decide
  obtain ⟨m, hm⟩ : ∃ m, standard.handedOf impostor = some m :=
    Option.isSome_iff_exists.1 (by decide +kernel)
  refine ⟨m, hm, hallowed, ?_⟩
  obtain ⟨peer, _, _, _, fields, _, client, hpeer, -, -, -, hjudged, -, hdenial⟩ :=
    judged_by_peer_or_forwarded hm
  cases hpeer
  have huntrusted : ¬ Trusted standard.service.store (some (.v4 10 0 0 1)) := by
    rintro ⟨a, ⟨⟩, ha⟩
    exact absurd (ha.symm.trans hallowed) (by decide)
  have hclient : client = some (.v4 10 0 0 1) := by
    cases hjudged with
    | untrusted => rfl
    | direct => rfl
    | forwarded h => exact absurd h huntrusted
    | unnamed h => exact absurd h huntrusted
  subst hclient
  rcases hdenial with ⟨hadmits, -⟩ | ⟨e, he⟩
  · obtain ⟨block, hblock, a, ⟨⟩, ha⟩ := hadmits.client_mem
    have hin := Config.Store.isAllowed_iff.2 ⟨block, hblock, ha⟩
    exact absurd (hin.symm.trans hallowed) (by decide)
  · exact ⟨_, e, he⟩

/-! ## Fields without a value -/

/-- A server that is visited by way of one network. -/
def relayed : Server :=
  let store : Config.Store :=
    ⟨{ Config.standard with allowedNetworks := [ascii "10.0.0.0/8"] }, [⟨.v4 10 0 0 0, 8⟩]⟩
  new (Service.new store .standard (Rig.new (Timeline.start none))) standardIoTimeout

/-- A visitor from that network whose field for the addresses that a request was forwarded for has
no value. -/
def reticent : Visit where
  poll := .ready
  peer := .ok (some (.v4 10 0 0 1))
  arrivals := [.ok (ascii "GET /config HTTP/1.1\r\nX-Api-Key: local\r\nX-Forwarded-For:\r\n\r\n")]
  takes := []

/-- The visitor comes from an allowed network and names no address, but is judged by the loopback
address and refused. -/
theorem judged_by_neither :
    relayed.service.store.isAllowed (.v4 10 0 0 1) = true ∧
      (∃ sent, reticent.message? = some sent ∧ sent.headers.find? forwardedForHeader = some []) ∧
      (∃ m, relayed.handedOf reticent = some m ∧
        Net.Address.parse (clientAddress m.headers) = some (.v4 127 0 0 1)) ∧
      (relayed.serve reticent).1.code = 403 := by
  refine ⟨by decide, ?_, ?_, by decide +kernel⟩
  · have hsent : (reticent.message?.map fun sent => sent.headers.find? forwardedForHeader) =
        some (some []) := by decide +kernel
    obtain ⟨sent, hm, hvalue⟩ := Option.map_eq_some_iff.1 hsent
    exact ⟨sent, hm, hvalue⟩
  · have hhanded : ((relayed.handedOf reticent).map fun m =>
        Net.Address.parse (clientAddress m.headers)) = some (some (.v4 127 0 0 1)) := by
      decide +kernel
    obtain ⟨m, hm, hclient⟩ := Option.map_eq_some_iff.1 hhanded
    exact ⟨m, hm, hclient⟩

end Server

end RoverControl
