import RoverControl.Proofs.Server.Visit
import RoverControl.Proofs.Service.Access

/-!
# Visitors from networks that are not allowed

Whatever such a visitor sends, the service is shown the address they connect from
(`forwardedHeaders_untrusted`), and since an address is read as it was written, it judges the
request by that address and denies it.  So the visit comes to nothing but counts
(`untrusted_visit_does_nothing`).
-/

namespace RoverControl

namespace Server

/-- A peer has no address in one of the allowed networks. -/
def Untrusted (store : Config.Store) (peer : Option Net.Address) : Prop :=
  ∀ a, peer = some a → store.isAllowed a = false

/-- The text that the service is shown for the address of a peer. -/
def shownText (peer : Option Net.Address) : Bytes :=
  match peer with
  | none => ascii "unknown"
  | some a => a.text

theorem shownText_ne_nil (peer : Option Net.Address) : shownText peer ≠ [] := by
  cases peer with
  | none => decide
  | some a => exact a.text_ne_nil

theorem comma_notMem_shownText (peer : Option Net.Address) : Ascii.comma ∉ shownText peer := by
  cases peer with
  | none => decide
  | some a => exact Net.Address.notMem_text (by decide) a

theorem parse_shownText (peer : Option Net.Address) :
    Net.Address.parse (shownText peer) = peer := by
  cases peer with
  | none => decide
  | some a => exact a.parse_text

/-- For a peer that is not trusted, whatever address was forwarded is replaced. -/
theorem forwardedHeaders_untrusted {store : Config.Store} {peer : Option Net.Address}
    (h : Untrusted store peer) (headers : Headers) :
    forwardedHeaders store (peerText peer) headers =
      headers.assign forwardedForHeader (shownText peer) := by
  unfold forwardedHeaders
  cases peer with
  | none => rfl
  | some a =>
    have hparse : Net.Address.parse (peerText (some a)) = some a := parse_shownText (some a)
    have hne : peerText (some a) ≠ [] := a.text_ne_nil
    rw [hparse, Option.any_some, h a rfl, if_neg (by decide), if_neg hne]
    rfl

theorem exists_denial_of_untrusted {store : Config.Store} {peer : Option Net.Address}
    (h : Untrusted store peer) (headers : Headers) :
    ∃ e, store.denial (forwardedHeaders store (peerText peer) headers) = some e := by
  refine Config.Store.exists_denial fun a ha => ?_
  rw [forwardedHeaders_untrusted h,
    clientAddress_assign (shownText_ne_nil peer) (comma_notMem_shownText peer),
    parse_shownText] at ha
  exact h a ha

theorem ioTimeout_converse (s : Server) (v : Visit) (peer : Bytes) :
    (s.converse v peer).2.ioTimeout = s.ioTimeout := by
  unfold converse
  dsimp only
  split
  · rfl
  · dsimp only
    split <;> rfl

theorem ioTimeout_serve (s : Server) (v : Visit) : (s.serve v).2.ioTimeout = s.ioTimeout := by
  unfold serve
  repeat' split
  all_goals first | rfl | exact ioTimeout_converse s.connected v _

theorem eq_with_service {s s' : Server} {service : Service} (hs : s'.service = service)
    (ht : s'.ioTimeout = s.ioTimeout) : s' = { s with service, counts := s'.counts } := by
  cases s'
  cases hs
  cases ht
  rfl

theorem denied_of_untrusted {s : Server} {v : Visit} {m : Message}
    (huntrusted : ∀ a, v.peer = .ok (some a) → s.service.store.isAllowed a = false)
    (hm : s.handedOf v = some m) :
    ∃ e, s.service.store.denial m.headers = some e := by
  obtain ⟨peer, m', hpeer, -, rfl⟩ := eq_forwarded_of_handedOf hm
  exact exists_denial_of_untrusted (fun a ha => huntrusted a (by rw [hpeer, ha])) m'.headers

/-- The answers that a visitor from no allowed network can be given. -/
def untrustedCodes : List Int := 401 :: 403 :: unservedCodes

theorem not_served_of_mem : ∀ code ∈ untrustedCodes,
    ¬ (200 ≤ code ∧ code < 300) ∧ code ∉ [404, 422, 429, 500, 503] := by decide

theorem mem_untrustedCodes_of_denial {store : Config.Store} {headers : Headers} {e : Rejection}
    (h : store.denial headers = some e) : e.response.status ∈ untrustedCodes := by
  rcases Config.Store.status_of_denial h with hs | hs | hs <;> rw [hs] <;> decide

/-- What a visitor from no allowed network sends is no request, or it is denied. -/
theorem serve_untrusted {s : Server} {v : Visit}
    (huntrusted : ∀ a, v.peer = .ok (some a) → s.service.store.isAllowed a = false) :
    (s.serve v).1.code ∈ untrustedCodes ∧
      ∃ requests malformedAddress unauthenticated forbidden,
        (s.serve v).2.service = { s.service with
          metrics := { s.service.metrics with
            requests, malformedAddress, unauthenticated, forbidden } } := by
  rcases s.serve_cases v with ⟨m, hm, hserved⟩ | ⟨-, hunserved⟩
  · obtain ⟨e, he⟩ := denied_of_untrusted huntrusted hm
    have hhandle : s.service.handleMessage m = (e.response, _) :=
      Service.handle_of_denial he m.method m.path m.body
    obtain ⟨requests, malformedAddress, unauthenticated, forbidden, hrecord⟩ :=
      Metrics.record_of_denial (Config.Store.status_of_denial he) s.service.metrics
    rw [hserved.code_eq, hserved.service_eq, hhandle]
    refine ⟨mem_untrustedCodes_of_denial he,
      requests, malformedAddress, unauthenticated, forbidden, ?_⟩
    rw [hrecord]
  · refine ⟨?_, _, _, _, _, hunserved.service_eq⟩
    exact List.mem_cons_of_mem _ (List.mem_cons_of_mem _ hunserved.code_mem)

/-- A visitor from no allowed network is given no answer, or one that says that what they sent is
no request or is denied, and nothing changes but the counts of the server and those of requests and
of denials. -/
theorem untrusted_visit_does_nothing (s : Server) (v : Visit)
    (huntrusted : ∀ a, v.peer = .ok (some a) → s.service.store.isAllowed a = false) :
    (¬ (200 ≤ (s.serve v).1.code ∧ (s.serve v).1.code < 300) ∧
        (s.serve v).1.code ∉ [404, 422, 429, 500, 503]) ∧
      ∃ counts requests malformedAddress unauthenticated forbidden,
        (s.serve v).2 = { s with
          counts
          service := { s.service with
            metrics := { s.service.metrics with
              requests, malformedAddress, unauthenticated, forbidden } } } := by
  obtain ⟨hcode, requests, malformedAddress, unauthenticated, forbidden, hservice⟩ :=
    serve_untrusted huntrusted
  refine ⟨not_served_of_mem _ hcode, (s.serve v).2.counts,
    requests, malformedAddress, unauthenticated, forbidden, ?_⟩
  exact eq_with_service hservice (s.ioTimeout_serve v)

/-- A visitor who holds the key and claims to be forwarding for an allowed address. -/
def impostor : Visit where
  poll := .ready
  peer := .ok (some (.v4 10 0 0 1))
  arrivals := [.ok (ascii "POST /drive/differential HTTP/1.1\r\nX-Api-Key: local\r\n"),
    .ok (ascii "x-forwarded-for: 127.0.0.1\r\n\r\n")]
  takes := []

theorem untrusted_visit_of_impostor :
    (∀ a, impostor.peer = .ok (some a) → standard.service.store.isAllowed a = false) ∧
      (standard.serve impostor).1.code = 403 ∧
      (standard.serve impostor).1.code ∉ [404, 422, 429, 500, 503] := by
  have huntrusted : ∀ a, impostor.peer = .ok (some a) →
      standard.service.store.isAllowed a = false := by
    rintro a ⟨⟩
    decide
  have hcode : (standard.serve impostor).1.code = 403 := by decide +kernel
  exact ⟨huntrusted, hcode, (untrusted_visit_does_nothing standard impostor huntrusted).1.2⟩

end Server

end RoverControl
