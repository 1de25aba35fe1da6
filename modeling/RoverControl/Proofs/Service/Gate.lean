import RoverControl.Proofs.Http.Headers
import RoverControl.Proofs.Service.Refusal

/-!
# The gate of the service

A request is let in if it shows a key of the service and comes from an allowed network
(`Config.Store.Admits`); otherwise there is one reason to refuse it, the first that applies
(`Config.Store.Refuses`).  Neither depends on what is asked for, so those who are refused cannot
tell by the answers which routes there are (`Service.gate_exact_and_blind`).
-/

namespace RoverControl

/-! ## Keys and addresses -/

/-- The address that is named as that of the client, where a request was forwarded for a chain of
addresses or for none: the first one of the chain, or the loopback address if there is none. -/
def namedClient : (chain? : Option Bytes) → Option Net.Address
  | none | some [] => some (.v4 127 0 0 1)
  | some chain => Net.Address.parse (chain.before Ascii.comma)

theorem namedClient_of_ne_nil {chain : Bytes} (h : chain ≠ []) :
    namedClient (some chain) = Net.Address.parse (chain.before Ascii.comma) := by
  cases chain with
  | nil => exact absurd rfl h
  | cons => rfl

theorem parse_loopbackAddress :
    Net.Address.parse loopbackAddress = some (.v4 127 0 0 1) := by decide

theorem parse_clientAddress (headers : Headers) :
    Net.Address.parse (clientAddress headers) = namedClient (headers.find? forwardedForHeader) := by
  unfold clientAddress
  rcases headers.find? forwardedForHeader with _ | _ | ⟨c, rest⟩
  · exact parse_loopbackAddress
  · exact parse_loopbackAddress
  · rfl

namespace Config.Store

variable {store : Store} {key : Option Bytes} {client : Option Net.Address}

/-- A request that shows a key and comes from an address is let in. -/
structure Admits (store : Store) (key : Option Bytes) (client : Option Net.Address) : Prop where
  key_mem : ∃ k ∈ store.config.apiKeys, key = some k
  client_mem : ∃ block ∈ store.networks, ∃ a, client = some a ∧ block.contains a = true

/-- The reason to refuse a request that shows a key and comes from an address: the key, then what
is given as the address, then the network. -/
inductive Refuses (store : Store) (key : Option Bytes) (client : Option Net.Address) :
    Rejection.Kind → Prop
  | key (hkey : ∀ k ∈ store.config.apiKeys, key ≠ some k) :
      Refuses store key client .authentication
  | address (hkey : ∃ k ∈ store.config.apiKeys, key = some k) (hclient : client = none) :
      Refuses store key client .malformedClientAddress
  | network {a : Net.Address} (hkey : ∃ k ∈ store.config.apiKeys, key = some k)
      (hclient : client = some a) (hnetwork : ∀ block ∈ store.networks, block.contains a = false) :
      Refuses store key client .authorization

theorem any_hasKey_iff :
    key.any store.hasKey = true ↔ ∃ k ∈ store.config.apiKeys, key = some k := by
  cases key <;> simp [hasKey]

theorem isAllowed_iff {a : Net.Address} :
    store.isAllowed a = true ↔ ∃ block ∈ store.networks, block.contains a = true := List.any_eq_true

/-- A request that is refused for a reason is not let in. -/
theorem Refuses.not_admits {kind : Rejection.Kind} (h : store.Refuses key client kind) :
    ¬ store.Admits key client := by
  rintro ⟨⟨k, hk, rfl⟩, block, hblock, a, rfl, ha⟩
  cases h with
  | key hkey => exact hkey k hk rfl
  | address _ hclient => cases hclient
  | network _ hclient hnetwork =>
    cases hclient
    exact absurd ha (by simp [hnetwork block hblock])

/-- A request is let in, or there is a reason to refuse it, by the key it shows and the address it
is judged by. -/
theorem denial_cases (store : Store) {headers : Headers}
    (hkey : headers.find? apiKeyHeader = key)
    (hclient : namedClient (headers.find? forwardedForHeader) = client) :
    (store.Admits key client ∧ store.denial headers = none) ∨
      ∃ e, store.Refuses key client e.kind ∧ store.denial headers = some e := by
  unfold denial
  rw [parse_clientAddress, hkey, hclient]
  by_cases hk : key.any store.hasKey = true
  · have hshown := any_hasKey_iff.1 hk
    rw [hk]
    cases client with
    | none => exact Or.inr ⟨_, .address hshown rfl, rfl⟩
    | some a =>
      by_cases ha : store.isAllowed a = true
      · obtain ⟨block, hblock, hcontains⟩ := isAllowed_iff.1 ha
        refine Or.inl ⟨⟨hshown, block, hblock, a, rfl, hcontains⟩, ?_⟩
        simp [ha]
      · refine Or.inr ⟨⟨.authorization, ascii "Client network not permitted"⟩, ?_, ?_⟩
        · refine .network hshown rfl fun block hblock => ?_
          exact Bool.eq_false_iff.2 fun hcontains => ha (isAllowed_iff.2 ⟨block, hblock, hcontains⟩)
        · simp [ha]
  · refine Or.inr ⟨⟨.authentication, ascii "Invalid API key"⟩, ?_, ?_⟩
    · exact .key fun k hmem heq => hk (any_hasKey_iff.2 ⟨k, hmem, heq⟩)
    · simp [hk]

end Config.Store

namespace Service

/-! ## What is done with requests that are let in -/

/-- Runs the handler of the route that is asked for, if there is one. -/
def dispatch (s : Service) (method path : Bytes) (body : Json) : Outcome × Service :=
  match Route.find? method path with
  | none => (.error ⟨.routeNotFound, ascii "Not Found"⟩, s)
  | some route => s.runRoute (handlerBody body) route

theorem handle_of_admitted {s : Service} {headers : Headers} (h : s.store.denial headers = none)
    (method path : Bytes) (body : Json) :
    s.handle method path body headers = tell (s.dispatch method path body) := by
  rw [handle_eq_tell, outcome, h]
  rfl

/-- No handler answers with the status of a denial. -/
theorem Handled.status_not_denied {s : Service} {o : Outcome × Service} (h : Handled s o) :
    ¬ (o.1.response.status = 401 ∨ o.1.response.status = 400 ∨ o.1.response.status = 403) := by
  cases h with
  | done h =>
    simp only [Outcome.response]
    omega
  | fault detail =>
    simp only [Outcome.response, Rejection.response, Rejection.hardwareFault]
    decide
  | refused h =>
    simp only [Outcome.response, Rejection.response]
    rcases h with h | h | h <;> rw [h] <;> decide

theorem dispatch_status_not_denied (s : Service) (method path : Bytes) (body : Json) :
    ¬ ((s.dispatch method path body).1.response.status = 401 ∨
      (s.dispatch method path body).1.response.status = 400 ∨
      (s.dispatch method path body).1.response.status = 403) := by
  unfold dispatch
  split
  · simp only [Outcome.response, Rejection.response]
    decide
  · exact (s.handled_runRoute _ _).status_not_denied

/-- The service does with a request what is done with those that are let in exactly if it shows a
key of the service and comes from an allowed network; the first field of a name is the one that
counts.  Any other request is refused for the first reason that applies, by an answer that depends
on the fields of the request alone, and nothing is done but to count it. -/
theorem gate_exact_and_blind (s : Service) (fields : List (Bytes × Bytes)) :
    let key := Headers.firstValue fields apiKeyHeader
    let client := namedClient (Headers.firstValue fields forwardedForHeader)
    (∀ method path body, s.handle method path body (.ofList fields) =
      tell (s.dispatch method path body) ↔ s.store.Admits key client) ∧
    (¬ s.store.Admits key client → ∃ kind response,
      s.store.Refuses key client kind ∧ response.status = kind.status ∧
        ∀ method path body, s.handle method path body (.ofList fields) =
          (response, { s with metrics := s.metrics.refusing kind })) := by
  intro key client
  have hkey := Headers.find?_ofList fields apiKeyHeader
  have hclient := congrArg namedClient (Headers.find?_ofList fields forwardedForHeader)
  rcases s.store.denial_cases hkey hclient with ⟨hadmits, hdenial⟩ | ⟨e, hrefuses, hdenial⟩
  · exact ⟨fun method path body => ⟨fun _ => hadmits, fun _ => handle_of_admitted hdenial _ _ _⟩,
      absurd hadmits⟩
  · have hhandle := handle_of_denial hdenial
    refine ⟨fun method path body => ⟨fun h => ?_, fun h => absurd h hrefuses.not_admits⟩,
      fun _ => ⟨e.kind, e.response, hrefuses, rfl, fun method path body => ?_⟩⟩
    · rw [hhandle] at h
      have hstatus : e.response.status = (s.dispatch method path body).1.response.status :=
        congrArg (fun answer => answer.1.status) h
      have hdenied := Config.Store.status_of_denial hdenial
      rw [hstatus] at hdenied
      exact absurd hdenied (s.dispatch_status_not_denied method path body)
    · rw [hhandle, ← Metrics.record_status]
      rfl

end Service

end RoverControl
