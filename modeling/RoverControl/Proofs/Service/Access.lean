import RoverControl.Service.Dispatch
import RoverControl.Proofs.Net.AddressText

/-!
# Access

A request is denied if the address it is judged by lies in none of the allowed networks
(`exists_denial`), and a request that is denied does nothing but count (`handle_of_denial`).
-/

namespace RoverControl

namespace Headers

theorem sameName_self (name : Bytes) : sameName name name = true := beq_self_eq_true _

/-- A value that is assigned is found, whatever there was before. -/
theorem find?_assign (name value : Bytes) (headers : Headers) :
    (headers.assign name value).find? name = some value := by
  induction headers with
  | nil => simp [assign, find?, sameName_self]
  | cons field rest ih =>
    obtain ⟨n, v⟩ := field
    unfold assign
    split
    · simp [find?, sameName_self]
    · split
      · rename_i heq
        simp [find?, sameName, heq]
      · rename_i hne
        have hn : sameName n name = false := by
          rw [sameName, beq_eq_false_iff_ne]
          exact fun heq => hne heq.symm
        rw [find?] at ih ⊢
        rw [List.find?_cons, hn]
        exact ih

/-- Values of other names stay as they are. -/
theorem find?_assign_of_ne {name m : Bytes} (h : sameName name m = false) (value : Bytes)
    (headers : Headers) : (headers.assign name value).find? m = headers.find? m := by
  induction headers with
  | nil => simp [assign, find?, h]
  | cons field rest ih =>
    obtain ⟨n, v⟩ := field
    unfold assign
    split
    · simp [find?, h]
    · split
      · rename_i heq
        have hn : sameName n m = false := by rwa [sameName, ← heq]
        simp [find?, hn]
      · simp only [find?, List.find?_cons] at ih ⊢
        split
        · rfl
        · exact ih

/-- A field of another name that is added is not found. -/
theorem find?_add_of_ne {name m : Bytes} (h : sameName name m = false) (value : Bytes)
    (headers : Headers) : (headers.add name value).find? m = headers.find? m := by
  induction headers with
  | nil => simp [add, find?, h]
  | cons field rest ih =>
    obtain ⟨n, v⟩ := field
    unfold add
    split
    · simp [find?, h]
    · split
      · rfl
      · simp only [find?, List.find?_cons] at ih ⊢
        split
        · rfl
        · exact ih

end Headers

/-- The first address of a chain that has no comma is the whole of it. -/
theorem clientAddress_assign {chain : Bytes} (hne : chain ≠ []) (hcomma : Ascii.comma ∉ chain)
    (headers : Headers) : clientAddress (headers.assign forwardedForHeader chain) = chain := by
  unfold clientAddress
  rw [Headers.find?_assign]
  split
  · rename_i h
    cases h
  · rename_i h
    exact absurd (Option.some.inj h) hne
  · rename_i h
    cases h
    exact Bytes.before_of_notMem hcomma

namespace Config

theorem Store.status_of_denial {store : Store} {headers : Headers} {e : Rejection}
    (h : store.denial headers = some e) :
    e.response.status = 401 ∨ e.response.status = 400 ∨ e.response.status = 403 := by
  unfold denial at h
  split at h
  · cases h
    exact Or.inl rfl
  · split at h
    · cases h
      exact Or.inr (Or.inl rfl)
    · split at h
      · cases h
      · cases h
        exact Or.inr (Or.inr rfl)

/-- A request is denied if the address it is judged by is in none of the allowed networks. -/
theorem Store.exists_denial {store : Store} {headers : Headers}
    (h : ∀ a, Net.Address.parse (clientAddress headers) = some a → store.isAllowed a = false) :
    ∃ e, store.denial headers = some e := by
  unfold denial
  split
  · exact ⟨_, rfl⟩
  · rcases ha : Net.Address.parse (clientAddress headers) with _ | a
    · exact ⟨_, rfl⟩
    · simp only [h a ha]
      exact ⟨_, rfl⟩

end Config

theorem Metrics.record_of_denial {status : Int} (h : status = 401 ∨ status = 400 ∨ status = 403)
    (m : Metrics) : ∃ requests malformedAddress unauthenticated forbidden,
      m.record status = { m with requests, malformedAddress, unauthenticated, forbidden } := by
  rcases h with rfl | rfl | rfl <;> exact ⟨_, _, _, _, rfl⟩

namespace Service

theorem handle_of_denial {s : Service} {headers : Headers} {e : Rejection}
    (h : s.store.denial headers = some e) (method path : Bytes) (body : Json) :
    s.handle method path body headers =
      (e.response, { s with metrics := s.metrics.record e.response.status }) := by
  have ho : s.outcome method path body headers = (.error e, s) := by
    unfold outcome
    rw [h]
  unfold handle
  rw [ho]
  rfl

end Service

end RoverControl
