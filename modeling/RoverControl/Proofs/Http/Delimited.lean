import RoverControl.Proofs.Http.Response

/-!
# Responses that cannot be mistaken

No response is the beginning of another one (`eq_of_format_isPrefix`): the head of a response shows
its status and how long its body is.  So whoever has received all bytes of a response knows that
this is what was answered, however many bytes were to follow.
-/

namespace RoverControl

/-! ## Integers in decimal -/

theorem space_notMem_decimalInt (n : ℤ) : Ascii.space ∉ decimalInt n := by
  unfold decimalInt
  split
  · rw [List.mem_cons, not_or]
    exact ⟨by decide, notMem_decimal (by decide) _⟩
  · exact notMem_decimal (by decide) _

theorem decimalInt_injective {n m : ℤ} (h : decimalInt n = decimalInt m) : n = m := by
  -- a minus sign tells a negative number from all digits
  have hminus : ∀ (a b : ℕ), Ascii.minus :: decimal a ≠ decimal b := by
    intro a b heq
    have hmem : Ascii.minus ∈ decimal b := heq ▸ List.mem_cons_self
    exact notMem_decimal (by decide) b hmem
  unfold decimalInt at h
  split at h <;> split at h
  · have := decimal_injective (List.cons_inj_right _ |>.1 h)
    omega
  · exact absurd h (hminus _ _)
  · exact absurd h.symm (hminus _ _)
  · have := decimal_injective h
    omega

namespace Http

open Bytes

theorem statusLine_injective {status status' : ℤ} (h : statusLine status = statusLine status') :
    status = status' := by
  have hcut (n : ℤ) : (statusLine n).drop 9 =
      decimalInt n ++ Ascii.space :: ascii (reasonPhrase n) := by
    simp [statusLine, ascii]
  have hdrop := congrArg (fun line : Bytes => cut Ascii.space (line.drop 9)) h
  simp only [hcut, cut_of_notMem (space_notMem_decimalInt _), Option.some.injEq,
    Prod.mk.injEq] at hdrop
  exact decimalInt_injective hdrop.1

variable {r r' : Response}

/-- The head of a response shows its status and the length of its body. -/
theorem eq_of_headLines_eq (h : r.headLines = r'.headLines) :
    r.status = r'.status ∧ r.body.render.length = r'.body.render.length := by
  simp only [Response.headLines, Response.fields, List.map_cons, List.cons.injEq, fieldLine,
    List.append_cancel_left_eq] at h
  exact ⟨statusLine_injective h.1, decimal_injective h.2.2.1⟩

/-- A response that is the beginning of another one is that response. -/
theorem eq_of_format_isPrefix (h : r.format <+: r'.format) :
    r.status = r'.status ∧ r.body.render = r'.body.render := by
  obtain ⟨more, hmore⟩ := h
  have hsplit := splitHeadFrom_append (splitHead_format r) more
  rw [hmore] at hsplit
  have hparts := (splitHead_format r').symm.trans hsplit
  simp only [Option.some.injEq, Prod.mk.injEq] at hparts
  obtain ⟨hlines, hbody⟩ := hparts
  obtain ⟨hstatus, hlength⟩ := eq_of_headLines_eq hlines
  refine ⟨hstatus.symm, ?_⟩
  rw [hbody, List.length_append] at hlength
  rw [hbody, List.length_eq_zero_iff.1 (by omega : more.length = 0), List.append_nil]

end Http

end RoverControl
