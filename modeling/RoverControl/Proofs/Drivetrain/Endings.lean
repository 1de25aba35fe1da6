import RoverControl.Proofs.Drivetrain.Tickets

/-!
# The ends of commands

A command that was accepted is executed, fails or is drained.  `Tickets.endings` tells how the
tickets end on a path: none of them ends twice, those that do not end are still held, and the counts
of the queue are those of the ends (`Path.ends`).  A command that waits when the worker takes its
last command before the queue is emptied is never called for (`Path.unreached`).
-/

namespace RoverControl

namespace Drivetrain

/-- How a command ends. -/
inductive Ending where
  | executed
  | failed
  | drained
  deriving DecidableEq

/-- The commands that the worker took. -/
def taken (acts : List Action) : List Command :=
  acts.filterMap fun
    | .take c => some c
    | _ => none

theorem taken_append (acts acts' : List Action) :
    taken (acts ++ acts') = taken acts ++ taken acts' := List.filterMap_append

theorem taken_cons (a : Action) (acts : List Action) :
    taken (a :: acts) = taken [a] ++ taken acts := taken_append [a] acts

theorem operations_append (acts acts' : List Action) :
    operations (acts ++ acts') = operations acts ++ operations acts' := List.filter_append ..

namespace Tickets

/-- The tickets of the commands that are pending. -/
def held (t : Tickets) : List Nat := t.inHand.toList ++ t.waiting

/-- The tickets that an action ends, each with how. -/
def endedBy (t : Tickets) : Action → List (Nat × Ending)
  | .discard _ => t.waiting.map (·, .drained)
  | .finish _ ok => t.inHand.toList.map (·, if ok then .executed else .failed)
  | _ => []

/-- The tickets that a sequence of actions ends, each with how. -/
def endings (t : Tickets) : List Action → List (Nat × Ending)
  | [] => []
  | a :: acts => t.endedBy a ++ (t.after a).endings acts

variable {t : Tickets} {acts acts' : List Action} {n : Nat} {c : MotorCall}

theorem motorCalls_append :
    t.motorCalls (acts ++ acts') = t.motorCalls acts ++ (t.afterAll acts).motorCalls acts' := by
  induction acts generalizing t with
  | nil => rfl
  | cons a acts ih =>
    rw [List.cons_append, motorCalls, motorCalls, ih, List.append_assoc]
    rfl

theorem motorCalls_discard (t : Tickets) (ds : List Command) (acts : List Action) :
    t.motorCalls (.discard ds :: acts) = { t with waiting := [] }.motorCalls acts := by
  show (t.inHand.bind fun _ => none).toList ++ _ = _
  rw [Option.bind_fun_none]
  rfl

theorem issued_le_afterAll (t : Tickets) (acts : List Action) :
    t.issued ≤ (t.afterAll acts).issued := by
  induction acts generalizing t with
  | nil => exact Nat.le_refl _
  | cons a acts ih => exact Nat.le_trans (t.issued_le_after a) (ih (t.after a))

theorem mem_waiting_of_afterAll (h : n ∈ (t.afterAll acts).waiting) :
    n ∈ t.waiting ∨ t.issued ≤ n := by
  induction acts generalizing t with
  | nil => exact Or.inl h
  | cons a acts ih =>
    rcases ih h with h | h
    · exact mem_waiting_of_after h
    · exact Or.inr (Nat.le_trans (t.issued_le_after a) h)

/-- As long as the worker takes no command, it has in hand at most the one that it had before. -/
theorem inHand_of_not_taken (hacts : taken acts = []) (h : (t.afterAll acts).inHand = some n) :
    t.inHand = some n := by
  induction acts generalizing t with
  | nil => exact h
  | cons a acts ih =>
    rw [taken_cons, List.append_eq_nil_iff] at hacts
    have hafter : (t.after a).inHand = some n := ih hacts.2 h
    cases a with
    | take => cases hacts.1
    | finish => cases hafter
    | _ => exact hafter

theorem inHand_of_mem_motorCalls (hacts : taken acts = []) (h : (n, c) ∈ t.motorCalls acts) :
    t.inHand = some n := by
  induction acts generalizing t with
  | nil => cases h
  | cons a acts ih =>
    rw [taken_cons, List.append_eq_nil_iff] at hacts
    rcases List.mem_append.1 h with h | h
    · obtain ⟨k, hk, h⟩ := Option.bind_eq_some_iff.1 (Option.mem_toList.1 h)
      obtain ⟨_, _, heq⟩ := Option.map_eq_some_iff.1 h
      cases heq
      exact hk
    · have htaken : taken [a] = [] := hacts.1
      exact inHand_of_not_taken htaken (ih hacts.2 h)

end Tickets

/-! ## Endings -/

variable {cs : List Command} {t : Tickets} {m m' : Moment} {acts : List Action}

/-- The tickets that have ended, with the ones that are held after that, are the ones that were held
before and those given out since; and the counts of the queue tell how they ended. -/
structure Ends (t : Tickets) (m : Moment) (ends : List (Nat × Ending)) (issued : Nat) (t' : Tickets)
    (m' : Moment) : Prop where
  perm : (ends.map Prod.fst ++ t'.held).Perm (t.held ++ List.range' t.issued issued)
  issued : t'.issued = t.issued + issued
  executed : m'.drivetrain.counts.executed =
    m.drivetrain.counts.executed + (ends.map Prod.snd).count .executed
  failed : m'.drivetrain.counts.executionFailures =
    m.drivetrain.counts.executionFailures + (ends.map Prod.snd).count .failed
  drained : m'.drivetrain.counts.drained =
    m.drivetrain.counts.drained + (ends.map Prod.snd).count .drained

/-- Where the counts of the ends are the same, nothing has ended. -/
theorem Ends.of_counts {t' : Tickets} {issued : Nat}
    (hheld : t'.held = t.held ++ List.range' t.issued issued)
    (hissued : t'.issued = t.issued + issued)
    (hexecuted : m'.drivetrain.counts.executed = m.drivetrain.counts.executed)
    (hfailed : m'.drivetrain.counts.executionFailures = m.drivetrain.counts.executionFailures)
    (hdrained : m'.drivetrain.counts.drained = m.drivetrain.counts.drained) :
    Ends t m [] issued t' m' :=
  ⟨by rw [← hheld]; exact .refl _, hissued, hexecuted, hfailed, hdrained⟩

theorem Ends.of_same {t' : Tickets} (hheld : t'.held = t.held) (hissued : t'.issued = t.issued)
    (hcounts : m'.drivetrain.counts = m.drivetrain.counts) : Ends t m [] 0 t' m' :=
  .of_counts (hheld.trans (List.append_nil _).symm) hissued (congrArg _ hcounts)
    (congrArg _ hcounts) (congrArg _ hcounts)

theorem count_ending (ns : List Nat) (e e' : Ending) :
    ((ns.map (·, e)).map Prod.snd).count e' = if e = e' then ns.length else 0 := by
  rw [List.map_map, show Prod.snd ∘ (·, e) = fun _ : Nat => e from rfl, List.map_const',
    List.count_replicate]
  simp only [beq_iff_eq]

/-- Where tickets that are held end in one way, the count of that way grows by their number. -/
theorem Ends.of_ended {t' : Tickets} {ns : List Nat} {e : Ending}
    (hheld : (ns ++ t'.held).Perm t.held) (hissued : t'.issued = t.issued)
    (hexecuted : m'.drivetrain.counts.executed =
      m.drivetrain.counts.executed + if e = .executed then ns.length else 0)
    (hfailed : m'.drivetrain.counts.executionFailures =
      m.drivetrain.counts.executionFailures + if e = .failed then ns.length else 0)
    (hdrained : m'.drivetrain.counts.drained =
      m.drivetrain.counts.drained + if e = .drained then ns.length else 0) :
    Ends t m (ns.map (·, e)) 0 t' m' where
  perm := by
    rw [List.map_map, show Prod.fst ∘ (·, e) = fun n : Nat => n from rfl, List.map_id',
      List.range'_zero, List.append_nil]
    exact hheld
  issued := hissued
  executed := by rw [hexecuted, count_ending]
  failed := by rw [hfailed, count_ending]
  drained := by rw [hdrained, count_ending]

theorem Ends.trans {t' t'' : Tickets} {m'' : Moment} {ends ends' : List (Nat × Ending)}
    {issued issued' : Nat} (h : Ends t m ends issued t' m')
    (h' : Ends t' m' ends' issued' t'' m'') :
    Ends t m (ends ++ ends') (issued + issued') t'' m'' where
  perm := by
    have hrange : List.range' t.issued (issued + issued') =
        List.range' t.issued issued ++ List.range' t'.issued issued' := by
      rw [h.issued, List.range'_append_1]
    rw [hrange, List.map_append, List.append_assoc, ← List.append_assoc t.held]
    refine (h'.perm.append_left _).trans ?_
    rw [← List.append_assoc]
    exact h.perm.append_right _
  issued := by rw [h'.issued, h.issued, Nat.add_assoc]
  executed := by rw [h'.executed, h.executed, List.map_append, List.count_append, Nat.add_assoc]
  failed := by rw [h'.failed, h.failed, List.map_append, List.count_append, Nat.add_assoc]
  drained := by rw [h'.drained, h.drained, List.map_append, List.count_append, Nat.add_assoc]

theorem Names.length_waiting (h : Names cs t m) : t.waiting.length = m.drivetrain.depth := by
  have := congrArg List.length h.waiting
  rwa [List.length_map, List.length_map] at this

theorem Names.length_inHand (h : Names cs t m) : t.inHand.toList.length = m.phase.inHand := by
  rw [← length_command?]
  have hhand := h.inHand
  rcases hn : t.inHand with _ | n <;> rcases hc : m.phase.command? with _ | c <;>
    rw [hn, hc] at hhand <;> first | rfl | cases hhand

theorem Names.held_eq_nil (h : Names cs t m) (hitems : m.drivetrain.backlog.items = [])
    (hphase : m.phase = .free) : t.held = [] := by
  have hhand := h.length_inHand
  have hwaiting := h.length_waiting
  rw [hphase, Phase.inHand, List.length_eq_zero_iff] at hhand
  rw [depth, BoundedQueue.size, hitems, List.length_nil, List.length_eq_zero_iff] at hwaiting
  rw [Tickets.held, hhand, hwaiting]
  rfl

/-- The command that is taken is the one that has waited longest. -/
theorem Names.held_of_take (h : Names cs t m) {c : Command} {rest : List Command}
    (hfree : m.phase = .free) (hitems : m.drivetrain.backlog.items = c :: rest) :
    (t.after (.take c)).held = t.held := by
  have hhand := h.length_inHand
  have hwaiting := h.length_waiting
  rw [hfree, Phase.inHand, List.length_eq_zero_iff] at hhand
  rw [depth, BoundedQueue.size, hitems] at hwaiting
  unfold Tickets.held Tickets.after
  rw [hhand]
  rcases hw : t.waiting with _ | ⟨n, ns⟩
  · rw [hw] at hwaiting
    cases hwaiting
  · rfl

/-- What an action ends was held before it. -/
theorem Move.ends {a : Action} (h : Move m a m') (hn : Names cs t m) :
    Ends t m (t.endedBy a) (accepted [a]).length (t.after a) m' := by
  cases h with
  | adjust h => exact .of_same rfl rfl h.counts
  | accept => exact .of_counts (List.append_assoc ..).symm rfl rfl rfl rfl
  | refuse => exact .of_counts (List.append_nil _).symm rfl rfl rfl rfl
  | @discard d p =>
    refine .of_ended ?_ rfl rfl rfl ?_
    · show (t.waiting ++ (t.inHand.toList ++ [])).Perm (t.inHand.toList ++ t.waiting)
      rw [List.append_nil]
      exact List.perm_append_comm
    · exact congrArg (d.counts.drained + ·) hn.length_waiting.symm
  | take _ h => exact .of_same (hn.held_of_take rfl h) rfl rfl
  | @finish d c ok =>
    have hhand : t.inHand.toList.length = 1 := hn.length_inHand
    cases ok
    · exact .of_ended (.refl _) rfl rfl (congrArg (d.counts.executionFailures + ·) hhand.symm) rfl
    · exact .of_ended (.refl _) rfl (congrArg (d.counts.executed + ·) hhand.symm) rfl rfl
  | _ => exact .of_same rfl rfl rfl

/-- On every path a ticket that was held, or is given out, ends once or is held still. -/
theorem Path.ends (h : Path Move m acts m') (hn : Names cs t m) :
    Ends t m (t.endings acts) (accepted acts).length (t.afterAll acts) m' := by
  induction h generalizing cs t with
  | nil => exact .of_same rfl rfl rfl
  | @cons m a m' acts m'' h _ ih =>
    rw [accepted_cons, List.length_append]
    exact (h.ends hn).trans (ih (h.names hn))

/-- Where no ticket was given out before and none is held in the end, each ended once. -/
theorem Ends.perm_range {t' : Tickets} {ends : List (Nat × Ending)} {issued : Nat}
    (h : Ends t m ends issued t' m') (ht : t.held = []) (hissued : t.issued = 0)
    (ht' : t'.held = []) : (ends.map Prod.fst).Perm (List.range issued) := by
  have hperm := h.perm
  rwa [ht, ht', hissued, List.append_nil, List.nil_append, ← List.range_eq_range'] at hperm

/-! ## Commands that are not taken -/

theorem Move.taken_length_le {a : Action} (h : Move m a m') :
    (taken [a]).length + m'.drivetrain.depth ≤ m.drivetrain.depth + (accepted [a]).length := by
  cases h with
  | adjust h => simp [taken, accepted, depth, BoundedQueue.size, h.items]
  | accept h =>
    simp [taken, accepted, depth, BoundedQueue.size, BoundedQueue.items_of_push h]
  | refuse h => simp [taken, accepted, depth, BoundedQueue.size, BoundedQueue.items_of_refused h]
  | discard => exact Nat.zero_le _
  | take _ h => simp [taken, accepted, depth, BoundedQueue.size, h, Nat.add_comm]
  | @finish d c ok => exact Nat.le_of_eq (Nat.zero_add _)
  | _ => exact Nat.le_of_eq (Nat.zero_add _)

theorem Path.taken_length_le (h : Path Move m acts m') :
    (taken acts).length + m'.drivetrain.depth ≤ m.drivetrain.depth + (accepted acts).length := by
  induction h with
  | nil => simp [taken]
  | @cons m a m' acts m'' h _ ih =>
    have hmove := h.taken_length_le
    rw [taken_cons, accepted_cons, List.length_append, List.length_append]
    omega

/-- No motor call has been made for a command that waits. -/
theorem Path.not_waiting_of_motorCalls {n : Nat} {c : MotorCall} (h : Path Move m acts m')
    (hn : Names cs t m) (hmem : (n, c) ∈ t.motorCalls acts) : n ∉ (t.afterAll acts).waiting := by
  induction h generalizing cs t with
  | nil => cases hmem
  | @cons m a m' acts m'' h _ ih =>
    rcases List.mem_append.1 hmem with hmem | hmem
    · obtain ⟨k, hk, hmem⟩ := Option.bind_eq_some_iff.1 (Option.mem_toList.1 hmem)
      obtain ⟨_, _, heq⟩ := Option.map_eq_some_iff.1 hmem
      cases heq
      intro (hwaiting : n ∈ (t.afterAll (a :: acts)).waiting)
      rcases Tickets.mem_waiting_of_afterAll hwaiting with hwaiting | hissued
      · exact hn.inHand_ne_of_waiting hwaiting hk
      · exact absurd (hn.lt_issued_of_inHand hk) (Nat.not_lt.2 hissued)
    · exact ih (h.names hn) hmem

/-- What the worker has called for on a path, where `t` are the tickets at its beginning and `cs`
the commands that they name.  Each of its motor calls is made for a ticket, and for none of
these. -/
structure Unreached (cs : List Command) (t : Tickets) (acts : List Action) (tickets : List Nat) :
    Prop where
  calls : (t.motorCalls acts).map Prod.snd = workerCalls (recorded acts)
  named : ∀ n c, (n, c) ∈ t.motorCalls acts →
    ∃ command, (cs ++ accepted acts)[n]? = some command ∧ (c = command.driveCall ∨ c = .stop)
  notMem : ∀ n c, (n, c) ∈ t.motorCalls acts → n ∉ tickets

/-- Commands that wait at some point, after which the worker takes none until they are discarded,
are never called for: neither before nor after that. -/
theorem Path.unreached {pre mid post : List Action} {ds : List Command}
    (h : Path Move m (pre ++ mid ++ .discard ds :: post) m') (hn : Names cs t m)
    (hmid : taken mid = []) :
    Unreached cs t (pre ++ mid ++ .discard ds :: post) (t.afterAll pre).waiting := by
  refine ⟨h.motorCalls_eq hn, fun n c hmem => h.exists_of_mem_motorCalls hn hmem,
    fun n c hmem hwaiting => ?_⟩
  rw [List.append_assoc] at h
  obtain ⟨m₁, hpre, -⟩ := h.exists_of_append
  have hn₁ := hpre.names hn
  rw [List.append_assoc, Tickets.motorCalls_append, Tickets.motorCalls_append, List.mem_append,
    List.mem_append] at hmem
  rcases hmem with hmem | hmem | hmem
  · exact hpre.not_waiting_of_motorCalls hn hmem hwaiting
  · exact hn₁.inHand_ne_of_waiting hwaiting (Tickets.inHand_of_mem_motorCalls hmid hmem)
  · rw [Tickets.motorCalls_discard] at hmem
    rcases Tickets.mem_motorCalls hmem with hhand | hnil | hissued
    · exact hn₁.inHand_ne_of_waiting hwaiting (Tickets.inHand_of_not_taken hmid hhand)
    · cases hnil
    · have hle := (t.afterAll pre).issued_le_afterAll mid
      exact absurd (hn₁.lt_issued_of_waiting hwaiting) (Nat.not_lt.2 (Nat.le_trans hle hissued))

end Drivetrain

end RoverControl
