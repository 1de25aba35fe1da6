import RoverControl.Proofs.Drivetrain.Accounts

/-!
# Tickets

Two commands can have the same speeds and the same duration, so what becomes of one of them is told
by its ticket: the commands that are pending at some moment are numbered in order, and so are those
accepted after it.  `Tickets` keeps the numbers of the commands that wait and of the one in hand, as
the actions of a path tell them.  On every path the tickets name the commands of the drivetrain
(`Path.names`), and every motor call of the worker is made for the ticket in hand
(`Path.motorCalls_eq`).  So what has been discarded is never called for
(`Path.cancelled_of_discard`).
-/

namespace RoverControl

namespace Drivetrain

/-- The numbers of commands. -/
structure Tickets where
  /-- How many have been given out; it is the next one, too. -/
  issued : Nat
  /-- Those of the commands that wait, the oldest one first. -/
  waiting : List Nat
  /-- That of the command that the worker has in hand. -/
  inHand : Option Nat

/-- The motor call that the worker makes in an action. -/
def Action.workerCall? : Action → Option MotorCall
  | call c => some c.driveCall
  | stop _ _ => some .stop
  | _ => none

/-- The motor calls of the worker that are on record. -/
def workerCalls (events : List Event) : List MotorCall :=
  events.filterMap fun
    | .call .worker c => some c
    | _ => none

namespace Tickets

/-- The commands that are pending are numbered in order, beginning with the one in hand. -/
def ofMoment (m : Moment) : Tickets where
  issued := m.pending.length
  waiting := List.range' m.phase.inHand m.drivetrain.depth
  inHand := m.phase.command?.map fun _ => 0

/-- The tickets after an action. -/
def after (t : Tickets) : Action → Tickets
  | .accept _ => { t with issued := t.issued + 1, waiting := t.waiting ++ [t.issued] }
  | .discard _ => { t with waiting := [] }
  | .take _ => { t with waiting := t.waiting.tail, inHand := t.waiting.head? }
  | .finish _ _ => { t with inHand := none }
  | _ => t

/-- The tickets after a sequence of actions. -/
def afterAll (t : Tickets) (acts : List Action) : Tickets := acts.foldl after t

/-- The motor calls that the worker makes, each with the ticket of the command it is made for. -/
def motorCalls (t : Tickets) : List Action → List (Nat × MotorCall)
  | [] => []
  | a :: acts =>
    (t.inHand.bind fun n => a.workerCall?.map (n, ·)).toList ++ (t.after a).motorCalls acts

variable {t : Tickets} {acts : List Action} {n : Nat} {c : MotorCall}

theorem inHand_of_after {a : Action} (h : (t.after a).inHand = some n) :
    t.inHand = some n ∨ n ∈ t.waiting := by
  cases a with
  | take => exact Or.inr (List.mem_of_mem_head? h)
  | finish => cases h
  | _ => exact Or.inl h

theorem mem_waiting_of_after {a : Action} (h : n ∈ (t.after a).waiting) :
    n ∈ t.waiting ∨ t.issued ≤ n := by
  cases a with
  | accept =>
    rcases List.mem_append.1 h with h | h
    · exact Or.inl h
    · exact Or.inr (Nat.le_of_eq (List.mem_singleton.1 h).symm)
  | discard => cases h
  | take => exact Or.inl (List.mem_of_mem_tail h)
  | _ => exact Or.inl h

theorem issued_le_after (t : Tickets) (a : Action) : t.issued ≤ (t.after a).issued := by
  cases a with
  | accept => exact Nat.le_succ _
  | _ => exact Nat.le_refl _

/-- The worker makes a call for a command that it has in hand, or that waits, or that is yet to be
accepted. -/
theorem mem_motorCalls (h : (n, c) ∈ t.motorCalls acts) :
    t.inHand = some n ∨ n ∈ t.waiting ∨ t.issued ≤ n := by
  induction acts generalizing t with
  | nil => cases h
  | cons a acts ih =>
    rcases List.mem_append.1 h with h | h
    · obtain ⟨k, hk, h⟩ := Option.bind_eq_some_iff.1 (Option.mem_toList.1 h)
      obtain ⟨_, _, heq⟩ := Option.map_eq_some_iff.1 h
      cases heq
      exact Or.inl hk
    · rcases ih h with h | h | h
      · exact (inHand_of_after h).imp_right Or.inl
      · exact Or.inr (mem_waiting_of_after h)
      · exact Or.inr (Or.inr (Nat.le_trans (t.issued_le_after a) h))

end Tickets

/-! ## What the tickets name -/

/-- The tickets name the commands of a moment, where `cs` are the commands in the order of their
tickets: those that wait and the one in hand are where they are, and no ticket is held twice. -/
structure Names (cs : List Command) (t : Tickets) (m : Moment) : Prop where
  issued : t.issued = cs.length
  waiting : t.waiting.map (cs[·]?) = m.drivetrain.backlog.items.map some
  inHand : t.inHand.map (cs[·]?) = m.phase.command?.map some
  increasing : (t.inHand.toList ++ t.waiting).Pairwise (· < ·)

theorem length_command? (p : Phase) : p.command?.toList.length = p.inHand := by cases p <;> rfl

theorem map_getElem?_range' {α : Type} (l l' : List α) :
    (List.range' l.length l'.length).map ((l ++ l')[·]?) = l'.map some := by
  apply List.ext_getElem
  · simp
  · intro i h₁ h₂
    simp only [List.length_map, List.length_range'] at h₁
    simp [h₁]

theorem names_ofMoment (m : Moment) : Names m.pending (.ofMoment m) m where
  issued := rfl
  waiting := by
    show (List.range' m.phase.inHand m.drivetrain.depth).map _ = _
    rw [← length_command?]
    exact map_getElem?_range' m.phase.command?.toList m.drivetrain.backlog.items
  inHand := by
    rcases h : m.phase.command? with _ | c
    · simp [Tickets.ofMoment, h]
    · simp [Tickets.ofMoment, Moment.pending, h]
  increasing := by
    rw [Tickets.ofMoment, ← length_command?]
    rcases m.phase.command? with _ | c
    · exact List.pairwise_lt_range'
    · refine List.pairwise_cons.2 ⟨fun n hn => ?_, List.pairwise_lt_range'⟩
      exact (List.mem_range'_1.1 hn).1

namespace Names

variable {cs : List Command} {t : Tickets} {m m' : Moment}

theorem lt_issued_of_waiting (h : Names cs t m) {n : Nat} (hn : n ∈ t.waiting) :
    n < t.issued := by
  have hmem : cs[n]? ∈ t.waiting.map (cs[·]?) := List.mem_map_of_mem hn
  rw [h.waiting] at hmem
  obtain ⟨c, -, hc⟩ := List.mem_map.1 hmem
  rw [h.issued]
  exact (List.getElem?_eq_some_iff.1 hc.symm).1

theorem lt_issued_of_inHand (h : Names cs t m) {n : Nat} (hn : t.inHand = some n) :
    n < t.issued := by
  have hmap := h.inHand
  rw [hn, Option.map_some] at hmap
  obtain ⟨c, -, hc⟩ := Option.map_eq_some_iff.1 hmap.symm
  rw [h.issued]
  exact (List.getElem?_eq_some_iff.1 hc.symm).1

theorem inHand_ne_of_waiting (h : Names cs t m) {n : Nat} (hn : n ∈ t.waiting) :
    t.inHand ≠ some n := by
  intro hhand
  have hlt := (List.pairwise_append.1 h.increasing).2.2 n (Option.mem_toList.2 hhand) n hn
  exact Nat.lt_irrefl n hlt

/-- Commands that are accepted do not change what the tickets before them name. -/
theorem append (h : Names cs t m) (cs' : List Command) :
    t.waiting.map ((cs ++ cs')[·]?) = m.drivetrain.backlog.items.map some ∧
      t.inHand.map ((cs ++ cs')[·]?) = m.phase.command?.map some := by
  have hsame : ∀ {n : Nat}, n < t.issued → (cs ++ cs')[n]? = cs[n]? := fun hn =>
    List.getElem?_append_left (h.issued ▸ hn)
  constructor
  · rw [← h.waiting]
    exact List.map_congr_left fun n hn => hsame (h.lt_issued_of_waiting hn)
  · rw [← h.inHand]
    exact Option.map_congr fun n hn => hsame (h.lt_issued_of_inHand hn)

/-- The tickets name the commands of another moment with the same ones. -/
theorem of_eq (h : Names cs t m) (hitems : m'.drivetrain.backlog.items = m.drivetrain.backlog.items)
    (hcommand : m'.phase.command? = m.phase.command?) : Names cs t m' where
  issued := h.issued
  waiting := by rw [hitems, h.waiting]
  inHand := by rw [hcommand, h.inHand]
  increasing := h.increasing

theorem accept (h : Names cs t m) {c : Command}
    (hitems : m'.drivetrain.backlog.items = m.drivetrain.backlog.items ++ [c])
    (hphase : m'.phase = m.phase) : Names (cs ++ [c]) (t.after (.accept c)) m' where
  issued := by simp [Tickets.after, h.issued]
  waiting := by
    rw [hitems, Tickets.after, List.map_append, (h.append [c]).1]
    simp [h.issued]
  inHand := by rw [hphase, ← (h.append [c]).2, Tickets.after]
  increasing := by
    rw [Tickets.after, ← List.append_assoc, List.pairwise_append]
    refine ⟨h.increasing, List.pairwise_singleton _ _, fun n hn k hk => ?_⟩
    rw [List.mem_singleton.1 hk]
    rcases List.mem_append.1 hn with hn | hn
    · exact h.lt_issued_of_inHand (Option.mem_toList.1 hn)
    · exact h.lt_issued_of_waiting hn

theorem discard (h : Names cs t m) (hitems : m'.drivetrain.backlog.items = [])
    (hphase : m'.phase = m.phase) : Names cs { t with waiting := [] } m' where
  issued := h.issued
  waiting := by rw [hitems]; rfl
  inHand := by rw [hphase, h.inHand]
  increasing := by
    rw [List.append_nil]
    exact (List.pairwise_append.1 h.increasing).1

theorem take (h : Names cs t m) {c : Command} {rest : List Command} (hfree : m.phase = .free)
    (hitems : m.drivetrain.backlog.items = c :: rest)
    (hitems' : m'.drivetrain.backlog.items = rest) (hphase : m'.phase = .waiting c) :
    Names cs (t.after (.take c)) m' := by
  have hwaiting := h.waiting
  have hhand : t.inHand = none := by
    have := h.inHand
    rw [hfree] at this
    exact Option.map_eq_none_iff.1 this
  rcases hw : t.waiting with _ | ⟨n, ns⟩
  · rw [hitems, hw] at hwaiting
    cases hwaiting
  · rw [hitems, hw, List.map_cons, List.map_cons, List.cons.injEq] at hwaiting
    refine ⟨h.issued, ?_, ?_, ?_⟩
    · simp [Tickets.after, hw, hitems', hwaiting.2]
    · simp [Tickets.after, hw, hphase, Phase.command?, hwaiting.1]
    · have hincreasing := h.increasing
      rw [hhand, hw] at hincreasing
      simpa [Tickets.after, hw] using hincreasing

theorem finish (h : Names cs t m) {c : Command} {ok : Bool}
    (hitems : m'.drivetrain.backlog.items = m.drivetrain.backlog.items)
    (hphase : m'.phase = .free) : Names cs (t.after (.finish c ok)) m' where
  issued := h.issued
  waiting := by rw [hitems, ← h.waiting]; rfl
  inHand := by rw [hphase]; rfl
  increasing := (List.pairwise_append.1 h.increasing).2.1

end Names

/-! ## Paths -/

variable {cs : List Command} {t : Tickets} {m m' : Moment} {acts : List Action}

theorem Move.names {a : Action} (h : Move m a m') (hn : Names cs t m) :
    Names (cs ++ accepted [a]) (t.after a) m' := by
  have hother {t' : Tickets} (ha : accepted [a] = []) (hn' : Names cs t' m') :
      Names (cs ++ accepted [a]) t' m' := by
    rwa [ha, List.append_nil]
  cases h with
  | adjust h => exact hother rfl (hn.of_eq h.items rfl)
  | accept h => exact hn.accept (BoundedQueue.items_of_push h) rfl
  | refuse h => exact hother rfl (hn.of_eq (BoundedQueue.items_of_refused h) rfl)
  | discard => exact hother rfl (hn.discard rfl rfl)
  | take _ h => exact hother rfl (hn.take rfl h rfl rfl)
  | answer => exact hother rfl (hn.of_eq rfl (command?_afterAnswer _ _))
  | finish => exact hother rfl (hn.finish rfl rfl)
  | _ => exact hother rfl (hn.of_eq rfl rfl)

/-- On every path the tickets name the commands of the drivetrain. -/
theorem Path.names (h : Path Move m acts m') (hn : Names cs t m) :
    Names (cs ++ accepted acts) (t.afterAll acts) m' := by
  induction h generalizing cs t with
  | nil => simpa [accepted, Tickets.afterAll] using hn
  | @cons m a m' acts m'' h _ ih =>
    rw [accepted_cons, ← List.append_assoc]
    exact ih (h.names hn)

theorem workerCalls_append (es es' : List Event) :
    workerCalls (es ++ es') = workerCalls es ++ workerCalls es' := List.filterMap_append

theorem workerCalls_event? (a : Action) : workerCalls a.event?.toList = a.workerCall?.toList := by
  cases a with
  | wait | pause =>
    simp only [Action.event?, Action.sleepEvent?]
    split <;> rfl
  | _ => rfl

/-- The worker makes a call only for the command that it has in hand: to drive as that says, or to
stop. -/
theorem Move.ticket_of_workerCall? {a : Action} {c : MotorCall} (h : Move m a m')
    (hn : Names cs t m) (ha : a.workerCall? = some c) :
    ∃ n command, t.inHand = some n ∧ cs[n]? = some command ∧
      (c = command.driveCall ∨ c = .stop) := by
  obtain ⟨command, hcommand, hc⟩ : ∃ command, m.phase.command? = some command ∧
      (c = command.driveCall ∨ c = .stop) := by
    cases h with
    | call =>
      cases ha
      exact ⟨_, rfl, Or.inl rfl⟩
    | stop =>
      cases ha
      exact ⟨_, rfl, Or.inr rfl⟩
    | _ => cases ha
  have hhand := hn.inHand
  rw [hcommand, Option.map_some] at hhand
  obtain ⟨n, hn, hget⟩ := Option.map_eq_some_iff.1 hhand
  exact ⟨n, command, hn, hget, hc⟩

/-- Every motor call of the worker that is on record is made for a ticket. -/
theorem Path.motorCalls_eq (h : Path Move m acts m') (hn : Names cs t m) :
    (t.motorCalls acts).map Prod.snd = workerCalls (recorded acts) := by
  induction h generalizing cs t with
  | nil => rfl
  | @cons m a m' acts m'' h _ ih =>
    rw [recorded_cons, workerCalls_append, workerCalls_event?, ← ih (h.names hn),
      Tickets.motorCalls, List.map_append]
    congr 1
    rcases ha : a.workerCall? with _ | c
    · cases t.inHand <;> rfl
    · obtain ⟨n, -, hhand, -⟩ := h.ticket_of_workerCall? hn ha
      rw [hhand]
      rfl

/-- The worker makes the motor calls of the commands that the tickets name. -/
theorem Path.exists_of_mem_motorCalls {n : Nat} {c : MotorCall} (h : Path Move m acts m')
    (hn : Names cs t m) (hmem : (n, c) ∈ t.motorCalls acts) :
    ∃ command, (cs ++ accepted acts)[n]? = some command ∧
      (c = command.driveCall ∨ c = .stop) := by
  induction h generalizing cs t with
  | nil => cases hmem
  | @cons m a m' acts m'' h _ ih =>
    rw [accepted_cons, ← List.append_assoc]
    rcases List.mem_append.1 hmem with hmem | hmem
    · obtain ⟨k, hk, hmem⟩ := Option.bind_eq_some_iff.1 (Option.mem_toList.1 hmem)
      obtain ⟨c', hc', heq⟩ := Option.map_eq_some_iff.1 hmem
      cases heq
      obtain ⟨k, command, hk', hget, hcommand⟩ := h.ticket_of_workerCall? hn hc'
      cases hk.symm.trans hk'
      refine ⟨command, ?_, hcommand⟩
      have hlt := (List.getElem?_eq_some_iff.1 hget).1
      rw [List.append_assoc, List.getElem?_append_left hlt, hget]
    · exact ih (h.names hn) hmem

/-! ## Commands that were discarded -/

/-- What has happened on a path since the commands that wait were discarded, where `t` are the
tickets right before that, `t'` those at the beginning of the path and `cs` the commands of all of
them.  The tickets still name the commands, and tell for which one each motor call of the worker
was made: for none that was discarded, and of the others that had been accepted by then, only for
the one in hand. -/
structure Cancelled (cs : List Command) (t t' : Tickets) (acts : List Action) (m : Moment) :
    Prop where
  names : Names (cs ++ accepted acts) (t'.afterAll acts) m
  calls : (t'.motorCalls acts).map Prod.snd = workerCalls (recorded acts)
  named : ∀ n c, (n, c) ∈ t'.motorCalls acts →
    ∃ command, (cs ++ accepted acts)[n]? = some command ∧ (c = command.driveCall ∨ c = .stop)
  not_waiting : ∀ n c, (n, c) ∈ t'.motorCalls acts → n ∉ t.waiting
  inHand : ∀ n c, (n, c) ∈ t'.motorCalls acts → n < t.issued → t.inHand = some n

theorem Path.cancelled {m₀ : Moment} (h₀ : Names cs t m₀) (h : Path Move m acts m')
    (hn : Names cs { t with waiting := [] } m) :
    Cancelled cs t { t with waiting := [] } acts m' where
  names := h.names hn
  calls := h.motorCalls_eq hn
  named _ _ hmem := h.exists_of_mem_motorCalls hn hmem
  not_waiting n c hmem hwaiting := by
    rcases Tickets.mem_motorCalls hmem with hhand | hnil | hissued
    · exact h₀.inHand_ne_of_waiting hwaiting hhand
    · cases hnil
    · exact absurd (h₀.lt_issued_of_waiting hwaiting) (Nat.not_lt.2 hissued)
  inHand n c hmem hlt := by
    rcases Tickets.mem_motorCalls hmem with hhand | hnil | hissued
    · exact hhand
    · cases hnil
    · exact absurd hlt (Nat.not_lt.2 hissued)

/-- Whatever is done in whatever order, discarding the commands that wait cancels them. -/
theorem Path.cancelled_of_discard {pre : List Action} {ds : List Command}
    (h : Path Move m (pre ++ .discard ds :: acts) m') (hn : Names cs t m) :
    Cancelled (cs ++ accepted pre) (t.afterAll pre) ((t.afterAll pre).after (.discard ds)) acts
      m' := by
  obtain ⟨m₁, hpre, h₁⟩ := h.exists_of_append
  cases h₁ with
  | cons hdiscard hacts =>
    have hn₁ := hpre.names hn
    have hn₂ := hdiscard.names hn₁
    rw [show accepted [.discard ds] = [] from rfl, List.append_nil] at hn₂
    exact hacts.cancelled hn₁ hn₂

end Drivetrain

end RoverControl
