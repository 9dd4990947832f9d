import MpcCoordinator.Execution.Quiescence
import MpcCoordinator.Execution.Layout
import MpcCoordinator.Execution.Shortcuts

namespace MpcCoordinator

theorem follows_inputMaskReservation {next : Round} : Follows .inputMaskReservation next ↔ next = .inputCollection := by
  cases next <;> decide

theorem follows_inputCollection {next : Round} : Follows .inputCollection next ↔ next = .mpcExecution := by
  cases next <;> decide

namespace CoordinatorExecutionState

variable {topology : Topology} {registration : ExecutionRegistration} {initial final d d' : CoordinatorExecutionState}
  {call : Call} {trace : List (Transition CoordinatorExecutionState Call)} {quorum : Nat} {rosterHead : ClientIdentity}

/-- What has led into the input rounds: their proposals have a quorum. -/
def InputsProposed (quorum : Nat) (d : CoordinatorExecutionState) : Prop :=
  (d.round = .inputMaskReservation ∨ d.round = .inputCollection → d.hasQuorum quorum .inputMaskReservation = true) ∧
    (d.round = .inputCollection → d.hasQuorum quorum .inputCollection = true)

/-- What the way to the end of an execution rests on, in every state of a run. -/
structure Sound (topology : Topology) (registration : ExecutionRegistration) (d : CoordinatorExecutionState) : Prop where
  coherent : Coherent registration d
  settled : d.maskedInputDelivery = none → Settled topology.transitionQuorum.toNat d
  proposed : InputsProposed topology.transitionQuorum.toNat d
  vacant : roundIndex d.round < roundIndex .inputMaskReservation → ∀ i, d.reservedIndices.read i = none
  owned : ∀ i, d.reservedIndices.read i = none → d.maskedInputs.read i = none
  clients : ∀ (i : Nat) slot, d.inputAssignments[i]? = some slot → ∃ id, d.inputSlotClient slot = some id

theorem hasQuorum_enter (event : Event) (round candidate : Round) :
    (d.enter event round).hasQuorum quorum candidate = d.hasQuorum quorum candidate := rfl

/-- One pass of the cascade only enters the input rounds with their quorums. -/
theorem InputsProposed.advanceOnce {delivery : TransitionDelivery} (proposed : InputsProposed quorum d)
    (applied : advanceOnce quorum rosterHead d = some (delivery, d')) : InputsProposed quorum d' := by
  obtain ⟨found, _, _, _, rfl⟩ := advanceOnce_next applied
  obtain ⟨follows, reached⟩ := nextQuorumRound_some found
  simp only [InputsProposed, enter_round, hasQuorum_enter]
  refine ⟨fun input => ?_, fun collecting => ?_⟩
  · rcases input with reserving | collecting
    · rwa [reserving] at reached
    · rw [collecting] at follows
      refine proposed.1 (Or.inl ?_)
      simpa [Follows, roundBefore, eq_comm] using follows
  · rwa [collecting] at reached

theorem hasQuorum_mono {candidate : Round} (votes : d.votersFor candidate ⊆ d'.votersFor candidate)
    (reached : d.hasQuorum topology.transitionQuorum.toNat candidate = true) :
    d'.hasQuorum topology.transitionQuorum.toNat candidate = true := by
  rw [hasQuorum_iff topology.transitionQuorum_pos] at reached ⊢
  exact reached.trans (Finset.card_le_card votes)

theorem InputsProposed.mono (proposed : InputsProposed topology.transitionQuorum.toNat d) (round : d'.round = d.round)
    (votes : ∀ round, d.votersFor round ⊆ d'.votersFor round) : InputsProposed topology.transitionQuorum.toNat d' := by
  rw [InputsProposed, round]
  exact ⟨fun input => hasQuorum_mono (votes _) (proposed.1 input),
    fun collecting => hasQuorum_mono (votes _) (proposed.2 collecting)⟩

theorem InputsProposed.step (coherent : Coherent registration d) (proposed : InputsProposed topology.transitionQuorum.toNat d)
    (step : Step topology d call d') : InputsProposed topology.transitionQuorum.toNat d' := by
  obtain ⟨start, _, kept, votes, ⟨rfl, _⟩ | ⟨_, rfl, _⟩⟩ := step.cascade coherent
  · exact proposed.mono kept.round_eq votes.kept
  · exact tryAdvance_invariant (P := InputsProposed topology.transitionQuorum.toNat)
      (proposed.mono kept.round_eq votes.kept) fun _ _ _ => InputsProposed.advanceOnce

theorem Sound.start (admitted : new registration topology.n = .ok initial) : Sound topology registration initial := by
  have coherent : Coherent registration initial := .of_new admitted
  have settled := Settled.of_run admitted (.start : Run (Step topology) initial [] initial)
  obtain ⟨fresh_eq, _, known, _⟩ := new_cases admitted
  subst fresh_eq
  refine ⟨coherent, settled, ⟨by simp [fresh], by simp [fresh]⟩, fun _ i => Slots.read_replicate _ i,
    fun i _ => Slots.read_replicate _ i, fun i slot found => ?_⟩
  obtain ⟨before, range, after, ranges, index, _⟩ := getElem?_expandInputRanges.mp found
  have bound := known range (by simp [ranges])
  rw [← index] at bound
  exact ⟨_, List.getElem?_eq_getElem bound⟩

theorem Sound.step (sound : Sound topology registration d) (step : Step topology d call d') :
    Sound topology registration d' := by
  have kept := TablesKept.step step
  have freed : ∀ i, d'.reservedIndices.read i = none → d.reservedIndices.read i = none := by
    intro i unreserved
    cases held : d.reservedIndices.read i with
    | none => rfl
    | some id =>
      rw [kept.owner i id held] at unreserved
      cases unreserved
  refine ⟨sound.coherent.step step, Settled.step sound.settled step, sound.proposed.step sound.coherent step, ?_, ?_, ?_⟩
  · intro early i
    have before := lt_of_le_of_lt (step.round_le sound.coherent) early
    rw [kept.owners_round fun reserving => by rw [reserving] at before; exact absurd before (lt_irrefl _)]
    exact sound.vacant before i
  · intro i unreserved
    have empty := sound.owned i (freed i unreserved)
    cases held : d'.maskedInputs.read i with
    | none => rfl
    | some x =>
      obtain ⟨id, owner, _⟩ := step.new_input held (by simp [empty])
      rw [unreserved] at owner
      cases owner
  · intro i slot found
    obtain ⟨assignments, registered⟩ := step.layout
    rw [assignments] at found
    rw [inputSlotClient, registered]
    exact sound.clients i slot found

theorem Sound.of_run (admitted : new registration topology.n = .ok initial)
    (run : Run (Step topology) initial trace final) : Sound topology registration final :=
  run.invariant (.start admitted) fun _ _ _ sound step => sound.step step

/-- Before the first round, votes that carry the execution through the reservations
at once. -/
def Rushed (quorum : Nat) (d : CoordinatorExecutionState) : Prop :=
  d.round = .idle ∧ d.hasQuorum quorum .inputMaskReservation = true ∧ d.hasQuorum quorum .inputCollection = true ∧
    d.reservedIndices ≠ []

/-- A client that has made its one reservation call and left out an index of its own. -/
def Withheld (d : CoordinatorExecutionState) : Prop :=
  d.round = .inputMaskReservation ∧ ∃ (i : Nat) (slot : InputSlotAssignment) (id : ClientIdentity),
    d.reservedIndices[i]? = some none ∧ d.inputAssignments[i]? = some slot ∧ d.inputSlotClient slot = some id ∧
      some id ∈ d.reservedIndices

/-- An index that nobody has reserved when the inputs are collected. -/
def Starved (d : CoordinatorExecutionState) : Prop := d.round = .inputCollection ∧ none ∈ d.reservedIndices

/-- The states from which the program cannot be finished any more. -/
def DeadEnd (quorum : Nat) (d : CoordinatorExecutionState) : Prop := Rushed quorum d ∨ Withheld d ∨ Starved d

theorem Sound.missing_of_unreserved (sound : Sound topology registration d) (unreserved : none ∈ d.reservedIndices) :
    none ∈ d.maskedInputs := by
  obtain ⟨i, vacant⟩ := List.mem_iff_getElem?.mp unreserved
  obtain ⟨bound, free⟩ := Slots.vacant_iff.mp vacant
  rw [sound.coherent.reservedIndices_length, ← sound.coherent.maskedInputs_length] at bound
  have empty := sound.owned i free
  refine List.mem_iff_getElem?.mpr ⟨i, ?_⟩
  rw [List.getElem?_eq_getElem bound]
  simpa [Slots.read, List.getElem?_eq_getElem bound] using empty

/-- While an input is missing, the cascade ends in the input rounds if it starts
in one of them. -/
theorem tryAdvance_round_of_missing (input : d.round = .inputMaskReservation ∨ d.round = .inputCollection)
    (missing : none ∈ d.maskedInputs) :
    (tryAdvance quorum rosterHead d).1.round = .inputMaskReservation ∨
      (tryAdvance quorum rosterHead d).1.round = .inputCollection := by
  refine (tryAdvance_invariant (P := fun d => (d.round = .inputMaskReservation ∨ d.round = .inputCollection) ∧
    none ∈ d.maskedInputs) ⟨input, missing⟩ ?_).1
  rintro d delivery d' ⟨input, missing⟩ applied
  obtain ⟨found, free, _, _, rfl⟩ := advanceOnce_next applied
  have follows := (nextQuorumRound_some found).1
  rcases input with reserving | collecting
  · rw [reserving] at follows
    exact ⟨Or.inr (follows_inputMaskReservation.mp follows), missing⟩
  · rw [collecting] at follows
    refine absurd missing (blockingPrecondition_none.mp free (follows_inputCollection.mp follows) ?_)
    rw [collecting]
    decide

/-- The rounds that a step enters while an input is missing, from an input round. -/
theorem Step.round_of_missing (coherent : Coherent registration d) (step : Step topology d call d')
    (input : d.round = .inputMaskReservation ∨ d.round = .inputCollection) (missing : none ∈ d'.maskedInputs) :
    d'.round = .inputMaskReservation ∨ d'.round = .inputCollection := by
  obtain ⟨start, _, kept, _, ⟨rfl, _⟩ | ⟨_, rfl, _⟩⟩ := step.cascade coherent
  · rwa [kept.round_eq]
  · rw [(tryAdvance_onlyRounds start).maskedInputs_eq] at missing
    exact tryAdvance_round_of_missing (by rwa [kept.round_eq]) missing

theorem Starved.step (sound : Sound topology registration d) (starved : Starved d) (step : Step topology d call d') :
    Starved d' := by
  obtain ⟨collecting, unreserved⟩ := starved
  have same := (TablesKept.step step).owners_round (by rw [collecting]; decide)
  rw [← same] at unreserved
  refine ⟨?_, unreserved⟩
  have later := step.round_le sound.coherent
  rcases step.round_of_missing sound.coherent (Or.inr collecting) ((sound.step step).missing_of_unreserved unreserved) with
    back | still
  · rw [collecting, back] at later
    exact absurd later (by decide)
  · exact still

/-- The index that a client left out cannot be reserved in its place. -/
theorem Withheld.kept (step : Step topology d call d') {i : Nat} {slot : InputSlotAssignment} {id : ClientIdentity}
    (reserving : d.round = .inputMaskReservation) (vacant : d.reservedIndices[i]? = some none)
    (assigned : d.inputAssignments[i]? = some slot) (owner : d.inputSlotClient slot = some id)
    (called : some id ∈ d.reservedIndices) :
    d'.reservedIndices[i]? = some none ∧ some id ∈ d'.reservedIndices := by
  cases step.recorded with
  | nothing same =>
    rw [same]
    exact ⟨vacant, called⟩
  | @reservation caller indices _ _ checked same =>
    obtain ⟨_, _, unreserved, checks⟩ := checkReservation_ok.mp checked
    obtain ⟨j, held⟩ := Slots.some_mem_iff.mp called
    have other : caller ≠ id := by
      rintro rfl
      exact unreserved called
    have absent : i ∉ (indices.map fun i => (i.toNat, caller)).map Prod.fst := by
      intro named
      obtain ⟨_, member, rfl⟩ := List.mem_map.mp named
      obtain ⟨raw, inside, rfl⟩ := List.mem_map.mp member
      have mine := (checks raw inside).2.2 slot assigned
      rw [owner] at mine
      exact other (Option.some.inj mine).symm
    obtain ⟨bound, empty⟩ := Slots.vacant_iff.mp vacant
    have owners : d'.reservedIndices = Slots.writeAll d.reservedIndices (indices.map fun i => (i.toNat, caller)) := by
      rw [same]
      rfl
    rw [owners]
    refine ⟨Slots.vacant_iff.mpr ⟨?_, ?_⟩, Slots.some_mem_iff.mpr ⟨j, ?_⟩⟩
    · rwa [Slots.length_writeAll]
    · exact (Slots.read_writeAll_of_not_mem absent).trans empty
    · exact (Slots.read_writeAll_of_not_mem (not_named_of_reserved checked held)).trans held
  | submission checked =>
    rw [(checkSubmission_ok.mp checked).1] at reserving
    cases reserving

theorem Withheld.step (sound : Sound topology registration d) (withheld : Withheld d) (step : Step topology d call d') :
    Withheld d' ∨ Starved d' := by
  obtain ⟨reserving, i, slot, id, vacant, assigned, owner, called⟩ := withheld
  obtain ⟨vacant', called'⟩ := Withheld.kept step reserving vacant assigned owner called
  obtain ⟨assignments, registered⟩ := step.layout
  have unreserved : none ∈ d'.reservedIndices := List.mem_of_getElem? vacant'
  rcases step.round_of_missing sound.coherent (Or.inl reserving) ((sound.step step).missing_of_unreserved unreserved) with
    still | collecting
  · refine Or.inl ⟨still, i, slot, id, vacant', by rw [assignments, assigned], ?_, called'⟩
    rw [inputSlotClient, registered]
    exact owner
  · exact Or.inr ⟨collecting, unreserved⟩

/-- Away from the input collection, no round that can follow has a quorum once
nothing is left to apply. -/
theorem Settled.unproposed (settled : Settled quorum d) {round : Round} (atRound : d.round = round)
    (elsewhere : round ≠ .inputCollection) (next : Round) (follows : Follows round next) :
    d.hasQuorum quorum next = false := by
  subst atRound
  rcases settled with idle | ⟨_, collecting, _⟩
  · exact nextQuorumRound_none.mp idle next follows
  · exact absurd collecting elsewhere

/-- On the way to the input collection, with a quorum for both input rounds. -/
structure Collecting (quorum : Nat) (d : CoordinatorExecutionState) : Prop where
  early : roundIndex d.round ≤ roundIndex .inputCollection
  missing : none ∈ d.maskedInputs
  reservation : d.hasQuorum quorum .inputMaskReservation = true
  collection : d.hasQuorum quorum .inputCollection = true

theorem Collecting.advanceOnce {delivery : TransitionDelivery} (before : Collecting quorum d)
    (applied : advanceOnce quorum rosterHead d = some (delivery, d')) : Collecting quorum d' := by
  have same := OnlyRounds.of_advanceOnce applied
  have quorums : ∀ candidate, d'.hasQuorum quorum candidate = d.hasQuorum quorum candidate := by
    obtain ⟨_, _, _, _, rfl⟩ := advanceOnce_next applied
    exact fun candidate => rfl
  refine ⟨?_, same.maskedInputs_eq ▸ before.missing, (quorums _).trans before.reservation,
    (quorums _).trans before.collection⟩
  by_contra late
  rcases advanceOnce_late applied (Nat.lt_of_not_le late) with already | ⟨_, _, all⟩ | ⟨_, _, _, unproposed⟩
  · exact absurd (already.trans before.early) (by decide)
  · cases all none before.missing
  · rw [before.reservation] at unproposed
    cases unproposed

/-- The cascade does not stop on this way before the input collection, once the
first round has been entered. -/
theorem Collecting.round_of_settled (collecting : Collecting quorum d) (settled : Settled quorum d) :
    d.round = .idle ∨ d.round = .inputCollection := by
  cases round : d.round with
  | idle => exact Or.inl rfl
  | preprocessing =>
    have unproposed := settled.unproposed round (by decide) .inputMaskReservation (by decide)
    rw [collecting.reservation] at unproposed
    cases unproposed
  | inputMaskReservation =>
    have unproposed := settled.unproposed round (by decide) .inputCollection (by decide)
    rw [collecting.collection] at unproposed
    cases unproposed
  | inputCollection => exact Or.inr rfl
  | _ =>
    have early := collecting.early
    rw [round] at early
    exact absurd early (by decide)

/-- Both quorums bring the execution from its start to the input collection, where
no index can be reserved any more. -/
theorem Rushed.step (sound : Sound topology registration d) (rushed : Rushed topology.transitionQuorum.toNat d)
    (step : Step topology d call d') : Rushed topology.transitionQuorum.toNat d' ∨ Starved d' := by
  obtain ⟨idle, reservation, collection, inputs⟩ := rushed
  have same := (TablesKept.step step).owners_round (by rw [idle]; decide)
  have vacant := sound.vacant (by rw [idle]; decide)
  rw [← same] at inputs vacant
  have unreserved : none ∈ d'.reservedIndices :=
    List.mem_of_getElem? (Slots.vacant_iff.mpr ⟨List.length_pos_of_ne_nil inputs, vacant 0⟩)
  have missing := (sound.step step).missing_of_unreserved unreserved
  have votes := step.votesBy sound.coherent
  have round : d'.round = .idle ∨ d'.round = .inputCollection := by
    obtain ⟨start, _, kept, counted, ⟨rfl, _⟩ | ⟨_, rfl, _⟩⟩ := step.cascade sound.coherent
    · exact Or.inl (kept.round_eq.trans idle)
    · rw [(tryAdvance_onlyRounds start).maskedInputs_eq] at missing
      have before : Collecting topology.transitionQuorum.toNat start :=
        ⟨by rw [kept.round_eq, idle]; decide, missing, hasQuorum_mono (counted.kept _) reservation,
          hasQuorum_mono (counted.kept _) collection⟩
      exact (tryAdvance_invariant before fun _ _ _ => Collecting.advanceOnce).round_of_settled (tryAdvance_settled start)
  rcases round with still | collecting
  · exact Or.inl ⟨still, hasQuorum_mono (votes.kept _) reservation, hasQuorum_mono (votes.kept _) collection, inputs⟩
  · exact Or.inr ⟨collecting, unreserved⟩

theorem DeadEnd.step (sound : Sound topology registration d) (dead : DeadEnd topology.transitionQuorum.toNat d)
    (step : Step topology d call d') : DeadEnd topology.transitionQuorum.toNat d' := by
  rcases dead with rushed | withheld | starved
  · exact (rushed.step sound step).imp_right Or.inr
  · exact Or.inr (withheld.step sound step)
  · exact Or.inr (Or.inr (starved.step sound step))

theorem DeadEnd.of_run (sound : Sound topology registration d) (dead : DeadEnd topology.transitionQuorum.toNat d)
    (run : Run (Step topology) d trace final) : DeadEnd topology.transitionQuorum.toNat final :=
  (run.invariant (P := fun d => Sound topology registration d ∧ DeadEnd topology.transitionQuorum.toNat d)
    ⟨sound, dead⟩ fun _ _ _ ⟨sound, dead⟩ step => ⟨sound.step step, dead.step sound step⟩).2

theorem DeadEnd.unfinished (dead : DeadEnd quorum d) : d.round ≠ .programFinished := by
  rcases dead with ⟨round, _⟩ | ⟨round, _⟩ | ⟨round, _⟩ <;> rw [round] <;> decide

end CoordinatorExecutionState

end MpcCoordinator
