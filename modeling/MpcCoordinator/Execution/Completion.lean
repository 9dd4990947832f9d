import MpcCoordinator.Execution.Ballot
import MpcCoordinator.Execution.DeadEnds

namespace MpcCoordinator.CoordinatorExecutionState

/-- A step of an execution in which no party votes but the `voters`. -/
def StepOf (topology : Topology) (voters : Finset ClientIdentity) (d : CoordinatorExecutionState) (call : Call)
    (d' : CoordinatorExecutionState) : Prop :=
  Step topology d call d' ∧ ∀ round, call.action = .transition round → call.caller ∈ voters

/-- The clients and these parties can bring the execution to its end. -/
def CanFinish (topology : Topology) (voters : Finset ClientIdentity) (d : CoordinatorExecutionState) : Prop :=
  ∃ trace final, Run (StepOf topology voters) d trace final ∧ final.round = .programFinished

/-- What votes for some rounds change: those votes, the round and its announcements. -/
structure Polled (rounds : List Round) (d d' : CoordinatorExecutionState) : Prop where
  eq : d' = { d with
    transitionVotes := d'.transitionVotes
    sinks := d'.sinks
    transEvents := d'.transEvents
    round := d'.round }
  votes : ∀ round ∉ rounds, d'.votersFor round = d.votersFor round

/-- The round has been reached, or is proposed by a quorum. -/
def Due (quorum : Nat) (round : Round) (d : CoordinatorExecutionState) : Prop :=
  d.hasQuorum quorum round = true ∨ roundIndex round ≤ roundIndex d.round

variable {topology : Topology} {registration : ExecutionRegistration} {initial final d d' : CoordinatorExecutionState}
  {call : Call} {trace : List (Transition CoordinatorExecutionState Call)} {quorum : Nat}
  {voters : Finset ClientIdentity} {votes : List Vote} {vote : Vote} {rounds : List Round}

theorem CanFinish.of_run (run : Run (StepOf topology voters) d trace d') (finishes : CanFinish topology voters d') :
    CanFinish topology voters d := by
  obtain ⟨rest, final, later, finished⟩ := finishes
  exact ⟨trace ++ rest, final, run.append later, finished⟩

theorem CanFinish.of_step (step : StepOf topology voters d call d') (finishes : CanFinish topology voters d') :
    CanFinish topology voters d :=
  finishes.of_run (.next .start step)

theorem Sound.of_voters (sound : Sound topology registration d) (run : Run (StepOf topology voters) d trace final) :
    Sound topology registration final :=
  run.invariant sound fun _ _ _ sound step => sound.step step.1

theorem round_le_of_voters (sound : Sound topology registration d) (run : Run (StepOf topology voters) d trace final) :
    roundIndex d.round ≤ roundIndex final.round :=
  (run.invariant (P := fun x => Sound topology registration x ∧ roundIndex d.round ≤ roundIndex x.round)
    ⟨sound, le_rfl⟩ fun _ _ _ ⟨sound, le⟩ step =>
      ⟨sound.step step.1, le.trans (step.1.round_le sound.coherent)⟩).2

theorem Sound.free (sound : Sound topology registration d) (elsewhere : d.round ≠ .inputCollection) :
    d.maskedInputDelivery = none := by
  cases held : d.maskedInputDelivery with
  | none => rfl
  | some pending => exact absurd (sound.coherent.pending_round (by rw [held]; rfl)) elsewhere

theorem Polled.refl (d : CoordinatorExecutionState) : Polled [] d d := ⟨rfl, fun _ _ => rfl⟩

theorem Polled.hasQuorum_eq (polled : Polled rounds d d') {round : Round} (other : round ∉ rounds) :
    d'.hasQuorum topology.transitionQuorum.toNat round = d.hasQuorum topology.transitionQuorum.toNat round := by
  rw [Bool.eq_iff_iff, hasQuorum_iff topology.transitionQuorum_pos, hasQuorum_iff topology.transitionQuorum_pos,
    polled.votes round other]

theorem castVote_stepOf (roster : voters ⊆ topology.parties) (free : d.maskedInputDelivery = none)
    (voter : vote.1 ∈ voters) (entered : vote.2 ≠ .idle) :
    StepOf topology voters d ⟨vote.1, .transition vote.2, .ok ()⟩ (castVote topology d vote) := by
  obtain ⟨after, deliveries, accepted⟩ := CoordinatorRPCServerConnectionBase.transition_accepts ⟨topology, vote.1⟩ d
    (roster voter) entered
  refine ⟨?_, fun _ _ => voter⟩
  simp [Step, perform, castVote, accepted, free]

theorem Polled.castVote (polled : Polled rounds d d') (party : vote.1 ∈ topology.parties) (entered : vote.2 ≠ .idle) :
    Polled (rounds ++ [vote.2]) d (castVote topology d' vote) := by
  rcases castVote_cases (d := d') party entered with ⟨_, same⟩ | ⟨_, same⟩
  · rw [same]
    exact ⟨polled.eq, fun round other => polled.votes round fun member => other (List.mem_append_left _ member)⟩
  · have only : OnlyRounds (d'.recordVote vote.1 vote.2) (MpcCoordinator.CoordinatorExecutionState.castVote topology d' vote) := by
      rw [same]
      exact tryAdvance_onlyRounds _
    refine ⟨?_, fun round other => ?_⟩
    · rw [only.eq, polled.eq]
      rfl
    · rw [List.mem_append, List.mem_singleton, not_or] at other
      rw [only.votersFor_eq, votersFor_recordVote_of_ne other.2, polled.votes round other.1]

/-- Votes can be cast one after the other, and each of them is on record or late
in the end. -/
theorem exists_ballot (roster : voters ⊆ topology.parties) (sound : Sound topology registration d)
    (free : d.maskedInputDelivery = none) (cast : ∀ vote ∈ votes, vote.1 ∈ voters ∧ vote.2 ≠ .idle) :
    ∃ trace final, Run (StepOf topology voters) d trace final ∧ Polled (votes.map Prod.snd) d final ∧
      ∀ vote ∈ votes, ProposalKept vote.1 vote.2 final := by
  induction votes using List.reverseRecOn with
  | nil => exact ⟨[], d, .start, .refl d, by simp⟩
  | append_singleton votes vote ih =>
    obtain ⟨trace, final, run, polled, kept⟩ := ih fun other member => cast other (List.mem_append_left _ member)
    obtain ⟨voter, entered⟩ := cast vote (by simp)
    have still : final.maskedInputDelivery = none := by
      rw [polled.eq]
      exact free
    have step := castVote_stepOf (d := final) roster still voter entered
    refine ⟨_, _, .next run step, ?_, fun other member => ?_⟩
    · rw [List.map_append, List.map_singleton]
      exact polled.castVote (roster voter) entered
    · rcases List.mem_append.mp member with old | new
      · exact (kept other old).step (sound.of_voters run).coherent step.1
      · rw [List.mem_singleton.mp new]
        exact .of_step step.1 (roster voter) entered

/-- A quorum can propose any rounds. -/
theorem exists_poll (rounds : List Round) (roster : voters ⊆ topology.parties)
    (quorate : topology.transitionQuorum.toNat ≤ voters.card) (sound : Sound topology registration d)
    (free : d.maskedInputDelivery = none) (entered : .idle ∉ rounds) :
    ∃ trace final, Run (StepOf topology voters) d trace final ∧ Polled rounds d final ∧
      ∀ round ∈ rounds, Due topology.transitionQuorum.toNat round final := by
  have cast : ∀ vote ∈ voters.toList ×ˢ rounds, vote.1 ∈ voters ∧ vote.2 ≠ .idle := by
    rintro ⟨id, round⟩ listed
    obtain ⟨voter, member⟩ := List.pair_mem_product.mp listed
    refine ⟨Finset.mem_toList.mp voter, ?_⟩
    rintro rfl
    exact entered member
  obtain ⟨trace, final, run, polled, kept⟩ := exists_ballot roster sound free cast
  refine ⟨trace, final, run, ⟨polled.eq, fun round other => polled.votes round ?_⟩, fun round member => ?_⟩
  · intro named
    obtain ⟨vote, listed, rfl⟩ := List.mem_map.mp named
    exact other (List.pair_mem_product.mp listed).2
  · by_cases reached : roundIndex round ≤ roundIndex final.round
    · exact Or.inr reached
    · refine Or.inl ((hasQuorum_iff topology.transitionQuorum_pos).mpr (quorate.trans (Finset.card_le_card ?_)))
      intro id voter
      exact (kept (id, round) (List.pair_mem_product.mpr ⟨Finset.mem_toList.mpr voter, member⟩)).resolve_right reached

/-- The rounds that every execution passes. -/
def commonRounds : List Round := [.preprocessing, .mpcExecution, .outputDistribution, .programFinished]

/-- With all its common rounds due, an execution only stops before its end for a
reservation or an input. -/
theorem Settled.finished (settled : Settled quorum d) (due : ∀ round ∈ commonRounds, Due quorum round d)
    (reserved : d.round ≠ .inputMaskReservation) (collected : d.round = .inputCollection → none ∉ d.maskedInputs) :
    d.round = .programFinished := by
  have passes : ∀ round, d.round = round → round ≠ .inputCollection → ∀ next ∈ commonRounds, Follows round next → False := by
    rintro _ rfl elsewhere next member follows
    rcases due next member with proposed | passed
    · rw [settled.unproposed rfl elsewhere next follows] at proposed
      cases proposed
    · exact absurd (follows.lt) (Nat.not_lt_of_le passed)
  cases round : d.round with
  | idle => exact absurd (by decide) (passes _ round (by decide) .preprocessing (by decide))
  | preprocessing => exact absurd (by decide) (passes _ round (by decide) .mpcExecution (by decide))
  | inputMaskReservation => exact absurd round reserved
  | inputCollection =>
    rcases settled with idle | ⟨_, _, missing⟩
    · rcases due .mpcExecution (by decide) with proposed | passed
      · rw [nextQuorumRound_none.mp idle .mpcExecution (by rw [round]; decide)] at proposed
        cases proposed
      · rw [round] at passed
        exact absurd passed (by decide)
    · exact absurd missing (collected round)
  | mpcExecution => exact absurd (by decide) (passes _ round (by decide) .outputDistribution (by decide))
  | outputDistribution => exact absurd (by decide) (passes _ round (by decide) .programFinished (by decide))
  | programFinished => rfl

/-- The second half of a submission follows the first one. -/
theorem exists_finish (topology : Topology) (voters : Finset ClientIdentity) {pending : PendingSubmission}
    (held : d.maskedInputDelivery = some pending) :
    ∃ call d', StepOf topology voters d call d' ∧ d'.maskedInputDelivery = none ∧
      d'.reservedIndices = d.reservedIndices ∧ d'.maskedInputs = d.maskedInputs := by
  have step : StepOf topology voters d ⟨[], .finishSubmission fun _ => true, .ok ()⟩
      ((d.restoreSinks pending fun _ => true).tryAdvance topology.transitionQuorum.toNat topology.rosterHead).1 := by
    refine ⟨?_, by simp⟩
    simp only [Step, perform, held]
    rfl
  refine ⟨_, _, step, ?_⟩
  rw [(tryAdvance_onlyRounds _).eq]
  exact ⟨rfl, rfl, rfl⟩

/-- The owner of an index can submit its input, and the submission is delivered. -/
theorem Sound.exists_input (sound : Sound topology registration d) (voters : Finset ClientIdentity)
    (free : d.maskedInputDelivery = none) (collecting : d.round = .inputCollection) {i : Nat} {id : ClientIdentity}
    (owner : d.reservedIndices.read i = some id) (empty : d.maskedInputs.read i = none) :
    ∃ trace d', Run (StepOf topology voters) d trace d' ∧ d'.maskedInputDelivery = none ∧
      d'.reservedIndices = d.reservedIndices ∧ d.maskedInputs.filled < d'.maskedInputs.filled := by
  have bound : i < d.maskedInputs.length := by
    rw [sound.coherent.maskedInputs_length, ← sound.coherent.reservedIndices_length]
    exact Slots.lt_of_read owner
  have index : (UInt64.ofNat i).toNat = i := by
    refine UInt64.toNat_ofNat_of_lt' ?_
    rw [sound.coherent.maskedInputs_length] at bound
    exact bound.trans (UInt64.toNat_lt _)
  have checked : d.checkSubmission id [[]] [UInt64.ofNat i] = .ok () := by
    refine checkSubmission_ok.mpr ⟨collecting, rfl, by simp, ?_⟩
    simpa only [List.mem_singleton, forall_eq, index] using ⟨bound, owner, empty⟩
  have submitted : StepOf topology voters d ⟨id, .submitMaskedInputs [[]] [UInt64.ofNat i], .ok ()⟩
      (d.recordSubmission id ([UInt64.ofNat i].zip [[]])) := by
    refine ⟨?_, by simp⟩
    simp [Step, perform, CoordinatorRPCServerConnectionBase.submitMaskedInputs, free, checked]
  obtain ⟨call, d', finished, freed, owners, inputs⟩ := exists_finish topology voters
    (show (d.recordSubmission id ([UInt64.ofNat i].zip [[]])).maskedInputDelivery = some _ from rfl)
  refine ⟨_, d', .next (.next .start submitted) finished, freed, owners, ?_⟩
  rw [inputs]
  refine (Slots.fills_writeAll ?_).filled_lt (by simp)
  simpa [index] using ⟨bound, empty⟩

/-- The indices that a client may still reserve. -/
def openIndices (d : CoordinatorExecutionState) (id : ClientIdentity) : List Nat :=
  (List.range d.reservedIndices.length).filter fun i =>
    (d.reservedIndices.read i).isNone && d.inputAssignments[i]?.all fun slot => d.inputSlotClient slot = some id

theorem mem_openIndices {i : Nat} {id : ClientIdentity} : i ∈ d.openIndices id ↔
    i < d.reservedIndices.length ∧ d.reservedIndices.read i = none ∧
      ∀ slot, d.inputAssignments[i]? = some slot → d.inputSlotClient slot = some id := by
  simp [openIndices, Option.all_eq_true, decide_eq_true_eq]

/-- A client that has not called yet can reserve everything that is left for it. -/
theorem Sound.exists_reservation (sound : Sound topology registration d) (voters : Finset ClientIdentity)
    (reserving : d.round = .inputMaskReservation) {id : ClientIdentity} (uncalled : some id ∉ d.reservedIndices)
    (available : d.openIndices id ≠ []) :
    ∃ call d', StepOf topology voters d call d' ∧ d'.round = .inputMaskReservation ∧
      d'.reservedIndices = Slots.writeAll d.reservedIndices ((d.openIndices id).map fun i => (i, id)) := by
  have index : ∀ i ∈ d.openIndices id, (UInt64.ofNat i).toNat = i := by
    intro i member
    have bound := (mem_openIndices.mp member).1
    rw [sound.coherent.reservedIndices_length] at bound
    exact UInt64.toNat_ofNat_of_lt' (bound.trans (UInt64.toNat_lt _))
  have checked : d.checkReservation id ((d.openIndices id).map UInt64.ofNat) = .ok () := by
    refine checkReservation_ok.mpr ⟨reserving, by simpa using available, uncalled, fun raw member => ?_⟩
    obtain ⟨i, inside, rfl⟩ := List.mem_map.mp member
    rw [index i inside]
    exact mem_openIndices.mp inside
  have writes : ((d.openIndices id).map UInt64.ofNat).map (fun i => (i.toNat, id)) =
      (d.openIndices id).map fun i => (i, id) := by
    rw [List.map_map]
    exact List.map_congr_left fun i member => by simp only [Function.comp, index i member]
  have step : StepOf topology voters d
      ⟨id, .reserveMaskIndices ((d.openIndices id).map UInt64.ofNat) fun _ => true, .ok ()⟩
      ((d.recordReservation id ((d.openIndices id).map UInt64.ofNat)).broadcastReservation
        (d.assignedReservations id ((d.openIndices id).map UInt64.ofNat)) fun _ => true) := by
    refine ⟨?_, by simp⟩
    simp only [Step, perform, CoordinatorRPCServerConnectionBase.reserveMaskIndices, checked]
  refine ⟨_, _, step, reserving, ?_⟩
  rw [← writes]
  rfl

/-- Every index is left for somebody: for its client, or for anyone if it has none. -/
theorem Sound.exists_reserver (sound : Sound topology registration d) (reserving : d.round = .inputMaskReservation)
    (available : ¬ Withheld d) {i : Nat} (vacant : d.reservedIndices[i]? = some none) :
    ∃ id, some id ∉ d.reservedIndices ∧ i ∈ d.openIndices id := by
  obtain ⟨bound, empty⟩ := Slots.vacant_iff.mp vacant
  cases assigned : d.inputAssignments[i]? with
  | none =>
    obtain ⟨id, fresh⟩ := Infinite.exists_notMem_finset (d.reservedIndices.filterMap fun owner => owner).toFinset
    exact ⟨id, by simpa using fresh, mem_openIndices.mpr ⟨bound, empty, by simp [assigned]⟩⟩
  | some slot =>
    obtain ⟨id, client⟩ := sound.clients i slot assigned
    refine ⟨id, fun called => available ⟨reserving, i, slot, id, vacant, assigned, client, called⟩, ?_⟩
    refine mem_openIndices.mpr ⟨bound, empty, fun other found => ?_⟩
    rw [assigned] at found
    rw [← Option.some.inj found, client]

/-- A client that reserves all it can withholds nothing. -/
theorem Withheld.of_reservation {id : ClientIdentity} (step : StepOf topology voters d call d')
    (reserving : d.round = .inputMaskReservation)
    (owners : d'.reservedIndices = Slots.writeAll d.reservedIndices ((d.openIndices id).map fun i => (i, id)))
    (withheld : Withheld d') : Withheld d := by
  obtain ⟨_, j, slot, client, vacant, assigned, owner, called⟩ := withheld
  obtain ⟨assignments, registered⟩ := step.1.layout
  rw [assignments] at assigned
  have client_eq : d'.inputSlotClient slot = d.inputSlotClient slot := by
    rw [inputSlotClient, registered, inputSlotClient]
  rw [client_eq] at owner
  obtain ⟨bound, empty⟩ := Slots.vacant_iff.mp vacant
  rw [owners, Slots.length_writeAll] at bound
  rw [owners] at empty called
  have unnamed : j ∉ d.openIndices id := by
    intro member
    have named : j ∈ ((d.openIndices id).map fun i => (i, id)).map Prod.fst := by simpa using member
    obtain ⟨_, _, stored⟩ := Slots.read_writeAll_of_mem named bound
    rw [stored] at empty
    cases empty
  rw [Slots.read_writeAll_of_not_mem (by simpa using unnamed)] at empty
  refine ⟨reserving, j, slot, client, Slots.vacant_iff.mpr ⟨bound, empty⟩, assigned, owner, ?_⟩
  obtain ⟨k, held⟩ := Slots.some_mem_iff.mp called
  rcases Slots.read_writeAll_cases held with ⟨_, old⟩ | new
  · exact Slots.some_mem_iff.mpr ⟨k, old⟩
  · obtain ⟨i, _, same⟩ := List.mem_map.mp new
    cases same
    refine absurd (mem_openIndices.mpr ⟨bound, empty, fun other found => ?_⟩) unnamed
    rw [assigned] at found
    rw [← Option.some.inj found, owner]

section Quorum

variable (roster : voters ⊆ topology.parties) (quorate : topology.transitionQuorum.toNat ≤ voters.card)

include roster quorate

/-- The parties finish an execution that their votes cannot leave in an input round. -/
theorem Sound.canFinish_of_poll (sound : Sound topology registration d) (free : d.maskedInputDelivery = none)
    (passes : ∀ final, Sound topology registration final → Settled topology.transitionQuorum.toNat final →
      Polled commonRounds d final → roundIndex d.round ≤ roundIndex final.round →
      final.round ≠ .inputMaskReservation ∧ (final.round = .inputCollection → none ∉ final.maskedInputs)) :
    CanFinish topology voters d := by
  obtain ⟨trace, final, run, polled, due⟩ := exists_poll commonRounds roster quorate sound free (by decide)
  have after := sound.of_voters run
  have settled : Settled topology.transitionQuorum.toNat final := by
    refine after.settled ?_
    rw [polled.eq]
    exact free
  obtain ⟨reserved, collected⟩ := passes final after settled polled (round_le_of_voters sound run)
  exact ⟨trace, final, run, settled.finished due reserved collected⟩

theorem Sound.canFinish_of_late (sound : Sound topology registration d) (free : d.maskedInputDelivery = none)
    (late : roundIndex .inputCollection < roundIndex d.round) : CanFinish topology voters d := by
  refine sound.canFinish_of_poll roster quorate free fun final _ _ _ le => ?_
  refine ⟨fun back => ?_, fun back => ?_⟩ <;>
  · rw [back] at le
    exact absurd (lt_of_lt_of_le late le) (by decide)

theorem Sound.canFinish_of_collected (sound : Sound topology registration d) (free : d.maskedInputDelivery = none)
    (collecting : d.round = .inputCollection) (collected : none ∉ d.maskedInputs) : CanFinish topology voters d := by
  refine sound.canFinish_of_poll roster quorate free fun final _ _ polled le => ⟨fun back => ?_, fun _ => ?_⟩
  · rw [collecting, back] at le
    exact absurd le (by decide)
  · rw [polled.eq]
    exact collected

/-- Without a quorum for the reservations the input rounds are skipped. -/
theorem Sound.canFinish_of_unproposed (sound : Sound topology registration d) (free : d.maskedInputDelivery = none)
    (unproposed : d.hasQuorum topology.transitionQuorum.toNat .inputMaskReservation = false) :
    CanFinish topology voters d := by
  refine sound.canFinish_of_poll roster quorate free fun final after _ polled _ => ?_
  have still : ¬ (final.round = .inputMaskReservation ∨ final.round = .inputCollection) := by
    intro input
    have proposed := after.proposed.1 input
    rw [polled.hasQuorum_eq (by decide), unproposed] at proposed
    cases proposed
  exact ⟨fun reserving => still (Or.inl reserving), fun collecting => absurd (Or.inr collecting) still⟩

/-- With every index reserved the inputs that are missing can be submitted. -/
theorem Sound.canFinish_of_reserved (sound : Sound topology registration d) (free : d.maskedInputDelivery = none)
    (reserved : none ∉ d.reservedIndices) (late : roundIndex .inputCollection ≤ roundIndex d.round) :
    CanFinish topology voters d := by
  induction left : registration.nInputs.toNat - d.maskedInputs.filled using Nat.strong_induction_on generalizing d with
  | h n ih =>
    rcases late.lt_or_eq with past | now
    · exact sound.canFinish_of_late roster quorate free past
    have collecting : d.round = .inputCollection := roundIndex_injective now.symm
    by_cases missing : none ∈ d.maskedInputs
    · obtain ⟨i, vacant⟩ := List.mem_iff_getElem?.mp missing
      obtain ⟨bound, empty⟩ := Slots.vacant_iff.mp vacant
      rw [sound.coherent.maskedInputs_length, ← sound.coherent.reservedIndices_length] at bound
      obtain ⟨id, owner⟩ := Option.isSome_iff_exists.mp (Slots.none_notMem_iff.mp reserved i bound)
      obtain ⟨trace, d', run, freed, owners, more⟩ := sound.exists_input voters free collecting owner empty
      have after := sound.of_voters run
      have capacity := Slots.filled_le_length d'.maskedInputs
      rw [after.coherent.maskedInputs_length] at capacity
      refine (ih _ ?_ after freed (owners ▸ reserved) (late.trans (round_le_of_voters sound run)) rfl).of_run run
      omega
    · exact sound.canFinish_of_collected roster quorate free collecting missing

/-- While no client withholds an index, all of them can be reserved. -/
theorem Sound.canFinish_of_available (sound : Sound topology registration d)
    (reserving : d.round = .inputMaskReservation) (available : ¬ Withheld d) : CanFinish topology voters d := by
  induction left : registration.nInputs.toNat - d.reservedIndices.filled using Nat.strong_induction_on generalizing d with
  | h n ih =>
    by_cases unreserved : none ∈ d.reservedIndices
    · obtain ⟨i, vacant⟩ := List.mem_iff_getElem?.mp unreserved
      obtain ⟨id, uncalled, member⟩ := sound.exists_reserver reserving available vacant
      have some_index : d.openIndices id ≠ [] := List.ne_nil_of_mem member
      obtain ⟨call, d', step, still, owners⟩ := sound.exists_reservation voters reserving uncalled some_index
      have after := sound.step step.1
      have more : d.reservedIndices.filled < d'.reservedIndices.filled := by
        rw [owners]
        refine (Slots.fills_writeAll fun j named => ?_).filled_lt (by simpa using some_index)
        obtain ⟨bound, empty, _⟩ := mem_openIndices.mp (by simpa using named)
        exact ⟨bound, empty⟩
      have capacity := Slots.filled_le_length d'.reservedIndices
      rw [after.coherent.reservedIndices_length] at capacity
      refine (ih _ ?_ after still (fun withheld => available (withheld.of_reservation step reserving owners)) rfl).of_step step
      omega
    · have free : d.maskedInputDelivery = none := sound.free (by rw [reserving]; decide)
      obtain ⟨trace, final, run, polled, due⟩ := exists_poll [.inputCollection] roster quorate sound free (by decide)
      have after := sound.of_voters run
      have freed : final.maskedInputDelivery = none := by
        rw [polled.eq]
        exact free
      refine (after.canFinish_of_reserved roster quorate freed (by rw [polled.eq]; exact unreserved) ?_).of_run run
      rcases due .inputCollection (by simp) with proposed | passed
      · by_contra early
        have atRound : final.round = .inputMaskReservation := by
          have le := round_le_of_voters sound run
          rw [reserving] at le
          exact roundIndex_injective (le_antisymm (Nat.le_of_lt_succ (Nat.lt_of_not_le early)) le)
        rw [(after.settled freed).unproposed atRound (by decide) .inputCollection (by decide)] at proposed
        cases proposed
      · exact passed

/-- An execution without inputs passes the input rounds by its votes alone. -/
theorem Sound.canFinish_of_no_inputs (sound : Sound topology registration d) (free : d.maskedInputDelivery = none)
    (inputs : d.reservedIndices = []) (collection : d.hasQuorum topology.transitionQuorum.toNat .inputCollection = true) :
    CanFinish topology voters d := by
  refine sound.canFinish_of_poll roster quorate free fun final after settled polled _ => ⟨fun reserving => ?_, fun _ => ?_⟩
  · have unproposed := settled.unproposed reserving (by decide) .inputCollection (by decide)
    rw [polled.hasQuorum_eq (by decide), collection] at unproposed
    cases unproposed
  · have length := after.coherent.maskedInputs_length
    rw [← sound.coherent.reservedIndices_length, inputs] at length
    rw [List.length_eq_zero_iff.mp length]
    exact List.not_mem_nil

/-- Before the first round, proposals for the reservations but not for the collection
bring the execution to the reservations, which are all still to be made. -/
theorem Sound.canFinish_of_proposed (sound : Sound topology registration d) (idle : d.round = .idle)
    (reservation : d.hasQuorum topology.transitionQuorum.toNat .inputMaskReservation = true)
    (collection : d.hasQuorum topology.transitionQuorum.toNat .inputCollection = false) :
    CanFinish topology voters d := by
  have free : d.maskedInputDelivery = none := sound.free (by rw [idle]; decide)
  obtain ⟨trace, final, run, polled, due⟩ := exists_poll [.preprocessing] roster quorate sound free (by decide)
  have after := sound.of_voters run
  have freed : final.maskedInputDelivery = none := by
    rw [polled.eq]
    exact free
  have settled := after.settled freed
  refine CanFinish.of_run run ?_
  cases round : final.round with
  | idle =>
    rcases due .preprocessing (by simp) with proposed | passed
    · rw [settled.unproposed round (by decide) .preprocessing (by decide)] at proposed
      cases proposed
    · rw [round] at passed
      exact absurd passed (by decide)
  | preprocessing =>
    have unproposed := settled.unproposed round (by decide) .inputMaskReservation (by decide)
    rw [polled.hasQuorum_eq (by decide), reservation] at unproposed
    cases unproposed
  | inputMaskReservation =>
    refine after.canFinish_of_available roster quorate round ?_
    rintro ⟨_, _, _, id, _, _, _, called⟩
    rw [polled.eq] at called
    obtain ⟨i, held⟩ := Slots.some_mem_iff.mp called
    rw [sound.vacant (by rw [idle]; decide)] at held
    cases held
  | inputCollection =>
    have proposed := after.proposed.2 round
    rw [polled.hasQuorum_eq (by decide), collection] at proposed
    cases proposed
  | _ => exact after.canFinish_of_late roster quorate freed (by rw [round]; decide)

theorem Sound.canFinish_of_idle (sound : Sound topology registration d) (idle : d.round = .idle)
    (unrushed : ¬ Rushed topology.transitionQuorum.toNat d) : CanFinish topology voters d := by
  have free : d.maskedInputDelivery = none := sound.free (by rw [idle]; decide)
  cases reservation : d.hasQuorum topology.transitionQuorum.toNat .inputMaskReservation with
  | false => exact sound.canFinish_of_unproposed roster quorate free reservation
  | true =>
    cases collection : d.hasQuorum topology.transitionQuorum.toNat .inputCollection with
    | true =>
      refine sound.canFinish_of_no_inputs roster quorate free ?_ collection
      by_contra inputs
      exact unrushed ⟨idle, reservation, collection, inputs⟩
    | false => exact sound.canFinish_of_proposed roster quorate idle reservation collection

theorem Sound.canFinish (sound : Sound topology registration d) (alive : ¬ DeadEnd topology.transitionQuorum.toNat d) :
    CanFinish topology voters d := by
  simp only [DeadEnd, not_or] at alive
  obtain ⟨unrushed, available, unstarved⟩ := alive
  cases held : d.maskedInputDelivery with
  | some pending =>
    have collecting := sound.coherent.pending_round (by rw [held]; rfl)
    have reserved : none ∉ d.reservedIndices := fun unreserved => unstarved ⟨collecting, unreserved⟩
    obtain ⟨call, d', step, freed, owners, _⟩ := exists_finish topology voters held
    refine ((sound.step step.1).canFinish_of_reserved roster quorate freed (owners ▸ reserved) ?_).of_step step
    rw [← collecting]
    exact step.1.round_le sound.coherent
  | none =>
    cases round : d.round with
    | idle => exact sound.canFinish_of_idle roster quorate round unrushed
    | preprocessing =>
      have unproposed := (sound.settled held).unproposed round (by decide) .inputMaskReservation (by decide)
      exact sound.canFinish_of_unproposed roster quorate held unproposed
    | inputMaskReservation => exact sound.canFinish_of_available roster quorate round available
    | inputCollection =>
      have reserved : none ∉ d.reservedIndices := fun unreserved => unstarved ⟨round, unreserved⟩
      exact sound.canFinish_of_reserved roster quorate held reserved (by rw [round])
    | _ => exact sound.canFinish_of_late roster quorate held (by rw [round]; decide)

end Quorum

/-- What can still become of an execution. Any quorum of its parties and the clients
can bring it to its end from wherever it stands, unless it is in a dead end; and
from there no calls of anybody bring it to its end. -/
theorem program_can_finish_or_never (admitted : new registration topology.n = .ok initial)
    (run : Run (Step topology) initial trace d) (roster : voters ⊆ topology.parties)
    (quorate : topology.transitionQuorum.toNat ≤ voters.card) :
    (¬ DeadEnd topology.transitionQuorum.toNat d → CanFinish topology voters d) ∧
      (DeadEnd topology.transitionQuorum.toNat d →
        ∀ rest final, Run (Step topology) d rest final → final.round ≠ .programFinished) := by
  have sound := Sound.of_run admitted run
  exact ⟨sound.canFinish roster quorate, fun dead rest final later => (dead.of_run sound later).unfinished⟩

/-- One node can finish the execution of two clients at first, and cannot any more
when the first client has reserved one of its two indices only. -/
theorem program_can_finish_or_never_of_two_clients :
    CanFinish (.lone [1]) {[1]} (fresh twoClients) ∧
      ∃ trace d, Run (Step (.lone [1])) (fresh twoClients) trace d ∧
        trace.map Transition.event = [⟨[1], .transition .preprocessing, .ok ()⟩,
          ⟨[1], .transition .inputMaskReservation, .ok ()⟩, ⟨[7], .reserveMaskIndices [0] (fun _ => true), .ok ()⟩] ∧
        ∀ rest final, Run (Step (.lone [1])) d rest final → final.round ≠ .programFinished := by
  have quorate : (Topology.lone [1]).transitionQuorum.toNat ≤ ({[1]} : Finset ClientIdentity).card := by decide
  constructor
  · refine (program_can_finish_or_never new_twoClients .start (by decide) quorate).1 ?_
    rintro (⟨_, proposed, _⟩ | ⟨reserving, _⟩ | ⟨collecting, _⟩)
    · exact absurd proposed (by decide)
    · exact absurd reserving (by decide)
    · exact absurd collecting (by decide)
  · obtain ⟨trace, d, run, events, seen⟩ := exists_run_of_calls (.lone [1]) (fresh twoClients)
      [⟨[1], .transition .preprocessing, .ok ()⟩, ⟨[1], .transition .inputMaskReservation, .ok ()⟩,
        ⟨[7], .reserveMaskIndices [0] (fun _ => true), .ok ()⟩]
      (fun d => (d.round, d.reservedIndices, d.inputAssignments[1]?.bind d.inputSlotClient))
      (.inputMaskReservation, [some [7], none, none], some [7]) (by decide +kernel)
    obtain ⟨round, rest⟩ := Prod.mk.inj seen
    obtain ⟨owners, client⟩ := Prod.mk.inj rest
    obtain ⟨slot, assigned, owner⟩ := Option.bind_eq_some_iff.mp client
    have withheld : Withheld d := ⟨round, 1, slot, [7], by rw [owners]; rfl, assigned, owner, by rw [owners]; simp⟩
    exact ⟨trace, d, run, events,
      (program_can_finish_or_never new_twoClients run (by decide) quorate).2 (Or.inr (Or.inl withheld))⟩

end MpcCoordinator.CoordinatorExecutionState
