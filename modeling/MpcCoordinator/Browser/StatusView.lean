import MpcCoordinator.Browser.Status
import MpcCoordinator.Browser.Provenance
import Mathlib.Data.Set.Card

namespace MpcCoordinator

namespace CoordinatorExecutionState

/-- A global input slot is assigned to a client. -/
def OwnsSlot (d : CoordinatorExecutionState) (client : ClientIdentity) (i : Nat) : Prop :=
  ∃ slot, d.inputAssignments[i]? = some slot ∧ d.inputSlotClient slot = some client

/-- All slots that are assigned to a client have an input. -/
def AllSubmitted (d : CoordinatorExecutionState) (client : ClientIdentity) : Prop :=
  ∀ i, d.OwnsSlot client i → (d.maskedInputs.read i).isSome = true

variable {d : CoordinatorExecutionState} {client : ClientIdentity} {i : Nat}

theorem mem_ownIndices : i ∈ d.ownIndices client ↔ d.OwnsSlot client i := by
  rw [ownIndices, List.mem_filterMap]
  constructor
  · rintro ⟨⟨slot, index⟩, member, made⟩
    obtain ⟨owned, same⟩ := Option.ite_none_right_eq_some.mp made
    cases same
    exact ⟨slot, List.mem_zipIdx_iff_getElem?.mp member, owned⟩
  · rintro ⟨slot, found, owned⟩
    exact ⟨(slot, i), List.mem_zipIdx_iff_getElem?.mpr found, if_pos owned⟩

theorem mem_assignedClients : client ∈ d.assignedClients ↔ ∃ i, d.OwnsSlot client i := by
  rw [assignedClients, List.mem_toFinset, List.mem_filterMap]
  constructor
  · rintro ⟨slot, member, owned⟩
    obtain ⟨i, found⟩ := List.mem_iff_getElem?.mp member
    exact ⟨i, slot, found, owned⟩
  · rintro ⟨i, slot, found, owned⟩
    exact ⟨slot, List.mem_of_getElem? found, owned⟩

theorem hasSubmitted_iff : d.hasSubmitted client = true ↔ d.AllSubmitted client := by
  simp only [hasSubmitted, List.all_eq_true, mem_ownIndices, AllSubmitted]

/-- The slots are as many as the inputs, and each is assigned to a client. -/
structure SlotsCovered (d : CoordinatorExecutionState) : Prop where
  length_eq : d.inputAssignments.length = d.registration.nInputs.toNat
  inputs : d.maskedInputs.length = d.registration.nInputs.toNat
  owned : ∀ i < d.inputAssignments.length, ∃ client, d.OwnsSlot client i

theorem SlotsCovered.of_run {topology : Topology} {registration : ExecutionRegistration} {n : UInt64}
    {initial : CoordinatorExecutionState} {calls : List (Transition CoordinatorExecutionState Call)}
    (admitted : new registration n = .ok initial) (run : Run (Step topology) initial calls d)
    (added : ((d.registration.inputAssignment.ranges.map InputClientRange.count).map UInt64.toNat).sum =
      d.registration.nInputs.toNat) : SlotsCovered d := by
  have coherent := Coherent.of_run admitted run
  rw [coherent.registration_eq] at added
  refine ⟨?_, by rw [coherent.maskedInputs_length, coherent.registration_eq], fun i inside => ?_⟩
  · rw [coherent.inputAssignments_eq, coherent.registration_eq, length_expandInputRanges, added]
  · obtain ⟨slot, found⟩ : ∃ slot, d.inputAssignments[i]? = some slot := ⟨_, List.getElem?_eq_getElem inside⟩
    have ranged := found
    rw [coherent.inputAssignments_eq] at ranged
    obtain ⟨before, range, after, split, same, _⟩ := getElem?_expandInputRanges.mp ranged
    have known := (new_cases admitted).2.2.1 range (by simp [split])
    refine ⟨registration.inputAssignment.clients[range.clientIndex.toNat], slot, found, ?_⟩
    rw [inputSlotClient, coherent.registration_eq, same]
    exact List.getElem?_eq_getElem known

/-- All inputs are there exactly if every client has submitted its own. -/
theorem SlotsCovered.filled_iff (covered : SlotsCovered d) :
    d.maskedInputs.filled = d.registration.nInputs.toNat ↔ ∀ client ∈ d.assignedClients, d.AllSubmitted client := by
  rw [← covered.inputs, Slots.filled_eq_length_iff, Slots.none_notMem_iff, covered.inputs, ← covered.length_eq]
  constructor
  · rintro all client _ i ⟨slot, found, _⟩
    exact all i (List.getElem?_eq_some_iff.mp found).1
  · intro all i inside
    obtain ⟨client, owns⟩ := covered.owned i inside
    exact all client (mem_assignedClients.mpr ⟨i, owns⟩) i owns

theorem card_assignedClients_le : d.assignedClients.card ≤ d.inputAssignments.length :=
  (List.toFinset_card_le _).trans (List.length_filterMap_le _ _)

/-- The clients that have submitted all their inputs. -/
theorem card_submitted :
    (d.assignedClients.filter fun candidate => d.hasSubmitted candidate = true).card =
      Set.ncard {client | (∃ i, d.OwnsSlot client i) ∧ d.AllSubmitted client} := by
  rw [← Set.ncard_coe_finset]
  congr 1
  ext client
  rw [Finset.coe_filter, Set.mem_ofPred_eq, Set.mem_ofPred_eq, mem_assignedClients, hasSubmitted_iff]

theorem card_submitted_eq_iff :
    (d.assignedClients.filter fun candidate => d.hasSubmitted candidate = true).card = d.assignedClients.card ↔
      ∀ client ∈ d.assignedClients, d.AllSubmitted client := by
  rw [Finset.card_filter_eq_iff]
  simp only [hasSubmitted_iff]

/-- A client that has submitted its inputs has reserved them: only the owner of a
slot reserves it, and only who has reserved it submits. -/
theorem reserved_of_submitted {topology : Topology} {registration : ExecutionRegistration} {n : UInt64}
    {initial : CoordinatorExecutionState} {calls : List (Transition CoordinatorExecutionState Call)}
    (admitted : new registration n = .ok initial) (run : Run (Step topology) initial calls d)
    (owns : d.OwnsSlot client i) (submitted : (d.maskedInputs.read i).isSome = true) :
    d.reservedIndices.read i = some client := by
  obtain ⟨slot, found, owned⟩ := owns
  obtain ⟨x, held⟩ := Option.isSome_iff_exists.mp submitted
  obtain ⟨origin, _⟩ := Provenance.of_run admitted run
  obtain ⟨id, reserved, _⟩ := origin.submitted i x held
  have mine := (origin.reserved i id reserved).2 slot found
  rw [reserved, ← mine, owned]

end CoordinatorExecutionState

namespace CoordinatorRPCServerSharedBase

/-- Whoever is on the roster of an execution gets a status. -/
theorem browserExecutionStatus_ok {shared : CoordinatorRPCServerSharedBase} {e : ExecutionId} {c : ClientIdentity}
    {d : CoordinatorExecutionState} (here : shared.executions.lookup e = some d) (rostered : c ∈ d.candidates) :
    ∃ status, shared.browserExecutionStatus e c = .ok status ∧ status.totalInputs = d.registration.nInputs ∧
      status.submittedInputs = UInt64.ofNat d.maskedInputs.filled ∧
      status.totalClients = UInt64.ofNat d.assignedClients.card ∧
      status.submittedClients = UInt64.ofNat (d.assignedClients.filter fun candidate =>
        d.hasSubmitted candidate = true).card ∧
      status.ownInputReserved = (!(d.ownIndices c).isEmpty &&
        (d.ownIndices c).all fun index => decide (d.reservedIndices.read index = some c)) ∧
      status.ownInputSubmitted = (!(d.ownIndices c).isEmpty && d.hasSubmitted c) := by
  have known : ((d.ownIndices c).isEmpty && !d.outputClients.contains c) = false := by
    rw [CoordinatorExecutionState.candidates, List.mem_toFinset, List.mem_append, ← List.mem_toFinset] at rostered
    rcases rostered with assigned | output
    · obtain ⟨i, owns⟩ := CoordinatorExecutionState.mem_assignedClients.mp assigned
      have nonempty := List.ne_nil_of_mem (CoordinatorExecutionState.mem_ownIndices.mpr owns)
      simp [nonempty]
    · simp [output]
  simp only [browserExecutionStatus, here, known]
  exact ⟨_, rfl, rfl, rfl, rfl, rfl, rfl, rfl⟩

end CoordinatorRPCServerSharedBase

namespace CoordinatorBrowserState

variable {listener : CoordinatorListener} {trace : List (Transition CoordinatorBrowserState ServerEvent)}
  {final : CoordinatorBrowserState} {e : ExecutionId} {d : CoordinatorExecutionState} {c : ClientIdentity}

/-- What a browser client is told agrees with what the rounds wait for, at all
times and whoever asks, if the ranges add up to the inputs: all inputs are there
exactly if all clients have submitted, and exactly if nothing holds back the
execution. The clients that have submitted are those all of whose slots have an
input, and who has submitted its inputs has reserved them. -/
theorem status_matches_rounds (run : Run (Step listener) start trace final) (here : final.live e = some d)
    (added : ((d.registration.inputAssignment.ranges.map InputClientRange.count).map UInt64.toNat).sum =
      d.registration.nInputs.toNat) (rostered : c ∈ d.candidates) :
    ∃ status, final.coordinator.browserExecutionStatus e c = .ok status ∧
      (status.submittedInputs = status.totalInputs ↔ status.submittedClients = status.totalClients) ∧
      (d.round ≠ .preprocessing →
        (status.submittedClients = status.totalClients ↔ d.blockingPrecondition .mpcExecution = none)) ∧
      status.submittedClients.toNat = Set.ncard {client | (∃ i, d.OwnsSlot client i) ∧ d.AllSubmitted client} ∧
      (status.ownInputSubmitted = true → status.ownInputReserved = true) := by
  obtain ⟨registration, initial, _, admitted, calls⟩ := exists_run_on run here
  have covered := CoordinatorExecutionState.SlotsCovered.of_run admitted calls added
  obtain ⟨status, answered, totalInputs, submittedInputs, totalClients, submittedClients, reserved, submitted⟩ :=
    CoordinatorRPCServerSharedBase.browserExecutionStatus_ok here rostered
  have most : d.assignedClients.card < UInt64.size :=
    (CoordinatorExecutionState.card_assignedClients_le.trans_eq covered.length_eq).trans_lt d.registration.nInputs.toNat_lt
  have part := (Finset.card_filter_le d.assignedClients fun candidate => d.hasSubmitted candidate = true).trans_lt most
  have filled := (Slots.filled_le_length d.maskedInputs).trans_lt (covered.inputs.trans_lt d.registration.nInputs.toNat_lt)
  have inputs : status.submittedInputs = status.totalInputs ↔ none ∉ d.maskedInputs := by
    rw [submittedInputs, totalInputs, ← UInt64.toNat_inj, UInt64.toNat_ofNat_of_lt' filled, ← covered.inputs,
      Slots.filled_eq_length_iff]
  have clients : status.submittedClients = status.totalClients ↔ none ∉ d.maskedInputs := by
    rw [submittedClients, totalClients, ← UInt64.toNat_inj, UInt64.toNat_ofNat_of_lt' part,
      UInt64.toNat_ofNat_of_lt' most, CoordinatorExecutionState.card_submitted_eq_iff, ← covered.filled_iff,
      ← covered.inputs, Slots.filled_eq_length_iff]
  refine ⟨status, answered, inputs.trans clients.symm, fun elsewhere => ?_, ?_, ?_⟩
  · rw [clients, CoordinatorExecutionState.blockingPrecondition_none]
    exact ⟨fun complete _ _ => complete, fun free => free rfl elsewhere⟩
  · rw [submittedClients, UInt64.toNat_ofNat_of_lt' part, CoordinatorExecutionState.card_submitted]
  · rw [submitted, reserved, Bool.and_eq_true, Bool.and_eq_true, CoordinatorExecutionState.hasSubmitted_iff,
      List.all_eq_true]
    rintro ⟨own, all⟩
    refine ⟨own, fun i member => ?_⟩
    have owns := CoordinatorExecutionState.mem_ownIndices.mp member
    exact decide_eq_true (CoordinatorExecutionState.reserved_of_submitted admitted calls owns (all i owns))

open Scenario in
/-- One of two clients has submitted its two of three inputs, so the execution is
held back. -/
theorem status_matches_rounds_for_two_clients :
    ∃ trace final d status, Run (Step .recorded) start trace final ∧ final.live execution = some d ∧
      d.round = .inputCollection ∧ final.coordinator.browserExecutionStatus execution [7] = .ok status ∧
      status.submittedInputs = 2 ∧ status.totalInputs = 3 ∧ status.ownInputReserved = true ∧
      d.blockingPrecondition .mpcExecution ≠ none := by
  obtain ⟨trace, final, run, _, seen, _⟩ := exists_run_of_events .recorded
    [.register [1] CoordinatorExecutionState.twoClients [], transition .preprocessing,
      transition .inputMaskReservation, .native execution [7] (.reserveMaskIndices [0, 1] fun _ => true),
      transition .inputCollection, .native execution [7] (.submitMaskedInputs [[5], [6]] [0, 1])]
    (fun _ _ => true)
    (fun s => ((s.live execution).map fun d : CoordinatorExecutionState =>
        (d.registration, d.round, decide ([7] ∈ d.candidates)),
      (s.coordinator.browserExecutionStatus execution [7]).toOption.map fun status : BrowserExecutionStatus =>
        (status.submittedInputs, status.totalInputs, status.ownInputSubmitted)))
    (some (CoordinatorExecutionState.twoClients, Round.inputCollection, true), some (2, 3, true)) (by decide +kernel)
  obtain ⟨known, told⟩ := Prod.mk.inj seen
  obtain ⟨d, here, same⟩ := Option.map_eq_some_iff.mp known
  obtain ⟨registered, collecting, rostered⟩ : d.registration = CoordinatorExecutionState.twoClients ∧
      d.round = .inputCollection ∧ [7] ∈ d.candidates := by
    simpa using same
  obtain ⟨status, answered, clients, rounds, _, reserved⟩ :=
    status_matches_rounds run here (by rw [registered]; rfl) rostered
  obtain ⟨submitted, total, own⟩ : status.submittedInputs = 2 ∧ status.totalInputs = 3 ∧
      status.ownInputSubmitted = true := by
    simpa [answered, Except.toOption] using told
  refine ⟨trace, final, d, status, run, here, collecting, answered, submitted, total, reserved own, fun free => ?_⟩
  have complete := clients.mpr ((rounds (by rw [collecting]; decide)).mpr free)
  rw [submitted, total] at complete
  exact absurd complete (by decide)

end CoordinatorBrowserState

end MpcCoordinator
