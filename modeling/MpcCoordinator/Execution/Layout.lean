import MpcCoordinator.General.Blocks
import MpcCoordinator.Execution.Coherent
import MpcCoordinator.Execution.Provenance

namespace MpcCoordinator

/-- The blocks of global input slots that the ranges stand for. -/
def inputBlocks (ranges : List InputClientRange) : Blocks UInt32 :=
  ranges.map fun range => (range.clientIndex, range.count.toNat)

theorem inputBlocks_append_cons {ranges : List InputClientRange} {before after : Blocks UInt32} {clientIndex : UInt32}
    {count : Nat} : inputBlocks ranges = before ++ (clientIndex, count) :: after ↔
      ∃ earlier range later, ranges = earlier ++ range :: later ∧ inputBlocks earlier = before ∧
        range.clientIndex = clientIndex ∧ range.count.toNat = count ∧ inputBlocks later = after := by
  simp only [inputBlocks, List.map_eq_append_iff, List.map_eq_cons_iff, Prod.mk.injEq]
  constructor
  · rintro ⟨earlier, _, rfl, rfl, range, later, rfl, ⟨rfl, rfl⟩, rfl⟩
    exact ⟨earlier, range, later, rfl, rfl, rfl, rfl, rfl⟩
  · rintro ⟨earlier, range, later, rfl, rfl, rfl, rfl, rfl⟩
    exact ⟨earlier, range :: later, rfl, rfl, range, later, rfl, ⟨rfl, rfl⟩, rfl⟩

theorem total_inputBlocks (ranges : List InputClientRange) :
    Blocks.total (inputBlocks ranges) = ((ranges.map InputClientRange.count).map UInt64.toNat).sum := by
  induction ranges with
  | nil => rfl
  | cons range rest ih => exact congrArg (range.count.toNat + ·) ih

/-- The expansion is that of the blocks: a label is below a machine count, so it
is not cut off. -/
theorem expandInputRanges_blocks (ranges : List InputClientRange) :
    (expandInputRanges ranges).map (fun slot => (slot.clientIndex, slot.label.toNat)) =
      Blocks.expand (inputBlocks ranges) := by
  simp only [expandInputRanges, Blocks.expand, inputBlocks, List.map_flatMap, List.flatMap_map, List.map_map]
  refine congrArg ranges.flatMap (funext fun range => List.map_congr_left fun label member => ?_)
  have below := (List.mem_range.mp member).trans range.count.toNat_lt
  simp [UInt64.toNat_ofNat_of_lt' below]

/-- A slot belongs to the range whose block it falls in, and its label is its
distance from the start of the block. -/
theorem getElem?_expandInputRanges {ranges : List InputClientRange} {i : Nat} {slot : InputSlotAssignment} :
    (expandInputRanges ranges)[i]? = some slot ↔ ∃ before range after, ranges = before ++ range :: after ∧
      slot.clientIndex = range.clientIndex ∧ slot.label < range.count ∧
      i = ((before.map InputClientRange.count).map UInt64.toNat).sum + slot.label.toNat := by
  have place : (expandInputRanges ranges)[i]? = some slot ↔
      (Blocks.expand (inputBlocks ranges))[i]? = some (slot.clientIndex, slot.label.toNat) := by
    rw [← expandInputRanges_blocks, List.getElem?_map, Option.map_eq_some_iff]
    constructor
    · intro found
      exact ⟨slot, found, rfl⟩
    · rintro ⟨⟨client, label⟩, found, same⟩
      obtain ⟨rfl, labels⟩ := Prod.mk.inj same
      obtain rfl : label = slot.label := UInt64.toNat_inj.mp labels
      exact found
  rw [place, Blocks.getElem?_expand_iff]
  constructor
  · rintro ⟨_, _, _, split, below, position⟩
    obtain ⟨before, range, after, rfl, rfl, client, rfl, rfl⟩ := inputBlocks_append_cons.mp split
    exact ⟨before, range, after, rfl, client.symm, below, by rw [← total_inputBlocks]; exact position⟩
  · rintro ⟨before, range, after, rfl, client, below, position⟩
    exact ⟨inputBlocks before, range.count.toNat, inputBlocks after,
      inputBlocks_append_cons.mpr ⟨before, range, after, rfl, rfl, client.symm, rfl, rfl⟩, below,
      by rw [total_inputBlocks]; exact position⟩

theorem expandInputRanges_eq_nil_iff {ranges : List InputClientRange} :
    expandInputRanges ranges = [] ↔ ∀ range ∈ ranges, range.count = 0 := by
  rw [← List.map_eq_nil_iff, expandInputRanges_blocks, Blocks.expand_eq_nil_iff]
  simp [inputBlocks, ← UInt64.toNat_inj]

/-- A machine sum is the true sum while that fits. -/
theorem toNat_sum_of_lt {counts : List UInt64} (fits : (counts.map UInt64.toNat).sum < UInt64.size) :
    counts.sum.toNat = (counts.map UInt64.toNat).sum := by
  induction counts with
  | nil => rfl
  | cons count rest ih =>
    simp only [List.map_cons, List.sum_cons] at fits ⊢
    rw [UInt64.toNat_add, ih (by omega), Nat.mod_eq_of_lt fits]

namespace CoordinatorExecutionState

variable {topology : Topology} {registration : ExecutionRegistration} {n : UInt64}
  {initial final d d' : CoordinatorExecutionState} {call : Call}
  {trace : List (Transition CoordinatorExecutionState Call)}

/-- A registration whose slots are well assigned is admitted if its identifiers
and its quorum are. -/
theorem new_of_assigned (covered : registration.inputAssignment.ranges = [] ∨
      registration.nInputs = (registration.inputAssignment.ranges.map InputClientRange.count).sum)
    (known : ∀ range ∈ registration.inputAssignment.ranges,
      range.clientIndex.toNat < registration.inputAssignment.clients.length) :
    new registration n = .ok (fresh registration) ↔ registration.executionId.isZero = false ∧
      registration.programHash ≠ Vector.replicate 32 0 ∧ registration.minOutputShares ≠ 0 ∧
      registration.minOutputShares ≤ n := by
  have counted : ¬ (¬ registration.inputAssignment.ranges.isEmpty ∧
      registration.nInputs ≠ (registration.inputAssignment.ranges.map InputClientRange.count).sum) := by
    rcases covered with none | same
    · simp [none]
    · simp [same]
  have found : registration.inputAssignment.ranges.find? (fun range =>
      decide (registration.inputAssignment.clients.length ≤ range.clientIndex.toNat)) = none := by
    rw [List.find?_eq_none]
    intro range member
    simpa using known range member
  simp only [new, found, if_neg counted]
  by_cases zero : registration.executionId.isZero = true
  · simp [zero]
  · by_cases blank : registration.programHash = Vector.replicate 32 0
    · simp [zero, blank]
    · by_cases few : registration.minOutputShares = 0 ∨ n < registration.minOutputShares
      · simp only [zero, blank, if_pos few]
        refine iff_of_false (fun done => ?_) ?_
        · cases done
        rintro ⟨_, _, some, enough⟩
        exact few.elim some (UInt64.not_lt.mpr enough)
      · obtain ⟨some, enough⟩ := not_or.mp few
        simp [zero, blank, some, UInt64.not_lt.mp enough]

/-- How many elements of `size` bytes a `Vec` can hold: it never has more than
`isize::MAX` bytes, and one that has to grow beyond panics. -/
def vecCapacity (size : Nat) : Nat := 0x7fffffffffffffff / size

/-- `new` with the tables it allocates once the checks have passed; `none` is a
panic of one of them. An entry of the reservations or of the inputs is an
optional byte vector of 24 bytes, an entry of the slots has 16. -/
def newAllocated (registration : ExecutionRegistration) (n : UInt64) :
    Option (Except CoordinatorError CoordinatorExecutionState) :=
  match new registration n with
  | .error refused => some (.error refused)
  | .ok d =>
    if vecCapacity 24 < d.reservedIndices.length then none
    else if vecCapacity 24 < d.maskedInputs.length then none
    else if vecCapacity 16 < d.inputAssignments.length then none
    else some (.ok d)

theorem newAllocated_ok (accepted : newAllocated registration n = some (.ok d)) :
    new registration n = .ok d ∧ d.inputAssignments.length ≤ vecCapacity 16 := by
  unfold newAllocated at accepted
  split at accepted
  · cases accepted
  · rename_i admitted
    split at accepted
    · cases accepted
    split at accepted
    · cases accepted
    split at accepted
    · cases accepted
    rename_i held
    cases accepted
    exact ⟨admitted, Nat.le_of_not_lt held⟩

/-- The slots of an assignment that fits into memory are as many as the inputs:
if its sum wrapped, there would be at least `2 ^ 64` slots. -/
theorem length_slots (accepted : newAllocated registration n = some (.ok d))
    (assigned : registration.inputAssignment.ranges ≠ []) :
    (expandInputRanges registration.inputAssignment.ranges).length = registration.nInputs.toNat := by
  obtain ⟨admitted, held⟩ := newAllocated_ok accepted
  rw [(new_cases admitted).1] at held
  have small : vecCapacity 16 < UInt64.size := by decide
  have fits := held.trans_lt small
  rw [(new_cases admitted).2.1.resolve_left assigned, length_expandInputRanges]
  rw [fresh, length_expandInputRanges] at fits
  exact (toNat_sum_of_lt fits).symm

/-- The owner of each range that is not empty. -/
def inputOwners (registration : ExecutionRegistration) : List (Option ClientIdentity) :=
  (registration.inputAssignment.ranges.filter fun range => decide (0 < range.count)).map fun range =>
    registration.inputAssignment.clients[range.clientIndex.toNat]?

/-- An input is identified by its client and its ordinal there. -/
structure OrdinalsIdentify (topology : Topology) (d : CoordinatorExecutionState) : Prop where
  slots : (d.inputAssignments.map fun slot => (d.inputSlotClient slot, slot.label)).Nodup
  labels : ∀ client,
    (d.inputAssignments.filter fun slot => decide (d.inputSlotClient slot = some client)).map (·.label.toNat) =
      List.range (d.inputAssignments.countP fun slot => decide (d.inputSlotClient slot = some client))
  reservations : ∀ trace final, Run (Step topology) d trace final →
    ∀ first ∈ final.assignedReservedIndexEvents, ∀ second ∈ final.assignedReservedIndexEvents,
      first.client = second.client → first.inputOrdinal = second.inputOrdinal →
        first.reservedIndex = second.reservedIndex
  inputs : ∀ trace final, Run (Step topology) d trace final →
    ∀ first ∈ final.assignedMaskedInputEvents, ∀ second ∈ final.assignedMaskedInputEvents,
      first.client = second.client → first.inputOrdinal = second.inputOrdinal →
        first.reservedIndex = second.reservedIndex

/-- The blocks of slots under the identities that own them. -/
def ownerBlocks (registration : ExecutionRegistration) : Blocks (Option ClientIdentity) :=
  (inputBlocks registration.inputAssignment.ranges).map fun block =>
    (registration.inputAssignment.clients[block.1.toNat]?, block.2)

theorem holders_ownerBlocks (registration : ExecutionRegistration) :
    Blocks.holders (ownerBlocks registration) = inputOwners registration := by
  simp only [Blocks.holders, ownerBlocks, inputBlocks, inputOwners, List.filter_map, List.map_map]
  rfl

/-- The owners and labels of the slots are the places of the blocks. -/
theorem Coherent.slots_eq (coherent : Coherent registration d) :
    d.inputAssignments.map (fun slot => (d.inputSlotClient slot, slot.label.toNat)) =
      Blocks.expand (ownerBlocks registration) := by
  rw [ownerBlocks, Blocks.expand_map fun index : UInt32 => registration.inputAssignment.clients[index.toNat]?,
    ← expandInputRanges_blocks, List.map_map, coherent.inputAssignments_eq]
  simp only [inputSlotClient, coherent.registration_eq]
  rfl

theorem Coherent.slots_nodup_iff (coherent : Coherent registration d) :
    (d.inputAssignments.map fun slot => (d.inputSlotClient slot, slot.label)).Nodup ↔
      (inputOwners registration).Nodup := by
  rw [← holders_ownerBlocks, ← Blocks.nodup_expand_iff, ← coherent.slots_eq]
  have apart : Function.Injective (fun key : Option ClientIdentity × UInt64 => (key.1, key.2.toNat)) := by
    rintro ⟨_, _⟩ ⟨_, _⟩ same
    simpa [UInt64.toNat_inj] using same
  rw [← List.nodup_map_iff apart, List.map_map]
  rfl

theorem Coherent.labels_eq (coherent : Coherent registration d) (distinct : (inputOwners registration).Nodup)
    (client : ClientIdentity) :
    (d.inputAssignments.filter fun slot => decide (d.inputSlotClient slot = some client)).map (·.label.toNat) =
      List.range (d.inputAssignments.countP fun slot => decide (d.inputSlotClient slot = some client)) := by
  rw [← holders_ownerBlocks] at distinct
  have labels := Blocks.labels_expand distinct (some client)
  rw [← coherent.slots_eq, List.filter_map, List.map_map, List.countP_map] at labels
  exact labels

/-- An index is that of a slot of the client, under the slot's label. -/
def NamesSlot (d : CoordinatorExecutionState) (client : ClientIdentity) (i ordinal : UInt64) : Prop :=
  ∃ slot, d.inputAssignments[i.toNat]? = some slot ∧ d.inputSlotClient slot = some client ∧ slot.label = ordinal

theorem NamesSlot.unique {client : ClientIdentity} {i j ordinal : UInt64}
    (distinct : (d.inputAssignments.map fun slot => (d.inputSlotClient slot, slot.label)).Nodup)
    (first : NamesSlot d client i ordinal) (second : NamesSlot d client j ordinal) : i = j := by
  obtain ⟨one, found, owner, label⟩ := first
  obtain ⟨other, found', owner', label'⟩ := second
  have bound : i.toNat < d.inputAssignments.length := (List.getElem?_eq_some_iff.mp found).1
  refine UInt64.toNat_inj.mp ((List.getElem?_inj (by simpa using bound) distinct).mp ?_)
  rw [List.getElem?_map, List.getElem?_map, found, found', Option.map_some, Option.map_some, owner, owner', label, label']

/-- Events that name slots are about one index where they have one client and
ordinal. -/
theorem index_unique {α : Type} {events : List α} {client : α → ClientIdentity} {index ordinal : α → UInt64}
    (distinct : (d.inputAssignments.map fun slot => (d.inputSlotClient slot, slot.label)).Nodup)
    (named : ∀ event ∈ events, NamesSlot d (client event) (index event) (ordinal event)) :
    ∀ first ∈ events, ∀ second ∈ events, client first = client second → ordinal first = ordinal second →
      index first = index second := by
  intro first one second other owner label
  have here := named first one
  rw [owner, label] at here
  exact here.unique distinct (named second other)

/-- Every assigned event is about a slot of its client. -/
structure Labelled (d : CoordinatorExecutionState) : Prop where
  reservations : ∀ event ∈ d.assignedReservedIndexEvents,
    NamesSlot d event.client event.reservedIndex event.inputOrdinal
  inputs : ∀ event ∈ d.assignedMaskedInputEvents, NamesSlot d event.client event.reservedIndex event.inputOrdinal

theorem Labelled.step (labelled : Labelled d) (owners : ∀ i id, d.reservedIndices.read i = some id →
    ∀ slot, d.inputAssignments[i]? = some slot → d.inputSlotClient slot = some id)
    (step : Step topology d call d') : Labelled d' := by
  cases step.recorded with
  | nothing same =>
    rw [same]
    exact ⟨labelled.reservations, labelled.inputs⟩
  | @reservation id indices _ _ checked same =>
    obtain ⟨_, _, _, checks⟩ := checkReservation_ok.mp checked
    rw [same]
    refine ⟨fun event member => ?_, labelled.inputs⟩
    rcases List.mem_append.mp member with old | new
    · exact labelled.reservations event old
    · obtain ⟨i, named, made⟩ := List.mem_filterMap.mp new
      obtain ⟨slot, found, rfl⟩ := Option.map_eq_some_iff.mp made
      exact ⟨slot, found, (checks i named).2.2 slot found, rfl⟩
  | @submission id maskedInputs reservedIndices checked =>
    obtain ⟨_, _, _, checks⟩ := checkSubmission_ok.mp checked
    refine ⟨labelled.reservations, fun event member => ?_⟩
    rcases List.mem_append.mp member with old | new
    · exact labelled.inputs event old
    · obtain ⟨pair, named, made⟩ := List.mem_filterMap.mp new
      obtain ⟨slot, found, rfl⟩ := Option.map_eq_some_iff.mp made
      have owned := (checks pair.1 (List.of_mem_zip named).1).2.1
      exact ⟨slot, found, owners _ id owned slot found, rfl⟩

theorem Labelled.of_run (admitted : new registration n = .ok initial)
    (run : Run (Step topology) initial trace final) : Labelled final := by
  induction run with
  | start =>
    rw [(new_cases admitted).1]
    exact ⟨by simp [fresh], by simp [fresh]⟩
  | next before step ih =>
    have origin := (Provenance.of_run admitted before).1
    exact ih.step (fun i id held => (origin.reserved i id held).2) step

/-- Client and ordinal identify every input of an admitted execution exactly if
the ranges that are not empty belong to different identities. -/
theorem ordinalsIdentify_iff (admitted : new registration n = .ok initial) :
    OrdinalsIdentify topology initial ↔ (inputOwners registration).Nodup := by
  have coherent := Coherent.of_new admitted
  constructor
  · intro identify
    exact coherent.slots_nodup_iff.mp identify.slots
  · intro distinct
    refine ⟨coherent.slots_nodup_iff.mpr distinct, coherent.labels_eq distinct, ?_, ?_⟩
    · intro trace final run
      exact index_unique ((Coherent.of_run admitted run).slots_nodup_iff.mpr distinct)
        (Labelled.of_run admitted run).reservations
    · intro trace final run
      exact index_unique ((Coherent.of_run admitted run).slots_nodup_iff.mpr distinct)
        (Labelled.of_run admitted run).inputs

/-- An execution whose input slots are assigned by ranges. -/
def assignedTo (nInputs : UInt64) (clients : List ClientIdentity) (ranges : List InputClientRange) :
    ExecutionRegistration :=
  { ExecutionRegistration.unassigned nInputs [] with inputAssignment := ⟨clients, ranges⟩ }

/-- Two clients, the first of which has two inputs. -/
def twoClients : ExecutionRegistration := assignedTo 3 [[7], [8]] [⟨0, 2⟩, ⟨1, 1⟩]

theorem new_twoClients : new twoClients 1 = .ok (fresh twoClients) := rfl

theorem ordinalsIdentify_for_two_clients :
    new twoClients 1 = .ok (fresh twoClients) ∧ OrdinalsIdentify (.lone [1]) (fresh twoClients) :=
  ⟨new_twoClients, (ordinalsIdentify_iff new_twoClients).mpr (by decide)⟩

/-- Calls of one node and one client, who reserves both inputs and submits them. -/
def bothInputs : List Call :=
  [⟨[1], .transition .preprocessing, .ok ()⟩, ⟨[1], .transition .inputMaskReservation, .ok ()⟩,
    ⟨[7], .reserveMaskIndices [0, 1] (fun _ => true), .ok ()⟩, ⟨[1], .transition .inputCollection, .ok ()⟩,
    ⟨[7], .submitMaskedInputs [[5], [6]] [0, 1], .ok ()⟩]

/-- A client with two ranges has two inputs that both are its first one, as has
a client that is listed twice. -/
theorem ordinals_repeated :
    ∃ initial trace final, new (assignedTo 2 [[7]] [⟨0, 1⟩, ⟨0, 1⟩]) 1 = .ok initial ∧
      Run (Step (.lone [1])) initial trace final ∧
      final.assignedReservedIndexEvents = [⟨[7], 0, 0⟩, ⟨[7], 1, 0⟩] ∧
      final.assignedMaskedInputEvents = [⟨[7], 0, 0, [5]⟩, ⟨[7], 1, 0, [6]⟩] ∧
      ¬ OrdinalsIdentify (.lone [1]) initial ∧
      ∃ other, new (assignedTo 2 [[7], [7]] [⟨0, 1⟩, ⟨1, 1⟩]) 1 = .ok other ∧
        other.inputAssignments.map (fun slot => (other.inputSlotClient slot, slot.label)) =
          [(some [7], 0), (some [7], 0)] := by
  obtain ⟨trace, final, run, _, seen⟩ := exists_run_of_calls (.lone [1])
    (fresh (assignedTo 2 [[7]] [⟨0, 1⟩, ⟨0, 1⟩])) bothInputs
    (fun d => (d.assignedReservedIndexEvents, d.assignedMaskedInputEvents))
    ([⟨[7], 0, 0⟩, ⟨[7], 1, 0⟩], [⟨[7], 0, 0, [5]⟩, ⟨[7], 1, 0, [6]⟩]) (by decide +kernel)
  obtain ⟨reserved, submitted⟩ := Prod.mk.inj seen
  refine ⟨_, trace, final, rfl, run, reserved, submitted, fun identify => ?_, _, rfl, by decide⟩
  exact absurd identify.slots (by decide)

end CoordinatorExecutionState

end MpcCoordinator
