import MpcCoordinator.Rpc
import MpcCoordinator.General.Table
import MpcCoordinator.General.Slots
import Mathlib.Data.Finset.Card
import Mathlib.Data.List.AList
import Mathlib.Data.UInt

namespace MpcCoordinator

/-- One global input slot: the index of its client and the client's own label. -/
structure InputSlotAssignment where
  clientIndex : UInt32
  label : UInt64
  deriving DecidableEq, Repr

/-- One client's contiguous block of global input slots. -/
structure InputClientRange where
  clientIndex : UInt32
  count : UInt64
  deriving DecidableEq, Repr

structure InputAssignment where
  clients : List ClientIdentity
  ranges : List InputClientRange
  deriving DecidableEq, Repr

/-- Immutable data that binds one invocation to its program and client I/O layout. -/
structure ExecutionRegistration where
  executionId : ExecutionId
  programHash : Vector UInt8 32
  nInputs : UInt64
  outputClients : List ClientIdentity
  inputAssignment : InputAssignment
  minOutputShares : UInt64
  deriving DecidableEq, Repr

/-- An execution whose input slots are assigned to nobody. -/
def ExecutionRegistration.unassigned (nInputs : UInt64) (outputClients : List ClientIdentity) :
    ExecutionRegistration where
  executionId := ⟨Vector.replicate 32 1⟩
  programHash := Vector.replicate 32 1
  nInputs := nInputs
  outputClients := outputClients
  inputAssignment := ⟨[], []⟩
  minOutputShares := 1

/-- What a `submit_masked_inputs` call carries from its first critical section
to its second: the subscriber lists it took and the messages it sends them. -/
structure PendingSubmission where
  sinks : List SubscriptionSink
  assignedSinks : List SubscriptionSink
  event : Event
  assignedEvents : List AssignedMaskedInputEvent
  deriving DecidableEq, Repr

abbrev EncryptedShares := Bytes × Bytes

/-- All mutable protocol state for one program invocation. The delivery mutex
is represented by its holder: the submission between its critical sections. -/
structure CoordinatorExecutionState where
  registration : ExecutionRegistration
  retirementAcks : Finset ClientIdentity
  transitionVotes : Table Round (Finset ClientIdentity)
  sinks : Table Round (List SubscriptionSink)
  transEvents : Table Round Event
  reservedIndexEvents : List Event
  reservedIndexSinks : List SubscriptionSink
  assignedReservedIndexEvents : List AssignedMaskReservation
  assignedReservedIndexSinks : List SubscriptionSink
  maskedInputEvents : List Event
  maskedInputSinks : List SubscriptionSink
  assignedMaskedInputEvents : List AssignedMaskedInputEvent
  assignedMaskedInputSinks : List SubscriptionSink
  maskedInputDelivery : Option PendingSubmission
  nReserved : UInt64
  reservedIndices : Slots ClientIdentity
  maskedInputs : Slots Bytes
  round : Round
  outputShares : AList (fun _ : ClientIdentity × ClientIdentity => EncryptedShares)
  outputSinks : Table ClientIdentity SubscriptionSink
  outputClients : List ClientIdentity
  inputAssignments : List InputSlotAssignment

/-- Expands the wire-compact ranges into one entry per global slot, with each
range's own labels numbered from zero. -/
def expandInputRanges (ranges : List InputClientRange) : List InputSlotAssignment :=
  ranges.flatMap fun range =>
    (List.range range.count.toNat).map fun label => ⟨range.clientIndex, UInt64.ofNat label⟩

/-- A machine sum wraps, so it is at most the true sum. -/
theorem toNat_sum_le (counts : List UInt64) : counts.sum.toNat ≤ (counts.map UInt64.toNat).sum := by
  induction counts with
  | nil => simp
  | cons count rest ih =>
    simp only [List.sum_cons, List.map_cons, UInt64.toNat_add]
    have wrapped := Nat.mod_le (count.toNat + rest.sum.toNat) (2 ^ 64)
    omega

theorem length_expandInputRanges (ranges : List InputClientRange) :
    (expandInputRanges ranges).length = ((ranges.map InputClientRange.count).map UInt64.toNat).sum := by
  simp only [expandInputRanges, List.length_flatMap, List.length_map, List.length_range, List.map_map]
  rfl

namespace CoordinatorExecutionState

/-- The state every admitted execution starts in. -/
def fresh (registration : ExecutionRegistration) : CoordinatorExecutionState where
  registration := registration
  retirementAcks := ∅
  transitionVotes := Table.empty
  sinks := Table.empty
  transEvents := Table.empty
  reservedIndexEvents := []
  reservedIndexSinks := []
  assignedReservedIndexEvents := []
  assignedReservedIndexSinks := []
  maskedInputEvents := []
  maskedInputSinks := []
  assignedMaskedInputEvents := []
  assignedMaskedInputSinks := []
  maskedInputDelivery := none
  nReserved := 0
  reservedIndices := List.replicate registration.nInputs.toNat none
  maskedInputs := List.replicate registration.nInputs.toNat none
  round := .idle
  outputShares := ∅
  outputSinks := Table.empty
  outputClients := registration.outputClients
  inputAssignments := expandInputRanges registration.inputAssignment.ranges

/-- Admits a registration. The sum of the range counts is the machine sum,
which wraps as it does in a release build. -/
def new (registration : ExecutionRegistration) (n : UInt64) :
    Except CoordinatorError CoordinatorExecutionState :=
  let rangesTotal := (registration.inputAssignment.ranges.map InputClientRange.count).sum
  let nClients := registration.inputAssignment.clients.length
  if registration.executionId.isZero then
    .error (.jsonError "execution ID must be nonzero")
  else if registration.programHash = Vector.replicate 32 0 then
    .error (.jsonError "program hash must be nonzero")
  else if ¬ registration.inputAssignment.ranges.isEmpty ∧ registration.nInputs ≠ rangesTotal then
    .error (.jsonError s!"Input assignment covers {rangesTotal} inputs, but coordinator was configured with {registration.nInputs} inputs")
  else
    match registration.inputAssignment.ranges.find? fun range => decide (nClients ≤ range.clientIndex.toNat) with
    | some range =>
      .error (.jsonError s!"Input range references client_index {range.clientIndex}, but only {nClients} clients were provided")
    | none =>
      if registration.minOutputShares = 0 ∨ n < registration.minOutputShares then
        .error (.jsonError s!"Output quorum {registration.minOutputShares} must be between 1 and {n}")
      else
        .ok (fresh registration)

theorem new_cases {registration : ExecutionRegistration} {n : UInt64} {d : CoordinatorExecutionState}
    (admitted : new registration n = .ok d) :
    d = fresh registration ∧
      (registration.inputAssignment.ranges = [] ∨
        registration.nInputs = (registration.inputAssignment.ranges.map InputClientRange.count).sum) ∧
      (∀ range ∈ registration.inputAssignment.ranges,
        range.clientIndex.toNat < registration.inputAssignment.clients.length) ∧
      registration.minOutputShares ≠ 0 ∧ registration.minOutputShares ≤ n := by
  simp only [new] at admitted
  split at admitted
  · cases admitted
  split at admitted
  · cases admitted
  split at admitted
  · cases admitted
  rename_i covers
  split at admitted
  · cases admitted
  rename_i clients
  split at admitted
  · cases admitted
  rename_i quorum
  cases admitted
  simp only [List.find?_eq_none, decide_eq_true_eq, Nat.not_le] at clients
  simp only [not_or, UInt64.not_lt] at quorum
  refine ⟨rfl, ?_, clients, quorum.1, quorum.2⟩
  simp only [not_and, List.isEmpty_iff, ne_eq, not_not] at covers
  by_cases empty : registration.inputAssignment.ranges = []
  · exact Or.inl empty
  · exact Or.inr (covers empty)

/-- The expanded assignment covers every input, even where its sum wraps. -/
theorem inputs_covered {registration : ExecutionRegistration} {n : UInt64} {initial : CoordinatorExecutionState}
    (admitted : new registration n = .ok initial)
    (assigned : registration.inputAssignment.ranges ≠ []) :
    registration.nInputs.toNat ≤ (expandInputRanges registration.inputAssignment.ranges).length := by
  have total := (new_cases admitted).2.1.resolve_left assigned
  rw [total, length_expandInputRanges]
  exact toNat_sum_le _

theorem new_unassigned (nInputs : UInt64) (outputClients : List ClientIdentity) :
    new (.unassigned nInputs outputClients) 1 = .ok (fresh (.unassigned nInputs outputClients)) := rfl

/-- Resolves an input slot's owning client identity. -/
def inputSlotClient (d : CoordinatorExecutionState) (slot : InputSlotAssignment) : Option ClientIdentity :=
  d.registration.inputAssignment.clients[slot.clientIndex.toNat]?

/-- The number of input masks left, in the machine subtraction of the code. -/
def availableInputMasks (d : CoordinatorExecutionState) : UInt64 :=
  UInt64.ofNat d.maskedInputs.length - d.nReserved

end CoordinatorExecutionState

end MpcCoordinator
