import MpcCoordinator.Browser.Bind
import MpcCoordinator.Execution.Layout
import MpcCoordinator.Execution.Outputs

namespace MpcCoordinator

/-- What a browser client is told about an execution. -/
structure BrowserExecutionStatus where
  round : Round
  inputIndices : List UInt64
  totalInputs : UInt64
  reservedInputs : UInt64
  submittedInputs : UInt64
  totalClients : UInt64
  submittedClients : UInt64
  ownInputReserved : Bool
  ownInputSubmitted : Bool
  outputReady : Bool
  deriving DecidableEq, Repr

namespace CoordinatorExecutionState

variable (d : CoordinatorExecutionState)

/-- The global input slots assigned to a client. They are slots of the tables:
only an assignment of `2 ^ 64` slots, which no memory holds, could run past them. -/
def ownIndices (client : ClientIdentity) : List Nat :=
  d.inputAssignments.zipIdx.filterMap fun entry =>
    if d.inputSlotClient entry.1 = some client then some entry.2 else none

def assignedClients : Finset ClientIdentity := (d.inputAssignments.filterMap d.inputSlotClient).toFinset

/-- Every slot assigned to a client has an input. -/
def hasSubmitted (client : ClientIdentity) : Bool :=
  (d.ownIndices client).all fun index => (d.maskedInputs.read index).isSome

def outputShareCount (client : ClientIdentity) : Nat :=
  (d.outputShares.keys.filter fun key => decide (key.1 = client)).length

/-- The parties that have sent a share for a client, in the order of the map. -/
def senders (client : ClientIdentity) : List ClientIdentity :=
  (d.outputShares.entries.filter fun entry => decide (entry.1.1 = client)).map fun entry => entry.1.2

end CoordinatorExecutionState

namespace CoordinatorRPCServerSharedBase

variable (shared : CoordinatorRPCServerSharedBase) (executionId : ExecutionId) (client : ClientIdentity)

def browserExecutionStatus : RpcResult BrowserExecutionStatus :=
  match shared.executions.lookup executionId with
  | none => executionNotRegistered
  | some execution =>
    let inputIndices := execution.ownIndices client
    let authorizedForOutput := execution.outputClients.contains client
    if inputIndices.isEmpty && !authorizedForOutput then
      rpcError (-32012) "client is not assigned an input or authorized for output"
    else .ok {
      round := execution.round
      inputIndices := inputIndices.map UInt64.ofNat
      totalInputs := execution.registration.nInputs
      reservedInputs := UInt64.ofNat execution.reservedIndices.filled
      submittedInputs := UInt64.ofNat execution.maskedInputs.filled
      totalClients := UInt64.ofNat execution.assignedClients.card
      submittedClients := UInt64.ofNat (execution.assignedClients.filter fun candidate =>
        execution.hasSubmitted candidate = true).card
      ownInputReserved := !inputIndices.isEmpty &&
        inputIndices.all fun index => decide (execution.reservedIndices.read index = some client)
      ownInputSubmitted := !inputIndices.isEmpty && execution.hasSubmitted client
      outputReady := authorizedForOutput &&
        decide (execution.registration.minOutputShares.toNat ≤ execution.outputShareCount client) }

def browserOutputShares : RpcResult (Option (List EncryptedShares)) :=
  match shared.executions.lookup executionId with
  | none => executionNotRegistered
  | some execution =>
    if execution.outputClients.contains client = false then rpcError (-32012) "client is not authorized for output"
    else if (execution.storedShares client).length < execution.registration.minOutputShares.toNat then .ok none
    else .ok (some (execution.storedShares client))

end CoordinatorRPCServerSharedBase

namespace CoordinatorExecutionState

variable {d : CoordinatorExecutionState} {c p : ClientIdentity}

theorem outputShareCount_eq : d.outputShareCount c = (d.storedShares c).length := by
  simp only [outputShareCount, storedShares, AList.keys, List.keys, List.filter_map, List.length_map]
  rfl

theorem mem_senders : p ∈ d.senders c ↔ (d.outputShares.lookup (c, p)).isSome = true := by
  simp only [senders, List.mem_map, List.mem_filter, decide_eq_true_eq, Option.isSome_iff_exists]
  constructor
  · rintro ⟨⟨⟨client, party⟩, share⟩, ⟨member, rfl⟩, rfl⟩
    exact ⟨share, AList.mem_lookup_iff.mpr member⟩
  · rintro ⟨share, held⟩
    exact ⟨⟨(c, p), share⟩, ⟨AList.mem_lookup_iff.mp held, rfl⟩, rfl⟩

/-- No party has two shares stored for a client. -/
theorem senders_nodup : (d.senders c).Nodup := by
  have distinct := (List.nodupKeys_iff_pairwise.mp d.outputShares.nodupKeys).filter fun entry => decide (entry.1.1 = c)
  rw [senders, List.Nodup, List.pairwise_map]
  refine distinct.imp_of_mem ?_
  intro first second inside within different same
  have mine := of_decide_eq_true (List.mem_filter.mp inside).2
  have too := of_decide_eq_true (List.mem_filter.mp within).2
  exact different (Prod.ext (mine.trans too.symm) same)

/-- The stored shares are those of the senders, one for each. -/
theorem storedShares_of_senders :
    List.Forall₂ (fun p share => d.outputShares.lookup (c, p) = some share) (d.senders c) (d.storedShares c) := by
  rw [senders, storedShares, List.forall₂_map_left_iff, List.forall₂_map_right_iff, List.forall₂_same]
  rintro ⟨⟨client, party⟩, share⟩ member
  obtain ⟨listed, mine⟩ := List.mem_filter.mp member
  obtain rfl : client = c := of_decide_eq_true mine
  exact AList.mem_lookup_iff.mpr listed

theorem lt_of_mem_ownIndices {index : Nat} (member : index ∈ d.ownIndices c) : index < d.inputAssignments.length := by
  obtain ⟨entry, inside, made⟩ := List.mem_filterMap.mp member
  split at made
  · cases made
    have bound := List.snd_lt_of_mem_zipIdx inside
    omega
  · cases made

/-- The slot table of an accepted execution is consistent at all times: it is
empty or has as many entries as the two tables, every entry is where the ranges
put it, and the positions of a client's slots, by which its status and a binding
of it read the tables, are within them. -/
theorem slotTable_consistent {topology : Topology} {registration : ExecutionRegistration} {n : UInt64}
    {initial final : CoordinatorExecutionState} {trace : List (Transition CoordinatorExecutionState Call)}
    (accepted : newAllocated registration n = some (.ok initial)) (run : Run (Step topology) initial trace final) :
    (final.inputAssignments = [] ↔ ∀ range ∈ registration.inputAssignment.ranges, range.count = 0) ∧
    (final.inputAssignments ≠ [] → final.inputAssignments.length = registration.nInputs.toNat ∧
      final.reservedIndices.length = registration.nInputs.toNat ∧
      final.maskedInputs.length = registration.nInputs.toNat) ∧
    (∀ i slot, final.inputAssignments[i]? = some slot ↔ ∃ before range after,
      registration.inputAssignment.ranges = before ++ range :: after ∧ slot.clientIndex = range.clientIndex ∧
        slot.label < range.count ∧ i = ((before.map InputClientRange.count).map UInt64.toNat).sum + slot.label.toNat) ∧
    (∀ slot ∈ final.inputAssignments, slot.clientIndex.toNat < registration.inputAssignment.clients.length) ∧
    ∀ client, ∀ index ∈ final.ownIndices client,
      index < final.reservedIndices.length ∧ index < final.maskedInputs.length := by
  have admitted := (newAllocated_ok accepted).1
  have coherent := Coherent.of_run admitted run
  have lengths : final.inputAssignments ≠ [] → final.inputAssignments.length = registration.nInputs.toNat := by
    intro slots
    rw [coherent.inputAssignments_eq] at slots ⊢
    exact length_slots accepted (by rintro empty; rw [empty] at slots; exact slots rfl)
  refine ⟨?_, ?_, ?_, ?_, ?_⟩
  · rw [coherent.inputAssignments_eq]
    exact expandInputRanges_eq_nil_iff
  · intro slots
    exact ⟨lengths slots, coherent.reservedIndices_length, coherent.maskedInputs_length⟩
  · intro i slot
    rw [coherent.inputAssignments_eq]
    exact getElem?_expandInputRanges
  · intro slot member
    rw [coherent.inputAssignments_eq] at member
    obtain ⟨i, found⟩ := List.mem_iff_getElem?.mp member
    obtain ⟨before, range, after, split, client, _⟩ := getElem?_expandInputRanges.mp found
    rw [client]
    exact (new_cases admitted).2.2.1 range (by simp [split])
  · intro client index own
    have within := lt_of_mem_ownIndices own
    rw [lengths (List.ne_nil_of_length_pos (by omega))] at within
    rw [coherent.reservedIndices_length, coherent.maskedInputs_length]
    exact ⟨within, within⟩

theorem slotTable_consistent_for_two_clients :
    newAllocated twoClients 1 = some (.ok (fresh twoClients)) ∧ (fresh twoClients).ownIndices [7] = [0, 1] ∧
      ∀ index ∈ (fresh twoClients).ownIndices [7], index < (fresh twoClients).maskedInputs.length := by
  have accepted : newAllocated twoClients 1 = some (.ok (fresh twoClients)) := rfl
  have first : Run (Step (.lone [1])) (fresh twoClients) [] (fresh twoClients) := .start
  obtain ⟨_, _, _, _, within⟩ := slotTable_consistent accepted first
  exact ⟨accepted, by decide, fun index own => (within [7] index own).2⟩

end CoordinatorExecutionState

namespace CoordinatorRPCServerSharedBase

variable {shared : CoordinatorRPCServerSharedBase} {e : ExecutionId} {c : ClientIdentity}
  {d : CoordinatorExecutionState}

theorem browserOutputShares_some {shares : List EncryptedShares} :
    shared.browserOutputShares e c = .ok (some shares) ↔ ∃ d, shared.executions.lookup e = some d ∧
      c ∈ d.outputClients ∧ d.registration.minOutputShares.toNat ≤ (d.storedShares c).length ∧
      shares = d.storedShares c := by
  unfold browserOutputShares executionNotRegistered rpcError
  cases here : shared.executions.lookup e with
  | none => simp
  | some d =>
    by_cases authorized : c ∈ d.outputClients
    · by_cases few : (d.storedShares c).length < d.registration.minOutputShares.toNat
      · simp [authorized, few, Nat.not_le.mpr few]
      · simp [authorized, few, Nat.le_of_not_lt few, eq_comm]
    · simp [authorized]

theorem browserExecutionStatus_ready : (∃ status, shared.browserExecutionStatus e c = .ok status ∧
    status.outputReady = true) ↔ ∃ d, shared.executions.lookup e = some d ∧ c ∈ d.outputClients ∧
      d.registration.minOutputShares.toNat ≤ (d.storedShares c).length := by
  unfold browserExecutionStatus executionNotRegistered rpcError
  cases here : shared.executions.lookup e with
  | none => simp
  | some d =>
    by_cases authorized : c ∈ d.outputClients
    · simp [authorized, CoordinatorExecutionState.outputShareCount_eq]
    · simp only [authorized, Option.some.injEq, exists_eq_left', false_and, iff_false]
      rintro ⟨status, answered, ready⟩
      split at answered
      · cases answered
      · cases answered
        simp [authorized] at ready

end CoordinatorRPCServerSharedBase

end MpcCoordinator
