import MpcCoordinator.Native.Isolation
import MpcCoordinator.Execution.Records

namespace MpcCoordinator

namespace CoordinatorExecutionState

/-- A batch of reservations went through as a whole and did nothing else to the
slots, the histories and the round. -/
structure Reserves (d d' : CoordinatorExecutionState) (caller : ClientIdentity) (indices : List UInt64) : Prop where
  filled : Slots.Fills d.reservedIndices d'.reservedIndices (indices.map fun i => (i.toNat, caller))
  reported : d'.reservedIndexEvents = d.reservedIndexEvents ++ [.reservedInputEvent caller indices]
  inputs : d'.maskedInputs = d.maskedInputs
  inputHistory : d'.maskedInputEvents = d.maskedInputEvents
  round : d'.round = d.round

/-- A batch of inputs was recorded, with nothing else done to the slots, the
histories and the round. -/
structure Submits (d d' : CoordinatorExecutionState) (caller : ClientIdentity) (pairs : List (UInt64 × Bytes)) : Prop where
  filled : Slots.Fills d.maskedInputs d'.maskedInputs (pairs.map fun pair => (pair.1.toNat, pair.2))
  reported : d'.maskedInputEvents = d.maskedInputEvents ++ [.maskedInputEvent caller pairs]
  owners : d'.reservedIndices = d.reservedIndices
  ownerHistory : d'.reservedIndexEvents = d.reservedIndexEvents
  round : d'.round = d.round

/-- No two inputs of the batch are different ones for the same index. -/
def Unanimous (pairs : List (UInt64 × Bytes)) : Prop :=
  ∀ pair ∈ pairs, ∀ other ∈ pairs, pair.1 = other.1 → pair.2 = other.2

variable {topology : Topology} {d d' : CoordinatorExecutionState} {caller : ClientIdentity} {reply : RpcResult Unit}

theorem Reserves.owned {indices : List UInt64} (reserves : Reserves d d' caller indices) :
    ∀ i ∈ indices, d'.reservedIndices.read i.toNat = some caller := by
  intro i member
  obtain ⟨owner, listed, stored⟩ := reserves.filled.after i.toNat
    (List.mem_map_of_mem (List.mem_map_of_mem member))
  obtain ⟨j, _, same⟩ := List.mem_map.mp listed
  obtain rfl := (Prod.mk.inj same).2
  exact stored

theorem Submits.whole_iff {pairs : List (UInt64 × Bytes)} (submits : Submits d d' caller pairs) :
    (∀ pair ∈ pairs, d'.maskedInputs.read pair.1.toNat = some pair.2) ↔ Unanimous pairs := by
  have whole := submits.filled.whole_iff
  simp only [List.forall_mem_map, UInt64.toNat_inj] at whole
  exact whole

theorem perform_reserveMaskIndices {indices : List UInt64} {delivered : SubscriptionSink → Bool}
    (performed : d.perform topology caller (.reserveMaskIndices indices delivered) = some (reply, d')) :
    (∃ refusal, reply = .error refusal) ∧ d' = d ∨ reply = .ok () ∧ Reserves d d' caller indices := by
  rcases perform_reserveMaskIndices_cases performed with ⟨refusal, _, rfl, rfl⟩ | ⟨checked, rfl, rfl⟩
  · exact Or.inl ⟨⟨refusal, rfl⟩, rfl⟩
  · obtain ⟨_, _, _, vacant⟩ := checkReservation_ok.mp checked
    refine Or.inr ⟨rfl, Slots.fills_writeAll ?_, rfl, rfl, rfl, rfl⟩
    intro i named
    obtain ⟨write, listed, rfl⟩ := List.mem_map.mp named
    obtain ⟨j, member, rfl⟩ := List.mem_map.mp listed
    exact ⟨(vacant j member).1, (vacant j member).2.1⟩

theorem perform_submitMaskedInputs {maskedInputs : List Bytes} {reservedIndices : List UInt64}
    (performed : d.perform topology caller (.submitMaskedInputs maskedInputs reservedIndices) = some (reply, d')) :
    (∃ refusal, reply = .error refusal) ∧ d' = d ∨
      reply = .ok () ∧ Submits d d' caller (reservedIndices.zip maskedInputs) := by
  obtain ⟨_, ⟨refusal, _, rfl, rfl⟩ | ⟨checked, rfl, rfl⟩⟩ := perform_submitMaskedInputs_cases performed
  · exact Or.inl ⟨⟨refusal, rfl⟩, rfl⟩
  · obtain ⟨_, _, _, vacant⟩ := checkSubmission_ok.mp checked
    refine Or.inr ⟨rfl, Slots.fills_writeAll ?_, rfl, rfl, rfl, rfl⟩
    intro i named
    obtain ⟨write, listed, rfl⟩ := List.mem_map.mp named
    obtain ⟨pair, member, rfl⟩ := List.mem_map.mp listed
    obtain ⟨bound, _, empty⟩ := vacant pair.1 (List.of_mem_zip member).1
    exact ⟨bound, empty⟩

theorem perform_finishSubmission {delivered : SubscriptionSink → Bool}
    (performed : d.perform topology caller (.finishSubmission delivered) = some (reply, d')) :
    reply = .ok () ∧ SameRecords d d' ∧ ∃ pending, d.maskedInputDelivery = some pending ∧
      d' = (tryAdvance topology.transitionQuorum.toNat topology.rosterHead (d.restoreSinks pending delivered)).1 := by
  simp only [perform] at performed
  split at performed
  · cases performed
  · rename_i pending held
    cases performed
    have restored : SameRecords d (d.restoreSinks pending delivered) := rfl
    exact ⟨rfl, restored.trans (.of_onlyRounds (tryAdvance_onlyRounds _)), pending, held, rfl⟩

end CoordinatorExecutionState

namespace NativeServerState

open CoordinatorExecutionState

variable {topology : Topology} {s s' : NativeServerState} {e : ExecutionId} {caller : ClientIdentity}
  {outcome : NativeOutcome} {part : NativeSection} {action : Action} {stage : Option NativeStage}

/-- The call has failed, and nothing is changed anywhere. -/
def Refused (s s' : NativeServerState) (outcome : NativeOutcome) : Prop :=
  (∃ refusal, outcome.reply = .returned (.error refusal)) ∧ s' = s

/-- A section that is an action on its execution. -/
theorem lookUp_action (unrefused : part.refusal topology caller = none)
    (acts : ∀ d, part.performOn topology caller d = NativeSection.actOn topology caller d action stage)
    (moved : s.lookUp topology e caller part = some (outcome, s')) :
    s.shared.executions.lookup e = none ∧ outcome.reply = part.absent e ∧
        s' = { s with inFlight := s.goOn e caller part none } ∨
      ∃ d reply d', s.shared.executions.lookup e = some d ∧ d.perform topology caller action = some (reply, d') ∧
        (reply = .ok () ∧ outcome.reply = (if stage.isSome then .goesOn else .returned (.ok ())) ∧
            s' = { s with shared := s.shared.put e d', inFlight := s.goOn e caller part stage } ∨
          ∃ refusal, reply = .error refusal ∧ outcome.reply = .returned (.error refusal) ∧
            s' = { s with shared := s.shared.put e d', inFlight := s.goOn e caller part none }) := by
  simp only [lookUp, unrefused] at moved
  split at moved
  · rename_i absent
    cases moved
    exact Or.inl ⟨absent, rfl, rfl⟩
  · rename_i d live
    rw [acts] at moved
    obtain ⟨⟨_, d', _⟩, acted, same⟩ := Option.map_eq_some_iff.mp moved
    obtain ⟨⟨reply, _⟩, performed, rest⟩ := Option.map_eq_some_iff.mp acted
    cases rest
    cases same
    refine Or.inr ⟨d, reply, _, live, performed, ?_⟩
    cases reply with
    | ok _ => exact Or.inl ⟨rfl, rfl, rfl⟩
    | error refusal => exact Or.inr ⟨refusal, rfl, rfl, rfl⟩

theorem next_within {order : List ExecutionId} (plain : s.within topology e caller part = s.lookUp topology e caller part)
    (moved : s.next topology order (.within e caller part) = some (outcome, s')) :
    s.lookUp topology e caller part = some (outcome, s') := by
  unfold next at moved
  split at moved
  · rwa [← plain]
  · cases moved

/-- The first section of a call fails without a trace. -/
theorem put_goOn_none {d : CoordinatorExecutionState} (first : part.stage = none)
    (live : s.shared.executions.lookup e = some d) :
    { s with shared := s.shared.put e d, inFlight := s.goOn e caller part none } = s := by
  rw [CoordinatorRPCServerSharedBase.put_self live, goOn, first]
  rfl

theorem next_reserveMaskIndices {order : List ExecutionId} {indices : List UInt64} {delivered : SubscriptionSink → Bool}
    (moved : s.next topology order (.within e caller (.reserveMaskIndices indices delivered)) = some (outcome, s')) :
    Refused s s' outcome ∨ outcome.reply = .returned (.ok ()) ∧ ∃ d d', s.shared.executions.lookup e = some d ∧
      s' = { s with shared := s.shared.put e d' } ∧ Reserves d d' caller indices := by
  rcases lookUp_action rfl (fun _ => rfl) (next_within rfl moved) with
    ⟨_, reply, rfl⟩ | ⟨d, reply, d', live, performed, ⟨rfl, returned, rfl⟩ | ⟨refusal, rfl, returned, rfl⟩⟩
  · exact Or.inl ⟨⟨_, reply⟩, rfl⟩
  · rcases perform_reserveMaskIndices performed with ⟨⟨_, failed⟩, _⟩ | ⟨_, reserves⟩
    · cases failed
    · exact Or.inr ⟨returned, d, d', live, rfl, reserves⟩
  · rcases perform_reserveMaskIndices performed with ⟨_, rfl⟩ | ⟨accepted, _⟩
    · exact Or.inl ⟨⟨refusal, returned⟩, put_goOn_none rfl live⟩
    · cases accepted

theorem next_submitMaskedInputs {order : List ExecutionId} {maskedInputs : List Bytes} {reservedIndices : List UInt64}
    (moved : s.next topology order (.within e caller (.submitMaskedInputs maskedInputs reservedIndices)) =
      some (outcome, s')) :
    Refused s s' outcome ∨ outcome.reply = .goesOn ∧ ∃ d d', s.shared.executions.lookup e = some d ∧
      s' = { s with shared := s.shared.put e d', inFlight := ⟨e, caller, .submitting⟩ :: s.inFlight } ∧
      Submits d d' caller (reservedIndices.zip maskedInputs) := by
  rcases lookUp_action rfl (fun _ => rfl) (next_within rfl moved) with
    ⟨_, reply, rfl⟩ | ⟨d, reply, d', live, performed, ⟨rfl, returned, rfl⟩ | ⟨refusal, rfl, returned, rfl⟩⟩
  · exact Or.inl ⟨⟨_, reply⟩, rfl⟩
  · rcases perform_submitMaskedInputs performed with ⟨⟨_, failed⟩, _⟩ | ⟨_, submits⟩
    · cases failed
    · exact Or.inr ⟨returned, d, d', live, rfl, submits⟩
  · rcases perform_submitMaskedInputs performed with ⟨_, rfl⟩ | ⟨accepted, _⟩
    · exact Or.inl ⟨⟨refusal, returned⟩, put_goOn_none rfl live⟩
    · cases accepted

theorem next_finishSubmission {order : List ExecutionId} {delivered : SubscriptionSink → Bool}
    (moved : s.next topology order (.within e caller (.finishSubmission delivered)) = some (outcome, s')) :
    outcome.reply = .returned (.ok ()) ∧ (s.shared.executions.lookup e = none ∧ s'.shared = s.shared ∨
      ∃ d d', s.shared.executions.lookup e = some d ∧ s'.shared = s.shared.put e d' ∧ SameRecords d d' ∧
        ∃ pending, d.maskedInputDelivery = some pending ∧
          d' = (tryAdvance topology.transitionQuorum.toNat topology.rosterHead (d.restoreSinks pending delivered)).1) := by
  rcases lookUp_action rfl (fun _ => rfl) (next_within rfl moved) with
    ⟨absent, reply, rfl⟩ | ⟨d, reply, d', live, performed, ⟨rfl, returned, rfl⟩ | ⟨refusal, rfl, returned, rfl⟩⟩
  · exact ⟨reply, Or.inl ⟨absent, rfl⟩⟩
  · obtain ⟨_, same, finished⟩ := perform_finishSubmission performed
    exact ⟨returned, Or.inr ⟨d, d', live, rfl, same, finished⟩⟩
  · obtain ⟨accepted, _⟩ := perform_finishSubmission performed
    cases accepted

/-- A batch is refused without a trace or recorded with one event. A batch of
reservations is recorded as a whole, and one of inputs exactly when it does not
have different inputs for the same index. The round moves when the inputs have
been sent on, as far as `try_advance` takes it. -/
theorem batches_atomic_iff (topology : Topology) (s s' : NativeServerState) (order : List ExecutionId) (e : ExecutionId)
    (caller : ClientIdentity) (outcome : NativeOutcome) :
    (∀ indices delivered,
      s.next topology order (.within e caller (.reserveMaskIndices indices delivered)) = some (outcome, s') →
        Refused s s' outcome ∨ outcome.reply = .returned (.ok ()) ∧ ∃ d d', s.shared.executions.lookup e = some d ∧
          s' = { s with shared := s.shared.put e d' } ∧ Reserves d d' caller indices ∧
          ∀ i ∈ indices, d'.reservedIndices.read i.toNat = some caller) ∧
    (∀ maskedInputs reservedIndices,
      s.next topology order (.within e caller (.submitMaskedInputs maskedInputs reservedIndices)) = some (outcome, s') →
        Refused s s' outcome ∨ outcome.reply = .goesOn ∧ ∃ d d', s.shared.executions.lookup e = some d ∧
          s' = { s with shared := s.shared.put e d', inFlight := ⟨e, caller, .submitting⟩ :: s.inFlight } ∧
          Submits d d' caller (reservedIndices.zip maskedInputs) ∧
          ((∀ pair ∈ reservedIndices.zip maskedInputs, d'.maskedInputs.read pair.1.toNat = some pair.2) ↔
            Unanimous (reservedIndices.zip maskedInputs))) ∧
    ∀ delivered, s.next topology order (.within e caller (.finishSubmission delivered)) = some (outcome, s') →
      outcome.reply = .returned (.ok ()) ∧ (s.shared.executions.lookup e = none ∧ s'.shared = s.shared ∨
        ∃ d d', s.shared.executions.lookup e = some d ∧ s'.shared = s.shared.put e d' ∧ SameRecords d d' ∧
          ∃ pending, d.maskedInputDelivery = some pending ∧
            d' = (tryAdvance topology.transitionQuorum.toNat topology.rosterHead (d.restoreSinks pending delivered)).1) := by
  refine ⟨?_, ?_, fun delivered => next_finishSubmission⟩
  · intro indices delivered moved
    refine (next_reserveMaskIndices moved).imp_right fun ⟨reply, d, d', live, after, reserves⟩ => ?_
    exact ⟨reply, d, d', live, after, reserves, reserves.owned⟩
  · intro maskedInputs reservedIndices moved
    refine (next_submitMaskedInputs moved).imp_right fun ⟨reply, d, d', live, after, submits⟩ => ?_
    exact ⟨reply, d, d', live, after, submits, submits.whole_iff⟩

section Runs

def collectingId : ExecutionId := (ExecutionRegistration.unassigned 1 []).executionId

/-- A client has reserved the one input of an execution. -/
def collectingCalls : List NativeCall :=
  [.registerExecution [1] (.unassigned 1 []), votes collectingId .preprocessing, votes collectingId .inputMaskReservation,
    .within collectingId [7] (.reserveMaskIndices [0] fun _ => true), votes collectingId .inputCollection]

def submitsInputs (maskedInputs : List Bytes) (reservedIndices : List UInt64) : NativeCall :=
  .within collectingId [7] (.submitMaskedInputs maskedInputs reservedIndices)

/-- The call has not failed. -/
def proceeds : NativeReply → Bool
  | .goesOn => true
  | .returned (.ok ()) => true
  | _ => false

/-- The input is submitted, and it is there when the call goes on. -/
theorem batches_atomic_for_one_input :
    ∃ trace s s' outcome d', Run (Step (.lone [1])) start trace s ∧
      s.next (.lone [1]) [] (submitsInputs [[5]] [0]) = some (outcome, s') ∧
      s'.shared.executions.lookup collectingId = some d' ∧ d'.maskedInputs.read 0 = some [5] := by
  obtain ⟨trace, s, run, _, seen, _⟩ := exists_run_of_calls (.lone [1]) collectingCalls
    (fun s => (s.next (.lone [1]) [] (submitsInputs [[5]] [0])).map fun moved => proceeds moved.1.reply) (some true)
    (by decide +kernel)
  obtain ⟨⟨outcome, s'⟩, moved, accepted⟩ := Option.map_eq_some_iff.mp seen
  rcases (batches_atomic_iff (.lone [1]) s s' [] collectingId [7] outcome).2.1 [[5]] [0] moved with
    ⟨⟨refusal, failed⟩, _⟩ | ⟨_, d, d', _, after, _, whole⟩
  · rw [failed] at accepted
    cases accepted
  · refine ⟨trace, s, s', outcome, d', run, moved, ?_, whole.mpr ?_ (0, [5]) (by simp)⟩
    · rw [after]
      exact CoordinatorRPCServerSharedBase.lookup_put_self d'
    · simp [Unanimous]

/-- Two inputs are submitted for it at once. Both sections of the call succeed,
and only the second input is there. -/
theorem batch_drops_input :
    ∃ trace s middle s' first last, Run (Step (.lone [1])) start trace s ∧
      s.next (.lone [1]) [] (submitsInputs [[5], [6]] [0, 0]) = some (first, middle) ∧ proceeds first.reply = true ∧
      middle.next (.lone [1]) [] (.within collectingId [7] (.finishSubmission fun _ => true)) = some (last, s') ∧
      proceeds last.reply = true ∧
      ((s'.shared.executions.lookup collectingId).bind fun d => d.maskedInputs.read 0) = some [6] := by
  obtain ⟨trace, s, run, _, seen, _⟩ := exists_run_of_calls (.lone [1]) collectingCalls
    (fun s => (s.next (.lone [1]) [] (submitsInputs [[5], [6]] [0, 0])).bind fun moved =>
      (moved.2.next (.lone [1]) [] (.within collectingId [7] (.finishSubmission fun _ => true))).map fun finished =>
        (proceeds moved.1.reply, proceeds finished.1.reply,
          (finished.2.shared.executions.lookup collectingId).bind fun d => d.maskedInputs.read 0))
    (some (true, true, some [6])) (by decide +kernel)
  obtain ⟨⟨first, middle⟩, moved, rest⟩ := Option.bind_eq_some_iff.mp seen
  obtain ⟨⟨last, s'⟩, finished, same⟩ := Option.map_eq_some_iff.mp rest
  simp only [Prod.mk.injEq] at same
  exact ⟨trace, s, middle, s', first, last, run, moved, same.1, finished, same.2.1, same.2.2⟩

end Runs

end NativeServerState

end MpcCoordinator
