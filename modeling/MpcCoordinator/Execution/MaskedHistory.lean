import MpcCoordinator.Execution.Records
import MpcCoordinator.General.Journal

namespace MpcCoordinator

/-- The index and value pairs that an event carries. -/
def Event.maskedPairs : Event → List (UInt64 × Bytes)
  | .maskedInputEvent _ maskedInputs => maskedInputs
  | _ => []

/-- A pair as a write to the table of masked inputs. -/
def slotWrite (pair : UInt64 × Bytes) : Nat × Bytes := (pair.1.toNat, pair.2)

theorem slotWrite_injective : Function.Injective slotWrite := by
  rintro ⟨i, x⟩ ⟨j, y⟩ same
  obtain ⟨index, value⟩ := Prod.mk.inj same
  exact Prod.ext (UInt64.toNat_inj.mp index) value

namespace CoordinatorExecutionState

variable {topology : Topology} {registration : ExecutionRegistration} {initial final d d' : CoordinatorExecutionState}
  {call : Call} {trace : List (Transition CoordinatorExecutionState Call)}

/-- Every pair over all recorded events, in the order of their submission. -/
def maskedPairs (d : CoordinatorExecutionState) : List (UInt64 × Bytes) :=
  d.maskedInputEvents.flatMap Event.maskedPairs

/-- The events are the state: no index occurs twice in them, and an input is
recorded exactly if one event carries it. With an input assignment the same is
true of the assigned events. -/
structure MaskedHistory (d : CoordinatorExecutionState) : Prop where
  once : (d.maskedPairs.map Prod.fst).Nodup
  recorded : ∀ (i : UInt64) (x : Bytes), d.maskedInputs.read i.toNat = some x ↔
    d.maskedInputEvents.countP (fun event => decide ((i, x) ∈ event.maskedPairs)) = 1
  assigned_once : d.registration.inputAssignment.ranges ≠ [] →
    (d.assignedMaskedInputEvents.map AssignedMaskedInputEvent.reservedIndex).Nodup
  assigned_recorded : d.registration.inputAssignment.ranges ≠ [] → ∀ (i : UInt64) (x : Bytes),
    d.maskedInputs.read i.toNat = some x ↔
      d.assignedMaskedInputEvents.countP (fun event => decide (event.reservedIndex = i ∧ event.maskedInput = x)) = 1

/-- With an input assignment, every pair has an assigned event of its own. -/
def AssignedPairs (d : CoordinatorExecutionState) : Prop :=
  d.registration.inputAssignment.ranges ≠ [] →
    d.assignedMaskedInputEvents.map (fun event => (event.reservedIndex, event.maskedInput)) = d.maskedPairs

theorem maskedPairs_recordSubmission (id : ClientIdentity) (pairs : List (UInt64 × Bytes)) :
    (d.recordSubmission id pairs).maskedPairs = d.maskedPairs ++ pairs := by
  simp [maskedPairs, recordSubmission, Event.maskedPairs]

theorem assignedInputs_pairs (id : ClientIdentity) {pairs : List (UInt64 × Bytes)}
    (covered : ∀ pair ∈ pairs, pair.1.toNat < d.inputAssignments.length) :
    (d.assignedInputs id pairs).map (fun event => (event.reservedIndex, event.maskedInput)) = pairs := by
  induction pairs with
  | nil => rfl
  | cons pair rest ih =>
    have slot := List.getElem?_eq_getElem (covered pair List.mem_cons_self)
    have later := ih fun other member => covered other (List.mem_cons_of_mem _ member)
    simp only [assignedInputs] at later
    simp [assignedInputs, slot, later]

theorem AssignedPairs.step {n : UInt64} (admitted : new registration n = .ok initial)
    (coherent : Coherent registration d) (assigned : AssignedPairs d) (step : Step topology d call d') :
    AssignedPairs d' := by
  cases step.recorded with
  | nothing same =>
    rw [same]
    exact assigned
  | reservation _ same =>
    rw [same]
    exact assigned
  | @submission id maskedInputs reservedIndices checked =>
    intro ranges
    have before := assigned ranges
    obtain ⟨_, _, _, checks⟩ := checkSubmission_ok.mp checked
    rw [maskedPairs_recordSubmission, ← before]
    simp only [recordSubmission, List.map_append]
    rw [assignedInputs_pairs]
    intro pair member
    have index : pair.1 ∈ reservedIndices := (List.of_mem_zip member).1
    have bound := (checks _ index).1
    have layout : d.registration.inputAssignment.ranges ≠ [] := ranges
    rw [coherent.registration_eq] at layout
    have cover := inputs_covered admitted layout
    rw [coherent.maskedInputs_length] at bound
    rw [coherent.inputAssignments_eq]
    omega

theorem AssignedPairs.of_run (admitted : new registration topology.n = .ok initial)
    (run : Run (Step topology) initial trace final) : AssignedPairs final := by
  refine (run.invariant (P := fun d => Coherent registration d ∧ AssignedPairs d)
    ⟨.of_new admitted, ?_⟩ fun _ _ _ before step =>
      ⟨before.1.step step, before.2.step admitted before.1 step⟩).2
  rw [(new_cases admitted).1]
  exact fun _ => rfl

/-- The journal of the masked inputs, as writes to their table. -/
def InputsRecorded (d : CoordinatorExecutionState) : Prop :=
  d.maskedInputs.Records (d.maskedPairs.map slotWrite)

theorem nodup_slotWrite {pairs : List (UInt64 × Bytes)} :
    ((pairs.map slotWrite).map Prod.fst).Nodup ↔ (pairs.map Prod.fst).Nodup := by
  have same : (pairs.map slotWrite).map Prod.fst = (pairs.map Prod.fst).map UInt64.toNat := by
    simp [slotWrite, List.map_map, Function.comp_def]
  rw [same, List.nodup_map_iff fun _ _ => UInt64.toNat_inj.mp]

theorem mem_slotWrite {pairs : List (UInt64 × Bytes)} {i : UInt64} {x : Bytes} :
    (i.toNat, x) ∈ pairs.map slotWrite ↔ (i, x) ∈ pairs :=
  List.mem_map_of_injective slotWrite_injective (a := (i, x))

/-- An index that the table has is one that an event can name. -/
theorem Coherent.exists_index (coherent : Coherent registration d) {i : Nat} {x : Bytes}
    (held : d.maskedInputs.read i = some x) : ∃ raw : UInt64, raw.toNat = i := by
  have bound := Slots.lt_of_read held
  have small := registration.nInputs.toNat_lt
  rw [coherent.maskedInputs_length] at bound
  exact ⟨UInt64.ofNat i, UInt64.toNat_ofNat_of_lt (bound.trans small)⟩

theorem countP_maskedPairs (distinct : d.maskedPairs.Nodup) (i : UInt64) (x : Bytes) :
    d.maskedInputEvents.countP (fun event => decide ((i, x) ∈ event.maskedPairs)) = 1 ↔ (i, x) ∈ d.maskedPairs :=
  countP_carries_eq_one distinct fun _ => decide_eq_true_iff

theorem maskedHistory_of_recorded (assigned : AssignedPairs d) (recorded : InputsRecorded d) : MaskedHistory d := by
  have once : (d.maskedPairs.map Prod.fst).Nodup := nodup_slotWrite.mp recorded.once
  have distinct : d.maskedPairs.Nodup := once.of_map
  have written : ∀ (i : UInt64) (x : Bytes), d.maskedInputs.read i.toNat = some x ↔ (i, x) ∈ d.maskedPairs :=
    fun i x => (recorded.written i.toNat x).trans mem_slotWrite
  refine ⟨once, fun i x => ?_, fun ranges => ?_, fun ranges i x => ?_⟩
  · exact (written i x).trans (countP_maskedPairs distinct i x).symm
  · have indices := congrArg (List.map Prod.fst) (assigned ranges)
    rw [List.map_map] at indices
    rw [← indices] at once
    exact once
  · have pairs := assigned ranges
    rw [List.map_eq_flatMap] at pairs
    have single : d.assignedMaskedInputEvents.countP
        (fun event => decide (event.reservedIndex = i ∧ event.maskedInput = x)) = 1 ↔
        (i, x) ∈ d.assignedMaskedInputEvents.flatMap fun event => [(event.reservedIndex, event.maskedInput)] := by
      refine countP_carries_eq_one (pairs ▸ distinct) fun event => ?_
      rw [decide_eq_true_iff, List.mem_singleton, Prod.mk.injEq, eq_comm (a := i), eq_comm (a := x)]
    rw [single, pairs, written]

theorem recorded_of_maskedHistory (coherent : Coherent registration d) (history : MaskedHistory d) :
    InputsRecorded d := by
  have distinct : d.maskedPairs.Nodup := history.once.of_map
  have written : ∀ (i : UInt64) (x : Bytes), d.maskedInputs.read i.toNat = some x ↔ (i, x) ∈ d.maskedPairs :=
    fun i x => (history.recorded i x).trans (countP_maskedPairs distinct i x)
  refine ⟨nodup_slotWrite.mpr history.once, fun i x => ⟨fun held => ?_, fun member => ?_⟩⟩
  · obtain ⟨raw, rfl⟩ := coherent.exists_index held
    exact mem_slotWrite.mpr ((written raw x).mp held)
  · obtain ⟨⟨raw, y⟩, inside, same⟩ := List.mem_map.mp member
    obtain ⟨rfl, rfl⟩ := Prod.mk.inj same
    exact (written raw y).mpr inside

/-- No index is submitted twice in a batch that passes the checks. -/
def DistinctSubmission (d : CoordinatorExecutionState) (call : Call) : Prop :=
  ∀ maskedInputs reservedIndices, call.action = .submitMaskedInputs maskedInputs reservedIndices →
    d.checkSubmission call.caller maskedInputs reservedIndices = .ok () → reservedIndices.Nodup

/-- A step keeps the journal exactly if it does not accept a repeated index. -/
theorem InputsRecorded.step_iff (recorded : InputsRecorded d) (step : Step topology d call d') :
    InputsRecorded d' ↔ DistinctSubmission d call := by
  cases step.recorded with
  | nothing same _ unsubmitted =>
    refine iff_of_true ?_ ?_
    · rw [same]
      exact recorded
    · intro inputs indices submitted accepted
      exact absurd accepted (unsubmitted inputs indices submitted).1
  | reservation _ same =>
    refine iff_of_true ?_ nofun
    rw [same]
    exact recorded
  | @submission id maskedInputs reservedIndices checked =>
    obtain ⟨_, lengths, _, checks⟩ := checkSubmission_ok.mp checked
    have indices : (reservedIndices.zip maskedInputs).map Prod.fst = reservedIndices :=
      List.map_fst_zip lengths.ge
    have journal : (d.recordSubmission id (reservedIndices.zip maskedInputs)).maskedPairs.map slotWrite =
        d.maskedPairs.map slotWrite ++ (reservedIndices.zip maskedInputs).map slotWrite := by
      rw [maskedPairs_recordSubmission, List.map_append]
    constructor
    · rintro after _ _ ⟨⟩ _
      have once := after.once
      rw [journal, List.map_append] at once
      have batch := nodup_slotWrite.mp once.of_append_right
      rwa [indices] at batch
    · intro distinct
      have fresh := distinct _ _ rfl checked
      unfold InputsRecorded
      rw [journal]
      refine recorded.writeAll (nodup_slotWrite.mpr (by rwa [indices])) ?_
      intro i named
      obtain ⟨write, member, rfl⟩ := List.mem_map.mp named
      obtain ⟨pair, inside, rfl⟩ := List.mem_map.mp member
      have check := checks pair.1 (List.of_mem_zip inside).1
      exact ⟨check.1, check.2.2⟩

/-- The events are the state throughout a run exactly if no batch that repeats
an index is accepted in it. The checks compare each index with the state before
the batch only, so they do not exclude that. -/
theorem maskedHistory_iff (admitted : new registration topology.n = .ok initial)
    (run : Run (Step topology) initial trace final) :
    (∀ d ∈ Run.reached initial trace, MaskedHistory d) ↔ ∀ τ ∈ trace, DistinctSubmission τ.source τ.event := by
  have journal := run.always_iff (I := fun _ => True) (P := InputsRecorded) (G := DistinctSubmission) trivial
    (fun _ _ _ _ _ => trivial) (by rw [(new_cases admitted).1]; exact .empty _)
    fun _ _ _ _ recorded step => recorded.step_iff step
  rw [← journal]
  refine forall₂_congr fun d member => ?_
  obtain ⟨earlier, first⟩ := run.reached_cases member
  exact ⟨recorded_of_maskedHistory (.of_run admitted first), maskedHistory_of_recorded (.of_run admitted first)⟩

/-- The calls that bring one client's batch of inputs to an execution of one node. -/
def collectingCalls (maskedInputs : List Bytes) (reservedIndices : List UInt64) : List Call :=
  [⟨[1], .transition .preprocessing, .ok ()⟩, ⟨[1], .transition .inputMaskReservation, .ok ()⟩,
    ⟨[2], .reserveMaskIndices [0] (fun _ => true), .ok ()⟩, ⟨[1], .transition .inputCollection, .ok ()⟩,
    ⟨[2], .submitMaskedInputs maskedInputs reservedIndices, .ok ()⟩]

/-- A run with one input, submitted once. -/
theorem maskedHistory_iff_for_one :
    ∃ trace final, Run (Step (.lone [1])) (fresh (.unassigned 1 [])) trace final ∧
      final.maskedInputs = [some [7]] ∧
      ((∀ d ∈ Run.reached (fresh (.unassigned 1 [])) trace, MaskedHistory d) ↔
        ∀ τ ∈ trace, DistinctSubmission τ.source τ.event) := by
  obtain ⟨trace, final, run, _, submitted⟩ := exists_run_of_calls (.lone [1]) (fresh (.unassigned 1 []))
    (collectingCalls [[7]] [0]) maskedInputs [some [7]] (by decide)
  exact ⟨trace, final, run, submitted, maskedHistory_iff (new_unassigned 1 []) run⟩

/-- A client that names its index twice in one batch gets both values into the
history, while the table keeps the second. -/
theorem exists_run_repeating_input :
    ∃ trace final, new (.unassigned 1 []) 1 = .ok (fresh (.unassigned 1 [])) ∧
      Run (Step (.lone [1])) (fresh (.unassigned 1 [])) trace final ∧
      final.maskedInputs = [some [8]] ∧ ¬ MaskedHistory final := by
  obtain ⟨trace, final, run, _, seen⟩ := exists_run_of_calls (.lone [1]) (fresh (.unassigned 1 []))
    (collectingCalls [[7], [8]] [0, 0]) (fun d => (d.maskedInputs, d.maskedPairs.map Prod.fst))
    ([some [8]], [0, 0]) (by decide)
  obtain ⟨submitted, indices⟩ := Prod.mk.inj seen
  refine ⟨trace, final, rfl, run, submitted, fun history => ?_⟩
  have once := history.once
  rw [indices] at once
  exact absurd once (by decide)

end CoordinatorExecutionState

end MpcCoordinator
