import MpcCoordinator.Execution.Records
import MpcCoordinator.Client.WaitForIndices

namespace MpcCoordinator.CoordinatorExecutionState

variable {topology : Topology} {registration : ExecutionRegistration} {initial final d d' : CoordinatorExecutionState}
  {call : Call} {trace : List (Transition CoordinatorExecutionState Call)}

/-- Every index over all recorded reservation events, in their order. -/
def listedIndices (d : CoordinatorExecutionState) : List UInt64 :=
  d.reservedIndexEvents.flatMap Event.listedIndices

/-- The three records of reservations agree, so that what is derived from one
of them is right: the masks left, and what a node waits for. -/
structure ReservationsExact (d : CoordinatorExecutionState) : Prop where
  counter_eq_filled : d.nReserved.toNat = d.reservedIndices.filled
  counter_eq_listed : d.nReserved.toNat = d.listedIndices.length
  listed_once : d.listedIndices.Nodup
  no_underflow : d.nReserved ≤ UInt64.ofNat d.maskedInputs.length
  available_eq : d.availableInputMasks.toNat = d.reservedIndices.countP Option.isNone
  node_sees_all : ∀ seen closed result, seen <+: d.reservedIndexEvents →
    waitForIndices d.registration.nInputs ⟨seen.map some, closed⟩ = some (.ok result) →
    ∀ i, i < d.registration.nInputs → result.Has i

/-- What holds of reservations whatever batches are accepted: the slots taken
are those listed, and the counter counts the list in machine arithmetic. -/
structure Listed (d : CoordinatorExecutionState) : Prop where
  taken : ∀ i, (d.reservedIndices.read i).isSome = true ↔ i ∈ d.listedIndices.map UInt64.toNat
  counter : d.nReserved = UInt64.ofNat d.listedIndices.length

theorem listedIndices_recordReservation (id : ClientIdentity) (indices : List UInt64) :
    (d.recordReservation id indices).listedIndices = d.listedIndices ++ indices := by
  simp [listedIndices, recordReservation, Event.listedIndices]

theorem Listed.recordReservation {id : ClientIdentity} {indices : List UInt64} (listed : Listed d)
    (checked : d.checkReservation id indices = .ok ()) : Listed (d.recordReservation id indices) := by
  obtain ⟨_, _, _, checks⟩ := checkReservation_ok.mp checked
  have named : (indices.map fun i => (i.toNat, id)).map Prod.fst = indices.map UInt64.toNat := by
    simp [Function.comp_def]
  constructor
  · intro i
    rw [listedIndices_recordReservation, List.map_append, List.mem_append, ← listed.taken, ← named]
    refine Slots.isSome_read_writeAll fun j member => ?_
    rw [named] at member
    obtain ⟨raw, inside, rfl⟩ := List.mem_map.mp member
    exact (checks raw inside).1
  · rw [listedIndices_recordReservation, List.length_append, UInt64.ofNat_add, ← listed.counter]
    rfl

theorem Listed.sameRecords (listed : Listed d) (same : SameRecords d d') : Listed d' := by
  rw [same]
  exact ⟨listed.taken, listed.counter⟩

theorem Listed.step (listed : Listed d) (step : Step topology d call d') : Listed d' := by
  cases step.recorded with
  | nothing same => exact listed.sameRecords same
  | reservation checked same => exact (listed.recordReservation checked).sameRecords same
  | submission => exact ⟨listed.taken, listed.counter⟩

theorem Listed.of_run (admitted : new registration topology.n = .ok initial)
    (run : Run (Step topology) initial trace final) : Listed final := by
  refine run.invariant ?_ fun _ _ _ => Listed.step
  rw [(new_cases admitted).1]
  exact ⟨by simp [fresh, listedIndices], rfl⟩

theorem Listed.filled_eq (listed : Listed d) (once : d.listedIndices.Nodup) :
    d.reservedIndices.filled = d.listedIndices.length := by
  have distinct : (d.listedIndices.map UInt64.toNat).Nodup := once.map fun _ _ => UInt64.toNat_inj.mp
  have taken : ∀ i, (d.reservedIndices.read i).isSome = true ↔ i ∈ (d.listedIndices.map UInt64.toNat).toFinset :=
    fun i => (listed.taken i).trans List.mem_toFinset.symm
  have count := Slots.filled_eq_card taken
  rw [count, List.toFinset_card_of_nodup distinct, List.length_map]

theorem Listed.bound (listed : Listed d) (coherent : Coherent registration d) {i : UInt64} (member : i ∈ d.listedIndices) :
    i.toNat < registration.nInputs.toNat := by
  obtain ⟨owner, held⟩ := Option.isSome_iff_exists.mp ((listed.taken i.toNat).mpr (List.mem_map_of_mem member))
  have bound := Slots.lt_of_read held
  rwa [coherent.reservedIndices_length] at bound

/-- Distinct indices below a bound that are as many as the bound are all. -/
theorem mem_of_length_ge {indices : List UInt64} {n : Nat} (once : indices.Nodup)
    (bound : ∀ i ∈ indices, i.toNat < n) (enough : n ≤ indices.length) {i : UInt64} (inside : i.toNat < n) :
    i ∈ indices := by
  have distinct : (indices.map UInt64.toNat).Nodup := once.map fun _ _ => UInt64.toNat_inj.mp
  have below : (indices.map UInt64.toNat).toFinset ⊆ Finset.range n := by
    intro j member
    obtain ⟨raw, listed, rfl⟩ := List.mem_map.mp (List.mem_toFinset.mp member)
    exact Finset.mem_range.mpr (bound raw listed)
  have all : (indices.map UInt64.toNat).toFinset = Finset.range n := by
    refine Finset.eq_of_subset_of_card_le below ?_
    rw [Finset.card_range, List.toFinset_card_of_nodup distinct, List.length_map]
    exact enough
  have member : i.toNat ∈ (indices.map UInt64.toNat).toFinset := by
    rw [all]
    exact Finset.mem_range.mpr inside
  obtain ⟨raw, listed, same⟩ := List.mem_map.mp (List.mem_toFinset.mp member)
  rwa [← UInt64.toNat_inj.mp same]

theorem Listed.node_sees_all (listed : Listed d) (coherent : Coherent registration d) (once : d.listedIndices.Nodup)
    {seen : List Event} {closed : Bool} {result : ReservedByClient} (first : seen <+: d.reservedIndexEvents)
    (done : waitForIndices registration.nInputs ⟨seen.map some, closed⟩ = some (.ok result)) {i : UInt64}
    (inside : i < registration.nInputs) : result.Has i := by
  obtain ⟨events, rest, split, counted, kept⟩ := waitForIndices_ok done
  have read : events <+: d.reservedIndexEvents := by
    have begins : events.map some <+: seen.map some := ⟨rest, split.symm⟩
    exact ((List.prefix_map_iff_of_injective (Option.some_injective _)).mp begins).trans first
  have part : (events.flatMap Event.listedIndices).Sublist d.listedIndices := by
    obtain ⟨later, whole⟩ := read
    rw [listedIndices, ← whole, List.flatMap_append]
    exact List.sublist_append_left _ _
  have total := listed.filled_eq once ▸ d.reservedIndices.filled_le_length
  have small := registration.nInputs.toNat_lt
  have fewer := part.length_le
  rw [coherent.reservedIndices_length] at total
  rw [kept]
  refine mem_of_length_ge (once.sublist part) (fun j member => listed.bound coherent (part.subset member)) ?_
    (UInt64.lt_iff_toNat_lt.mp inside)
  have enough := UInt64.le_iff_toNat_le.mp counted
  rwa [UInt64.toNat_ofNat_of_lt' (show _ < 2 ^ 64 by omega)] at enough

/-- Given what always holds of reservations, they are exact if and only if no
index is listed twice. -/
theorem reservationsExact_iff_listed_once (coherent : Coherent registration d) (listed : Listed d) :
    ReservationsExact d ↔ d.listedIndices.Nodup := by
  refine ⟨ReservationsExact.listed_once, fun once => ?_⟩
  have filled := listed.filled_eq once
  have total := d.reservedIndices.filled_le_length
  have small := registration.nInputs.toNat_lt
  have reservedLength := coherent.reservedIndices_length
  have maskedLength := coherent.maskedInputs_length
  have counter : d.nReserved.toNat = d.listedIndices.length := by
    rw [listed.counter]
    exact UInt64.toNat_ofNat_of_lt' (show _ < 2 ^ 64 by omega)
  have masks : (UInt64.ofNat d.maskedInputs.length).toNat = d.maskedInputs.length :=
    UInt64.toNat_ofNat_of_lt' (show _ < 2 ^ 64 by omega)
  have within : d.nReserved ≤ UInt64.ofNat d.maskedInputs.length := by
    rw [UInt64.le_iff_toNat_le, masks]
    omega
  refine ⟨counter.trans filled.symm, counter, once, within, ?_, ?_⟩
  · rw [availableInputMasks, UInt64.toNat_sub_of_le _ _ within, masks, ← Slots.length_sub_filled]
    omega
  · rw [coherent.registration_eq]
    intro seen closed result first done i inside
    exact listed.node_sees_all coherent once first done inside

/-- No index is reserved twice in a batch that passes the checks. -/
def DistinctReservation (d : CoordinatorExecutionState) (call : Call) : Prop :=
  ∀ indices delivered, call.action = .reserveMaskIndices indices delivered →
    d.checkReservation call.caller indices = .ok () → indices.Nodup

theorem listed_once_step_iff (listed : Listed d) (once : d.listedIndices.Nodup) (step : Step topology d call d') :
    d'.listedIndices.Nodup ↔ DistinctReservation d call := by
  cases step.recorded with
  | nothing same unreserved =>
    refine iff_of_true ?_ ?_
    · rw [same]
      exact once
    · intro indices delivered reserved accepted
      exact absurd accepted (unreserved indices delivered reserved).1
  | @reservation id indices delivered _ checked same =>
    obtain ⟨_, _, _, checks⟩ := checkReservation_ok.mp checked
    have grown : d'.listedIndices = d.listedIndices ++ indices := by
      rw [same]
      exact listedIndices_recordReservation id indices
    rw [grown, List.nodup_append]
    constructor
    · rintro ⟨_, distinct, _⟩ _ _ ⟨⟩ _
      exact distinct
    · intro distinct
      refine ⟨once, distinct _ _ rfl checked, ?_⟩
      rintro i old j new rfl
      have held := (listed.taken i.toNat).mpr (List.mem_map_of_mem old)
      rw [(checks i new).2.1] at held
      cases held
  | submission => exact iff_of_true once nofun

/-- Reservation accounting is exact throughout a run if and only if no batch
that repeats an index is accepted in it. -/
theorem reservationsExact_iff (admitted : new registration topology.n = .ok initial)
    (run : Run (Step topology) initial trace final) :
    (∀ d ∈ Run.reached initial trace, ReservationsExact d) ↔ ∀ τ ∈ trace, DistinctReservation τ.source τ.event := by
  have listing := run.always_iff (I := Listed) (P := fun d => d.listedIndices.Nodup) (G := DistinctReservation)
    (Listed.of_run admitted .start) (fun _ _ _ => Listed.step)
    (by rw [(new_cases admitted).1]; exact List.nodup_nil)
    fun _ _ _ listed once step => listed_once_step_iff listed once step
  rw [← listing]
  refine forall₂_congr fun d member => ?_
  obtain ⟨earlier, first⟩ := run.reached_cases member
  exact reservationsExact_iff_listed_once (.of_run admitted first) (.of_run admitted first)

/-- The calls that bring one client's reservation to an execution of one node. -/
def reservingCalls (indices : List UInt64) : List Call :=
  [⟨[1], .transition .preprocessing, .ok ()⟩, ⟨[1], .transition .inputMaskReservation, .ok ()⟩,
    ⟨[2], .reserveMaskIndices indices (fun _ => true), .ok ()⟩]

/-- A run in which both of two masks are reserved in one call. -/
theorem reservationsExact_iff_for_two :
    ∃ trace final, Run (Step (.lone [1])) (fresh (.unassigned 2 [])) trace final ∧
      final.availableInputMasks = 0 ∧
      ((∀ d ∈ Run.reached (fresh (.unassigned 2 [])) trace, ReservationsExact d) ↔
        ∀ τ ∈ trace, DistinctReservation τ.source τ.event) := by
  obtain ⟨trace, final, run, _, none⟩ := exists_run_of_calls (.lone [1]) (fresh (.unassigned 2 []))
    (reservingCalls [1, 0]) availableInputMasks 0 (by decide)
  exact ⟨trace, final, run, none, reservationsExact_iff (new_unassigned 2 []) run⟩

/-- A client that names the only mask twice has reserved two of one, and more
masks are said to be left than there can be. -/
theorem exists_run_reserving_twice :
    ∃ trace final, new (.unassigned 1 []) 1 = .ok (fresh (.unassigned 1 [])) ∧
      Run (Step (.lone [1])) (fresh (.unassigned 1 [])) trace final ∧
      final.nReserved = 2 ∧ final.reservedIndices.filled = 1 ∧ final.availableInputMasks = 18446744073709551615 ∧
      ¬ ReservationsExact final := by
  obtain ⟨trace, final, run, _, seen⟩ := exists_run_of_calls (.lone [1]) (fresh (.unassigned 1 []))
    (reservingCalls [0, 0]) (fun d => (d.nReserved, d.reservedIndices.filled, d.availableInputMasks))
    (2, 1, 18446744073709551615) (by decide)
  obtain ⟨counter, rest⟩ := Prod.mk.inj seen
  obtain ⟨filled, available⟩ := Prod.mk.inj rest
  refine ⟨trace, final, rfl, run, counter, filled, available, fun exact => ?_⟩
  have same := exact.counter_eq_filled
  rw [counter, filled] at same
  cases same

end MpcCoordinator.CoordinatorExecutionState
