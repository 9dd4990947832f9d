import MpcCoordinator.Execution.Records

namespace MpcCoordinator

/-- A reservation call of `id` that was accepted. -/
def Call.reservedBy (call : Call) (id : ClientIdentity) : Bool :=
  match call.action, call.reply with
  | .reserveMaskIndices _ _, .ok () => decide (call.caller = id)
  | _, _ => false

namespace CoordinatorExecutionState

variable {topology : Topology} {registration : ExecutionRegistration} {initial final d d' : CoordinatorExecutionState}
  {call : Call} {calls : List (Transition CoordinatorExecutionState Call)}

/-- The call in which an index was reserved by its owner. -/
def ReservedIn (τ : Transition CoordinatorExecutionState Call) (id : ClientIdentity) (i : Nat) : Prop :=
  τ.source.round = .inputMaskReservation ∧ ∃ indices delivered,
    τ.event = ⟨id, .reserveMaskIndices indices delivered, .ok ()⟩ ∧ i ∈ indices.map UInt64.toNat

/-- The call in which a masked input was submitted. -/
def SubmittedIn (τ : Transition CoordinatorExecutionState Call) (id : ClientIdentity) (i : Nat) (x : Bytes) : Prop :=
  τ.source.round = .inputCollection ∧ ∃ maskedInputs reservedIndices,
    τ.event = ⟨id, .submitMaskedInputs maskedInputs reservedIndices, .ok ()⟩ ∧
      (i, x) ∈ (reservedIndices.map UInt64.toNat).zip maskedInputs

/-- Where the tables of an execution come from, given the calls made on it. -/
structure Provenance (calls : List (Transition CoordinatorExecutionState Call)) (d : CoordinatorExecutionState) :
    Prop where
  reserved : ∀ i id, d.reservedIndices.read i = some id → (∃ τ ∈ calls, ReservedIn τ id i) ∧
    ∀ slot, d.inputAssignments[i]? = some slot → d.inputSlotClient slot = some id
  reserved_once : ∀ id, calls.countP (fun τ => τ.event.reservedBy id) ≤ 1
  submitted : ∀ i x, d.maskedInputs.read i = some x →
    ∃ id, d.reservedIndices.read i = some id ∧ ∃ τ ∈ calls, SubmittedIn τ id i x

/-- Owners and inputs stay once they are there, and each table only changes in
the round that is for it. -/
structure TablesKept (d d' : CoordinatorExecutionState) : Prop where
  owner : ∀ i id, d.reservedIndices.read i = some id → d'.reservedIndices.read i = some id
  input : ∀ i x, d.maskedInputs.read i = some x → d'.maskedInputs.read i = some x
  owners_round : d.round ≠ .inputMaskReservation → d'.reservedIndices = d.reservedIndices
  inputs_round : d.round ≠ .inputCollection → d'.maskedInputs = d.maskedInputs

/-- The writes of a reservation batch. -/
theorem mem_reservation_writes {indices : List UInt64} {id owner : ClientIdentity} {i : Nat} :
    (i, owner) ∈ (indices.map fun i => (i.toNat, id)) ↔ i ∈ indices.map UInt64.toNat ∧ owner = id := by
  simp only [List.mem_map, Prod.mk.injEq]
  constructor
  · rintro ⟨raw, member, rfl, rfl⟩
    exact ⟨⟨raw, member, rfl⟩, rfl⟩
  · rintro ⟨⟨raw, member, rfl⟩, rfl⟩
    exact ⟨raw, member, rfl, rfl⟩

/-- A slot that an accepted reservation names is vacant before it. -/
theorem not_named_of_reserved {id owner : ClientIdentity} {indices : List UInt64} {i : Nat}
    (checked : d.checkReservation id indices = .ok ()) (held : d.reservedIndices.read i = some owner) :
    i ∉ (indices.map fun i => (i.toNat, id)).map Prod.fst := by
  intro named
  obtain ⟨_, _, _, checks⟩ := checkReservation_ok.mp checked
  obtain ⟨write, member, rfl⟩ := List.mem_map.mp named
  obtain ⟨raw, inside, rfl⟩ := List.mem_map.mp member
  rw [(checks raw inside).2.1] at held
  cases held

/-- A slot that an accepted submission names is vacant before it. -/
theorem not_named_of_submitted {id : ClientIdentity} {maskedInputs : List Bytes} {reservedIndices : List UInt64}
    {i : Nat} {x : Bytes} (checked : d.checkSubmission id maskedInputs reservedIndices = .ok ())
    (held : d.maskedInputs.read i = some x) :
    i ∉ ((reservedIndices.zip maskedInputs).map fun pair => (pair.1.toNat, pair.2)).map Prod.fst := by
  intro named
  obtain ⟨_, _, _, checks⟩ := checkSubmission_ok.mp checked
  obtain ⟨write, member, rfl⟩ := List.mem_map.mp named
  obtain ⟨pair, inside, rfl⟩ := List.mem_map.mp member
  rw [(checks pair.1 (List.of_mem_zip inside).1).2.2] at held
  cases held

theorem TablesKept.refl (d : CoordinatorExecutionState) : TablesKept d d :=
  ⟨fun _ _ held => held, fun _ _ held => held, fun _ => rfl, fun _ => rfl⟩

theorem TablesKept.step (step : Step topology d call d') : TablesKept d d' := by
  cases step.recorded with
  | nothing same =>
    rw [same]
    exact { TablesKept.refl d with }
  | reservation checked same =>
    rw [same]
    refine ⟨fun i owner held => ?_, fun _ _ held => held, fun elsewhere => ?_, fun _ => rfl⟩
    · exact (Slots.read_writeAll_of_not_mem (not_named_of_reserved checked held)).trans held
    · exact absurd (checkReservation_ok.mp checked).1 elsewhere
  | submission checked =>
    refine ⟨fun _ _ held => held, fun i x held => ?_, fun _ => rfl, fun elsewhere => ?_⟩
    · exact (Slots.read_writeAll_of_not_mem (not_named_of_submitted checked held)).trans held
    · exact absurd (checkSubmission_ok.mp checked).1 elsewhere

/-- Whoever made an accepted reservation call still owns an index, which is how
the coordinator recognises a second call. -/
def CallersOwn (calls : List (Transition CoordinatorExecutionState Call)) (d : CoordinatorExecutionState) : Prop :=
  ∀ id, 0 < calls.countP (fun τ => τ.event.reservedBy id) → some id ∈ d.reservedIndices

theorem reservedBy_false_of_refused {id : ClientIdentity}
    (refused : ∀ indices delivered, call.action = .reserveMaskIndices indices delivered →
      d.checkReservation call.caller indices ≠ .ok () ∧ call.reply ≠ .ok ()) : call.reservedBy id = false := by
  unfold Call.reservedBy
  split
  · rename_i indices delivered reserving accepted
    exact absurd accepted (refused indices delivered reserving).2
  · rfl

theorem Step.layout (step : Step topology d call d') :
    d'.inputAssignments = d.inputAssignments ∧ d'.registration = d.registration := by
  cases step.recorded with
  | nothing same => rw [same]; exact ⟨rfl, rfl⟩
  | reservation _ same => rw [same]; exact ⟨rfl, rfl⟩
  | submission => exact ⟨rfl, rfl⟩

/-- An owner that a step brings in is its caller, in an accepted reservation of
this very index. -/
theorem Step.new_owner (step : Step topology d call d') {i : Nat} {id : ClientIdentity}
    (held : d'.reservedIndices.read i = some id) (fresh : d.reservedIndices.read i ≠ some id) :
    ReservedIn ⟨d, call, d'⟩ id i ∧ ∀ slot, d.inputAssignments[i]? = some slot → d.inputSlotClient slot = some id := by
  cases step.recorded with
  | nothing same =>
    rw [same] at held
    exact absurd held fresh
  | @reservation caller indices delivered _ checked same =>
    obtain ⟨atRound, _, _, checks⟩ := checkReservation_ok.mp checked
    rw [same] at held
    have new := (Slots.read_writeAll_cases held).resolve_left fun old => fresh old.2
    obtain ⟨member, rfl⟩ := mem_reservation_writes.mp new
    refine ⟨⟨atRound, indices, delivered, rfl, member⟩, ?_⟩
    obtain ⟨raw, inside, rfl⟩ := List.mem_map.mp member
    exact (checks raw inside).2.2
  | submission => exact absurd held fresh

/-- An input that a step brings in is submitted by its caller, who owns it. -/
theorem Step.new_input (step : Step topology d call d') {i : Nat} {x : Bytes}
    (held : d'.maskedInputs.read i = some x) (fresh : d.maskedInputs.read i ≠ some x) :
    ∃ id, d'.reservedIndices.read i = some id ∧ SubmittedIn ⟨d, call, d'⟩ id i x := by
  cases step.recorded with
  | nothing same =>
    rw [same] at held
    exact absurd held fresh
  | reservation _ same =>
    rw [same] at held
    exact absurd held fresh
  | @submission id maskedInputs reservedIndices checked =>
    obtain ⟨atRound, _, _, checks⟩ := checkSubmission_ok.mp checked
    have new := (Slots.read_writeAll_cases held).resolve_left fun old => fresh old.2
    obtain ⟨pair, inside, same⟩ := List.mem_map.mp new
    obtain ⟨rfl, rfl⟩ := Prod.mk.inj same
    refine ⟨id, (checks pair.1 (List.of_mem_zip inside).1).2.1, atRound, maskedInputs, reservedIndices, rfl, ?_⟩
    rw [List.zip_map_left]
    exact List.mem_map.mpr ⟨pair, inside, rfl⟩

/-- An accepted reservation is the caller's first, and leaves it an owner. -/
theorem Step.new_reservation (step : Step topology d call d') {id : ClientIdentity}
    (accepted : call.reservedBy id = true) : some id ∉ d.reservedIndices ∧ some id ∈ d'.reservedIndices := by
  cases step.recorded with
  | nothing _ unreserved =>
    rw [reservedBy_false_of_refused unreserved] at accepted
    cases accepted
  | @reservation caller indices delivered _ checked same =>
    obtain rfl : caller = id := of_decide_eq_true accepted
    obtain ⟨_, nonempty, first, checks⟩ := checkReservation_ok.mp checked
    refine ⟨first, ?_⟩
    obtain ⟨i, rest, rfl⟩ := List.exists_cons_of_ne_nil nonempty
    have named : i.toNat ∈ (((i :: rest).map fun i => (i.toNat, caller)).map Prod.fst) := by simp
    obtain ⟨owner, written, value⟩ := Slots.read_writeAll_of_mem named (checks i List.mem_cons_self).1
    rw [(mem_reservation_writes.mp written).2] at value
    rw [same]
    exact Slots.some_mem_iff.mpr ⟨_, value⟩
  | submission => cases accepted

theorem Provenance.step (provenance : Provenance calls d) (own : CallersOwn calls d)
    (step : Step topology d call d') :
    Provenance (calls ++ [⟨d, call, d'⟩]) d' ∧ CallersOwn (calls ++ [⟨d, call, d'⟩]) d' := by
  have kept := TablesKept.step step
  have layout := step.layout
  have owners : ∀ id, some id ∈ d.reservedIndices → some id ∈ d'.reservedIndices := by
    intro id owned
    obtain ⟨i, held⟩ := Slots.some_mem_iff.mp owned
    exact Slots.some_mem_iff.mpr ⟨i, kept.owner i id held⟩
  refine ⟨⟨?_, ?_, ?_⟩, ?_⟩
  · intro i id held
    by_cases old : d.reservedIndices.read i = some id
    · obtain ⟨⟨σ, member, origin⟩, assigned⟩ := provenance.reserved i id old
      refine ⟨⟨σ, List.mem_append_left _ member, origin⟩, ?_⟩
      simpa only [inputSlotClient, layout] using assigned
    · obtain ⟨origin, assigned⟩ := step.new_owner held old
      refine ⟨⟨_, List.mem_append_right _ (List.mem_singleton_self _), origin⟩, ?_⟩
      simpa only [inputSlotClient, layout] using assigned
  · intro id
    have before := provenance.reserved_once id
    rw [List.countP_append, List.countP_singleton]
    split
    · rename_i accepted
      have first : calls.countP (fun τ => τ.event.reservedBy id) = 0 := by
        by_contra some_call
        exact (step.new_reservation accepted).1 (own id (Nat.pos_of_ne_zero some_call))
      omega
    · omega
  · intro i x held
    by_cases old : d.maskedInputs.read i = some x
    · obtain ⟨id, owned, σ, member, origin⟩ := provenance.submitted i x old
      exact ⟨id, kept.owner i id owned, σ, List.mem_append_left _ member, origin⟩
    · obtain ⟨id, owned, origin⟩ := step.new_input held old
      exact ⟨id, owned, _, List.mem_append_right _ (List.mem_singleton_self _), origin⟩
  · intro id called
    rw [List.countP_append, List.countP_singleton] at called
    split at called
    · rename_i accepted
      exact (step.new_reservation accepted).2
    · exact owners id (own id called)

/-- The provenance of every state that calls lead to. -/
theorem Provenance.of_run {n : UInt64} (admitted : new registration n = .ok initial)
    (run : Run (Step topology) initial calls final) : Provenance calls final ∧ CallersOwn calls final := by
  induction run with
  | start =>
    rw [(new_cases admitted).1]
    exact ⟨⟨by simp [fresh], by simp, by simp [fresh]⟩, by simp [CallersOwn]⟩
  | next _ step ih => exact ih.1.step ih.2 step

end CoordinatorExecutionState

end MpcCoordinator
