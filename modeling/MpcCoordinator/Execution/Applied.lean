import MpcCoordinator.Execution.Coherent

namespace MpcCoordinator.CoordinatorExecutionState

/-- The round changes that one call makes, each with the state it was made in:
none, unless the call records a vote or finishes a submission. -/
def appliedBy (topology : Topology) (d : CoordinatorExecutionState) (call : Call) :
    List (CoordinatorExecutionState × TransitionDelivery) :=
  match call.action with
  | .transition nextRound =>
    if call.caller ∈ topology.parties ∧ nextRound ≠ .idle ∧ roundIndex d.round < roundIndex nextRound then
      applications topology.transitionQuorum.toNat topology.rosterHead (d.recordVote call.caller nextRound)
    else []
  | .finishSubmission delivered =>
    match d.maskedInputDelivery with
    | some pending =>
      applications topology.transitionQuorum.toNat topology.rosterHead (d.restoreSinks pending delivered)
    | none => []
  | _ => []

variable {topology : Topology} {d d' : CoordinatorExecutionState} {call : Call}

theorem appliedBy_vote {id : ClientIdentity} {nextRound : Round} {reply : RpcResult Unit}
    (party : id ∈ topology.parties) (entered : nextRound ≠ .idle)
    (early : roundIndex d.round < roundIndex nextRound) :
    appliedBy topology d ⟨id, .transition nextRound, reply⟩ =
      applications topology.transitionQuorum.toNat topology.rosterHead (d.recordVote id nextRound) := by
  simp [appliedBy, party, entered, early]

theorem appliedBy_finish {id : ClientIdentity} {delivered : SubscriptionSink → Bool} {reply : RpcResult Unit}
    {pending : PendingSubmission} (held : d.maskedInputDelivery = some pending) :
    appliedBy topology d ⟨id, .finishSubmission delivered, reply⟩ =
      applications topology.transitionQuorum.toNat topology.rosterHead (d.restoreSinks pending delivered) := by
  simp [appliedBy, held]

/-- A call that is late, refused or about something else changes no round. -/
theorem appliedBy_quiet (unrecorded : Unrecorded topology d call) : appliedBy topology d call = [] := by
  unfold appliedBy
  split
  · rename_i nextRound voted
    rw [if_neg]
    rintro ⟨party, entered, early⟩
    have behind := unrecorded.late nextRound voted party entered
    omega
  · rename_i delivered finishing
    exact absurd finishing (unrecorded.unfinished delivered)
  · rfl

/-- What a call may do before the cascade starts: votes, reservations and
subscriptions may change, masked inputs only while they are collected. -/
structure KeepsRounds (d d' : CoordinatorExecutionState) : Prop where
  round_eq : d'.round = d.round
  transEvents_eq : d'.transEvents = d.transEvents
  registration_eq : d'.registration = d.registration
  outputClients_eq : d'.outputClients = d.outputClients
  maskedInputs_eq : d.round ≠ .inputCollection → d'.maskedInputs = d.maskedInputs

theorem KeepsRounds.of_sameProtocol (same : SameProtocol d d') : KeepsRounds d d' := by
  rw [same]
  exact ⟨rfl, rfl, rfl, rfl, fun _ => rfl⟩

/-- Votes are never forgotten, and the only ones to come in are the caller's
own, for the round that it proposes and if it is a party. -/
structure VotesBy (topology : Topology) (d : CoordinatorExecutionState) (call : Call)
    (d' : CoordinatorExecutionState) : Prop where
  kept : ∀ round, d.votersFor round ⊆ d'.votersFor round
  cast : ∀ round, ∀ id ∈ d'.votersFor round, id ∉ d.votersFor round →
    call = ⟨id, .transition round, .ok ()⟩ ∧ id ∈ topology.parties

theorem VotesBy.of_eq (same : d'.transitionVotes = d.transitionVotes) : VotesBy topology d call d' := by
  have voters : ∀ round, d'.votersFor round = d.votersFor round := by
    intro round
    rw [votersFor, same, votersFor]
  refine ⟨fun round => (voters round).ge, fun round id member absent => ?_⟩
  rw [voters round] at member
  exact absurd member absent

theorem VotesBy.recordVote {id : ClientIdentity} {nextRound : Round} (party : id ∈ topology.parties) :
    VotesBy topology d ⟨id, .transition nextRound, .ok ()⟩ (d.recordVote id nextRound) := by
  refine ⟨fun round => ?_, fun round voter member absent => ?_⟩
  · by_cases same : round = nextRound
    · rw [same, votersFor_recordVote_self]
      exact Finset.subset_insert _ _
    · rw [votersFor_recordVote_of_ne same]
  · by_cases same : round = nextRound
    · subst same
      rw [votersFor_recordVote_self] at member
      have voted : voter = id := (Finset.mem_insert.mp member).resolve_right absent
      exact ⟨by rw [voted], voted ▸ party⟩
    · rw [votersFor_recordVote_of_ne same] at member
      exact absurd member absent

/-- Every step is a change that keeps the rounds, in most cases all of it; after
a vote or a submission it goes on with the cascade. -/
theorem Step.cascade {registration : ExecutionRegistration} (coherent : Coherent registration d)
    (step : Step topology d call d') :
    ∃ start, Coherent registration start ∧ KeepsRounds d start ∧ VotesBy topology d call start ∧
      ((d' = start ∧ appliedBy topology d call = []) ∨
        (start.maskedInputDelivery = none ∧
          d' = (start.tryAdvance topology.transitionQuorum.toNat topology.rosterHead).1 ∧
          appliedBy topology d call = start.applications topology.transitionQuorum.toNat topology.rosterHead)) := by
  have after := coherent.step step
  cases step.effect with
  | quiet same unrecorded =>
    exact ⟨d', after, .of_sameProtocol same, .of_eq (by rw [same]), Or.inl ⟨rfl, appliedBy_quiet unrecorded⟩⟩
  | vote party entered free early =>
    exact ⟨_, coherent.recordVote _ _, ⟨rfl, rfl, rfl, rfl, fun _ => rfl⟩, .recordVote party,
      Or.inr ⟨free, rfl, appliedBy_vote party entered early⟩⟩
  | @reserve id indices _ _ _ same =>
    have kept : KeepsRounds (d.recordReservation id indices) d' := .of_sameProtocol same
    exact ⟨d', after, ⟨kept.round_eq, kept.transEvents_eq, kept.registration_eq, kept.outputClients_eq,
      kept.maskedInputs_eq⟩, .of_eq (by rw [same]; rfl), Or.inl ⟨rfl, rfl⟩⟩
  | submit _ checked =>
    have collecting := (checkSubmission_ok.mp checked).1
    exact ⟨_, after, ⟨rfl, rfl, rfl, rfl, fun elsewhere => absurd collecting elsewhere⟩, .of_eq rfl,
      Or.inl ⟨rfl, rfl⟩⟩
  | finish held =>
    exact ⟨_, coherent.restoreSinks _ _, ⟨rfl, rfl, rfl, rfl, fun _ => rfl⟩, .of_eq rfl,
      Or.inr ⟨rfl, rfl, appliedBy_finish held⟩⟩

/-- A condition that the cascade keeps exactly under `guard`, that does not come
back once lost and that depends on the rounds only, holds throughout a run
exactly when every round was applied under `guard`. -/
theorem always_iff_applied {registration : ExecutionRegistration} {P guard : CoordinatorExecutionState → Prop}
    {initial final : CoordinatorExecutionState} {trace : List (Transition CoordinatorExecutionState Call)}
    (admitted : new registration topology.n = .ok initial) (run : Run (Step topology) initial trace final)
    (base : P initial) (kept : ∀ d d', P d → KeepsRounds d d' → P d')
    (exact_pass : ∀ d delivery d', Coherent registration d → P d →
      advanceOnce topology.transitionQuorum.toNat topology.rosterHead d = some (delivery, d') → (P d' ↔ guard d))
    (lost : ∀ d delivery d', ¬ P d →
      advanceOnce topology.transitionQuorum.toNat topology.rosterHead d = some (delivery, d') → ¬ P d') :
    (∀ d ∈ Run.reached initial trace, P d) ↔
      ∀ τ ∈ trace, ∀ entry ∈ appliedBy topology τ.source τ.event, guard entry.1 := by
  refine run.always_iff (I := Coherent registration)
    (G := fun d call => ∀ entry ∈ appliedBy topology d call, guard entry.1)
    (.of_new admitted) (fun _ _ _ => Coherent.step) base ?_
  intro d call d' coherent holds step
  obtain ⟨start, ready, same, _, ⟨rfl, none⟩ | ⟨free, rfl, applied⟩⟩ := Step.cascade coherent step
  · simp [none, kept _ _ holds same]
  · rw [applied]
    exact Loop.run_iff (I := fun d => Coherent registration d ∧ d.maskedInputDelivery = none) ⟨ready, free⟩
      (kept _ _ holds same) (fun _ _ _ before applied => before.1.advanceOnce before.2 applied)
      (fun _ _ _ before => exact_pass _ _ _ before.1) (fun _ _ _ _ => lost _ _ _)

end MpcCoordinator.CoordinatorExecutionState
