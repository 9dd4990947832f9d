import MpcCoordinator.Execution.Quorum

namespace MpcCoordinator.CoordinatorExecutionState

/-- Nothing is left to apply: no round is due, or `mpcExecution` is and waits
for a masked input. -/
def Settled (quorum : Nat) (d : CoordinatorExecutionState) : Prop :=
  d.nextQuorumRound quorum = none ∨
    (d.nextQuorumRound quorum = some .mpcExecution ∧ d.round = .inputCollection ∧ none ∈ d.maskedInputs)

variable {topology : Topology} {registration : ExecutionRegistration} {initial final d d' : CoordinatorExecutionState}
  {call : Call} {trace : List (Transition CoordinatorExecutionState Call)} {quorum : Nat} {rosterHead : ClientIdentity}

theorem tryAdvance_settled (d : CoordinatorExecutionState) : Settled quorum (tryAdvance quorum rosterHead d).1 := by
  have stopped : advanceOnce quorum rosterHead (tryAdvance quorum rosterHead d).1 = none := tryAdvance_stops
  rcases advanceOnce_none.mp stopped with none | ⟨next, found, held⟩
  · exact Or.inl none
  · obtain ⟨rfl, elsewhere, missing⟩ := blockingPrecondition_some held
    refine Or.inr ⟨found, ?_, missing⟩
    rcases (nextQuorumRound_some found).1 with before | ⟨atRound, _⟩ | ⟨_, impossible⟩
    · exact (Option.some.inj before).symm
    · exact absurd atRound elsewhere
    · cases impossible

/-- Whether anything is due only depends on the round, the votes and the inputs. -/
theorem Settled.of_eq (settled : Settled quorum d) (round : d'.round = d.round)
    (votes : d'.transitionVotes = d.transitionVotes) (inputs : d'.maskedInputs = d.maskedInputs) :
    Settled quorum d' := by
  have due : d'.nextQuorumRound quorum = d.nextQuorumRound quorum := by
    simp only [nextQuorumRound, skipsEmptyInputRounds, skipsEmptyOutputRounds, hasQuorum, round, votes]
  simpa only [Settled, due, round, inputs] using settled

/-- A submission leaves the inputs it recorded unexamined until its second
critical section; every other call settles the execution before it returns. -/
theorem Settled.step (settled : d.maskedInputDelivery = none → Settled topology.transitionQuorum.toNat d)
    (step : Step topology d call d') : d'.maskedInputDelivery = none → Settled topology.transitionQuorum.toNat d' := by
  cases step.effect with
  | quiet same =>
    rw [same]
    intro free
    exact (settled free).of_eq rfl rfl rfl
  | vote => exact fun _ => tryAdvance_settled _
  | reserve _ same =>
    rw [same]
    intro free
    exact (settled free).of_eq rfl rfl rfl
  | submit => exact fun free => nomatch free
  | finish => exact fun _ => tryAdvance_settled _

theorem Settled.of_run (admitted : new registration topology.n = .ok initial)
    (run : Run (Step topology) initial trace final) (free : final.maskedInputDelivery = none) :
    Settled topology.transitionQuorum.toNat final := by
  refine run.invariant (P := fun d => d.maskedInputDelivery = none → Settled topology.transitionQuorum.toNat d)
    ?_ (fun _ _ _ => Settled.step) free
  rw [(new_cases admitted).1]
  refine fun _ => Or.inl (nextQuorumRound_none.mpr fun candidate _ => ?_)
  simp [hasQuorum, fresh]

/-- Nobody can submit to an execution without inputs, so its guard is free. -/
theorem free_of_no_inputs (admitted : new registration topology.n = .ok initial)
    (run : Run (Step topology) initial trace final) (empty : registration.nInputs = 0) :
    final.maskedInputDelivery = none := by
  induction run with
  | start =>
    rw [(new_cases admitted).1]
    rfl
  | @next earlier current call after previous step ih =>
    have coherent := Coherent.of_run admitted previous
    cases step.effect with
    | quiet same =>
      rw [same]
      exact ih
    | vote _ _ free => exact ((coherent.recordVote _ _).tryAdvance free).2
    | reserve _ same =>
      rw [same]
      exact ih
    | submit _ checked =>
      obtain ⟨_, _, nonempty, checks⟩ := checkSubmission_ok.mp checked
      obtain ⟨i, rest, rfl⟩ := List.exists_cons_of_ne_nil nonempty
      have bound := (checks i List.mem_cons_self).1
      rw [coherent.maskedInputs_length, empty] at bound
      exact absurd bound (Nat.not_lt_zero _)
    | finish => exact ((coherent.restoreSinks _ _).tryAdvance rfl).2

/-- A proposal of a party is on record, unless its round has been reached. -/
def ProposalKept (id : ClientIdentity) (round : Round) (d : CoordinatorExecutionState) : Prop :=
  id ∈ d.votersFor round ∨ roundIndex round ≤ roundIndex d.round

theorem ProposalKept.of_step {id : ClientIdentity} {round : Round} {reply : RpcResult Unit}
    (step : Step topology d ⟨id, .transition round, reply⟩ d') (party : id ∈ topology.parties)
    (entered : round ≠ .idle) : ProposalKept id round d' := by
  cases step.effect with
  | quiet same unrecorded =>
    rw [same]
    exact Or.inr (unrecorded.late round rfl party entered)
  | vote =>
    refine Or.inl ?_
    rw [(tryAdvance_onlyRounds _).votersFor_eq, votersFor_recordVote_self]
    exact Finset.mem_insert_self id _

theorem ProposalKept.step {id : ClientIdentity} {round : Round} (kept : ProposalKept id round d)
    (coherent : Coherent registration d) (step : Step topology d call d') : ProposalKept id round d' :=
  kept.imp (fun voted => (step.votesBy coherent).kept round voted) fun passed => passed.trans (step.round_le coherent)

theorem ProposalKept.of_run (admitted : new registration topology.n = .ok initial)
    (run : Run (Step topology) initial trace final) {id : ClientIdentity} {round : Round}
    (party : id ∈ topology.parties) (entered : round ≠ .idle)
    (proposed : ∃ τ ∈ trace, τ.event.caller = id ∧ τ.event.action = .transition round) :
    ProposalKept id round final := by
  obtain ⟨⟨source, ⟨caller, action, reply⟩, target⟩, member, rfl, rfl⟩ := proposed
  obtain ⟨_, _, _, first, step, rest⟩ := run.split member
  have coherent := Coherent.of_run admitted first
  exact (rest.invariant (P := fun d => Coherent registration d ∧ ProposalKept caller round d)
    ⟨coherent.step step, .of_step step party entered⟩
    fun _ _ _ before step => ⟨before.1.step step, before.2.step before.1 step⟩).2

/-- Every round but the last has one that comes right after it. -/
theorem exists_following {round : Round} (unfinished : round ≠ .programFinished) :
    ∃ next, roundBefore next = some round := by
  cases round with
  | idle => exact ⟨.preprocessing, rfl⟩
  | preprocessing => exact ⟨.inputMaskReservation, rfl⟩
  | inputMaskReservation => exact ⟨.inputCollection, rfl⟩
  | inputCollection => exact ⟨.mpcExecution, rfl⟩
  | mpcExecution => exact ⟨.outputDistribution, rfl⟩
  | outputDistribution => exact ⟨.programFinished, rfl⟩
  | programFinished => exact absurd rfl unfinished

/-- No proposal is stranded. Between calls nothing is due but `mpcExecution` on
a missing input; so without inputs a quorum of parties that propose every
round, in whatever order, sees the execution through. -/
theorem no_proposal_stranded (admitted : new registration topology.n = .ok initial)
    (run : Run (Step topology) initial trace final) :
    (∀ d ∈ Run.reached initial trace, d.maskedInputDelivery = none →
      Settled topology.transitionQuorum.toNat d) ∧
    (registration.nInputs = 0 → ∀ voters ⊆ topology.parties, topology.transitionQuorum.toNat ≤ voters.card →
      (∀ id ∈ voters, ∀ round, round ≠ .idle →
        ∃ τ ∈ trace, τ.event.caller = id ∧ τ.event.action = .transition round) →
      final.round = .programFinished) := by
  constructor
  · intro d member free
    obtain ⟨earlier, first⟩ := run.reached_cases member
    exact Settled.of_run admitted first free
  · intro empty voters roster quorum proposed
    by_contra unfinished
    obtain ⟨next, following⟩ := exists_following unfinished
    have index := roundIndex_of_roundBefore following
    have entered : next ≠ .idle := by
      rintro rfl
      cases following
    have voted : voters ⊆ final.votersFor next := by
      intro id member
      refine (ProposalKept.of_run admitted run (roster member) entered (proposed id member next entered)).resolve_right ?_
      omega
    have due : final.hasQuorum topology.transitionQuorum.toNat next = true :=
      (hasQuorum_iff topology.transitionQuorum_pos).mpr (quorum.trans (Finset.card_le_card voted))
    rcases Settled.of_run admitted run (free_of_no_inputs admitted run empty) with none | ⟨_, _, missing⟩
    · rw [nextQuorumRound_none.mp none next (Or.inl following)] at due
      cases due
    · have length := (Coherent.of_run admitted run).maskedInputs_length
      rw [empty] at length
      rw [List.length_eq_zero_iff.mp length] at missing
      cases missing

/-- The last vote of a node that votes in reverse order applies every round. -/
theorem no_proposal_stranded_in_reverse :
    ∃ trace final, Run (Step (.lone [1])) (fresh (.unassigned 0 [])) trace final ∧
      trace.map Transition.event = orderedRounds.reverse.map (fun round => ⟨[1], .transition round, .ok ()⟩) ∧
      final.round = .programFinished := by
  obtain ⟨trace, final, run, events, _⟩ := exists_run_of_calls (.lone [1]) (fresh (.unassigned 0 []))
    (orderedRounds.reverse.map fun round => ⟨[1], .transition round, .ok ()⟩) round .programFinished (by decide)
  refine ⟨trace, final, run, events,
    (no_proposal_stranded (new_unassigned 0 []) run).2 rfl {[1]} (by decide) (by decide) ?_⟩
  intro id member round entered
  have called : (⟨[1], .transition round, .ok ()⟩ : Call) ∈ trace.map Transition.event := by
    rw [events]
    exact List.mem_map_of_mem (List.mem_reverse.mpr (mem_orderedRounds.mpr entered))
  obtain ⟨τ, inTrace, same⟩ := List.mem_map.mp called
  rw [Finset.mem_singleton.mp member]
  exact ⟨τ, inTrace, by rw [same], by rw [same]⟩

end MpcCoordinator.CoordinatorExecutionState
