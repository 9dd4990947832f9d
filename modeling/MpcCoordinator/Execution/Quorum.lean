import MpcCoordinator.Execution.Applied

namespace MpcCoordinator.CoordinatorExecutionState

variable {topology : Topology} {registration : ExecutionRegistration} {initial final d d' : CoordinatorExecutionState}
  {call : Call} {trace : List (Transition CoordinatorExecutionState Call)}

theorem OnlyRounds.votersFor_eq (same : OnlyRounds d d') (round : Round) : d'.votersFor round = d.votersFor round := by
  rw [same.eq]
  rfl

theorem VotesBy.onlyRounds {start : CoordinatorExecutionState} (votes : VotesBy topology d call start)
    (same : OnlyRounds start d') : VotesBy topology d call d' := by
  refine ⟨fun round => ?_, fun round => ?_⟩
  · rw [same.votersFor_eq]
    exact votes.kept round
  · rw [same.votersFor_eq]
    exact votes.cast round

theorem Step.votesBy (coherent : Coherent registration d) (step : Step topology d call d') :
    VotesBy topology d call d' := by
  obtain ⟨start, _, _, votes, ⟨rfl, _⟩ | ⟨_, rfl, _⟩⟩ := step.cascade coherent
  · exact votes
  · exact votes.onlyRounds (tryAdvance_onlyRounds start)

theorem Step.round_le (coherent : Coherent registration d) (step : Step topology d call d') :
    roundIndex d.round ≤ roundIndex d'.round := by
  obtain ⟨start, _, kept, _, ⟨rfl, _⟩ | ⟨_, rfl, _⟩⟩ := step.cascade coherent
  · rw [kept.round_eq]
  · rw [← kept.round_eq]
    exact (tryAdvance_onlyRounds start).round_le

/-- The moment a round is applied: the votes are those of before the call and
the caller's, and the round has its quorum among them. -/
theorem Step.applied (coherent : Coherent registration d) (step : Step topology d call d')
    {entry : CoordinatorExecutionState × TransitionDelivery} (member : entry ∈ appliedBy topology d call) :
    VotesBy topology d call entry.1 ∧
      topology.transitionQuorum.toNat ≤ (entry.1.votersFor entry.2.1).card := by
  obtain ⟨start, _, _, votes, ⟨_, none⟩ | ⟨_, _, applied⟩⟩ := step.cascade coherent
  · simp [none] at member
  · rw [applied] at member
    obtain ⟨after, moved⟩ := Loop.iterations_moved member
    have due := (nextQuorumRound_some (advanceOnce_next moved).1).2
    exact ⟨votes.onlyRounds (applications_onlyRounds member), (hasQuorum_iff topology.transitionQuorum_pos).mp due⟩

/-- Every vote on record was cast by its party in a call of the run. -/
def VotesCast (topology : Topology) (trace : List (Transition CoordinatorExecutionState Call))
    (d : CoordinatorExecutionState) : Prop :=
  ∀ round, ∀ id ∈ d.votersFor round, id ∈ topology.parties ∧
    ∃ τ ∈ trace, τ.event = ⟨id, .transition round, .ok ()⟩

theorem VotesCast.votesBy (τ : Transition CoordinatorExecutionState Call) (cast : VotesCast topology trace d)
    (votes : VotesBy topology d τ.event d') : VotesCast topology (trace ++ [τ]) d' := by
  intro round id member
  by_cases old : id ∈ d.votersFor round
  · obtain ⟨party, τ, earlier, called⟩ := cast round id old
    exact ⟨party, τ, List.mem_append_left _ earlier, called⟩
  · obtain ⟨called, party⟩ := votes.cast round id member old
    exact ⟨party, τ, List.mem_append_right _ (List.mem_singleton_self τ), called⟩

theorem VotesCast.of_run (admitted : new registration topology.n = .ok initial)
    (run : Run (Step topology) initial trace final) : VotesCast topology trace final := by
  induction run with
  | start =>
    rw [(new_cases admitted).1]
    intro round id member
    simp [votersFor, fresh] at member
  | @next earlier current call after previous step ih =>
    exact ih.votesBy ⟨current, call, after⟩ (step.votesBy (.of_run admitted previous))

/-- A round that is in the history was applied by one of the calls. -/
theorem entered_applied (admitted : new registration topology.n = .ok initial)
    (run : Run (Step topology) initial trace final) {round : Round} (entered : (final.transEvents round).isSome = true) :
    ∃ τ ∈ trace, ∃ entry ∈ appliedBy topology τ.source τ.event, entry.2.1 = round := by
  have absent : ¬ (initial.transEvents round).isSome = true := by
    rw [(new_cases admitted).1]
    simp [fresh]
  obtain ⟨τ, member, before, after⟩ :=
    run.exists_change (Q := fun d => (d.transEvents round).isSome = true) absent entered
  have coherent := run.source_invariant (.of_new admitted) (fun _ _ _ => Coherent.step) member
  refine ⟨τ, member, ?_⟩
  obtain ⟨start, _, kept, _, ⟨same, _⟩ | ⟨_, same, applied⟩⟩ := (run.taken_of_mem member).cascade coherent
  · rw [same, kept.transEvents_eq] at after
    exact absurd after before
  · rw [same] at after
    rw [← kept.transEvents_eq] at before
    rw [applied]
    obtain ⟨entry, applies, next, moved, absent, present⟩ :=
      Loop.exists_change (Q := fun d : CoordinatorExecutionState => (d.transEvents round).isSome = true) before after
    refine ⟨entry, applies, ?_⟩
    obtain ⟨_, _, _, _, rfl⟩ := advanceOnce_next moved
    by_contra different
    rw [enter_transEvents, Table.insert_of_ne _ _ (Ne.symm different)] at present
    exact absent present

/-- A quorum outnumbers the tolerated faults, so it holds an honest party. -/
theorem exists_honest_voter (voters faulty : Finset ClientIdentity) (roster : voters ⊆ topology.parties)
    (quorum : topology.transitionQuorum.toNat ≤ voters.card)
    (tolerated : (faulty ∩ topology.parties).card ≤ topology.t.toNat) : ∃ id ∈ voters, id ∉ faulty := by
  by_contra none
  push Not at none
  have inside : voters ⊆ faulty ∩ topology.parties :=
    fun id member => Finset.mem_inter.mpr ⟨none id member, roster member⟩
  have fewer := Finset.card_le_card inside
  have bounds := topology.transitionQuorum_bounds
  omega

/-- In every run of an admitted execution the quorum arithmetic is exact, rounds
never go back, and a round is only applied on the votes of a quorum of parties,
each cast in a call of the run so far. At least one of them is honest. -/
theorem applied_rounds_have_quorum (admitted : new registration topology.n = .ok initial)
    (run : Run (Step topology) initial trace final) :
    ((2 * topology.t + 1).toNat = 2 * topology.t.toNat + 1 ∧ (topology.t + 1).toNat = topology.t.toNat + 1 ∧
      (topology.n - topology.t).toNat + topology.t.toNat = topology.n.toNat) ∧
    (topology.t.toNat + 1 ≤ topology.transitionQuorum.toNat ∧
      topology.transitionQuorum.toNat ≤ topology.n.toNat - topology.t.toNat) ∧
    (∀ τ ∈ trace, roundIndex τ.source.round ≤ roundIndex τ.target.round) ∧
    (∀ round, (final.transEvents round).isSome = true →
      ∃ τ ∈ trace, ∃ entry ∈ appliedBy topology τ.source τ.event, entry.2.1 = round) ∧
    ∀ before τ after, trace = before ++ τ :: after → ∀ entry ∈ appliedBy topology τ.source τ.event,
      ∃ voters, entry.1.transitionVotes entry.2.1 = some voters ∧
        topology.transitionQuorum.toNat ≤ voters.card ∧ voters ⊆ topology.parties ∧
        (∀ id ∈ voters, ∃ σ ∈ before ++ [τ], σ.event = ⟨id, .transition entry.2.1, .ok ()⟩) ∧
        ∀ faulty : Finset ClientIdentity, (faulty ∩ topology.parties).card ≤ topology.t.toNat →
          ∃ id ∈ voters, id ∉ faulty := by
  have coherent : ∀ τ ∈ trace, Coherent registration τ.source :=
    fun τ member => run.source_invariant (.of_new admitted) (fun _ _ _ => Coherent.step) member
  have below := topology.t_lt_n
  refine ⟨⟨topology.doubled_toNat, topology.successor_toNat, by rw [topology.livenessBound_toNat]; omega⟩,
    topology.transitionQuorum_bounds, ?_, ?_, ?_⟩
  · intro τ member
    exact (run.taken_of_mem member).round_le (coherent τ member)
  · intro round entered
    exact entered_applied admitted run entered
  · intro before τ after same entry applied
    obtain ⟨first, step, _⟩ := run.split_at same
    obtain ⟨votes, quorum⟩ := step.applied (.of_run admitted first) applied
    have cast := (VotesCast.of_run admitted first).votesBy τ votes
    have roster : entry.1.votersFor entry.2.1 ⊆ topology.parties := fun id member => (cast _ id member).1
    refine ⟨entry.1.votersFor entry.2.1, ?_, quorum, roster, fun id member => (cast _ id member).2,
      fun faulty tolerated => exists_honest_voter _ faulty roster quorum tolerated⟩
    have positive := topology.transitionQuorum_pos
    unfold votersFor at quorum ⊢
    cases votes : entry.1.transitionVotes entry.2.1 with
    | none => simp [votes] at quorum; omega
    | some voters => rfl

/-- Two votes of a roster of three, which tolerates one fault, apply a round. -/
theorem applied_rounds_have_quorum_of_trio :
    ∃ trace final, Run (Step .trio) (fresh (.unassigned 0 [])) trace final ∧ final.round = .preprocessing ∧
      ∃ τ ∈ trace, ∃ entry ∈ appliedBy .trio τ.source τ.event, entry.2.1 = .preprocessing := by
  obtain ⟨trace, final, run, _, seen⟩ := exists_run_of_calls .trio (fresh (.unassigned 0 []))
    [⟨[1], .transition .preprocessing, .ok ()⟩, ⟨[3], .transition .preprocessing, .ok ()⟩]
    (fun d => (d.round, (d.transEvents .preprocessing).isSome)) (.preprocessing, true) (by decide)
  obtain ⟨started, entered⟩ := Prod.mk.inj seen
  have admitted : new (.unassigned 0 []) Topology.trio.n = .ok (fresh (.unassigned 0 [])) := rfl
  exact ⟨trace, final, run, started,
    (applied_rounds_have_quorum admitted run).2.2.2.1 .preprocessing entered⟩

end MpcCoordinator.CoordinatorExecutionState
