import MpcCoordinator.Execution.Quiescence

namespace MpcCoordinator

/-- A proposal as it arrives: the party and the round it proposes. -/
abbrev Vote := ClientIdentity × Round

/-- The distinct parties that propose a round in a list of votes. -/
def proposers (votes : List Vote) (round : Round) : Finset ClientIdentity :=
  ((votes.filter fun vote => vote.2 = round).map Prod.fst).toFinset

/-- A round that a quorum of the roster proposes. -/
def Proposed (topology : Topology) (votes : List Vote) (round : Round) : Prop :=
  topology.transitionQuorum.toNat ≤ (proposers votes round).card

instance (topology : Topology) (votes : List Vote) : DecidablePred (Proposed topology votes) :=
  fun _ => inferInstanceAs (Decidable (_ ≤ _))

theorem mem_proposers {votes : List Vote} {round : Round} {id : ClientIdentity} :
    id ∈ proposers votes round ↔ (id, round) ∈ votes := by
  simp [proposers]

theorem proposers_mono {fewer votes : List Vote} (subset : fewer ⊆ votes) (round : Round) :
    proposers fewer round ⊆ proposers votes round := by
  intro id member
  exact mem_proposers.mpr (subset (mem_proposers.mp member))

theorem proposers_perm {votes other : List Vote} (same : votes.Perm other) : proposers votes = proposers other := by
  funext round
  ext id
  rw [mem_proposers, mem_proposers, same.mem_iff]

theorem Proposed.mono {topology : Topology} {fewer votes : List Vote} {round : Round}
    (proposed : Proposed topology fewer round) (subset : fewer ⊆ votes) : Proposed topology votes round :=
  proposed.trans (Finset.card_le_card (proposers_mono subset round))

theorem Proposed.exists_vote {topology : Topology} {votes : List Vote} {round : Round}
    (proposed : Proposed topology votes round) : ∃ id, (id, round) ∈ votes := by
  have positive := topology.transitionQuorum_pos
  obtain ⟨id, member⟩ := Finset.card_pos.mp (positive.trans_le proposed)
  exact ⟨id, mem_proposers.mp member⟩

/-- Which rounds must have been proposed for a round to be reached at all. -/
def Passable (proposed : Round → Prop) : Round → Prop
  | .idle => True
  | .preprocessing => proposed .preprocessing
  | .inputMaskReservation => proposed .preprocessing ∧ proposed .inputMaskReservation
  | .inputCollection => proposed .preprocessing ∧ proposed .inputMaskReservation ∧ proposed .inputCollection
  | .mpcExecution => proposed .preprocessing ∧ proposed .mpcExecution
  | .outputDistribution => proposed .preprocessing ∧ proposed .mpcExecution ∧ proposed .outputDistribution
  | .programFinished => proposed .preprocessing ∧ proposed .mpcExecution ∧ proposed .programFinished

theorem Passable.mono {fewer more : Round → Prop} (weaker : ∀ round, fewer round → more round) {round : Round}
    (passable : Passable fewer round) : Passable more round := by
  cases round <;> simp only [Passable] at passable ⊢ <;> simp [weaker, passable]

theorem Passable.follow {proposed : Round → Prop} {earlier later : Round} (passable : Passable proposed earlier)
    (follows : Follows earlier later) (due : proposed later) : Passable proposed later := by
  rcases follows with before | ⟨rfl, rfl⟩ | ⟨rfl, rfl⟩
  · cases later <;> simp only [roundBefore, reduceCtorEq, Option.some.injEq] at before <;> subst before <;>
      simp_all [Passable]
  · exact ⟨passable, due⟩
  · exact ⟨passable.1, passable.2, due⟩

namespace CoordinatorExecutionState

/-- The state after one vote has been processed. -/
def castVote (topology : Topology) (d : CoordinatorExecutionState) (vote : Vote) : CoordinatorExecutionState :=
  match (CoordinatorRPCServerConnectionBase.mk topology vote.1).transition d vote.2 with
  | .ok (d', _) => d'
  | .error _ => d

def castVotes (topology : Topology) (d : CoordinatorExecutionState) (votes : List Vote) : CoordinatorExecutionState :=
  votes.foldl (castVote topology) d

/-- How a state accounts for the votes processed so far: those for rounds still
ahead are all on record, the round was reached on them, and nothing is due. -/
structure Counted (topology : Topology) (registration : ExecutionRegistration) (votes : List Vote)
    (d : CoordinatorExecutionState) : Prop where
  inputs_eq : d.maskedInputs = List.replicate registration.nInputs.toNat none
  voters_subset : ∀ round, d.votersFor round ⊆ proposers votes round
  voters_ahead : ∀ round, roundIndex d.round < roundIndex round → proposers votes round ⊆ d.votersFor round
  passable : Passable (Proposed topology votes) d.round
  settled : Settled topology.transitionQuorum.toNat d

variable {topology : Topology} {registration : ExecutionRegistration} {initial d : CoordinatorExecutionState}
  {votes : List Vote} {vote : Vote}

theorem castVote_cases (party : vote.1 ∈ topology.parties) (entered : vote.2 ≠ .idle) :
    (roundIndex vote.2 ≤ roundIndex d.round ∧ castVote topology d vote = d) ∨
      (roundIndex d.round < roundIndex vote.2 ∧ castVote topology d vote =
        ((d.recordVote vote.1 vote.2).tryAdvance topology.transitionQuorum.toNat topology.rosterHead).1) := by
  obtain ⟨after, deliveries, accepted⟩ := CoordinatorRPCServerConnectionBase.transition_accepts ⟨topology, vote.1⟩ d
    party entered
  obtain ⟨_, _, effect⟩ := CoordinatorRPCServerConnectionBase.transition_cases _ accepted
  have same : castVote topology d vote = after := by simp only [castVote, accepted]
  rcases effect with ⟨late, rfl, _⟩ | ⟨early, cascade⟩
  · exact Or.inl ⟨late, same⟩
  · exact Or.inr ⟨early, same.trans (congrArg Prod.fst cascade)⟩

theorem proposers_concat_of_ne {round : Round} (different : round ≠ vote.2) :
    proposers (votes ++ [vote]) round ⊆ proposers votes round := by
  intro id member
  rcases List.mem_append.mp (mem_proposers.mp member) with old | new
  · exact mem_proposers.mpr old
  · rw [← List.mem_singleton.mp new] at different
    exact absurd rfl different

theorem Counted.fresh (admitted : new registration topology.n = .ok initial) :
    Counted topology registration [] initial := by
  rw [(new_cases admitted).1]
  exact ⟨rfl, by simp [votersFor, CoordinatorExecutionState.fresh], by simp [proposers], trivial,
    Or.inl (nextQuorumRound_none.mpr fun candidate _ => by simp [hasQuorum, CoordinatorExecutionState.fresh])⟩

/-- A late vote changes nothing, also not what is ahead. -/
theorem Counted.late (counted : Counted topology registration votes d) (late : roundIndex vote.2 ≤ roundIndex d.round) :
    Counted topology registration (votes ++ [vote]) d where
  inputs_eq := counted.inputs_eq
  voters_subset := fun round =>
    (counted.voters_subset round).trans (proposers_mono (List.subset_append_left votes [vote]) round)
  voters_ahead := by
    intro round ahead
    refine (proposers_concat_of_ne ?_).trans (counted.voters_ahead round ahead)
    rintro rfl
    omega
  passable := counted.passable.mono fun _ proposed => proposed.mono (List.subset_append_left votes [vote])
  settled := counted.settled

/-- Votes that are on record suffice for the rounds that they lead to. -/
theorem tryAdvance_passable (voters : ∀ round, d.votersFor round ⊆ proposers votes round)
    (passable : Passable (Proposed topology votes) d.round) (rosterHead : ClientIdentity) :
    Passable (Proposed topology votes) (tryAdvance topology.transitionQuorum.toNat rosterHead d).1.round := by
  refine (tryAdvance_invariant (P := fun d' => OnlyRounds d d' ∧ Passable (Proposed topology votes) d'.round)
    ⟨.refl d, passable⟩ ?_).2
  rintro current delivery after ⟨same, reached⟩ applied
  have moved := same.trans (.of_advanceOnce applied)
  obtain ⟨found, _, _, _, rfl⟩ := advanceOnce_next applied
  obtain ⟨follows, due⟩ := nextQuorumRound_some found
  rw [hasQuorum_iff topology.transitionQuorum_pos, same.votersFor_eq] at due
  exact ⟨moved, reached.follow follows (due.trans (Finset.card_le_card (voters delivery.1)))⟩

theorem Counted.recordVote_subset (counted : Counted topology registration votes d) (round : Round) :
    (d.recordVote vote.1 vote.2).votersFor round ⊆ proposers (votes ++ [vote]) round := by
  have grown := proposers_mono (List.subset_append_left votes [vote]) round
  by_cases same : round = vote.2
  · subst same
    rw [votersFor_recordVote_self, Finset.insert_subset_iff]
    exact ⟨mem_proposers.mpr (by simp), (counted.voters_subset _).trans grown⟩
  · rw [votersFor_recordVote_of_ne same]
    exact (counted.voters_subset round).trans grown

theorem Counted.early (counted : Counted topology registration votes d) :
    Counted topology registration (votes ++ [vote])
      ((d.recordVote vote.1 vote.2).tryAdvance topology.transitionQuorum.toNat topology.rosterHead).1 := by
  have only : OnlyRounds (d.recordVote vote.1 vote.2)
      ((d.recordVote vote.1 vote.2).tryAdvance topology.transitionQuorum.toNat topology.rosterHead).1 :=
    tryAdvance_onlyRounds _
  refine ⟨?_, ?_, ?_, ?_, tryAdvance_settled _⟩
  · rw [only.maskedInputs_eq]
    exact counted.inputs_eq
  · intro round
    rw [only.votersFor_eq]
    exact counted.recordVote_subset round
  · intro round ahead
    have before : roundIndex d.round < roundIndex round := only.round_le.trans_lt ahead
    rw [only.votersFor_eq]
    by_cases same : round = vote.2
    · subst same
      rw [votersFor_recordVote_self]
      intro id member
      rcases List.mem_append.mp (mem_proposers.mp member) with old | new
      · exact Finset.mem_insert_of_mem (counted.voters_ahead _ before (mem_proposers.mpr old))
      · rw [← List.mem_singleton.mp new]
        exact Finset.mem_insert_self _ _
    · rw [votersFor_recordVote_of_ne same]
      exact (proposers_concat_of_ne same).trans (counted.voters_ahead round before)
  · refine tryAdvance_passable counted.recordVote_subset ?_ _
    exact counted.passable.mono fun _ proposed => proposed.mono (List.subset_append_left votes [vote])

theorem Counted.castVote (counted : Counted topology registration votes d) (party : vote.1 ∈ topology.parties)
    (entered : vote.2 ≠ .idle) : Counted topology registration (votes ++ [vote]) (castVote topology d vote) := by
  rcases castVote_cases party entered with ⟨late, same⟩ | ⟨_, same⟩
  · rw [same]
    exact counted.late late
  · rw [same]
    exact counted.early

/-- Votes of parties for real rounds. -/
def Ballot (topology : Topology) (votes : List Vote) : Prop :=
  ∀ vote ∈ votes, vote.1 ∈ topology.parties ∧ vote.2 ≠ .idle

instance (topology : Topology) (votes : List Vote) : Decidable (Ballot topology votes) :=
  inferInstanceAs (Decidable (∀ vote ∈ votes, _))

theorem Counted.castVotes {more : List Vote} (counted : Counted topology registration votes d)
    (ballot : Ballot topology more) : Counted topology registration (votes ++ more) (castVotes topology d more) := by
  induction more generalizing votes d with
  | nil =>
    rw [List.append_nil]
    exact counted
  | cons vote rest ih =>
    obtain ⟨party, entered⟩ := ballot vote List.mem_cons_self
    have after := ih (counted.castVote party entered) fun other member => ballot other (List.mem_cons_of_mem _ member)
    rwa [List.append_assoc, List.singleton_append] at after

theorem castVotes_round_le {more : List Vote} (ballot : Ballot topology more) :
    roundIndex d.round ≤ roundIndex (castVotes topology d more).round := by
  induction more generalizing d with
  | nil => exact le_rfl
  | cons vote rest ih =>
    obtain ⟨party, entered⟩ := ballot vote List.mem_cons_self
    refine le_trans ?_ (ih fun other member => ballot other (List.mem_cons_of_mem _ member))
    rcases castVote_cases (d := d) party entered with ⟨_, same⟩ | ⟨_, same⟩
    · rw [same]
    · rw [same]
      exact (tryAdvance_onlyRounds (d.recordVote vote.1 vote.2)).round_le

end CoordinatorExecutionState

end MpcCoordinator
