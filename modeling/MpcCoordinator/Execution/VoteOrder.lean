import MpcCoordinator.Execution.Ballot

namespace MpcCoordinator

/-- The rounds proposed lead both straight from `preprocessing` to
`mpcExecution` and into an input round from which there is no way on. -/
def Conflicting (proposed : Round → Prop) (held : Prop) : Prop :=
  proposed .preprocessing ∧ proposed .inputMaskReservation ∧ proposed .mpcExecution ∧
    (¬ proposed .inputCollection ∨ held)

instance (proposed : Round → Prop) (held : Prop) [DecidablePred proposed] [Decidable held] :
    Decidable (Conflicting proposed held) :=
  inferInstanceAs (Decidable (_ ∧ _ ∧ _ ∧ _))

/-- No proposed round follows, unless it is held back: read off the edges that
leave each round. -/
def Exhausted (proposed : Round → Prop) (held : Prop) : Round → Prop
  | .idle => ¬ proposed .preprocessing
  | .preprocessing => ¬ proposed .inputMaskReservation ∧ ¬ proposed .mpcExecution
  | .inputMaskReservation => ¬ proposed .inputCollection
  | .inputCollection => proposed .mpcExecution → held
  | .mpcExecution => ¬ proposed .outputDistribution ∧ ¬ proposed .programFinished
  | .outputDistribution => ¬ proposed .programFinished
  | .programFinished => True

theorem exhausted_of_follows {proposed : Round → Prop} {held : Prop} {round : Round}
    (waits : ∀ next, Follows round next → proposed next → round = .inputCollection ∧ held) :
    Exhausted proposed held round := by
  have elsewhere : round ≠ .inputCollection → ∀ next, Follows round next → ¬ proposed next :=
    fun other next follows due => other (waits next follows due).1
  cases round with
  | idle => exact elsewhere (by decide) _ (by decide)
  | preprocessing => exact ⟨elsewhere (by decide) _ (by decide), elsewhere (by decide) _ (by decide)⟩
  | inputMaskReservation => exact elsewhere (by decide) _ (by decide)
  | inputCollection => exact fun due => (waits .mpcExecution (by decide) due).2
  | mpcExecution => exact ⟨elsewhere (by decide) _ (by decide), elsewhere (by decide) _ (by decide)⟩
  | outputDistribution => exact elsewhere (by decide) _ (by decide)
  | programFinished => trivial

/-- Without a conflict there is only one round at which voting can end. -/
theorem exhausted_unique {proposed : Round → Prop} {held : Prop} (clear : ¬ Conflicting proposed held)
    {first second : Round} (left : Passable proposed first) (leftEnd : Exhausted proposed held first)
    (right : Passable proposed second) (rightEnd : Exhausted proposed held second) : first = second := by
  unfold Conflicting at clear
  cases first <;> cases second <;> simp only [Passable, Exhausted] at left right leftEnd rightEnd <;>
    first | rfl | (exfalso; tauto)

namespace CoordinatorExecutionState

variable {topology : Topology} {registration : ExecutionRegistration} {initial d : CoordinatorExecutionState}
  {votes more : List Vote}

theorem Counted.exhausted (counted : Counted topology registration votes d) :
    Exhausted (Proposed topology votes) (registration.nInputs ≠ 0) d.round := by
  refine exhausted_of_follows fun next follows proposed => ?_
  have due : d.hasQuorum topology.transitionQuorum.toNat next = true :=
    (hasQuorum_iff topology.transitionQuorum_pos).mpr
      (proposed.trans (Finset.card_le_card (counted.voters_ahead next follows.lt)))
  rcases counted.settled with none | ⟨_, collecting, missing⟩
  · rw [nextQuorumRound_none.mp none next follows] at due
    cases due
  · refine ⟨collecting, fun empty => ?_⟩
    rw [counted.inputs_eq, empty] at missing
    cases missing

theorem counted_of_fresh (admitted : new registration topology.n = .ok initial) (ballot : Ballot topology votes) :
    Counted topology registration votes (castVotes topology initial votes) :=
  (Counted.fresh admitted).castVotes ballot

/-- Once in `inputMaskReservation`, there is only `inputCollection` to go to. -/
theorem castVotes_reserving (counted : Counted topology registration votes d) (ballot : Ballot topology more)
    (reserving : d.round = .inputMaskReservation) (uncollected : ¬ Proposed topology (votes ++ more) .inputCollection) :
    (castVotes topology d more).round = .inputMaskReservation := by
  induction more generalizing votes d with
  | nil => exact reserving
  | cons vote rest ih =>
    obtain ⟨party, entered⟩ := ballot vote List.mem_cons_self
    rw [← List.singleton_append, ← List.append_assoc] at uncollected
    refine ih (counted.castVote party entered) (fun other member => ballot other (List.mem_cons_of_mem _ member)) ?_
      uncollected
    rcases castVote_cases party entered with ⟨_, same⟩ | ⟨_, same⟩
    · rw [same]
      exact reserving
    · rw [same]
      refine (tryAdvance_invariant (P := fun d' => OnlyRounds (d.recordVote vote.1 vote.2) d' ∧
        d'.round = .inputMaskReservation) ⟨.refl _, reserving⟩ ?_).2
      rintro current delivery after ⟨only, still⟩ applied
      obtain ⟨follows, due⟩ := nextQuorumRound_some (advanceOnce_next applied).1
      have collecting : delivery.1 = .inputCollection := by
        rw [still] at follows
        generalize delivery.1 = next at follows
        cases next <;> simp [Follows, roundBefore] at follows ⊢
      rw [collecting, hasQuorum_iff topology.transitionQuorum_pos, only.votersFor_eq] at due
      have proposed : Proposed topology (votes ++ [vote]) .inputCollection :=
        due.trans (Finset.card_le_card (counted.recordVote_subset _))
      exact absurd (proposed.mono (List.subset_append_left _ rest)) uncollected

/-- The votes for two rounds, one after the other. -/
def twoRounds (votes : List Vote) (first second : Round) : List Vote :=
  votes.filter (fun vote => decide (vote.2 = first)) ++ votes.filter (fun vote => decide (vote.2 = second))

theorem mem_twoRounds {first second : Round} {vote : Vote} :
    vote ∈ twoRounds votes first second ↔ (vote.2 = first ∨ vote.2 = second) ∧ vote ∈ votes := by
  simp only [twoRounds, List.mem_append, List.mem_filter, decide_eq_true_eq]
  tauto

/-- The votes for two rounds can be the first to arrive. -/
theorem twoRounds_perm (votes : List Vote) {first second : Round} (different : first ≠ second) :
    ∃ rest, (twoRounds votes first second ++ rest).Perm votes := by
  let others := votes.filter fun vote => !decide (vote.2 = first)
  have outer := List.filter_append_perm (fun vote : Vote => decide (vote.2 = first)) votes
  have inner := List.filter_append_perm (fun vote : Vote => decide (vote.2 = second)) others
  have same : others.filter (fun vote => decide (vote.2 = second)) = votes.filter fun vote => decide (vote.2 = second) := by
    rw [List.filter_filter]
    refine List.filter_congr fun vote _ => ?_
    by_cases voted : vote.2 = second
    · simp [voted, Ne.symm different]
    · simp [voted]
  rw [same] at inner
  refine ⟨others.filter fun vote => !decide (vote.2 = second), ?_⟩
  rw [twoRounds, List.append_assoc]
  exact (inner.append_left _).trans outer

theorem proposed_twoRounds {first second round : Round} :
    Proposed topology (twoRounds votes first second) round ↔
      (round = first ∨ round = second) ∧ Proposed topology votes round := by
  constructor
  · intro proposed
    obtain ⟨id, member⟩ := proposed.exists_vote
    exact ⟨(mem_twoRounds.mp member).1, proposed.mono fun vote inside => (mem_twoRounds.mp inside).2⟩
  · rintro ⟨chosen, proposed⟩
    refine proposed.trans (Finset.card_le_card fun id member => ?_)
    exact mem_proposers.mpr (mem_twoRounds.mpr ⟨chosen, mem_proposers.mp member⟩)

theorem Ballot.of_perm {other : List Vote} (ballot : Ballot topology votes) (same : other.Perm votes) :
    Ballot topology other :=
  fun vote member => ballot vote (same.mem_iff.mp member)

theorem castVotes_append (front rest : List Vote) :
    castVotes topology d (front ++ rest) = castVotes topology (castVotes topology d front) rest :=
  List.foldl_append

/-- With the votes for `mpcExecution` first, voting takes the shortcut. -/
theorem exists_order_past_inputs (admitted : new registration topology.n = .ok initial) (ballot : Ballot topology votes)
    (starts : Proposed topology votes .preprocessing) (executes : Proposed topology votes .mpcExecution) :
    ∃ order, order.Perm votes ∧ roundIndex .mpcExecution ≤ roundIndex (castVotes topology initial order).round := by
  obtain ⟨rest, same⟩ := twoRounds_perm votes (show Round.mpcExecution ≠ .preprocessing by decide)
  have proper := ballot.of_perm same
  refine ⟨_, same, ?_⟩
  rw [castVotes_append]
  refine le_trans ?_ (castVotes_round_le fun vote member => proper vote (List.mem_append_right _ member))
  have counted := counted_of_fresh admitted fun vote member => proper vote (List.mem_append_left rest member)
  have passable := counted.passable
  have exhausted := counted.exhausted
  generalize (castVotes topology initial (twoRounds votes .mpcExecution .preprocessing)).round = round at passable exhausted ⊢
  cases round <;> simp [Passable, Exhausted, proposed_twoRounds, starts, executes] at passable exhausted ⊢

/-- With the votes for `inputMaskReservation` first and none to collect inputs,
voting ends there. -/
theorem exists_order_stuck (admitted : new registration topology.n = .ok initial) (ballot : Ballot topology votes)
    (starts : Proposed topology votes .preprocessing) (reserves : Proposed topology votes .inputMaskReservation)
    (uncollected : ¬ Proposed topology votes .inputCollection) :
    ∃ order, order.Perm votes ∧ (castVotes topology initial order).round = .inputMaskReservation := by
  obtain ⟨rest, same⟩ := twoRounds_perm votes (show Round.inputMaskReservation ≠ .preprocessing by decide)
  have proper := ballot.of_perm same
  have counted := counted_of_fresh admitted fun vote member => proper vote (List.mem_append_left rest member)
  refine ⟨_, same, ?_⟩
  rw [castVotes_append]
  refine castVotes_reserving counted (fun vote member => proper vote (List.mem_append_right _ member)) ?_
    fun proposed => uncollected (proposed.mono same.subset)
  have passable := counted.passable
  have exhausted := counted.exhausted
  generalize (castVotes topology initial (twoRounds votes .inputMaskReservation .preprocessing)).round = round
    at passable exhausted ⊢
  cases round <;> simp [Passable, Exhausted, proposed_twoRounds, starts, reserves] at passable exhausted ⊢

/-- The order in which votes arrive does not matter, unless `preprocessing`,
`inputMaskReservation` and `mpcExecution` have a quorum each and the way through
the input rounds is closed. Without inputs it does matter then. -/
theorem vote_order_irrelevant (admitted : new registration topology.n = .ok initial) (ballot : Ballot topology votes) :
    (¬ Conflicting (Proposed topology votes) (registration.nInputs ≠ 0) →
      ∀ first second, first.Perm votes → second.Perm votes →
        (castVotes topology initial first).round = (castVotes topology initial second).round) ∧
    (registration.nInputs = 0 → Conflicting (Proposed topology votes) (registration.nInputs ≠ 0) →
      ∃ first second, first.Perm votes ∧ second.Perm votes ∧
        (castVotes topology initial first).round ≠ (castVotes topology initial second).round) := by
  have tally : ∀ order, order.Perm votes → Proposed topology order = Proposed topology votes := by
    intro order same
    funext round
    rw [Proposed, proposers_perm same, Proposed]
  constructor
  · intro clear first second left right
    have one := counted_of_fresh admitted (ballot.of_perm left)
    have two := counted_of_fresh admitted (ballot.of_perm right)
    have onePassable := one.passable
    have oneEnd := one.exhausted
    have twoPassable := two.passable
    have twoEnd := two.exhausted
    rw [tally first left] at onePassable oneEnd
    rw [tally second right] at twoPassable twoEnd
    exact exhausted_unique clear onePassable oneEnd twoPassable twoEnd
  · rintro empty ⟨starts, reserves, executes, closed⟩
    have uncollected := closed.resolve_right fun inputs => inputs empty
    obtain ⟨first, left, past⟩ := exists_order_past_inputs admitted ballot starts executes
    obtain ⟨second, right, stuck⟩ := exists_order_stuck admitted ballot starts reserves uncollected
    refine ⟨first, second, left, right, fun same => ?_⟩
    rw [same, stuck] at past
    exact absurd past (by decide)

/-- Two votes for rounds that lead to each other agree in both orders. -/
theorem vote_order_irrelevant_for_two :
    (castVotes (.lone [1]) (fresh (.unassigned 0 [])) [([1], .mpcExecution), ([1], .preprocessing)]).round =
      (castVotes (.lone [1]) (fresh (.unassigned 0 [])) [([1], .preprocessing), ([1], .mpcExecution)]).round := by
  have ballot : Ballot (.lone [1]) [([1], .preprocessing), ([1], .mpcExecution)] := by decide
  exact (vote_order_irrelevant (new_unassigned 0 []) ballot).1 (by decide) _ _ (List.Perm.swap _ _ _) (List.Perm.refl _)

/-- Three votes of one node, with the reservation round before or after the
shortcut has been taken. -/
theorem vote_order_matters_for_three :
    ∃ first second : List Vote, first.Perm second ∧ Ballot (.lone [1]) first ∧
      new (.unassigned 0 []) 1 = .ok (fresh (.unassigned 0 [])) ∧
      (castVotes (.lone [1]) (fresh (.unassigned 0 [])) first).round ≠
        (castVotes (.lone [1]) (fresh (.unassigned 0 [])) second).round :=
  ⟨[([1], .preprocessing), ([1], .inputMaskReservation), ([1], .mpcExecution)],
    [([1], .preprocessing), ([1], .mpcExecution), ([1], .inputMaskReservation)],
    (List.Perm.swap _ _ _).cons _, by decide, rfl, by decide⟩

end CoordinatorExecutionState

end MpcCoordinator
