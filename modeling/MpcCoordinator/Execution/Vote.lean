import MpcCoordinator.Execution.Rounds
import MpcCoordinator.Topology

namespace MpcCoordinator

/-- One connection to the coordinator: the roster of its server and the
identity that the transport authenticated. -/
structure CoordinatorRPCServerConnectionBase where
  topology : Topology
  id : ClientIdentity

namespace CoordinatorExecutionState

/-- Adds a proposer to a round. -/
def recordVote (d : CoordinatorExecutionState) (id : ClientIdentity) (nextRound : Round) : CoordinatorExecutionState :=
  { d with transitionVotes := d.transitionVotes.insert nextRound (insert id ((d.transitionVotes nextRound).getD ∅)) }

/-- The proposers recorded for a round; no entry is an empty set of them. -/
def votersFor (d : CoordinatorExecutionState) (round : Round) : Finset ClientIdentity :=
  (d.transitionVotes round).getD ∅

variable {d : CoordinatorExecutionState} {id : ClientIdentity} {voted round : Round}

@[simp] theorem votersFor_recordVote_self : (d.recordVote id voted).votersFor voted = insert id (d.votersFor voted) := by
  simp [votersFor, recordVote]

theorem votersFor_recordVote_of_ne (different : round ≠ voted) :
    (d.recordVote id voted).votersFor round = d.votersFor round := by
  simp [votersFor, recordVote, Table.insert_of_ne _ _ different]

theorem hasQuorum_iff {quorum : Nat} (positive : 0 < quorum) :
    d.hasQuorum quorum round = true ↔ quorum ≤ (d.votersFor round).card := by
  unfold hasQuorum votersFor
  cases d.transitionVotes round with
  | none => simp; omega
  | some voters => simp

end CoordinatorExecutionState

namespace CoordinatorRPCServerConnectionBase

variable (connection : CoordinatorRPCServerConnectionBase)

/-- The quorum of the roster, as the voter counts are compared with it. -/
def quorum : Nat := connection.topology.transitionQuorum.toNat

/-- Proposes that the execution advance to `nextRound`. The roster is read in
an earlier critical section, which makes no difference as it never changes. -/
def transition (d : CoordinatorExecutionState) (nextRound : Round) :
    RpcResult (CoordinatorExecutionState × List TransitionDelivery) :=
  if connection.topology.isParty connection.id = false then
    CoordinatorRPCBaseError.notParty.reply "Only configured MPC parties can propose transitions."
  else if roundBefore nextRound = none then
    .error ⟨invalidParams, s!"Round {Round.idle} cannot be transitioned to"⟩
  else if roundIndex nextRound ≤ roundIndex d.round then
    .ok (d, [])
  else
    .ok ((d.recordVote connection.id nextRound).tryAdvance connection.quorum connection.topology.rosterHead)

/-- A proposal is refused without effect, ignored as late, or recorded and
followed by the cascade; it is recorded only from a party and for a later round. -/
theorem transition_cases {d d' : CoordinatorExecutionState} {nextRound : Round} {deliveries : List TransitionDelivery}
    (accepted : connection.transition d nextRound = .ok (d', deliveries)) :
    connection.id ∈ connection.topology.parties ∧ nextRound ≠ .idle ∧
      ((roundIndex nextRound ≤ roundIndex d.round ∧ d' = d ∧ deliveries = []) ∨
        (roundIndex d.round < roundIndex nextRound ∧
          (d', deliveries) = (d.recordVote connection.id nextRound).tryAdvance connection.quorum
            connection.topology.rosterHead)) := by
  unfold transition at accepted
  split at accepted
  · cases accepted
  rename_i party
  split at accepted
  · cases accepted
  rename_i entered
  refine ⟨connection.topology.isParty_iff.mp (by simpa using party),
    fun idle => entered (roundBefore_eq_none.mpr idle), ?_⟩
  split at accepted
  · rename_i late
    cases accepted
    exact Or.inl ⟨late, rfl, rfl⟩
  · rename_i early
    exact Or.inr ⟨by omega, (Except.ok.inj accepted).symm⟩

/-- Proposals of parties for real rounds are never refused. -/
theorem transition_accepts (d : CoordinatorExecutionState) {nextRound : Round}
    (party : connection.id ∈ connection.topology.parties) (entered : nextRound ≠ .idle) :
    ∃ d' deliveries, connection.transition d nextRound = .ok (d', deliveries) := by
  have legal : roundBefore nextRound ≠ none := fun idle => entered (roundBefore_eq_none.mp idle)
  simp only [transition, connection.topology.isParty_iff.mpr party, Bool.true_eq_false, if_false, if_neg legal]
  split
  · exact ⟨_, _, rfl⟩
  · exact ⟨_, _, rfl⟩

end CoordinatorRPCServerConnectionBase

end MpcCoordinator
