import MpcCoordinator.Server.Eviction

namespace MpcCoordinator

/-- A coordinator that has dropped its first `k` executions, each acknowledged
by these parties, and whose slots are taken by the next ones. -/
structure Worn (parties : Finset ClientIdentity) (k : Nat) (shared : CoordinatorRPCServerSharedBase) : Prop where
  full : shared.executions.keys.card = defaultMaxConcurrentExecutions
  slots : ∀ j < 65535, shared.executions.lookup (.numbered j) =
    if k ≤ j ∧ j < k + defaultMaxConcurrentExecutions then some (.fresh (.blank j)) else none
  acks : ∀ j < 65535, shared.retired.acks (.numbered j) = if j < k then some parties else none
  order : shared.retired.order = (List.range k).map ExecutionId.numbered
  unwatched : shared.oneOffExecution = none

/-- The next execution to be dropped has been acknowledged as well. -/
structure Ripe (parties : Finset ClientIdentity) (k : Nat) (shared drained : CoordinatorRPCServerSharedBase) : Prop where
  full : drained.executions.keys.card = defaultMaxConcurrentExecutions
  first : drained.executions.lookup (.numbered k) =
    some { CoordinatorExecutionState.fresh (.blank k) with retirementAcks := parties }
  others : ∀ e ≠ .numbered k, drained.executions.lookup e = shared.executions.lookup e
  retired : drained.retired = shared.retired
  unwatched : drained.oneOffExecution = none

namespace CoordinatorRPCServerSharedBase

/-- The coordinator after the execution in its first slot was replaced. -/
def replaced (drained : CoordinatorRPCServerSharedBase) (k : Nat) : CoordinatorRPCServerSharedBase :=
  (drained.evict (.numbered k)).put (.numbered (k + defaultMaxConcurrentExecutions))
    (.fresh (.blank (k + defaultMaxConcurrentExecutions)))

end CoordinatorRPCServerSharedBase

namespace Worn

variable {parties : Finset ClientIdentity} {k : Nat} {shared drained : CoordinatorRPCServerSharedBase}

theorem retired_replaced (ripe : Ripe parties k shared drained) :
    (drained.replaced k).retired = shared.retired.sealExecution (.numbered k) parties := by
  simp only [CoordinatorRPCServerSharedBase.replaced, CoordinatorRPCServerSharedBase.put,
    CoordinatorRPCServerSharedBase.evict, ripe.first, ripe.retired]

/-- A coordinator that was just filled has dropped nothing. -/
theorem start : Worn parties 0 (.filled (crowd (.blank 0))) := by
  have ids := ids_crowd (ExecutionRegistration.blank_executionId 0)
  have distinct := ids_crowd_nodup (ExecutionRegistration.blank_executionId 0)
  obtain ⟨retired, unwatched⟩ := CoordinatorRPCServerSharedBase.filled_rest (crowd (.blank 0))
  refine ⟨?_, fun j small => ?_, fun j _ => ?_, ?_, unwatched⟩
  · rw [CoordinatorRPCServerSharedBase.keys_filled, List.toFinset_card_of_nodup distinct, ids, List.length_map,
      List.length_range]
  · split
    · rename_i inside
      have member : .blank j ∈ crowd (.blank 0) := by
        rw [mem_crowd]
        rcases Nat.eq_zero_or_pos j with rfl | positive
        · exact .inl rfl
        · exact .inr ⟨j - 1, by omega, by rw [Nat.sub_add_cancel positive]⟩
      have found := CoordinatorRPCServerSharedBase.lookup_filled distinct member
      rwa [ExecutionRegistration.blank_executionId] at found
    · rename_i outside
      refine CoordinatorRPCServerSharedBase.lookup_filled_none ?_
      rw [ids, List.mem_map]
      rintro ⟨i, inside, same⟩
      rw [List.mem_range] at inside
      have little : i < 65535 := inside.trans (by decide)
      obtain rfl := ExecutionId.numbered_inj little small same
      exact outside ⟨Nat.zero_le _, by omega⟩
  · rw [retired, if_neg (Nat.not_lt_zero j)]
    rfl
  · rw [retired]
    rfl

theorem absent (worn : Worn parties k shared) (small : k + defaultMaxConcurrentExecutions < 65535) :
    shared.executions.lookup (.numbered (k + defaultMaxConcurrentExecutions)) = none := by
  rw [worn.slots _ small, if_neg]
  exact fun inside => lt_irrefl _ inside.2

theorem slots_replaced (worn : Worn parties k shared) (ripe : Ripe parties k shared drained)
    (small : k + defaultMaxConcurrentExecutions < 65535) {j : Nat} (little : j < 65535) :
    (drained.replaced k).executions.lookup (.numbered j) =
      if k + 1 ≤ j ∧ j < k + 1 + defaultMaxConcurrentExecutions then some (.fresh (.blank j)) else none := by
  unfold CoordinatorRPCServerSharedBase.replaced
  by_cases last : j = k + defaultMaxConcurrentExecutions
  · subst last
    rw [CoordinatorRPCServerSharedBase.lookup_put_self, if_pos]
    exact ⟨Nat.add_le_add_left (by decide) k, by omega⟩
  rw [CoordinatorRPCServerSharedBase.lookup_put_of_ne _ (ExecutionId.numbered_ne little small last)]
  by_cases first : j = k
  · subst first
    rw [CoordinatorRPCServerSharedBase.lookup_evict_self ripe.first, if_neg]
    omega
  have apart := ExecutionId.numbered_ne little (by omega) first
  have same : (k + 1 ≤ j ∧ j < k + 1 + defaultMaxConcurrentExecutions) ↔
      (k ≤ j ∧ j < k + defaultMaxConcurrentExecutions) := by omega
  rw [CoordinatorRPCServerSharedBase.lookup_evict_of_ne apart, ripe.others _ apart, worn.slots j little]
  simp only [same]

/-- While there is room for tombstones, the coordinator goes on like this. -/
theorem next (worn : Worn parties k shared) (ripe : Ripe parties k shared drained)
    (room : k < defaultMaxRetiredExecutions) : Worn parties (k + 1) (drained.replaced k) := by
  have small : k + defaultMaxConcurrentExecutions < 65535 := by
    simp only [defaultMaxConcurrentExecutions, defaultMaxRetiredExecutions] at room ⊢
    omega
  have fresh : shared.retired.acks (.numbered k) = none := by rw [worn.acks k (by omega), if_neg (lt_irrefl k)]
  have retired := retired_replaced ripe
  rw [RetiredExecutions.sealExecution_of_room parties fresh (by simpa [worn.order] using room)] at retired
  refine ⟨?_, fun j little => slots_replaced worn ripe small little, ?_, ?_, ?_⟩
  · have different := ExecutionId.numbered_ne small (by omega : k < 65535) (by simp [defaultMaxConcurrentExecutions])
    exact (CoordinatorRPCServerSharedBase.card_keys_replace ripe.first
      ((ripe.others _ different).trans (worn.absent small))).trans ripe.full
  · intro j little
    rw [retired]
    dsimp only
    by_cases own : j = k
    · subst own
      rw [Table.insert_self, if_pos (Nat.lt_succ_self j)]
    · have same : j < k + 1 ↔ j < k := by omega
      rw [Table.insert_of_ne _ _ (ExecutionId.numbered_ne little (by omega) own), worn.acks j little]
      simp only [same]
  · rw [retired, List.range_succ, List.map_append, ← worn.order]
    rfl
  · simp only [CoordinatorRPCServerSharedBase.replaced, CoordinatorRPCServerSharedBase.put,
      CoordinatorRPCServerSharedBase.evict, ripe.first, ripe.unwatched]

/-- The first tombstone too many takes the place of the oldest. -/
theorem forgets (worn : Worn parties defaultMaxRetiredExecutions shared)
    (ripe : Ripe parties defaultMaxRetiredExecutions shared drained) :
    (drained.replaced defaultMaxRetiredExecutions).executions.lookup (.numbered 0) = none ∧
      (drained.replaced defaultMaxRetiredExecutions).retired.acks (.numbered 0) = none := by
  have fresh : shared.retired.acks (.numbered defaultMaxRetiredExecutions) = none := by
    rw [worn.acks _ (by decide), if_neg (lt_irrefl _)]
  have oldest : shared.retired.order = .numbered 0 ::
      (List.range (defaultMaxRetiredExecutions - 1)).map fun j => .numbered (j + 1) := by
    have counted : defaultMaxRetiredExecutions = (defaultMaxRetiredExecutions - 1) + 1 := rfl
    rw [worn.order]
    nth_rewrite 1 [counted]
    rw [List.range_succ_eq_map, List.map_cons, List.map_map]
    rfl
  constructor
  · rw [slots_replaced worn ripe (by decide) (by decide), if_neg]
    exact fun inside => absurd inside.1 (Nat.not_succ_le_zero _)
  · rw [retired_replaced ripe, RetiredExecutions.sealExecution_of_full parties fresh oldest (by simp [worn.order])]
    dsimp only
    rw [Table.erase_apply, if_pos rfl]

end Worn

namespace CoordinatorBrowserState

variable {listener : CoordinatorListener} {party : ClientIdentity} {parties : List ClientIdentity} {k : Nat}
  {shared : CoordinatorRPCServerSharedBase}

/-- The parties acknowledge the execution in the first slot, and the next
registration takes the slot. -/
theorem exists_run_ripe (member : listener.topology.isParty party = true)
    (members : ∀ party ∈ parties, listener.topology.isParty party = true)
    (quorum : listener.topology.retirementQuorum.toNat ≤ parties.toFinset.card)
    (worn : Worn parties.toFinset k shared) (small : k + defaultMaxConcurrentExecutions < 65535) :
    ∃ trace τ drained, Run (RosterStep listener) { start with coordinator := shared } trace τ.source ∧
      RosterStep listener τ.source τ.event τ.target ∧
      (∃ order, τ.event = .register party (.blank (k + defaultMaxConcurrentExecutions)) order) ∧
      Ripe parties.toFinset k shared drained ∧ τ.source.coordinator = drained ∧
      τ.target = { start with coordinator := drained.replaced k } ∧
      registeredIds (trace ++ [τ]) = [.numbered (k + defaultMaxConcurrentExecutions)] := by
  have here : shared.executions.lookup (.numbered k) = some (.fresh (.blank k)) := by
    rw [worn.slots k (by omega), if_pos]
    exact ⟨le_rfl, Nat.lt_add_of_pos_right (by decide)⟩
  have unsealed : shared.retired.acks (.numbered k) = none := by rw [worn.acks k (by omega), if_neg (lt_irrefl k)]
  obtain ⟨trace, drained, run, keys, first, others, retired, unwatched, ids⟩ :=
    @exists_run_retired listener { start with coordinator := shared } (.numbered k) _ parties members here unsealed
  have ripe : Ripe parties.toFinset k shared drained := by
    refine ⟨?_, ?_, others, retired, unwatched.trans worn.unwatched⟩
    · rw [keys, worn.full]
    · rw [first]
      simp [CoordinatorExecutionState.fresh]
  have candidate : drained.evictable listener.topology (.numbered k) = true := by
    simpa [CoordinatorRPCServerSharedBase.evictable, ripe.first, ripe.unwatched] using quorum
  have different := ExecutionId.numbered_ne small (by omega : k < 65535) (by simp [defaultMaxConcurrentExecutions])
  have absent : drained.executions.lookup (.numbered (k + defaultMaxConcurrentExecutions)) = none :=
    (ripe.others _ different).trans (worn.absent small)
  obtain ⟨order, _, replaced⟩ := @exists_step_replacing listener { start with coordinator := drained } party
    (.blank (k + defaultMaxConcurrentExecutions)) _ _ rfl member absent ripe.full candidate (new_blank listener.topology small)
  refine ⟨trace, ⟨_, _, _⟩, drained, run, replaced, ⟨order, rfl⟩, ripe, rfl, rfl, ?_⟩
  rw [registeredIds_append, ids]
  rfl

/-- A coordinator can have dropped as many executions as it has tombstones for,
all registered one after the other. -/
theorem exists_run_worn (member : listener.topology.isParty party = true)
    (members : ∀ party ∈ parties, listener.topology.isParty party = true)
    (quorum : listener.topology.retirementQuorum.toNat ≤ parties.toFinset.card)
    (few : k ≤ defaultMaxRetiredExecutions) :
    ∃ trace shared, Run (RosterStep listener) start trace { start with coordinator := shared } ∧
      registeredIds trace = (List.range (k + defaultMaxConcurrentExecutions)).map ExecutionId.numbered ∧
      Worn parties.toFinset k shared := by
  induction k with
  | zero =>
    have ids := ids_crowd (ExecutionRegistration.blank_executionId 0)
    have admissible : ∀ registration ∈ crowd (.blank 0),
        CoordinatorExecutionState.new registration listener.topology.n = .ok (.fresh registration) := by
      intro registration listed
      rcases mem_crowd.mp listed with rfl | ⟨j, inside, rfl⟩
      · exact new_blank listener.topology (by decide)
      · exact new_blank listener.topology (inside.trans (by decide))
    have count : (crowd (.blank 0)).length = defaultMaxConcurrentExecutions := by
      rw [← List.length_map (f := ExecutionRegistration.executionId), ids, List.length_map, List.length_range]
    obtain ⟨trace, run, registered⟩ := exists_run_filled member
      (ids_crowd_nodup (ExecutionRegistration.blank_executionId 0)) count.le admissible
    exact ⟨trace, _, run, by rw [registered, ids, Nat.zero_add], .start⟩
  | succ k ih =>
    obtain ⟨first, shared, run, ids, worn⟩ := ih (by omega)
    have small : k + defaultMaxConcurrentExecutions < 65535 := by
      simp only [defaultMaxConcurrentExecutions, defaultMaxRetiredExecutions] at few ⊢
      omega
    obtain ⟨second, τ, drained, retiring, replaced, _, ripe, _, after, added⟩ :=
      exists_run_ripe member members quorum worn small
    refine ⟨first ++ (second ++ [τ]), drained.replaced k, ?_, ?_, worn.next ripe (by omega)⟩
    · rw [← after, ← List.append_assoc]
      exact (run.append retiring).next replaced
    · rw [registeredIds_append, ids, added, Nat.add_right_comm, List.range_succ, List.map_append]
      rfl

/-- In the end, the execution that is dropped next is still there, and all
parties that are going to have acknowledged it. -/
theorem exists_run_replacing (member : listener.topology.isParty party = true)
    (members : ∀ party ∈ parties, listener.topology.isParty party = true)
    (quorum : listener.topology.retirementQuorum.toNat ≤ parties.toFinset.card)
    (few : k ≤ defaultMaxRetiredExecutions) :
    ∃ trace τ shared, Run (RosterStep listener) start trace τ.source ∧ RosterStep listener τ.source τ.event τ.target ∧
      (∃ order, τ.event = .register party (.blank (k + defaultMaxConcurrentExecutions)) order) ∧
      (registeredIds (trace ++ [τ])).Nodup ∧ Worn parties.toFinset k shared ∧
      Ripe parties.toFinset k shared τ.source.coordinator ∧ τ.target.coordinator = τ.source.coordinator.replaced k := by
  have small : k + defaultMaxConcurrentExecutions + 1 < 65535 := by
    simp only [defaultMaxConcurrentExecutions, defaultMaxRetiredExecutions] at few ⊢
    omega
  obtain ⟨first, shared, run, ids, worn⟩ := exists_run_worn member members quorum few
  obtain ⟨second, τ, drained, retiring, replaced, registers, ripe, rfl, after, added⟩ :=
    exists_run_ripe member members quorum worn (by omega)
  refine ⟨first ++ second, τ, shared, run.append retiring, replaced, registers, ?_, worn, ripe, by rw [after]⟩
  have all : registeredIds (first ++ second ++ [τ]) =
      (List.range (k + defaultMaxConcurrentExecutions + 1)).map ExecutionId.numbered := by
    rw [List.append_assoc, registeredIds_append, ids, added, List.range_succ, List.map_append]
    rfl
  rw [all]
  exact ExecutionId.nodup_numbered small

end CoordinatorBrowserState

end MpcCoordinator
