import MpcCoordinator.Execution.Coherent

namespace MpcCoordinator.CoordinatorExecutionState

/-- The registration, acknowledgements, output shares and their waiters are as before. -/
structure SameOutputs (d d' : CoordinatorExecutionState) : Prop where
  registration : d'.registration = d.registration
  outputClients : d'.outputClients = d.outputClients
  retirementAcks : d'.retirementAcks = d.retirementAcks
  outputShares : d'.outputShares = d.outputShares
  outputSinks : d'.outputSinks = d.outputSinks

/-- What a step can do to acknowledgements, output shares and their waiters. -/
inductive OutputEffect (topology : Topology) (d : CoordinatorExecutionState) : Call → CoordinatorExecutionState → Prop
  | same {call d'} : SameOutputs d d' → OutputEffect topology d call d'
  | share {party clientId encShares} : party ∈ topology.parties → clientId ∈ d.outputClients →
      d.outputShares.lookup (clientId, party) = none →
      OutputEffect topology d ⟨party, .sendOutputShares clientId encShares, .ok ()⟩
        { d with outputShares := d.outputShares.insert (clientId, party) encShares }
  | waiter {clientId sink isClosed} : clientId ∈ d.outputClients →
      (∀ current, d.outputSinks clientId = some current → isClosed current = true) →
      OutputEffect topology d ⟨clientId, .obtainOutputShares sink isClosed, .ok ()⟩
        { d with outputSinks := d.outputSinks.insert clientId sink }
  | closed {caller clientId isClosed waiter} : d.outputSinks clientId = some waiter → isClosed waiter = true →
      OutputEffect topology d ⟨caller, .deliverReadyOutput clientId isClosed, .ok ()⟩
        { d with outputSinks := d.outputSinks.erase clientId }
  | failed {caller clientId waiter} : d.outputSinks clientId = some waiter →
      OutputEffect topology d ⟨caller, .outputSendFailed clientId waiter, .ok ()⟩
        { d with outputSinks := d.outputSinks.erase clientId }
  | acknowledged {party} : party ∈ topology.parties →
      OutputEffect topology d ⟨party, .retireExecution, .ok ()⟩ (d.acknowledgeRetirement party)

variable {topology : Topology} {d d' : CoordinatorExecutionState}

theorem SameOutputs.refl (d : CoordinatorExecutionState) : SameOutputs d d := ⟨rfl, rfl, rfl, rfl, rfl⟩

theorem SameOutputs.of_onlyRounds (only : OnlyRounds d d') : SameOutputs d d' := by
  rw [only.eq]
  exact ⟨rfl, rfl, rfl, rfl, rfl⟩

theorem SameOutputs.tryAdvance {quorum : Nat} {rosterHead : ClientIdentity} (same : SameOutputs d d') :
    SameOutputs d (d'.tryAdvance quorum rosterHead).1 := by
  obtain ⟨registered, clients, acks, shares, sinks⟩ := SameOutputs.of_onlyRounds (tryAdvance_onlyRounds d')
  exact ⟨registered.trans same.registration, clients.trans same.outputClients, acks.trans same.retirementAcks,
    shares.trans same.outputShares, sinks.trans same.outputSinks⟩

theorem obtainOutputShares_cases {connection : CoordinatorRPCServerConnectionBase} {sink : SubscriptionSink}
    {isClosed : SubscriptionSink → Bool} :
    connection.obtainOutputShares d sink isClosed = d ∨
      connection.id ∈ d.outputClients ∧
        (∀ current, d.outputSinks connection.id = some current → isClosed current = true) ∧
        connection.obtainOutputShares d sink isClosed =
          { d with outputSinks := d.outputSinks.insert connection.id sink } := by
  unfold CoordinatorRPCServerConnectionBase.obtainOutputShares
  split
  · exact Or.inl rfl
  · rename_i free
    simp only [not_or, Bool.not_eq_false, Bool.not_eq_true, List.contains_iff_mem] at free
    refine Or.inr ⟨free.1, fun current held => ?_, rfl⟩
    simpa [held] using free.2

theorem sendOutputShares_ok {connection : CoordinatorRPCServerConnectionBase} {clientId : ClientIdentity}
    {encShares : EncryptedShares} : connection.sendOutputShares d clientId encShares = .ok d' ↔
      connection.id ∈ connection.topology.parties ∧ clientId ∈ d.outputClients ∧
        d.outputShares.lookup (clientId, connection.id) = none ∧
        d' = { d with outputShares := d.outputShares.insert (clientId, connection.id) encShares } := by
  unfold CoordinatorRPCServerConnectionBase.sendOutputShares CoordinatorRPCBaseError.reply
  rw [← Topology.isParty_iff]
  by_cases party : connection.topology.isParty connection.id = true
  · by_cases authorized : clientId ∈ d.outputClients
    · cases stored : d.outputShares.lookup (clientId, connection.id) with
      | some shares => simp [party, authorized]
      | none => simp [party, authorized, eq_comm]
    · simp [party, authorized]
  · simp [party]

theorem retireExecution_ok {connection : CoordinatorRPCServerConnectionBase} :
    connection.retireExecution d = .ok d' ↔
      connection.id ∈ connection.topology.parties ∧ d' = d.acknowledgeRetirement connection.id := by
  unfold CoordinatorRPCServerConnectionBase.retireExecution CoordinatorRPCBaseError.reply
  rw [← Topology.isParty_iff]
  by_cases party : connection.topology.isParty connection.id = true
  · simp [party, eq_comm]
  · simp [party]

/-- The snapshot that is due depends on the threshold, what becomes of the
waiter does not. -/
theorem readyOutputSnapshot_cases {clientId : ClientIdentity} {minShares : Nat} {isClosed : SubscriptionSink → Bool} :
    (d.readyOutputSnapshot clientId minShares isClosed).1 = d ∨
      ∃ waiter, d.outputSinks clientId = some waiter ∧ isClosed waiter = true ∧
        (d.readyOutputSnapshot clientId minShares isClosed).1 = { d with outputSinks := d.outputSinks.erase clientId } := by
  unfold readyOutputSnapshot
  split
  · exact Or.inl rfl
  · rename_i waiter held
    split
    · rename_i shut
      exact Or.inr ⟨waiter, held, shut, rfl⟩
    · split <;> exact Or.inl rfl

theorem readyOutputSnapshot_some {clientId : ClientIdentity} {minShares : Nat} {isClosed : SubscriptionSink → Bool}
    {waiter : SubscriptionSink} {outputShares : List EncryptedShares} :
    d.readyOutputSnapshot clientId minShares isClosed = (d', some (waiter, outputShares)) ↔
      d' = d ∧ d.outputSinks clientId = some waiter ∧ isClosed waiter = false ∧
        outputShares = d.storedShares clientId ∧ minShares ≤ outputShares.length := by
  unfold readyOutputSnapshot
  cases held : d.outputSinks clientId with
  | none => simp
  | some current =>
    by_cases shut : isClosed current = true
    · simp only [shut, if_true, Prod.mk.injEq, reduceCtorEq, and_false, Option.some.injEq, false_iff]
      rintro ⟨_, rfl, unshut, _⟩
      rw [shut] at unshut
      cases unshut
    · by_cases few : (d.storedShares clientId).length < minShares
      · simp only [shut, few, Bool.false_eq_true, if_false, if_true, Prod.mk.injEq, reduceCtorEq, and_false, false_iff]
        rintro ⟨_, _, _, rfl, enough⟩
        omega
      · simp only [shut, few, Bool.false_eq_true, if_false, Prod.mk.injEq, Option.some.injEq]
        constructor
        · rintro ⟨rfl, rfl, rfl⟩
          exact ⟨rfl, rfl, by simpa using shut, rfl, Nat.le_of_not_lt few⟩
        · rintro ⟨rfl, rfl, _, rfl, _⟩
          exact ⟨rfl, rfl, rfl⟩

theorem readyOutputSnapshot_none {clientId : ClientIdentity} {minShares : Nat} {isClosed : SubscriptionSink → Bool}
    (snapshot : d.readyOutputSnapshot clientId minShares isClosed = (d', none)) :
    (d' = d ∧ (d.outputSinks clientId = none ∨ (d.storedShares clientId).length < minShares)) ∨
      d' = { d with outputSinks := d.outputSinks.erase clientId } := by
  unfold readyOutputSnapshot at snapshot
  split at snapshot
  · rename_i absent
    cases snapshot
    exact Or.inl ⟨rfl, Or.inl absent⟩
  · split at snapshot
    · cases snapshot
      exact Or.inr rfl
    · split at snapshot
      · rename_i few
        cases snapshot
        exact Or.inl ⟨rfl, Or.inr few⟩
      · cases snapshot

theorem readyOutputSnapshot_fst (clientId : ClientIdentity) (minShares other : Nat)
    (isClosed : SubscriptionSink → Bool) : (d.readyOutputSnapshot clientId minShares isClosed).1 =
      (d.readyOutputSnapshot clientId other isClosed).1 := by
  unfold readyOutputSnapshot
  repeat' split
  all_goals rfl

theorem SameOutputs.of_subRound {round : Round} {sink : SubscriptionSink} {event : Option Event}
    (accepted : d.subRound round sink = .ok (d', event)) : SameOutputs d d' := by
  unfold subRound at accepted
  split at accepted
  · cases accepted
  · split at accepted <;> cases accepted <;> exact ⟨rfl, rfl, rfl, rfl, rfl⟩

theorem SameOutputs.of_transition {connection : CoordinatorRPCServerConnectionBase} {nextRound : Round}
    {deliveries : List TransitionDelivery} (accepted : connection.transition d nextRound = .ok (d', deliveries)) :
    SameOutputs d d' := by
  obtain ⟨_, _, late | early⟩ := CoordinatorRPCServerConnectionBase.transition_cases _ accepted
  · rw [late.2.1]
    exact .refl d
  · have voted : SameOutputs d (d.recordVote connection.id nextRound) := ⟨rfl, rfl, rfl, rfl, rfl⟩
    rw [(Prod.mk.inj early.2).1]
    exact voted.tryAdvance

theorem Step.outputs {call : Call} (step : Step topology d call d') : OutputEffect topology d call d' := by
  obtain ⟨caller, action, reply⟩ := call
  simp only [Step] at step
  cases action with
  | transition nextRound =>
    simp only [perform] at step
    split at step
    · cases step
      exact .same (.refl d)
    · rename_i accepted
      split at step
      · cases step
      · cases step
        exact .same (.of_transition accepted)
  | reserveMaskIndices indices delivered =>
    rcases perform_reserveMaskIndices_cases step with ⟨_, _, _, rfl⟩ | ⟨_, _, rfl⟩
    · exact .same (.refl _)
    · exact .same ⟨rfl, rfl, rfl, rfl, rfl⟩
  | submitMaskedInputs maskedInputs reservedIndices =>
    obtain ⟨_, ⟨_, _, _, rfl⟩ | ⟨_, _, rfl⟩⟩ := perform_submitMaskedInputs_cases step
    · exact .same (.refl _)
    · exact .same ⟨rfl, rfl, rfl, rfl, rfl⟩
  | finishSubmission delivered =>
    simp only [perform] at step
    split at step
    · cases step
    · rename_i pending held
      cases step
      have restored : SameOutputs d (d.restoreSinks pending delivered) := ⟨rfl, rfl, rfl, rfl, rfl⟩
      exact .same restored.tryAdvance
  | subRound round sink =>
    simp only [perform] at step
    split at step
    · cases step
      exact .same (.refl d)
    · rename_i accepted
      cases step
      exact .same (.of_subRound accepted)
  | subReservedIndices sink delivered =>
    cases step
    unfold subscribeReservedIndices
    split <;> exact .same ⟨rfl, rfl, rfl, rfl, rfl⟩
  | subMaskedInputs sink delivered =>
    cases step
    unfold subscribeMaskedInputs
    split <;> exact .same ⟨rfl, rfl, rfl, rfl, rfl⟩
  | subAssignedReservedIndices sink delivered =>
    cases step
    unfold subscribeAssignedReservedIndices
    split <;> exact .same ⟨rfl, rfl, rfl, rfl, rfl⟩
  | subAssignedMaskedInputs sink delivered =>
    cases step
    unfold subscribeAssignedMaskedInputs
    split <;> exact .same ⟨rfl, rfl, rfl, rfl, rfl⟩
  | sendOutputShares clientId encShares =>
    simp only [perform] at step
    split at step
    · cases step
      exact .same (.refl d)
    · rename_i accepted
      cases step
      obtain ⟨party, authorized, unsent, rfl⟩ := sendOutputShares_ok.mp accepted
      exact .share party authorized unsent
  | deliverReadyOutput clientId isClosed =>
    cases step
    rcases readyOutputSnapshot_cases with same | ⟨waiter, held, shut, gone⟩
    · rw [same]
      exact .same (.refl d)
    · rw [gone]
      exact .closed held shut
  | outputSendFailed clientId waiter =>
    cases step
    unfold forgetOutputSink
    split
    · rename_i held
      exact .failed held
    · exact .same (.refl d)
  | requestOutputShares isClosed =>
    simp only [perform, Option.some.injEq, Prod.mk.injEq] at step
    obtain ⟨_, rfl⟩ := step
    exact .same (.refl d)
  | obtainOutputShares sink isClosed =>
    cases step
    rcases obtainOutputShares_cases with same | ⟨authorized, free, inserted⟩
    · rw [same]
      exact .same (.refl d)
    · rw [inserted]
      exact .waiter authorized free
  | retireExecution =>
    simp only [perform] at step
    split at step
    · cases step
      exact .same (.refl d)
    · rename_i accepted
      cases step
      obtain ⟨party, rfl⟩ := retireExecution_ok.mp accepted
      exact .acknowledged party

/-- Only clients with a right to the output wait for it. -/
theorem waiters_authorized {registration : ExecutionRegistration} {initial : CoordinatorExecutionState}
    {calls : List (Transition CoordinatorExecutionState Call)} (admitted : new registration topology.n = .ok initial)
    (run : Run (Step topology) initial calls d) {c : ClientIdentity} {waiter : SubscriptionSink}
    (waits : d.outputSinks c = some waiter) : c ∈ d.outputClients := by
  have authorized : ∀ c waiter, d.outputSinks c = some waiter → c ∈ d.outputClients := by
    refine run.invariant (P := fun d => ∀ c waiter, d.outputSinks c = some waiter → c ∈ d.outputClients) ?_ ?_
    · rw [(new_cases admitted).1]
      exact nofun
    · intro before call after known step c waiter waits
      cases step.outputs with
      | same same =>
        rw [same.outputSinks] at waits
        rw [same.outputClients]
        exact known c waiter waits
      | share | acknowledged => exact known c waiter waits
      | @waiter clientId sink _ mine _ =>
        dsimp only at waits
        rw [Table.insert_apply] at waits
        split at waits
        · rename_i named
          rw [named]
          exact mine
        · exact known c waiter waits
      | closed | failed =>
        dsimp only at waits
        rw [Table.erase_apply] at waits
        split at waits
        · cases waits
        · exact known c waiter waits
  exact authorized c waiter waits

end MpcCoordinator.CoordinatorExecutionState
