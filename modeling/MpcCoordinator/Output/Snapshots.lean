import MpcCoordinator.Output.Waiters
import MpcCoordinator.Browser.Status

namespace MpcCoordinator.OutputServerState

/-- What a step can do to the shares of a live execution. -/
inductive SharesEffect (listener : CoordinatorListener) (s : OutputServerState) (e : ExecutionId) :
    OutputEvent → CoordinatorExecutionState → Prop
  | kept {event d d'} : s.live e = some d → d'.registration = d.registration → d'.outputClients = d.outputClients →
      d'.outputShares = d.outputShares → SharesEffect listener s e event d'
  | stored {party clientId encShares d} : s.live e = some d → party ∈ listener.topology.parties →
      clientId ∈ d.outputClients → d.outputShares.lookup (clientId, party) = none →
      SharesEffect listener s e (.sendOutputShares e party clientId encShares)
        { d with outputShares := d.outputShares.insert (clientId, party) encShares }
  | created {party registration order d} : s.live e = none → registration.executionId = e →
      CoordinatorBrowserState.Admits listener s.server party registration order →
      CoordinatorExecutionState.new registration listener.topology.n = .ok d →
      SharesEffect listener s e (.server (.register party registration order)) d

variable {listener : CoordinatorListener} {s s' final : OutputServerState} {event : OutputEvent} {e : ExecutionId}
  {c : ClientIdentity} {d d' : CoordinatorExecutionState} {trace : List (Transition OutputServerState OutputEvent)}

theorem SharesEffect.of_put {executionId : ExecutionId} {before after : CoordinatorExecutionState}
    (here : s.live executionId = some before) (moved : s'.server = (s.put executionId after).server)
    (live : s'.live e = some d')
    (kept : after.registration = before.registration ∧ after.outputClients = before.outputClients ∧
      after.outputShares = before.outputShares) : SharesEffect listener s e event d' := by
  rw [live_of_put moved] at live
  split at live
  · rename_i named
    cases live
    rw [← named] at here
    exact .kept here kept.1 kept.2.1 kept.2.2
  · exact .kept live rfl rfl rfl

theorem Step.shares (step : s.Step listener event s') (here : s'.live e = some d') :
    SharesEffect listener s e event d' := by
  cases step.effect with
  | @server serverEvent server aside taken =>
    rcases outputs_of_server aside taken here with ⟨d, before, registered, clients, shares, _⟩ |
      ⟨party, registration, order, rfl, rfl, admitted, absent⟩
    · exact .kept before registered clients shares
    · exact .created absent rfl (taken.admits absent here) admitted
  | unshared | unrequested | requested | abandoned | late | panicked | delivered | undelivered | vanished | closed =>
    exact .kept here rfl rfl rfl
  | @shared executionId party clientId encShares before after live stored =>
    obtain ⟨member, authorized, unsent, result⟩ := CoordinatorExecutionState.sendOutputShares_ok.mp stored
    have placed : (if e = executionId then some after else s.live e) = some d' := (live_of_put (s := s) rfl e).symm.trans here
    split at placed
    · rename_i named
      cases placed
      subst named
      rw [result]
      exact .stored live member authorized unsent
    · exact .kept placed rfl rfl rfl
  | waiting _ live _ _ => exact .of_put live rfl here ⟨rfl, rfl, rfl⟩
  | unready live snapshot =>
    refine .of_put live rfl here ?_
    rcases CoordinatorExecutionState.readyOutputSnapshot_none snapshot with ⟨rfl, _⟩ | rfl <;> exact ⟨rfl, rfl, rfl⟩
  | ready live snapshot =>
    obtain ⟨rfl, _⟩ := CoordinatorExecutionState.readyOutputSnapshot_some.mp snapshot
    exact .of_put live rfl here ⟨rfl, rfl, rfl⟩
  | forgotten live =>
    refine .of_put live rfl here ?_
    unfold CoordinatorExecutionState.forgetOutputSink
    split <;> exact ⟨rfl, rfl, rfl⟩

/-- The step stores a party's share for a client. -/
def StoresShare (e : ExecutionId) (c p : ClientIdentity) (share : EncryptedShares)
    (τ : Transition OutputServerState OutputEvent) : Prop :=
  τ.event = .sendOutputShares e p c share ∧
    ∃ d d', τ.source.live e = some d ∧ d.outputShares.lookup (c, p) = none ∧
      τ.target.live e = some d' ∧ d'.outputShares.lookup (c, p) = some share

/-- A party has sent its share for a client, and the execution is live since. -/
def SharedIn (trace : List (Transition OutputServerState OutputEvent)) (e : ExecutionId) (c p : ClientIdentity)
    (share : EncryptedShares) : Prop :=
  Run.Since (StoresShare e c p share) (fun s => (s.live e).isSome = true) trace

/-- Every stored share was sent by a roster party, for a client of the output. -/
theorem share_sent (run : Run (Step listener) start trace final) {p : ClientIdentity} {share : EncryptedShares}
    (here : final.live e = some d) (stored : d.outputShares.lookup (c, p) = some share) :
    c ∈ d.outputClients ∧ p ∈ listener.topology.parties ∧ SharedIn trace e c p share := by
  induction run generalizing d with
  | start => cases here
  | @next earlier current event after _ step ih =>
    have effect := step.shares here
    cases effect with
    | kept before _ clients shares =>
      rw [shares] at stored
      obtain ⟨authorized, member, since⟩ := ih before stored
      rw [clients]
      exact ⟨authorized, member, since.append (by simp [before])⟩
    | @stored party clientId encShares d before member authorized unsent =>
      by_cases mine : (c, p) = (clientId, party)
      · obtain ⟨rfl, rfl⟩ := Prod.mk.inj mine
        have same : encShares = share := by simpa using stored
        subst same
        refine ⟨authorized, member, .now ⟨rfl, d, _, before, unsent, here, stored⟩ (by simp [before])⟩
      · obtain ⟨authorized, member, since⟩ := ih before (by rwa [AList.lookup_insert_ne mine] at stored)
        exact ⟨authorized, member, since.append (by simp [before])⟩
    | created _ _ _ admitted =>
      rw [(CoordinatorExecutionState.new_cases admitted).1] at stored
      cases stored

/-- A share is never replaced while its execution is live. -/
theorem Step.share_kept {p : ClientIdentity} {share : EncryptedShares} (step : s.Step listener event s')
    (before : s.live e = some d) (stored : d.outputShares.lookup (c, p) = some share) (after : s'.live e = some d') :
    d'.outputShares.lookup (c, p) = some share := by
  have effect := step.shares after
  cases effect with
  | kept here _ _ shares =>
    obtain rfl := Option.some.inj (here.symm.trans before)
    rwa [shares]
  | @stored party clientId encShares current here _ _ unsent =>
    obtain rfl := Option.some.inj (here.symm.trans before)
    have other : (c, p) ≠ (clientId, party) := by
      intro same
      rw [← same, stored] at unsent
      cases unsent
    rwa [AList.lookup_insert_ne other]
  | created absent =>
    rw [absent] at before
    cases before

/-- Only clients with a right to the output wait for it. -/
theorem waiter_authorized {waiter : SubscriptionSink} (run : Run (Step listener) start trace final)
    (here : final.live e = some d) (waits : d.outputSinks c = some waiter) : c ∈ d.outputClients := by
  obtain ⟨_, server⟩ := exists_server_run run
  obtain ⟨_, _, _, admitted, calls⟩ := CoordinatorBrowserState.exists_run_on server here
  exact CoordinatorExecutionState.waiters_authorized admitted calls waits

/-- The list has what is stored for a client of the output, one share of each
party that has sent one. -/
structure Lists (listener : CoordinatorListener) (before : List (Transition OutputServerState OutputEvent))
    (e : ExecutionId) (c : ClientIdentity) (d : CoordinatorExecutionState) (shares : List EncryptedShares) : Prop where
  authorized : c ∈ d.outputClients
  complete : ∃ senders : List ClientIdentity, senders.Nodup ∧
    (∀ p, p ∈ senders ↔ (d.outputShares.lookup (c, p)).isSome = true) ∧
    List.Forall₂ (fun p share => p ∈ listener.topology.parties ∧ d.outputShares.lookup (c, p) = some share ∧
      SharedIn before e c p share) senders shares

theorem lists_storedShares (run : Run (Step listener) start trace final) (here : final.live e = some d)
    (authorized : c ∈ d.outputClients) : Lists listener trace e c d (d.storedShares c) := by
  refine ⟨authorized, d.senders c, CoordinatorExecutionState.senders_nodup,
    fun p => CoordinatorExecutionState.mem_senders, ?_⟩
  refine CoordinatorExecutionState.storedShares_of_senders.imp fun p share stored => ?_
  obtain ⟨_, member, since⟩ := share_sent run here stored
  exact ⟨member, stored, since⟩

/-- The snapshot is with a client, or with a call that is sending it. -/
def Released (s : OutputServerState) (e : ExecutionId) (c : ClientIdentity) (waiter : SubscriptionSink)
    (shares : List EncryptedShares) : Prop :=
  .sending e c waiter shares ∈ s.inFlight ∨ ⟨e, c, waiter, shares⟩ ∈ s.sent

/-- The step takes a snapshot that a waiter is due. -/
def TakesSnapshot (e : ExecutionId) (c : ClientIdentity) (waiter : SubscriptionSink) (shares : List EncryptedShares)
    (m : Nat) (s : OutputServerState) (event : OutputEvent) : Prop :=
  event = .deliver e c m ∧ ∃ d, s.live e = some d ∧ d.readyOutputSnapshot c m s.isClosed = (d, some (waiter, shares))

theorem Step.released {waiter : SubscriptionSink} {shares : List EncryptedShares} (step : s.Step listener event s')
    (released : Released s' e c waiter shares) :
    Released s e c waiter shares ∨ ∃ m, TakesSnapshot e c waiter shares m s event := by
  rcases released with member | done
  · rcases step.arrives member with old | arrives
    · exact Or.inl (Or.inl old)
    · cases arrives with
      | @ready _ _ m d _ _ here snapshot => exact Or.inr ⟨m, rfl, d, here, snapshot⟩
  · rcases step.sent_cases done with old | sending
    · exact Or.inl (Or.inr old)
    · exact Or.inl (Or.inl sending)

/-- Every snapshot that was released was taken in some step. -/
theorem exists_snapshot_step {waiter : SubscriptionSink} {shares : List EncryptedShares}
    (run : Run (Step listener) start trace final) (released : Released final e c waiter shares) :
    ∃ m, ∃ τ ∈ trace, TakesSnapshot e c waiter shares m τ.source τ.event := by
  have idle : ¬ Released start e c waiter shares := by simp [Released, start]
  obtain ⟨τ, member, before, after⟩ := run.exists_change (Q := fun s => Released s e c waiter shares) idle released
  rcases (run.taken_of_mem member).released after with old | ⟨m, taken⟩
  · exact absurd old before
  · exact ⟨m, τ, member, taken⟩

/-- A native snapshot lists what was stored when it was taken, and no fewer
shares than the least number. -/
def TakenIn (listener : CoordinatorListener) (trace : List (Transition OutputServerState OutputEvent)) (e : ExecutionId)
    (c : ClientIdentity) (shares : List EncryptedShares) (least : CoordinatorExecutionState → Nat) : Prop :=
  ∃ before τ after m d, trace = before ++ τ :: after ∧ τ.event = .deliver e c m ∧ τ.source.live e = some d ∧
    Lists listener before e c d shares ∧ least d ≤ shares.length

theorem takenIn_of_released {waiter : SubscriptionSink} {shares : List EncryptedShares}
    {least : CoordinatorExecutionState → Nat} (run : Run (Step listener) start trace final)
    (enough : ∀ τ ∈ trace, ∀ m d, .delivering e c m ∈ τ.source.inFlight → τ.source.live e = some d → least d ≤ m)
    (released : Released final e c waiter shares) : TakenIn listener trace e c shares least := by
  obtain ⟨m, τ, member, delivers, d, here, snapshot⟩ := exists_snapshot_step run released
  obtain ⟨_, waits, _, rfl, reached⟩ := CoordinatorExecutionState.readyOutputSnapshot_some.mp snapshot
  obtain ⟨before, after, same, earlier, taken, _⟩ := run.split member
  have due := taken.in_flight (by rw [delivers]; rfl)
  have authorized := waiter_authorized earlier here waits
  exact ⟨before, τ, after, m, d, same, delivers, here, lists_storedShares earlier here authorized,
    (enough τ member m d due here).trans reached⟩

/-- A browser's read lists what is stored, and no fewer shares than the threshold. -/
theorem lists_of_browserOutputShares {shares : List EncryptedShares} (run : Run (Step listener) start trace final)
    (read : final.server.coordinator.browserOutputShares e c = .ok (some shares)) :
    ∃ d, final.live e = some d ∧ Lists listener trace e c d shares ∧
      d.registration.minOutputShares.toNat ≤ shares.length := by
  obtain ⟨d, here, authorized, enough, rfl⟩ := CoordinatorRPCServerSharedBase.browserOutputShares_some.mp read
  exact ⟨d, here, lists_storedShares run here authorized, enough⟩

/-- No delivery that is due carries a lower threshold than its execution has. -/
def Thresholds (s : OutputServerState) : Prop :=
  ∀ e c m d, .delivering e c m ∈ s.inFlight → s.live e = some d → d.registration.minOutputShares.toNat ≤ m

/-- An id is not registered anew with a higher threshold than that of a
delivery which is still due under it. -/
def RaisesNoThreshold (listener : CoordinatorListener) (s : OutputServerState) : OutputEvent → Prop
  | .server (.register party registration order) =>
      CoordinatorBrowserState.Admits listener s.server party registration order →
        ∀ c m, .delivering registration.executionId c m ∈ s.inFlight → registration.minOutputShares.toNat ≤ m
  | _ => True

theorem Thresholds.step (thresholds : Thresholds s) (guarded : RaisesNoThreshold listener s event)
    (step : s.Step listener event s') : Thresholds s' := by
  intro e c m d due here
  have effect := step.shares here
  have arrives := step.delivering_arrives due
  cases effect with
  | @kept _ before _ live registered _ _ =>
    rw [registered]
    rcases arrives with old | ⟨_, current, again, rfl⟩
    · exact thresholds e c m before old live
    · rw [Option.some.inj (again.symm.trans live)]
  | @stored _ _ _ before live _ _ _ =>
    rcases arrives with old | ⟨_, current, again, rfl⟩
    · exact thresholds e c m before old live
    · rw [Option.some.inj (again.symm.trans live)]
  | created absent named admits admitted =>
    subst named
    rw [(CoordinatorExecutionState.new_cases admitted).1]
    rcases arrives with old | ⟨_, current, again, _⟩
    · exact guarded admits c m old
    · rw [absent] at again
      cases again

/-- The three paths to a client's output agree in one state: the status of a
browser client, its read, and the snapshot for an open subscription, be it the
one that waits or one that the client requests now. -/
structure PathsAgree (listener : CoordinatorListener) (s : OutputServerState) (e : ExecutionId) (c : ClientIdentity) :
    Prop where
  polled : (∃ status, s.server.coordinator.browserExecutionStatus e c = .ok status ∧ status.outputReady = true) ↔
    ∃ shares, s.server.coordinator.browserOutputShares e c = .ok (some shares)
  waiting : ∀ d waiter shares, s.live e = some d → d.outputSinks c = some waiter → waiter ∉ s.closed →
    (s.server.coordinator.browserOutputShares e c = .ok (some shares) ↔
      (d.readyOutputSnapshot c d.registration.minOutputShares.toNat s.isClosed).2 = some (waiter, shares))
  subscribing : ∀ d sink shares, s.live e = some d → sink ∉ s.closed →
    (s.server.coordinator.browserOutputShares e c = .ok (some shares) ↔
      ∃ waiter, (((CoordinatorRPCServerConnectionBase.mk listener.topology c).obtainOutputShares d sink
        s.isClosed).readyOutputSnapshot c d.registration.minOutputShares.toNat s.isClosed).2 = some (waiter, shares))

theorem readyOutputSnapshot_open {waiter other : SubscriptionSink} {shares : List EncryptedShares} {m : Nat}
    (waits : d.outputSinks c = some waiter) (unshut : waiter ∉ s.closed) :
    (d.readyOutputSnapshot c m s.isClosed).2 = some (other, shares) ↔
      other = waiter ∧ m ≤ (d.storedShares c).length ∧ shares = d.storedShares c := by
  simp only [CoordinatorExecutionState.readyOutputSnapshot, waits, isClosed, unshut, decide_false, Bool.false_eq_true,
    if_false]
  by_cases few : (d.storedShares c).length < m
  · simp [few, Nat.not_le.mpr few]
  · simp [few, Nat.le_of_not_lt few, eq_comm]

theorem browserOutputShares_live {shares : List EncryptedShares} (here : s.live e = some d) :
    s.server.coordinator.browserOutputShares e c = .ok (some shares) ↔ c ∈ d.outputClients ∧
      d.registration.minOutputShares.toNat ≤ (d.storedShares c).length ∧ shares = d.storedShares c := by
  have found : s.server.coordinator.executions.lookup e = some d := here
  simp [CoordinatorRPCServerSharedBase.browserOutputShares_some, found]

theorem pathsAgree (run : Run (Step listener) start trace final) : PathsAgree listener final e c where
  polled := by
    rw [CoordinatorRPCServerSharedBase.browserExecutionStatus_ready]
    simp [CoordinatorRPCServerSharedBase.browserOutputShares_some]
  waiting d waiter shares here waits unshut := by
    have authorized := waiter_authorized run here waits
    simp [browserOutputShares_live here, readyOutputSnapshot_open waits unshut, authorized]
  subscribing d sink shares here unshut := by
    rw [browserOutputShares_live here]
    unfold CoordinatorRPCServerConnectionBase.obtainOutputShares
    by_cases authorized : c ∈ d.outputClients
    · by_cases occupied : (d.outputSinks c).any (fun current => !final.isClosed current) = true
      · -- the client already waits, on a subscription that is open
        obtain ⟨current, waits, unshut⟩ := (Option.any_eq_true _ _).mp occupied
        have unshut : current ∉ final.closed := by simpa [isClosed] using unshut
        rw [if_pos (Or.inr occupied)]
        simp [readyOutputSnapshot_open waits unshut, authorized]
      · have subscribed : ({ d with outputSinks := d.outputSinks.insert c sink } : CoordinatorExecutionState).outputSinks c =
            some sink := by
          simp
        rw [if_neg (by simp [authorized, occupied])]
        simp only [readyOutputSnapshot_open subscribed unshut, authorized, exists_eq_left, true_and]
        rfl
    · -- without a right to the output the client cannot be waiting
      have alone : d.outputSinks c = none := by
        cases held : d.outputSinks c with
        | none => rfl
        | some waiter => exact absurd (waiter_authorized run here held) authorized
      rw [if_pos (Or.inl (by simpa using authorized))]
      simp [authorized, CoordinatorExecutionState.readyOutputSnapshot, alone]

/-- Native and browser snapshots list exactly the stored shares, and a stored
share is never replaced. The paths to the output agree in every state. A native
snapshot has as many shares as its execution requires if no registration raises
the threshold of a delivery that is due. -/
theorem output_snapshots_sound (run : Run (Step listener) start trace final) :
    ((∀ τ ∈ trace, RaisesNoThreshold listener τ.source τ.event) → ∀ e c waiter shares, Released final e c waiter shares →
      TakenIn listener trace e c shares fun d => d.registration.minOutputShares.toNat) ∧
    (∀ e c shares, final.server.coordinator.browserOutputShares e c = .ok (some shares) →
      ∃ d, final.live e = some d ∧ Lists listener trace e c d shares ∧
        d.registration.minOutputShares.toNat ≤ shares.length) ∧
    (∀ τ ∈ trace, ∀ e c p share d d', τ.source.live e = some d → d.outputShares.lookup (c, p) = some share →
      τ.target.live e = some d' → d'.outputShares.lookup (c, p) = some share) ∧
    ∀ e c, PathsAgree listener final e c := by
  refine ⟨?_, fun e c shares read => lists_of_browserOutputShares run read, ?_, fun e c => pathsAgree run⟩
  · intro guarded e c waiter shares released
    refine takenIn_of_released run ?_ released
    intro τ member m d due here
    have thresholds : Thresholds τ.source := (run.restrict guarded).source_invariant (P := Thresholds)
      (fun _ _ _ _ due => nomatch due) (fun _ _ _ before step => before.step step.2 step.1) member
    exact thresholds e c m d due here
  · intro τ member e c p share d d' before stored after
    exact (run.taken_of_mem member).share_kept before stored after

section Runs

/-- The condition on thresholds, as far as it can be checked by evaluation. -/
def checksThresholds (s : OutputServerState) : OutputEvent → Bool
  | .server (.register _ _ _) => s.inFlight.isEmpty
  | _ => true

theorem raisesNoThreshold_of_check (checked : s.checksThresholds event = true) : RaisesNoThreshold listener s event := by
  cases event with
  | server serverEvent =>
    cases serverEvent with
    | register party registration order =>
      have idle : s.inFlight = [] := by simpa [checksThresholds] using checked
      intro _ c m due
      rw [idle] at due
      cases due
    | _ => trivial
  | _ => trivial

/-- The snapshot of a client that waited for a node's share. -/
theorem output_snapshots_sound_for_client :
    ∃ trace final, Run (Step .trio) start trace final ∧ trace.map Transition.event = servedClient ∧
      Released final (.numbered 0) [9] ⟨0, [9]⟩ [([7], [8])] ∧
      TakenIn .trio trace (.numbered 0) [9] [([7], [8])] fun d => d.registration.minOutputShares.toNat := by
  obtain ⟨trace, final, run, events, sent, checked⟩ := exists_run_of_events .trio servedClient checksThresholds
    OutputServerState.sent [⟨.numbered 0, [9], ⟨0, [9]⟩, [([7], [8])]⟩] (by decide +kernel)
  have released : Released final (.numbered 0) [9] ⟨0, [9]⟩ [([7], [8])] := Or.inr (by simp [sent])
  refine ⟨trace, final, run, events, released, ?_⟩
  exact (output_snapshots_sound run).1 (fun τ member => raisesNoThreshold_of_check (checked τ member)) _ _ _ _ released

/-- Of the two shares that the execution requires, one is stored while its client waits. -/
def halfShared : CoordinatorExecutionState :=
  { CoordinatorExecutionState.fresh (.forOutput 2) with
    outputSinks := Table.empty.insert [9] ⟨0, [9]⟩
    outputShares := (∅ : AList fun _ => EncryptedShares).insert ([9], [1]) ([7], [8]) }

/-- A client subscribes, and one of two nodes sends its share. -/
theorem exists_run_halfShared (here : s.live (.numbered 0) = some (.fresh (.forOutput 2))) (fresh : ⟨0, [9]⟩ ∉ s.accepted) :
    ∃ trace s', Run (Step .trio) s trace s' ∧ s'.live (.numbered 0) = some halfShared ∧
      s'.inFlight = .delivering (.numbered 0) [9] 2 :: .delivering (.numbered 0) [9] 2 :: s.inFlight ∧
      s'.closed = s.closed := by
  obtain ⟨_, s', subscribing, waiting, inFlight, closed⟩ :=
    exists_run_subscribed .trio here (List.mem_singleton_self [9]) rfl fresh
  have sharing := step_sendOutputShares waiting (rfl : (CoordinatorRPCServerConnectionBase.mk
    CoordinatorListener.trio.topology [1]).sendOutputShares _ [9] ([7], [8]) = .ok halfShared)
  have stored := (live_of_put (s := s') (d := halfShared) rfl (.numbered 0)).trans (if_pos rfl)
  exact ⟨_, _, subscribing.next sharing, stored, congrArg (List.cons _) inFlight, closed⟩

/-- A delivery with the threshold of an execution that was dropped releases one
share of its successor, which requires two. -/
theorem stale_threshold_releases_share :
    ∃ trace s s' s'' d, Run (Step .trio) start trace s ∧ s.live (.numbered 0) = some d ∧
      d.registration.minOutputShares.toNat = 2 ∧ s.Step .trio (.deliver (.numbered 0) [9] 1) s' ∧
      s'.Step .trio (.send (.numbered 0) [9] ⟨0, [9]⟩ [([7], [8])] true) s'' ∧
      ⟨.numbered 0, [9], ⟨0, [9]⟩, [([7], [8])]⟩ ∈ s''.sent := by
  obtain ⟨_, server, d, run, idle, crowded, acks⟩ := exists_run_pending
  obtain ⟨_, shared, reusing, fresh, _⟩ := CoordinatorBrowserState.exists_run_reused idle
    (isParty_of_mem_trio [2] (by simp)) isParty_of_mem_trio crowded (by rw [acks]; decide) (by decide) rfl
    (rfl : CoordinatorExecutionState.new (.forOutput 2) 3 = .ok (.fresh (.forOutput 2)))
  obtain ⟨_, reused⟩ := exists_run_of_roster reusing (s := ⟨server, [.delivering (.numbered 0) [9] 1], [], ∅, []⟩) rfl
  obtain ⟨_, s, halved, here, inFlight, closed⟩ := exists_run_halfShared (s := ⟨{ server with coordinator := shared },
    [.delivering (.numbered 0) [9] 1], [], ∅, []⟩) fresh (by simp)
  have snapshot : halfShared.readyOutputSnapshot [9] 1 s.isClosed = (halfShared, some (⟨0, [9]⟩, [([7], [8])])) := by
    refine CoordinatorExecutionState.readyOutputSnapshot_some.mpr ⟨rfl, rfl, ?_, rfl, by decide⟩
    simp [isClosed, closed]
  have delivering := step_deliver_ready .trio (by simp [inFlight]) here snapshot
  refine ⟨_, s, _, _, halfShared, (run.append reused).append halved, here, rfl, delivering, step_of_run ?_ rfl, ?_⟩
  · simp [enabled, taskOf, enter]
  · simp [send]

end Runs

/-- The snapshot has shares of at least so many roster parties. -/
def SharedBy (listener : CoordinatorListener) (trace : List (Transition OutputServerState OutputEvent)) (e : ExecutionId)
    (c : ClientIdentity) (shares : List EncryptedShares) (least : Nat) : Prop :=
  ∃ parties ⊆ listener.topology.parties, least ≤ parties.card ∧ ∀ p ∈ parties, ∃ share ∈ shares, SharedIn trace e c p share

theorem Lists.sharedBy {shares : List EncryptedShares} {least : Nat} (lists : Lists listener trace e c d shares)
    (enough : least ≤ shares.length) : SharedBy listener trace e c shares least := by
  obtain ⟨senders, distinct, _, sent⟩ := lists.complete
  have known : ∀ p ∈ senders, p ∈ listener.topology.parties ∧ ∃ share ∈ shares, SharedIn trace e c p share := by
    intro p member
    obtain ⟨i, rfl⟩ := List.mem_iff_get.mp member
    obtain ⟨party, _, since⟩ := sent.get i.2 (sent.length_eq ▸ i.2)
    exact ⟨party, _, List.get_mem _ _, since⟩
  refine ⟨senders.toFinset, ?_, ?_, ?_⟩
  · intro p member
    exact (known p (List.mem_toFinset.mp member)).1
  · rw [List.toFinset_card_of_nodup distinct, sent.length_eq]
    exact enough
  · intro p member
    exact (known p (List.mem_toFinset.mp member)).2

/-- An execution that is admitted requires the shares of more than `t` parties. -/
def RequiresHonestShare (listener : CoordinatorListener) (s : OutputServerState) : OutputEvent → Prop
  | .server (.register party registration order) =>
      CoordinatorBrowserState.Admits listener s.server party registration order →
        listener.topology.t.toNat + 1 ≤ registration.minOutputShares.toNat
  | _ => True

/-- Every threshold in use, of an execution or of a delivery that is due, is over `t`. -/
structure HonestThresholds (listener : CoordinatorListener) (s : OutputServerState) : Prop where
  live : ∀ e d, s.live e = some d → listener.topology.t.toNat + 1 ≤ d.registration.minOutputShares.toNat
  due : ∀ e c m, .delivering e c m ∈ s.inFlight → listener.topology.t.toNat + 1 ≤ m

theorem HonestThresholds.step (honest : HonestThresholds listener s) (guarded : RequiresHonestShare listener s event)
    (step : s.Step listener event s') : HonestThresholds listener s' where
  live e d here := by
    have effect := step.shares here
    cases effect with
    | kept before registered _ _ =>
      rw [registered]
      exact honest.live e _ before
    | @stored _ _ _ current before _ _ _ => exact honest.live e current before
    | created _ _ admits admitted =>
      rw [(CoordinatorExecutionState.new_cases admitted).1]
      exact guarded admits
  due e c m member := by
    rcases step.delivering_arrives member with old | ⟨_, d, here, rfl⟩
    · exact honest.due e c m old
    · exact honest.live e d here

/-- If every registration that is admitted requires the shares of more than `t`
parties, no output leaves the coordinator with fewer. -/
theorem output_needs_honest_share (run : Run (Step listener) start trace final)
    (guarded : ∀ τ ∈ trace, RequiresHonestShare listener τ.source τ.event) :
    (∀ e c waiter shares, Released final e c waiter shares →
      ∃ before, before <+: trace ∧ SharedBy listener before e c shares (listener.topology.t.toNat + 1)) ∧
    ∀ e c shares, final.server.coordinator.browserOutputShares e c = .ok (some shares) →
      SharedBy listener trace e c shares (listener.topology.t.toNat + 1) := by
  have restricted := run.restrict guarded
  have initial : HonestThresholds listener start := ⟨fun _ _ here => (nomatch here), fun _ _ _ due => (nomatch due)⟩
  constructor
  · intro e c waiter shares released
    have taken : TakenIn listener trace e c shares fun _ => listener.topology.t.toNat + 1 := by
      refine takenIn_of_released run ?_ released
      intro τ member m d due _
      have honest : HonestThresholds listener τ.source := restricted.source_invariant initial
        (fun _ _ _ before step => before.step step.2 step.1) member
      exact honest.due e c m due
    obtain ⟨before, τ, after, _, d, same, _, _, lists, enough⟩ := taken
    exact ⟨before, ⟨τ :: after, same.symm⟩, lists.sharedBy enough⟩
  · intro e c shares read
    have honest : HonestThresholds listener final := restricted.invariant initial
      fun _ _ _ before step => before.step step.2 step.1
    obtain ⟨d, here, lists, enough⟩ := lists_of_browserOutputShares run read
    exact lists.sharedBy ((honest.live e d here).trans enough)

section Runs

/-- Two of three nodes send their shares before the client subscribes. -/
def twiceShared : List OutputEvent :=
  [.server (.register [1] (.forOutput 2) []), .sendOutputShares (.numbered 0) [1] [9] ([7], [8]),
    .deliver (.numbered 0) [9] 2, .sendOutputShares (.numbered 0) [2] [9] ([5], [6]), .deliver (.numbered 0) [9] 2,
    .requestOutputShares (.numbered 0) [9], .obtainOutputShares (.numbered 0) [9] 0, .deliver (.numbered 0) [9] 2,
    .send (.numbered 0) [9] ⟨0, [9]⟩ [([5], [6]), ([7], [8])] true]

def checksHonestShare (_ : OutputServerState) : OutputEvent → Bool
  | .server (.register _ registration _) => decide (2 ≤ registration.minOutputShares.toNat)
  | _ => true

theorem requiresHonestShare_of_check (checked : s.checksHonestShare event = true) :
    RequiresHonestShare .trio s event := by
  cases event with
  | server serverEvent =>
    cases serverEvent with
    | register party registration order => exact fun _ => of_decide_eq_true checked
    | _ => trivial
  | _ => trivial

/-- The client is sent shares of two of the three parties, of which one may be faulty. -/
theorem output_needs_honest_share_of_two :
    ∃ trace final, Run (Step .trio) start trace final ∧ trace.map Transition.event = twiceShared ∧
      Released final (.numbered 0) [9] ⟨0, [9]⟩ [([5], [6]), ([7], [8])] ∧
      ∃ before, before <+: trace ∧ SharedBy .trio before (.numbered 0) [9] [([5], [6]), ([7], [8])] 2 := by
  obtain ⟨trace, final, run, events, sent, checked⟩ := exists_run_of_events .trio twiceShared checksHonestShare
    OutputServerState.sent [⟨.numbered 0, [9], ⟨0, [9]⟩, [([5], [6]), ([7], [8])]⟩] (by decide +kernel)
  have released : Released final (.numbered 0) [9] ⟨0, [9]⟩ [([5], [6]), ([7], [8])] := Or.inr (by simp [sent])
  refine ⟨trace, final, run, events, released, ?_⟩
  exact (output_needs_honest_share run fun τ member => requiresHonestShare_of_check (checked τ member)).1 _ _ _ _ released

/-- A single node registers an execution that one share completes, and releases
its output alone, though one node may be faulty. -/
theorem one_party_releases_output :
    ∃ trace final, Run (Step .trio) start trace final ∧ trace.map Transition.event = servedClient ∧
      Released final (.numbered 0) [9] ⟨0, [9]⟩ [([7], [8])] ∧
      ([([7], [8])] : List EncryptedShares).length < CoordinatorListener.trio.topology.t.toNat + 1 := by
  obtain ⟨trace, final, run, events, sent, _⟩ := exists_run_of_events .trio servedClient (fun _ _ => true)
    OutputServerState.sent [⟨.numbered 0, [9], ⟨0, [9]⟩, [([7], [8])]⟩] (by decide +kernel)
  exact ⟨trace, final, run, events, Or.inr (by simp [sent]), by decide⟩

end Runs

end MpcCoordinator.OutputServerState
