import MpcCoordinator.Output.Delivery

namespace MpcCoordinator

namespace CoordinatorExecutionState

variable {topology : Topology} {d d' : CoordinatorExecutionState} {c clientId party : ClientIdentity}

/-- The execution is as before for the outputs of one client. -/
structure SameFor (c : ClientIdentity) (d d' : CoordinatorExecutionState) : Prop where
  registration : d'.registration = d.registration
  storedShares : d'.storedShares c = d.storedShares c
  outputSinks : d'.outputSinks c = d.outputSinks c

theorem SameFor.refl (c : ClientIdentity) (d : CoordinatorExecutionState) : SameFor c d d := ⟨rfl, rfl, rfl⟩

/-- A share for one client leaves the shares of the others alone. -/
theorem storedShares_insert_of_ne {encShares : EncryptedShares} (different : c ≠ clientId)
    (unsent : d.outputShares.lookup (clientId, party) = none) :
    storedShares { d with outputShares := d.outputShares.insert (clientId, party) encShares } c = d.storedShares c := by
  have absent : (clientId, party) ∉ d.outputShares := AList.lookup_eq_none.mp unsent
  simp only [storedShares, AList.entries_insert_of_notMem absent]
  rw [List.filter_cons_of_neg]
  simpa using different.symm

end CoordinatorExecutionState

namespace OutputServerState

open CoordinatorExecutionState (SameFor)

variable {listener : CoordinatorListener} {s s' final : OutputServerState} {event : OutputEvent} {e : ExecutionId}
  {c : ClientIdentity} {trace : List (Transition OutputServerState OutputEvent)}

/-- Calls that are not about outputs leave those of every execution alone, and
an execution that becomes live has none. -/
theorem outputs_of_server {serverEvent : ServerEvent} {server server' : CoordinatorBrowserState}
    {d' : CoordinatorExecutionState} (aside : isOutputSection serverEvent = false)
    (taken : server.Step listener serverEvent server') (here : server'.live e = some d') :
    (∃ d, server.live e = some d ∧ d'.registration = d.registration ∧ d'.outputClients = d.outputClients ∧
        d'.outputShares = d.outputShares ∧ d'.outputSinks = d.outputSinks) ∨
      ∃ party registration order, serverEvent = .register party registration order ∧ registration.executionId = e ∧
        CoordinatorExecutionState.new registration listener.topology.n = .ok d' ∧ server.live e = none := by
  have seen := taken.seen e
  rw [here] at seen
  generalize source : server.live e = before at seen ⊢
  cases seen with
  | untouched => exact Or.inl ⟨d', rfl, rfl, rfl, rfl, rfl⟩
  | created registers named admitted => exact Or.inr ⟨_, _, _, registers, named, admitted, rfl⟩
  | @called d call _ called moved =>
    have place := CoordinatorBrowserState.sectionOf_of_callAt called
    refine Or.inl ⟨d, rfl, ?_⟩
    cases moved.outputs with
    | same same => exact ⟨same.registration, same.outputClients, same.outputShares, same.outputSinks⟩
    | acknowledged => exact ⟨rfl, rfl, rfl, rfl⟩
    | share | waiter | closed | failed => cases isOutput_of_sectionOf aside place

/-- The call will bring the waiter all shares that are stored, or forget it. -/
def Owes (e : ExecutionId) (c : ClientIdentity) (d : CoordinatorExecutionState) (waiter : SubscriptionSink)
    (task : OutputTask) : Prop :=
  task = .delivering e c d.registration.minOutputShares.toNat ∨ task = .sending e c waiter (d.storedShares c) ∨
    task = .failed e c waiter

/-- A waiter has what is stored for it, or there is not enough of it, or a call
in flight sees to it. -/
def Served (e : ExecutionId) (c : ClientIdentity) (s : OutputServerState) : Prop :=
  ∀ d waiter, s.live e = some d → d.outputSinks c = some waiter →
    (∃ task ∈ s.inFlight, Owes e c d waiter task) ∨ (d.storedShares c).length < d.registration.minOutputShares.toNat ∨
      ⟨e, c, waiter, d.storedShares c⟩ ∈ s.sent

theorem Owes.serves {d : CoordinatorExecutionState} {waiter : SubscriptionSink} {task : OutputTask}
    (owes : Owes e c d waiter task) : task.serves e c = true := by
  rcases owes with rfl | rfl | rfl <;> simp [OutputTask.serves]

/-- A step keeps the promise when it leaves the execution as it is for this
client, and no call that owes it a delivery returns. -/
theorem Served.kept (served : Served e c s)
    (same : ∀ d', s'.live e = some d' → ∃ d, s.live e = some d ∧ SameFor c d d')
    (owed : ∀ d waiter task, s.live e = some d → d.outputSinks c = some waiter → task ∈ s.inFlight →
      Owes e c d waiter task → task ∈ s'.inFlight)
    (sent : ∀ message ∈ s.sent, message ∈ s'.sent) : Served e c s' := by
  intro d' waiter here held
  obtain ⟨d, before, same⟩ := same d' here
  rw [same.outputSinks] at held
  rw [same.storedShares, same.registration]
  rcases served d waiter before held with ⟨task, member, owes⟩ | few | done
  · refine Or.inl ⟨task, owed d waiter task before held member owes, ?_⟩
    simpa only [Owes, same.registration, same.storedShares] using owes
  · exact Or.inr (Or.inl few)
  · exact Or.inr (Or.inr (sent _ done))

theorem mem_erase_of_serves {task other : OutputTask} (member : task ∈ s.inFlight) (serves : task.serves e c = true)
    (elsewhere : other.serves e c = false) : task ∈ s.inFlight.erase other := by
  refine (List.mem_erase_of_ne ?_).mpr member
  rintro rfl
  rw [serves] at elsewhere
  cases elsewhere

/-- A call on behalf of another client or execution keeps the promise. -/
theorem Served.elsewhere {executionId : ExecutionId} {clientId : ClientIdentity} {d d' : CoordinatorExecutionState}
    (served : Served e c s) (different : ¬ (executionId = e ∧ clientId = c)) (here : s.live executionId = some d)
    (moved : s'.server = (s.put executionId d').server) (same : c ≠ clientId → SameFor c d d')
    (owed : ∀ task ∈ s.inFlight, task.serves e c = true → task ∈ s'.inFlight) (sent : s'.sent = s.sent) :
    Served e c s' := by
  refine served.kept (fun after live => ?_) (fun _ _ task _ _ member owes => owed task member owes.serves) (by simp [sent])
  rw [live_of_put moved] at live
  split at live
  · rename_i named
    cases live
    refine ⟨d, by rw [named]; exact here, same ?_⟩
    rintro rfl
    exact different ⟨named.symm, rfl⟩
  · exact ⟨after, live, .refl c after⟩

/-- A call that goes on to a delivery keeps the promise. -/
theorem Served.of_delivering {d d' : CoordinatorExecutionState} (moved : s'.server = (s.put e d').server)
    (registered : d'.registration = d.registration)
    (due : .delivering e c d.registration.minOutputShares.toNat ∈ s'.inFlight) : Served e c s' := by
  intro after waiter live held
  obtain rfl := eq_of_put moved live
  exact Or.inl ⟨_, due, Or.inl (by rw [registered])⟩

/-- A call that returns without a change of the coordinator keeps the promise
if it did not owe anything. -/
theorem Served.leave {task : OutputTask} (served : Served e c s) (server : s'.server = s.server) (sent : s'.sent = s.sent)
    (inFlight : ∀ other ∈ s.inFlight.erase task, other ∈ s'.inFlight)
    (nothing : ∀ d waiter, s.live e = some d → ¬ Owes e c d waiter task) : Served e c s' := by
  refine served.kept (fun d' here => ⟨d', ?_, .refl c d'⟩) (fun d waiter other here _ member owes => ?_) (by simp [sent])
  · rwa [live, server] at here
  · refine inFlight other ((List.mem_erase_of_ne ?_).mpr member)
    rintro rfl
    exact nothing d waiter here owes

theorem Served.server {serverEvent : ServerEvent} {server : CoordinatorBrowserState} (served : Served e c s)
    (aside : isOutputSection serverEvent = false) (taken : s.server.Step listener serverEvent server) :
    Served e c { s with server := server } := by
  intro d' waiter here held
  rcases outputs_of_server aside taken here with ⟨d, before, registered, _, shares, sinks⟩ |
    ⟨_, _, _, _, _, admitted, _⟩
  · rw [sinks] at held
    have stored : d'.storedShares c = d.storedShares c := by
      simp only [CoordinatorExecutionState.storedShares, shares]
    simpa only [Owes, stored, registered] using served d waiter before held
  · rw [(CoordinatorExecutionState.new_cases admitted).1] at held
    cases held

theorem Served.shared {executionId : ExecutionId} {party clientId : ClientIdentity} {encShares : EncryptedShares}
    {d d' : CoordinatorExecutionState} (served : Served e c s) (here : s.live executionId = some d)
    (stored : (CoordinatorRPCServerConnectionBase.mk listener.topology party).sendOutputShares d clientId encShares =
      .ok d') : Served e c ((s.put executionId d').enter
        (.delivering executionId clientId d.registration.minOutputShares.toNat)) := by
  obtain ⟨_, _, unsent, result⟩ := CoordinatorExecutionState.sendOutputShares_ok.mp stored
  by_cases mine : executionId = e ∧ clientId = c
  · obtain ⟨rfl, rfl⟩ := mine
    exact .of_delivering rfl (by rw [result]) List.mem_cons_self
  · refine served.elsewhere mine here rfl (fun other => ?_) (fun task member _ => List.mem_cons_of_mem _ member) rfl
    rw [result]
    exact ⟨rfl, CoordinatorExecutionState.storedShares_insert_of_ne other unsent, rfl⟩

theorem Served.waiting {executionId : ExecutionId} {clientId : ClientIdentity} {sink : SubscriptionSink}
    {accepted : List SubscriptionSink} {d : CoordinatorExecutionState} (served : Served e c s)
    (here : s.live executionId = some d) :
    Served e c ((put { s.leave (.accepting executionId clientId) with accepted := accepted } executionId
      { d with outputSinks := d.outputSinks.insert clientId sink }).enter
        (.delivering executionId clientId d.registration.minOutputShares.toNat)) := by
  by_cases mine : executionId = e ∧ clientId = c
  · obtain ⟨rfl, rfl⟩ := mine
    exact .of_delivering rfl rfl List.mem_cons_self
  · refine served.elsewhere mine here rfl (fun other => ⟨rfl, rfl, Table.insert_of_ne _ _ other⟩)
      (fun task member serves => ?_) rfl
    exact List.mem_cons_of_mem _ (mem_erase_of_serves member serves (by simpa [OutputTask.serves] using mine))

theorem Served.unready {executionId : ExecutionId} {clientId : ClientIdentity} {minShares : Nat}
    {d d' : CoordinatorExecutionState} (served : Served e c s) (here : s.live executionId = some d)
    (snapshot : d.readyOutputSnapshot clientId minShares s.isClosed = (d', none)) :
    Served e c ((s.leave (.delivering executionId clientId minShares)).put executionId d') := by
  by_cases mine : executionId = e ∧ clientId = c
  · obtain ⟨rfl, rfl⟩ := mine
    intro after waiter live held
    obtain rfl := eq_of_put (s := s) (d := d') rfl live
    rcases CoordinatorExecutionState.readyOutputSnapshot_none snapshot with ⟨rfl, absent | few⟩ | gone
    · rw [absent] at held
      cases held
    · -- a call with another threshold than the execution's does not owe anything
      by_cases current : minShares = after.registration.minOutputShares.toNat
      · exact Or.inr (Or.inl (by rwa [← current]))
      · rcases served after waiter here held with ⟨task, member, owes⟩ | few | done
        · refine Or.inl ⟨task, (List.mem_erase_of_ne ?_).mpr member, owes⟩
          rintro rfl
          rcases owes with same | same | same <;> cases same
          exact current rfl
        · exact Or.inr (Or.inl few)
        · exact Or.inr (Or.inr done)
    · rw [gone] at held
      dsimp only at held
      rw [Table.erase_apply, if_pos rfl] at held
      cases held
  · refine served.elsewhere mine here rfl (fun other => ?_) (fun task member serves => ?_) rfl
    · rcases CoordinatorExecutionState.readyOutputSnapshot_none snapshot with ⟨rfl, _⟩ | rfl
      · exact .refl c d'
      · exact ⟨rfl, rfl, Table.erase_of_ne _ other⟩
    · exact mem_erase_of_serves member serves (by simpa [OutputTask.serves] using mine)

theorem Served.ready {executionId : ExecutionId} {clientId : ClientIdentity} {minShares : Nat}
    {d d' : CoordinatorExecutionState} {waiter : SubscriptionSink} {outputShares : List EncryptedShares}
    (served : Served e c s) (here : s.live executionId = some d)
    (snapshot : d.readyOutputSnapshot clientId minShares s.isClosed = (d', some (waiter, outputShares))) :
    Served e c (((s.leave (.delivering executionId clientId minShares)).put executionId d').enter
      (.sending executionId clientId waiter outputShares)) := by
  obtain ⟨rfl, current, _, rfl, _⟩ := CoordinatorExecutionState.readyOutputSnapshot_some.mp snapshot
  by_cases mine : executionId = e ∧ clientId = c
  · obtain ⟨rfl, rfl⟩ := mine
    intro after other live held
    obtain rfl := eq_of_put (s := s) (d := d') rfl live
    obtain rfl := Option.some.inj (current.symm.trans held)
    exact Or.inl ⟨_, List.mem_cons_self, Or.inr (Or.inl rfl)⟩
  · refine served.elsewhere mine here rfl (fun _ => .refl c d') (fun task member serves => ?_) rfl
    exact List.mem_cons_of_mem _ (mem_erase_of_serves member serves (by simpa [OutputTask.serves] using mine))

/-- A send that ends well is what was owed, and one that fails leaves the waiter
to be forgotten. -/
theorem Served.sent {executionId : ExecutionId} {clientId : ClientIdentity} {waiter : SubscriptionSink}
    {outputShares : List EncryptedShares} {task : OutputTask} (served : Served e c s)
    (sending : task = .sending executionId clientId waiter outputShares) (server : s'.server = s.server)
    (kept : ∀ message ∈ s.sent, message ∈ s'.sent) (others : ∀ other ∈ s.inFlight.erase task, other ∈ s'.inFlight)
    (outcome : ⟨executionId, clientId, waiter, outputShares⟩ ∈ s'.sent ∨ .failed executionId clientId waiter ∈ s'.inFlight) :
    Served e c s' := by
  intro d current live held
  rw [OutputServerState.live, server] at live
  rcases served d current live held with ⟨other, member, owes⟩ | few | done
  · by_cases mine : other = task
    · rw [mine, sending] at owes
      rcases owes with same | same | same <;> cases same
      rcases outcome with done | forgetting
      · exact Or.inr (Or.inr done)
      · exact Or.inl ⟨_, forgetting, Or.inr (Or.inr rfl)⟩
    · exact Or.inl ⟨other, others other ((List.mem_erase_of_ne mine).mpr member), owes⟩
  · exact Or.inr (Or.inl few)
  · exact Or.inr (Or.inr (kept _ done))

theorem Served.forgotten {executionId : ExecutionId} {clientId : ClientIdentity} {waiter : SubscriptionSink}
    {d : CoordinatorExecutionState} (served : Served e c s) (here : s.live executionId = some d) :
    Served e c ((s.leave (.failed executionId clientId waiter)).put executionId (d.forgetOutputSink clientId waiter)) := by
  by_cases mine : executionId = e ∧ clientId = c
  · obtain ⟨rfl, rfl⟩ := mine
    intro after current live held
    obtain rfl := eq_of_put (s := s) (d := d.forgetOutputSink clientId waiter) rfl live
    unfold CoordinatorExecutionState.forgetOutputSink at held ⊢
    split at held
    · dsimp only at held
      rw [Table.erase_apply, if_pos rfl] at held
      cases held
    · -- the failed send was for another waiter than the current one
      rename_i other
      rw [if_neg other]
      rcases served d current here held with ⟨task, member, owes⟩ | few | done
      · refine Or.inl ⟨task, (List.mem_erase_of_ne ?_).mpr member, owes⟩
        rintro rfl
        rcases owes with same | same | same <;> cases same
        exact other held
      · exact Or.inr (Or.inl few)
      · exact Or.inr (Or.inr done)
  · refine served.elsewhere mine here rfl (fun other => ?_) (fun task member serves => ?_) rfl
    · unfold CoordinatorExecutionState.forgetOutputSink
      split
      · exact ⟨rfl, rfl, Table.erase_of_ne _ other⟩
      · exact .refl c d
    · exact mem_erase_of_serves member serves (by simpa [OutputTask.serves] using mine)

theorem Served.step (served : Served e c s) (step : s.Step listener event s') : Served e c s' := by
  cases step.effect with
  | server aside taken => exact served.server aside taken
  | unshared | unrequested => exact served
  | closed => exact served
  | requested =>
    exact served.kept (fun d here => ⟨d, here, .refl c d⟩) (fun _ _ _ _ _ member _ => List.mem_cons_of_mem _ member)
      fun _ member => member
  | abandoned | late =>
    refine served.leave rfl rfl (fun _ member => member) ?_
    rintro d waiter _ (same | same | same) <;> cases same
  | shared here stored => exact served.shared here stored
  | waiting _ here _ _ => exact served.waiting here
  | panicked absent =>
    refine served.leave rfl rfl (fun _ member => member) ?_
    rintro d waiter here (same | same | same) <;> cases same
    rw [absent] at here
    cases here
  | unready here snapshot => exact served.unready here snapshot
  | ready here snapshot => exact served.ready here snapshot
  | delivered => exact served.sent rfl rfl (fun _ => List.mem_append_left _) (fun _ member => member) (Or.inl (by simp))
  | undelivered =>
    exact served.sent rfl rfl (fun _ member => member) (fun _ => List.mem_cons_of_mem _) (Or.inr List.mem_cons_self)
  | vanished absent =>
    refine served.leave rfl rfl (fun _ member => member) ?_
    rintro d waiter here (same | same | same) <;> cases same
    rw [absent] at here
    cases here
  | forgotten here => exact served.forgotten here

/-- The subscriptions that were accepted are all different. -/
theorem accepted_nodup (run : Run (Step listener) start trace final) : final.accepted.Nodup := by
  refine run.invariant (P := fun s => s.accepted.Nodup) List.nodup_nil fun s event s' distinct step => ?_
  cases step.effect with
  | late fresh | waiting fresh =>
    refine List.nodup_append.mpr ⟨distinct, List.nodup_singleton _, ?_⟩
    rintro sink old _ new rfl
    exact fresh (List.mem_singleton.mp new ▸ old)
  | _ => exact distinct

/-- A failed send forgets its own subscription at most. -/
theorem Step.forget_keeps {older newer : SubscriptionSink} {d : CoordinatorExecutionState}
    (step : s.Step listener (.forget e c older) s') (here : s.live e = some d) (current : d.outputSinks c = some newer)
    (different : older ≠ newer) : ∃ d', s'.live e = some d' ∧ d'.outputSinks c = some newer := by
  cases step.effect with
  | vanished absent =>
    rw [absent] at here
    cases here
  | @forgotten _ _ _ before live =>
    obtain rfl := Option.some.inj (here.symm.trans live)
    have kept : d.forgetOutputSink c older = d := if_neg fun same => different (Option.some.inj (same.symm.trans current))
    rw [kept]
    exact ⟨d, (live_of_put (s := s) rfl e).trans (if_pos rfl), current⟩

/-- No output share is lost to a waiting client: when no call on its behalf is
in flight, its open subscription has been sent all shares that are stored for it,
if they are enough. A send that fails on one subscription never removes another,
and no two subscriptions are the same. -/
theorem no_output_share_lost (run : Run (Step listener) start trace final) :
    (∀ e c d waiter, final.live e = some d → d.outputSinks c = some waiter → waiter ∉ final.closed →
      (∀ task ∈ final.inFlight, task.serves e c = false) →
      d.registration.minOutputShares.toNat ≤ (d.storedShares c).length →
        ⟨e, c, waiter, d.storedShares c⟩ ∈ final.sent) ∧
      (∀ τ ∈ trace, ∀ e c older newer d, τ.event = .forget e c older → τ.source.live e = some d →
        d.outputSinks c = some newer → older ≠ newer → ∃ d', τ.target.live e = some d' ∧ d'.outputSinks c = some newer) ∧
      final.accepted.Nodup := by
  refine ⟨?_, ?_, accepted_nodup run⟩
  · intro e c d waiter here held _ idle enough
    have served : Served e c final := run.invariant (fun _ _ live => nomatch live) fun _ _ _ before step => before.step step
    rcases served d waiter here held with ⟨task, member, owes⟩ | few | done
    · have idle := idle task member
      rw [owes.serves] at idle
      cases idle
    · omega
    · exact done
  · intro τ member e c older newer d forgets here current different
    have step := run.taken_of_mem member
    rw [forgets] at step
    exact step.forget_keeps here current different

/-- No call is in flight, and the client waits on its first subscription with
enough shares stored for it. -/
def isAtRest (s : OutputServerState) : Bool :=
  s.inFlight.isEmpty && !s.isClosed ⟨0, [9]⟩ && (s.live (.numbered 0)).any fun d =>
    decide (d.outputSinks [9] = some ⟨0, [9]⟩) && decide (d.storedShares [9] = [([7], [8])]) &&
      decide (d.registration.minOutputShares.toNat ≤ (d.storedShares [9]).length)

/-- A waiting client is sent the share that a node stores while it waits. -/
theorem no_output_share_lost_to_client :
    ∃ trace final d, Run (Step .trio) start trace final ∧ trace.map Transition.event = servedClient ∧
      final.live (.numbered 0) = some d ∧ d.storedShares [9] = [([7], [8])] ∧
      ⟨.numbered 0, [9], ⟨0, [9]⟩, d.storedShares [9]⟩ ∈ final.sent := by
  obtain ⟨trace, final, run, events, seen, _⟩ := exists_run_of_events .trio servedClient (fun _ _ => true)
    isAtRest true (by decide +kernel)
  simp only [isAtRest, Bool.and_eq_true, Option.any_eq_true, decide_eq_true_eq, List.isEmpty_iff, Bool.not_eq_true'] at seen
  obtain ⟨⟨idle, unshut⟩, d, here, ⟨waiting, stored⟩, enough⟩ := seen
  refine ⟨trace, final, d, run, events, here, stored, ?_⟩
  exact (no_output_share_lost run).1 _ _ d _ here waiting (of_decide_eq_false unshut) (by simp [idle]) enough

end OutputServerState

end MpcCoordinator
