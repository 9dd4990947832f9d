import MpcCoordinator.Native.Service
import MpcCoordinator.Server.Retirement

namespace MpcCoordinator

namespace RetiredExecutions

variable {retired other : RetiredExecutions} {executionId e : ExecutionId} {party : ClientIdentity} {n : Nat}

/-- An acknowledgement depends on the tombstone of its own execution alone. -/
theorem acknowledge_congr (same : other.acks executionId = retired.acks executionId) :
    (other.acknowledge executionId party n).1 = (retired.acknowledge executionId party n).1 ∧
      (other.acknowledge executionId party n).2.acks executionId =
        (retired.acknowledge executionId party n).2.acks executionId := by
  unfold acknowledge
  rw [same]
  split
  · exact ⟨rfl, same⟩
  · dsimp only
    split
    · exact ⟨rfl, by simp only [Table.erase_apply, if_true]⟩
    · exact ⟨rfl, by simp⟩

end RetiredExecutions

namespace CoordinatorRPCServerSharedBase

/-- Another execution can be registered without dropping one. -/
def HasRoom (shared : CoordinatorRPCServerSharedBase) : Prop :=
  shared.executions.keys.card < defaultMaxConcurrentExecutions

/-- The whole coordinator holds under an id what a smaller one holds. -/
structure SameAt (e : ExecutionId) (smaller whole : CoordinatorRPCServerSharedBase) : Prop where
  live : whole.executions.lookup e = smaller.executions.lookup e
  tombstone : whole.retired.acks e = smaller.retired.acks e
  fewer : smaller.executions.keys ⊆ whole.executions.keys

variable {e executionId : ExecutionId} {smaller whole shared : CoordinatorRPCServerSharedBase}

theorem SameAt.refl (e : ExecutionId) (shared : CoordinatorRPCServerSharedBase) : SameAt e shared shared :=
  ⟨rfl, rfl, subset_rfl⟩

theorem SameAt.trans {larger : CoordinatorRPCServerSharedBase} (first : SameAt e smaller whole)
    (second : SameAt e whole larger) : SameAt e smaller larger :=
  ⟨second.live.trans first.live, second.tombstone.trans first.tombstone, first.fewer.trans second.fewer⟩

theorem SameAt.hasRoom (same : SameAt e smaller whole) (room : whole.HasRoom) : smaller.HasRoom :=
  lt_of_le_of_lt (Finset.card_le_card same.fewer) room

theorem SameAt.put (same : SameAt e smaller whole) (d : CoordinatorExecutionState) :
    SameAt e (smaller.put e d) (whole.put e d) where
  live := by rw [lookup_put_self, lookup_put_self]
  tombstone := same.tombstone
  fewer := by
    rw [keys_put, keys_put]
    exact Finset.insert_subset_insert e same.fewer

theorem sameAt_put_of_ne (elsewhere : executionId ≠ e) (d : CoordinatorExecutionState) :
    SameAt e shared (shared.put executionId d) where
  live := lookup_put_of_ne d elsewhere.symm
  tombstone := rfl
  fewer := by
    rw [keys_put]
    exact Finset.subset_insert _ _

end CoordinatorRPCServerSharedBase

namespace CoordinatorRPCServerConnectionBase

open CoordinatorRPCServerSharedBase (SameAt HasRoom)

variable {connection : CoordinatorRPCServerConnectionBase} {shared smaller whole : CoordinatorRPCServerSharedBase}
  {e executionId : ExecutionId} {registration : ExecutionRegistration}

/-- With room, a registration does not depend on the other executions. -/
theorem registerExecution_eq (member : connection.topology.isParty connection.id = true) (room : shared.HasRoom)
    (order : List ExecutionId) : connection.registerExecution shared registration order =
      answer .executionAlreadyRegistered (match shared.executions.lookup registration.executionId with
        | some existing =>
          (if existing.registration = registration then .ok ()
            else .error (.jsonError
              (.about "Execution " registration.executionId " is already registered with different metadata")), shared)
        | none => shared.enroll connection.topology registration) := by
  simp only [registerExecution, member, CoordinatorRPCServerSharedBase.registerExecution, Bool.true_eq_false, if_false]
  cases shared.executions.lookup registration.executionId with
  | none =>
    have free : shared.executions.keys.card < defaultMaxConcurrentExecutions := room
    simp only [free, if_true]
  | some existing =>
    dsimp only
    split <;> rfl

theorem registerExecution_order (room : shared.HasRoom) (order other : List ExecutionId) :
    connection.registerExecution shared registration order = connection.registerExecution shared registration other := by
  cases member : connection.topology.isParty connection.id with
  | false => rw [registerExecution, registerExecution, if_pos member, if_pos member]
  | true => rw [registerExecution_eq member room, registerExecution_eq member room]

theorem registerExecution_elsewhere (elsewhere : registration.executionId ≠ e) (room : shared.HasRoom)
    (order : List ExecutionId) : SameAt e shared (connection.registerExecution shared registration order).2 := by
  cases member : connection.topology.isParty connection.id with
  | false =>
    rw [registerExecution, if_pos member]
    exact .refl e shared
  | true =>
    rw [registerExecution_eq member room, answer_snd]
    split
    · exact .refl e shared
    · unfold CoordinatorRPCServerSharedBase.enroll
      split
      · exact .refl e shared
      · exact CoordinatorRPCServerSharedBase.sameAt_put_of_ne elsewhere _

theorem registerExecution_sameAt (connection : CoordinatorRPCServerConnectionBase)
    (same : SameAt registration.executionId smaller whole) (room : whole.HasRoom) (order other : List ExecutionId) :
    (connection.registerExecution smaller registration other).1 =
        (connection.registerExecution whole registration order).1 ∧
      SameAt registration.executionId (connection.registerExecution smaller registration other).2
        (connection.registerExecution whole registration order).2 := by
  cases member : connection.topology.isParty connection.id with
  | false =>
    rw [registerExecution, registerExecution, if_pos member, if_pos member]
    exact ⟨rfl, same⟩
  | true =>
    rw [registerExecution_eq member room, registerExecution_eq member (same.hasRoom room), same.live]
    cases smaller.executions.lookup registration.executionId with
    | some existing =>
      dsimp only
      split <;> exact ⟨rfl, same⟩
    | none =>
      simp only [CoordinatorRPCServerSharedBase.enroll]
      cases CoordinatorExecutionState.new registration connection.topology.n with
      | error refusal => exact ⟨rfl, same⟩
      | ok d => exact ⟨rfl, same.put d⟩

/-- A party's retirement call counts for the tombstone if there is one, and for
the execution otherwise. -/
theorem retire_eq (member : connection.topology.isParty connection.id = true) :
    connection.retire shared executionId = (.ok (),
      match shared.retired.acks executionId, shared.executions.lookup executionId with
      | some _, _ => { shared with
          retired := (shared.retired.acknowledge executionId connection.id connection.topology.mpcNodes.val.length).2 }
      | none, none => shared
      | none, some d => shared.put executionId (d.acknowledgeRetirement connection.id)) := by
  simp only [retire, member, CoordinatorRPCServerSharedBase.retireExecution, Bool.true_eq_false, if_false]
  cases acks : shared.retired.acks executionId with
  | none =>
    simp only [RetiredExecutions.acknowledge, acks]
    cases shared.executions.lookup executionId <;> rfl
  | some held =>
    simp only [RetiredExecutions.acknowledge, acks]
    by_cases full : connection.topology.mpcNodes.val.length ≤ (insert connection.id held).card
    · simp only [full, if_true]
      rfl
    · simp only [full, if_false]
      rfl

theorem retire_elsewhere (elsewhere : executionId ≠ e) : SameAt e shared (connection.retire shared executionId).2 := by
  cases member : connection.topology.isParty connection.id with
  | false =>
    rw [retire, if_pos member]
    exact .refl e shared
  | true =>
    rw [retire_eq member]
    dsimp only
    split
    · exact ⟨rfl, RetiredExecutions.acks_acknowledge_of_ne elsewhere.symm, subset_rfl⟩
    · exact .refl e shared
    · exact CoordinatorRPCServerSharedBase.sameAt_put_of_ne elsewhere _

theorem retire_sameAt (connection : CoordinatorRPCServerConnectionBase) (same : SameAt e smaller whole) :
    (connection.retire smaller e).1 = (connection.retire whole e).1 ∧
      SameAt e (connection.retire smaller e).2 (connection.retire whole e).2 := by
  cases member : connection.topology.isParty connection.id with
  | false =>
    rw [retire, retire, if_pos member, if_pos member]
    exact ⟨rfl, same⟩
  | true =>
    rw [retire_eq member, retire_eq member]
    refine ⟨rfl, ?_⟩
    rw [same.tombstone, same.live]
    dsimp only
    split
    · exact ⟨same.live, (RetiredExecutions.acknowledge_congr same.tombstone).2, same.fewer⟩
    · exact same
    · exact same.put _

end CoordinatorRPCServerConnectionBase

namespace NativeCall

/-- The call names this execution. -/
def names (e : ExecutionId) (call : NativeCall) : Bool := decide (call.executionId = some e)

/-- The call names an execution, and not this one. -/
def namesAnother (e : ExecutionId) (call : NativeCall) : Bool := call.executionId.any fun named => decide (named ≠ e)

theorem namesAnother_of_names {e : ExecutionId} {call : NativeCall} (named : call.names e = true) :
    call.namesAnother e = false := by
  simp [namesAnother, of_decide_eq_true named]

end NativeCall

namespace NativeServerState

/-- The calls in flight that name an execution. -/
def inFlightOn (s : NativeServerState) (e : ExecutionId) : List NativeTask :=
  s.inFlight.filter fun task => decide (task.executionId = e)

/-- The whole server stands where a smaller one stands as far as an execution
goes: its state, its tombstone and the calls that name it. -/
structure SameAt (e : ExecutionId) (smaller whole : NativeServerState) : Prop where
  shared : CoordinatorRPCServerSharedBase.SameAt e smaller.shared whole.shared
  tasks : whole.inFlightOn e = smaller.inFlightOn e
  bindings : whole.bindings = smaller.bindings

variable {topology : Topology} {s s' smaller whole : NativeServerState} {e executionId : ExecutionId}
  {caller : ClientIdentity} {part : NativeSection} {outcome : NativeOutcome}

theorem SameAt.refl (e : ExecutionId) (s : NativeServerState) : SameAt e s s := ⟨.refl e s.shared, rfl, rfl⟩

theorem SameAt.trans {larger : NativeServerState} (first : SameAt e smaller whole) (second : SameAt e whole larger) :
    SameAt e smaller larger :=
  ⟨first.shared.trans second.shared, second.tasks.trans first.tasks, second.bindings.trans first.bindings⟩

theorem mem_inFlightOn {stage : NativeStage} :
    ⟨e, caller, stage⟩ ∈ s.inFlightOn e ↔ ⟨e, caller, stage⟩ ∈ s.inFlight := by
  simp [inFlightOn]

/-- A call goes on among those that name its execution. -/
theorem filter_goOn (next : Option NativeStage) :
    (s.goOn e caller part next).filter (fun task => decide (task.executionId = e)) =
      next.toList.map (NativeTask.mk e caller) ++
        match part.stage with
        | none => s.inFlightOn e
        | some stage => (s.inFlightOn e).erase ⟨e, caller, stage⟩ := by
  unfold goOn inFlightOn
  rw [List.filter_append]
  congr 1
  · cases next <;> simp
  · cases part.stage with
    | none => rfl
    | some stage => exact List.erase_filter.symm

theorem SameAt.goOn (same : SameAt e smaller whole) (caller : ClientIdentity) (part : NativeSection)
    (next : Option NativeStage) :
    (whole.goOn e caller part next).filter (fun task => decide (task.executionId = e)) =
      (smaller.goOn e caller part next).filter (fun task => decide (task.executionId = e)) := by
  rw [filter_goOn, filter_goOn, same.tasks]

theorem filter_goOn_of_ne (elsewhere : executionId ≠ e) (s : NativeServerState) (caller : ClientIdentity)
    (part : NativeSection) (next : Option NativeStage) :
    (s.goOn executionId caller part next).filter (fun task => decide (task.executionId = e)) = s.inFlightOn e := by
  unfold goOn
  have aside : (next.toList.map (NativeTask.mk executionId caller)).filter
      (fun task => decide (task.executionId = e)) = [] := by
    cases next <;> simp [elsewhere]
  rw [List.filter_append, aside, List.nil_append]
  split
  · rfl
  · rw [← List.erase_filter]
    exact List.erase_of_not_mem (by simp [elsewhere])

theorem lookUp_elsewhere (elsewhere : executionId ≠ e)
    (moved : s.lookUp topology executionId caller part = some (outcome, s')) : SameAt e s s' := by
  unfold lookUp at moved
  split at moved
  · cases moved
    exact .refl e s
  split at moved
  · cases moved
    exact ⟨.refl e s.shared, filter_goOn_of_ne elsewhere s caller part none, rfl⟩
  · obtain ⟨⟨_, d', next⟩, _, same⟩ := Option.map_eq_some_iff.mp moved
    cases same
    exact ⟨CoordinatorRPCServerSharedBase.sameAt_put_of_ne elsewhere d', filter_goOn_of_ne elsewhere s caller part next, rfl⟩

/-- What a section finds under its execution decides what it does. -/
theorem SameAt.lookUp (same : SameAt e smaller whole)
    (moved : whole.lookUp topology e caller part = some (outcome, s')) :
    ∃ t', smaller.lookUp topology e caller part = some (outcome, t') ∧ SameAt e t' s' := by
  unfold NativeServerState.lookUp at moved ⊢
  split at moved
  · cases moved
    exact ⟨smaller, rfl, same⟩
  rw [same.shared.live] at moved
  split at moved
  · cases moved
    exact ⟨_, rfl, same.shared, same.goOn caller part none, same.bindings⟩
  · rename_i d live
    obtain ⟨⟨_, d', next⟩, performed, result⟩ := Option.map_eq_some_iff.mp moved
    cases result
    refine ⟨⟨smaller.shared.put e d', smaller.bindings, smaller.goOn e caller part next⟩, ?_,
      same.shared.put d', same.goOn caller part next, same.bindings⟩
    rw [performed]
    rfl

/-- A section of a call leaves the executions alone that it does not name. -/
theorem within_elsewhere (elsewhere : executionId ≠ e)
    (moved : s.within topology executionId caller part = some (outcome, s')) : SameAt e s s' := by
  unfold within at moved
  split at moved
  · cases moved
    exact ⟨CoordinatorRPCServerConnectionBase.retire_elsewhere elsewhere, rfl, rfl⟩
  · cases moved
    exact .refl e s
  · rename_i stage
    cases moved
    exact ⟨.refl e s.shared, filter_goOn_of_ne elsewhere s caller (.abandon stage) none, rfl⟩
  · rename_i clientId waiter outputShares delivered
    cases moved
    exact ⟨.refl e s.shared, filter_goOn_of_ne elsewhere s caller (.send clientId waiter outputShares delivered) _, rfl⟩
  · exact lookUp_elsewhere elsewhere moved

/-- A section of a call on an execution does the same in both servers. -/
theorem SameAt.within (same : SameAt e smaller whole)
    (moved : whole.within topology e caller part = some (outcome, s')) :
    ∃ t', smaller.within topology e caller part = some (outcome, t') ∧ SameAt e t' s' := by
  unfold NativeServerState.within at moved ⊢
  split at moved
  · cases moved
    obtain ⟨answered, shared⟩ := CoordinatorRPCServerConnectionBase.retire_sameAt ⟨topology, caller⟩ same.shared
    exact ⟨⟨_, smaller.bindings, smaller.inFlight⟩, by dsimp only; rw [answered], shared, same.tasks, same.bindings⟩
  · cases moved
    exact ⟨smaller, by rw [same.bindings], same⟩
  · rename_i stage
    cases moved
    exact ⟨_, rfl, same.shared, same.goOn caller (.abandon stage) none, same.bindings⟩
  · rename_i clientId waiter outputShares delivered
    cases moved
    exact ⟨_, rfl, same.shared, same.goOn caller (.send clientId waiter outputShares delivered) _, same.bindings⟩
  · exact same.lookUp moved

theorem SameAt.enabled (same : SameAt e smaller whole) :
    smaller.enabled (.within e caller part) = whole.enabled (.within e caller part) := by
  have known : ∀ stage, decide (⟨e, caller, stage⟩ ∈ smaller.inFlight) = decide (⟨e, caller, stage⟩ ∈ whole.inFlight) := by
    intro stage
    rw [decide_eq_decide, ← mem_inFlightOn, ← mem_inFlightOn, same.tasks]
  unfold NativeServerState.enabled
  congr 1
  unfold taskOf
  dsimp only
  cases part.stage with
  | none => rfl
  | some stage => exact known stage

theorem requestShutdown_sameAt (same : SameAt e smaller whole) :
    CoordinatorRPCServerSharedBase.SameAt e
      ((CoordinatorRPCServerConnectionBase.mk topology caller).requestShutdown smaller.shared).2
      ((CoordinatorRPCServerConnectionBase.mk topology caller).requestShutdown whole.shared).2 := by
  refine ⟨?_, ?_, ?_⟩
  · rw [CoordinatorRPCServerConnectionBase.requestShutdown_executions,
      CoordinatorRPCServerConnectionBase.requestShutdown_executions, same.shared.live]
  · rw [CoordinatorRPCServerConnectionBase.requestShutdown_rest.1,
      CoordinatorRPCServerConnectionBase.requestShutdown_rest.1, same.shared.tombstone]
  · rw [CoordinatorRPCServerConnectionBase.requestShutdown_executions,
      CoordinatorRPCServerConnectionBase.requestShutdown_executions]
    exact same.shared.fewer

variable {call : NativeCall} {order : List ExecutionId}

theorem next_run (moved : s.next topology order call = some (outcome, s')) :
    s.enabled call = true ∧ s.run topology order call = some (outcome, s') := by
  unfold next at moved
  split at moved
  · rename_i permitted
    exact ⟨permitted, moved⟩
  · cases moved

/-- With room, a call that names another execution leaves this one alone. -/
theorem next_elsewhere (room : s.shared.HasRoom) (foreign : call.namesAnother e = true)
    (moved : s.next topology order call = some (outcome, s')) : SameAt e s s' := by
  obtain ⟨_, moved⟩ := next_run moved
  cases call with
  | registerExecution caller registration =>
    cases moved
    have elsewhere : registration.executionId ≠ e := by simpa [NativeCall.namesAnother, NativeCall.executionId] using foreign
    exact ⟨CoordinatorRPCServerConnectionBase.registerExecution_elsewhere elsewhere room order, rfl, rfl⟩
  | requestShutdown caller => cases foreign
  | within executionId caller part =>
    exact within_elsewhere (by simpa [NativeCall.namesAnother, NativeCall.executionId] using foreign) moved

/-- With room, any other call can be made in the smaller server as well, and
one that names the execution has the same outcome. -/
theorem SameAt.next (same : SameAt e smaller whole) (room : whole.shared.HasRoom) (kept : call.namesAnother e = false)
    (moved : whole.next topology order call = some (outcome, s')) (other : List ExecutionId) :
    ∃ answer t', smaller.next topology other call = some (answer, t') ∧ SameAt e t' s' ∧
      (call.names e = true → answer = outcome) := by
  obtain ⟨permitted, moved⟩ := next_run moved
  cases call with
  | registerExecution caller registration =>
    cases moved
    obtain rfl : registration.executionId = e := by simpa [NativeCall.namesAnother, NativeCall.executionId] using kept
    obtain ⟨answered, shared⟩ :=
      CoordinatorRPCServerConnectionBase.registerExecution_sameAt ⟨topology, caller⟩ same.shared room order other
    exact ⟨_, _, rfl, ⟨shared, same.tasks, same.bindings⟩, fun _ => by rw [answered]⟩
  | requestShutdown caller =>
    cases moved
    exact ⟨_, _, rfl, ⟨requestShutdown_sameAt same, same.tasks, same.bindings⟩, by simp [NativeCall.names, NativeCall.executionId]⟩
  | within executionId caller part =>
    obtain rfl : executionId = e := by simpa [NativeCall.namesAnother, NativeCall.executionId] using kept
    obtain ⟨t', taken, still⟩ := same.within moved
    refine ⟨outcome, t', ?_, still, fun _ => rfl⟩
    rw [NativeServerState.next, same.enabled, if_pos permitted]
    exact taken

/-- Calls that name other executions can be left out of a run with room. -/
theorem unwinding (topology : Topology) (e : ExecutionId) :
    Unwinding (Step topology) (fun s => s.shared.HasRoom) (NativeCall.namesAnother e) (NativeCall.names e)
      fun whole smaller => SameAt e smaller whole where
  aside same room := by
    rintro ⟨order, _, moved⟩ foreign
    exact same.trans (next_elsewhere room foreign moved)
  joint := by
    rintro whole smaller exchange s' same room ⟨order, _, moved⟩ kept
    let other := smaller.shared.executions.keys.toList
    obtain ⟨answer, t', taken, _⟩ := same.next room kept moved other
    exact ⟨answer, t', other, Finset.toList_toFinset _, taken⟩
  agree := by
    rintro whole smaller call outcome answer s' t' same room kept ⟨order, _, moved⟩ ⟨other, _, taken⟩
    obtain ⟨again, after, also, still, answered⟩ := same.next room kept moved other
    obtain ⟨rfl, rfl⟩ := Prod.mk.inj (Option.some.inj (taken.symm.trans also))
    exact ⟨still, answered⟩
  local_own := NativeCall.namesAnother_of_names

/-- Executions do not interfere below the capacity: a run stays one when the
calls that name other executions are deleted, and then neither the final state
of an execution nor the calls in flight on it differ, nor what any call that
names it is answered and what is sent because of it. -/
theorem executions_isolated {origin final : NativeServerState}
    {trace : List (Transition NativeServerState (Exchange NativeCall NativeOutcome))}
    (run : Run (Step topology) origin trace final) (room : ∀ τ ∈ trace, τ.source.shared.HasRoom) (e : ExecutionId) :
    (∃ purged last, Run (Step topology) origin purged last ∧
      Run.calls purged = (Run.calls trace).filter fun call => !call.namesAnother e) ∧
    ∀ purged last, Run (Step topology) origin purged last →
      Run.calls purged = ((Run.calls trace).filter fun call => !call.namesAnother e) →
        last.shared.executions.lookup e = final.shared.executions.lookup e ∧ last.inFlightOn e = final.inFlightOn e ∧
        Run.exchanges (NativeCall.names e) purged = Run.exchanges (NativeCall.names e) trace := by
  refine ⟨(unwinding topology e).exists_run (.refl e origin) run room, ?_⟩
  intro purged last other same
  obtain ⟨alike, outcomes⟩ := (unwinding topology e).agree_of_run (.refl e origin) run room other same
  exact ⟨alike.shared.live.symm, alike.tasks.symm, outcomes⟩

section Runs

/-- With room, the order of the executions plays no part. -/
theorem step_of_room (room : s.shared.HasRoom) (moved : s.next topology [] call = some (outcome, s')) :
    s.Step topology ⟨call, outcome⟩ s' := by
  refine ⟨s.shared.executions.keys.toList, Finset.toList_toFinset _, ?_⟩
  rw [← moved]
  cases call with
  | registerExecution caller registration =>
    simp only [next, run, CoordinatorRPCServerConnectionBase.registerExecution_order room _ []]
  | requestShutdown | within => rfl

/-- Calls that are made while there is room are made in a run. -/
theorem exists_run_of_calls {β : Type} (topology : Topology) (made : List NativeCall) (view : NativeServerState → β)
    (seen : β) (done : (Run.respond (fun s call =>
      if s.shared.executions.keys.card < defaultMaxConcurrentExecutions then s.next topology [] call else none)
      start made).map view = some seen) :
    ∃ trace final, Run (Step topology) start trace final ∧ Run.calls trace = made ∧ view final = seen ∧
      ∀ τ ∈ trace, τ.source.shared.HasRoom := by
  refine Run.exists_of_respond (P := fun s : NativeServerState => s.shared.HasRoom)
    (fun s call outcome s' moved => ?_) done
  split at moved
  · rename_i room
    exact ⟨step_of_room room moved, room⟩
  · cases moved

def listens (e : ExecutionId) : List NativeCall :=
  [.within e [2] (.subscribe (.round .preprocessing)), .within e [2] (.accept (.round .preprocessing) 0 fun _ => true)]

def votes (e : ExecutionId) (round : Round) : NativeCall := .within e [1] (.transition round)

/-- Two executions are registered. One is started and retired, while a
subscriber waits for the other to start. -/
def twoExecutions : List NativeCall :=
  [.registerExecution [1] (.blank 0), .registerExecution [1] (.blank 1)] ++ listens (.numbered 1) ++
    [votes (.numbered 0) .preprocessing, .requestShutdown [1], votes (.numbered 0) .mpcExecution,
      .within (.numbered 0) [1] .retireExecution, votes (.numbered 1) .preprocessing]

theorem executions_isolated_of_two :
    ∃ trace final purged last, Run (Step (.lone [1])) start trace final ∧ Run.calls trace = twoExecutions ∧
      Run (Step (.lone [1])) start purged last ∧
      Run.calls purged = [.registerExecution [1] (.blank 1)] ++ listens (.numbered 1) ++
        [.requestShutdown [1], votes (.numbered 1) .preprocessing] ∧
      last.shared.round (.numbered 1) = some .preprocessing ∧
      Run.exchanges (NativeCall.names (.numbered 1)) purged = Run.exchanges (NativeCall.names (.numbered 1)) trace := by
  obtain ⟨trace, final, run, made, entered, room⟩ := exists_run_of_calls (.lone [1]) twoExecutions
    (fun s => s.shared.round (.numbered 1)) (some .preprocessing) (by decide +kernel)
  obtain ⟨⟨purged, last, other, left⟩, agree⟩ := executions_isolated run room (.numbered 1)
  obtain ⟨live, _, outcomes⟩ := agree purged last other left
  rw [made] at left
  have started : last.shared.round (.numbered 1) = some .preprocessing := by
    rw [← entered, CoordinatorRPCServerSharedBase.round, CoordinatorRPCServerSharedBase.round, live]
  refine ⟨trace, final, purged, last, run, made, other, left.trans rfl, started, outcomes⟩

end Runs

end NativeServerState

end MpcCoordinator
