import MpcCoordinator.Execution.Step
import Mathlib.Data.Finmap

namespace MpcCoordinator

/-- The bound on executions that are live at once. -/
def defaultMaxConcurrentExecutions : Nat := 1024

/-- The bound on tombstones that are remembered. -/
def defaultMaxRetiredExecutions : Nat := 4096

/-- Executions whose protocol state was dropped, with the parties that have
acknowledged them, oldest first. -/
structure RetiredExecutions where
  acks : Table ExecutionId (Finset ClientIdentity)
  order : List ExecutionId

namespace RetiredExecutions

def empty : RetiredExecutions := ⟨Table.empty, []⟩

/-- Forgets the oldest tombstones until the rest fits. -/
def trim : List ExecutionId → Table ExecutionId (Finset ClientIdentity) → RetiredExecutions
  | [], acks => ⟨acks, []⟩
  | evicted :: rest, acks =>
    if defaultMaxRetiredExecutions < rest.length + 1 then trim rest (acks.erase evicted)
    else ⟨acks, evicted :: rest⟩

def sealExecution (retired : RetiredExecutions) (executionId : ExecutionId) (acks : Finset ClientIdentity) :
    RetiredExecutions :=
  let order := if (retired.acks executionId).isNone then retired.order ++ [executionId] else retired.order
  trim order (retired.acks.insert executionId acks)

/-- Records one more acknowledgement, and forgets an execution that all `n`
parties have acknowledged. The first component tells whether it was sealed. -/
def acknowledge (retired : RetiredExecutions) (executionId : ExecutionId) (party : ClientIdentity) (n : Nat) :
    Bool × RetiredExecutions :=
  match retired.acks executionId with
  | none => (false, retired)
  | some acks =>
    let acks := insert party acks
    if n ≤ acks.card then
      (true, ⟨retired.acks.erase executionId, retired.order.filter fun candidate => decide (candidate ≠ executionId)⟩)
    else (true, { retired with acks := retired.acks.insert executionId acks })

def contains (retired : RetiredExecutions) (executionId : ExecutionId) : Bool := (retired.acks executionId).isSome

end RetiredExecutions

/-- What the coordinator's RPC server shares between connections. Its roster
never changes and is a parameter of what follows. -/
structure CoordinatorRPCServerSharedBase where
  executions : Finmap fun _ : ExecutionId => CoordinatorExecutionState
  shutdownNotify : Bool
  oneOffExecution : Option ExecutionId
  retired : RetiredExecutions

def executionNotFound {α : Type} (executionId : ExecutionId) : RpcResult α :=
  CoordinatorRPCBaseError.executionNotFound.reply (.about "Execution " executionId " is not registered")

namespace CoordinatorRPCServerSharedBase

variable (topology : Topology) (shared : CoordinatorRPCServerSharedBase)

def new : CoordinatorRPCServerSharedBase := ⟨∅, false, none, .empty⟩

def put (executionId : ExecutionId) (d : CoordinatorExecutionState) : CoordinatorRPCServerSharedBase :=
  { shared with executions := shared.executions.insert executionId d }

/-- A live execution may lose its slot once enough parties are done with it. -/
def evictable (executionId : ExecutionId) : Bool :=
  match shared.executions.lookup executionId with
  | none => false
  | some d => decide (shared.oneOffExecution ≠ some executionId) &&
      decide (topology.retirementQuorum.toNat ≤ d.retirementAcks.card)

/-- The execution that a registration drops to make room. `order` is the
order in which the hash map yields its keys. -/
def evicted (registration : ExecutionRegistration) (order : List ExecutionId) : Option ExecutionId :=
  if registration.executionId ∈ shared.executions ∨
      shared.executions.keys.card < defaultMaxConcurrentExecutions then none
  else order.find? (shared.evictable topology)

/-- Drops an execution and leaves a tombstone. -/
def evict (executionId : ExecutionId) : CoordinatorRPCServerSharedBase :=
  match shared.executions.lookup executionId with
  | none => shared
  | some d => { shared with
      executions := shared.executions.erase executionId
      retired := shared.retired.sealExecution executionId d.retirementAcks }

/-- Admits a registration into a free slot. -/
def enroll (registration : ExecutionRegistration) :
    Except CoordinatorError Unit × CoordinatorRPCServerSharedBase :=
  match CoordinatorExecutionState.new registration topology.n with
  | .error refusal => (.error refusal, shared)
  | .ok d => (.ok (), shared.put registration.executionId d)

/-- Registers an execution. Room is made before the registration is checked. -/
def registerExecution (registration : ExecutionRegistration) (order : List ExecutionId) :
    Except CoordinatorError Unit × CoordinatorRPCServerSharedBase :=
  match shared.executions.lookup registration.executionId with
  | some existing =>
    if existing.registration = registration then (.ok (), shared)
    else (.error (.jsonError (.about "Execution " registration.executionId " is already registered with different metadata")), shared)
  | none =>
    if shared.executions.keys.card < defaultMaxConcurrentExecutions then shared.enroll topology registration
    else
      match order.find? (shared.evictable topology) with
      | none => (.error (.jsonError s!"Execution capacity {defaultMaxConcurrentExecutions} reached"), shared)
      | some executionId => (shared.evict executionId).enroll topology registration

/-- The state that a new id is admitted into: as it is while there is room, and
otherwise with one execution less. There is none when nothing may be dropped. -/
def makeRoom (order : List ExecutionId) : Option CoordinatorRPCServerSharedBase :=
  if shared.executions.keys.card < defaultMaxConcurrentExecutions then some shared
  else (order.find? (shared.evictable topology)).map shared.evict

def retireExecution (executionId : ExecutionId) (party : ClientIdentity) :
    Except CoordinatorError Unit × CoordinatorRPCServerSharedBase :=
  if topology.isParty party = false then
    (.error (.jsonError "Only configured MPC parties can retire executions"), shared)
  else
    match shared.retired.acknowledge executionId party topology.mpcNodes.val.length with
    | (true, retired) => (.ok (), { shared with retired := retired })
    | (false, _) =>
      match shared.executions.lookup executionId with
      | none => (.ok (), shared)
      | some d => (.ok (), shared.put executionId (d.acknowledgeRetirement party))

def round (executionId : ExecutionId) : Option Round :=
  (shared.executions.lookup executionId).map CoordinatorExecutionState.round

/-- Makes this a one-off coordinator, which accepts one shutdown request. -/
def watchForShutdownRequest (executionId : ExecutionId) : CoordinatorRPCServerSharedBase :=
  { shared with shutdownNotify := true, oneOffExecution := some executionId }

variable {topology shared} {executionId e : ExecutionId} {registration : ExecutionRegistration}
  {order : List ExecutionId}

theorem lookup_put_self (d : CoordinatorExecutionState) : (shared.put e d).executions.lookup e = some d :=
  Finmap.lookup_insert _

theorem lookup_put_of_ne (d : CoordinatorExecutionState) (different : e ≠ executionId) :
    (shared.put executionId d).executions.lookup e = shared.executions.lookup e :=
  Finmap.lookup_insert_of_ne _ different

theorem put_self {d : CoordinatorExecutionState} (live : shared.executions.lookup e = some d) : shared.put e d = shared := by
  have same : shared.executions.insert e d = shared.executions := by
    refine Finmap.ext_lookup fun other => ?_
    by_cases here : other = e
    · subst here
      rw [Finmap.lookup_insert, live]
    · exact Finmap.lookup_insert_of_ne _ here
  rw [put, same]

theorem evictable_live (found : shared.evictable topology executionId = true) :
    ∃ d, shared.executions.lookup executionId = some d ∧ shared.oneOffExecution ≠ some executionId ∧
      topology.retirementQuorum.toNat ≤ d.retirementAcks.card := by
  unfold evictable at found
  split at found
  · cases found
  · rename_i d live
    simp only [Bool.and_eq_true, decide_eq_true_eq] at found
    exact ⟨d, live, found.1, found.2⟩

theorem lookup_evict_self {d : CoordinatorExecutionState} (live : shared.executions.lookup e = some d) :
    (shared.evict e).executions.lookup e = none := by
  simp [evict, live]

theorem lookup_evict_of_ne (different : e ≠ executionId) :
    (shared.evict executionId).executions.lookup e = shared.executions.lookup e := by
  unfold evict
  split
  · rfl
  · exact Finmap.lookup_erase_ne different

theorem keys_put (d : CoordinatorExecutionState) :
    (shared.put e d).executions.keys = insert e shared.executions.keys := by
  ext other
  simp [put, Finmap.mem_keys, Finmap.mem_insert]

theorem keys_evict {d : CoordinatorExecutionState} (live : shared.executions.lookup e = some d) :
    (shared.evict e).executions.keys = shared.executions.keys.erase e := by
  simp [evict, live, Finmap.keys_erase]

theorem mem_keys_iff : e ∈ shared.executions.keys ↔ shared.executions.lookup e ≠ none := by
  rw [Finmap.mem_keys, ← not_iff_not, ne_eq, not_not, Finmap.lookup_eq_none]

theorem keys_put_of_live {d : CoordinatorExecutionState} (d' : CoordinatorExecutionState)
    (live : shared.executions.lookup e = some d) : (shared.put e d').executions.keys = shared.executions.keys := by
  rw [keys_put, Finset.insert_eq_of_mem]
  exact mem_keys_iff.mpr (by simp [live])

theorem registerExecution_eq (absent : shared.executions.lookup registration.executionId = none) :
    shared.registerExecution topology registration order =
      match shared.makeRoom topology order with
      | none => (.error (.jsonError s!"Execution capacity {defaultMaxConcurrentExecutions} reached"), shared)
      | some room => room.enroll topology registration := by
  simp only [registerExecution, makeRoom, absent]
  by_cases free : shared.executions.keys.card < defaultMaxConcurrentExecutions
  · simp only [free, if_true]
  · simp only [free, if_false]
    cases order.find? (shared.evictable topology) <;> rfl

/-- Room is there, or the first entry that may go is dropped for it. -/
theorem makeRoom_cases {room : CoordinatorRPCServerSharedBase} (made : shared.makeRoom topology order = some room) :
    (shared.executions.keys.card < defaultMaxConcurrentExecutions ∧ room = shared) ∨
      ∃ gone d, shared.executions.lookup gone = some d ∧ order.find? (shared.evictable topology) = some gone ∧
        defaultMaxConcurrentExecutions ≤ shared.executions.keys.card ∧ room = shared.evict gone := by
  unfold makeRoom at made
  split at made
  · rename_i free
    exact Or.inl ⟨free, (Option.some.inj made).symm⟩
  · rename_i full
    obtain ⟨gone, found, rfl⟩ := Option.map_eq_some_iff.mp made
    obtain ⟨d, live, _⟩ := evictable_live (List.find?_some found)
    exact Or.inr ⟨gone, d, live, found, Nat.le_of_not_lt full, rfl⟩

theorem evicted_eq (absent : shared.executions.lookup registration.executionId = none) :
    shared.evicted topology registration order =
      if shared.executions.keys.card < defaultMaxConcurrentExecutions then none
      else order.find? (shared.evictable topology) := by
  have missing : registration.executionId ∉ shared.executions := Finmap.lookup_eq_none.mp absent
  simp [evicted, missing]

theorem lookup_enroll_of_ne (different : e ≠ registration.executionId) :
    (shared.enroll topology registration).2.executions.lookup e = shared.executions.lookup e := by
  unfold enroll
  split
  · rfl
  · exact lookup_put_of_ne _ different

theorem lookup_enroll_self :
    (shared.enroll topology registration).2.executions.lookup registration.executionId =
        shared.executions.lookup registration.executionId ∨
      ∃ d, CoordinatorExecutionState.new registration topology.n = .ok d ∧
        (shared.enroll topology registration).2.executions.lookup registration.executionId = some d := by
  unfold enroll
  split
  · exact Or.inl rfl
  · rename_i d admitted
    exact Or.inr ⟨d, admitted, lookup_put_self d⟩

/-- What a registration does to one execution id: nothing, it becomes live
with a fresh state, or it loses its slot. -/
inductive RegistrationEffect (topology : Topology) (shared : CoordinatorRPCServerSharedBase)
    (registration : ExecutionRegistration) (order : List ExecutionId) (e : ExecutionId) :
    Option CoordinatorExecutionState → Prop
  | same : RegistrationEffect topology shared registration order e (shared.executions.lookup e)
  | created {d} : registration.executionId = e → shared.executions.lookup e = none →
      CoordinatorExecutionState.new registration topology.n = .ok d →
      RegistrationEffect topology shared registration order e (some d)
  | dropped {d} : shared.evicted topology registration order = some e → shared.executions.lookup e = some d →
      RegistrationEffect topology shared registration order e none

theorem registerExecution_effect (topology : Topology) (shared : CoordinatorRPCServerSharedBase)
    (registration : ExecutionRegistration) (order : List ExecutionId) (e : ExecutionId) :
    RegistrationEffect topology shared registration order e
      ((shared.registerExecution topology registration order).2.executions.lookup e) := by
  cases known : shared.executions.lookup registration.executionId with
  | some existing =>
    simp only [registerExecution, known]
    split <;> exact .same
  | none =>
    rw [registerExecution_eq known]
    split
    · exact .same
    rename_i room made
    have vacated : RegistrationEffect topology shared registration order e (room.executions.lookup e) := by
      rcases makeRoom_cases made with ⟨_, rfl⟩ | ⟨gone, d, live, found, full, rfl⟩
      · exact .same
      · by_cases dropped : e = gone
        · subst dropped
          rw [lookup_evict_self live]
          exact .dropped (by rw [evicted_eq known, if_neg (Nat.not_lt.mpr full), found]) live
        · rw [lookup_evict_of_ne dropped]
          exact .same
    by_cases here : e = registration.executionId
    · subst here
      have outcome : (room.enroll topology registration).2.executions.lookup registration.executionId =
        room.executions.lookup registration.executionId ∨ _ := lookup_enroll_self
      rcases outcome with same | ⟨d, fresh, created⟩
      · rw [same]
        exact vacated
      · rw [created]
        exact .created rfl known fresh
    · rw [lookup_enroll_of_ne here]
      exact vacated

end CoordinatorRPCServerSharedBase

namespace CoordinatorRPCServerConnectionBase

variable (connection : CoordinatorRPCServerConnectionBase) (shared : CoordinatorRPCServerSharedBase)

/-- The reply of a shared-state operation, as the connection sends it. -/
def answer (kind : CoordinatorRPCBaseError) (result : Except CoordinatorError Unit × CoordinatorRPCServerSharedBase) :
    RpcResult Unit × CoordinatorRPCServerSharedBase :=
  match result with
  | (.error refusal, shared) => (kind.reply refusal.message, shared)
  | (.ok (), shared) => (.ok (), shared)

def registerExecution (registration : ExecutionRegistration) (order : List ExecutionId) :
    RpcResult Unit × CoordinatorRPCServerSharedBase :=
  if connection.topology.isParty connection.id = false then
    (CoordinatorRPCBaseError.notParty.reply "Only configured MPC parties can register executions.", shared)
  else answer .executionAlreadyRegistered (shared.registerExecution connection.topology registration order)

def retire (executionId : ExecutionId) : RpcResult Unit × CoordinatorRPCServerSharedBase :=
  if connection.topology.isParty connection.id = false then
    (CoordinatorRPCBaseError.notParty.reply "Only configured MPC parties can retire executions.", shared)
  else answer .executionNotFound (shared.retireExecution connection.topology executionId connection.id)

def requestShutdown : RpcResult Unit × CoordinatorRPCServerSharedBase :=
  if connection.id ≠ connection.topology.rosterHead then
    (CoordinatorRPCBaseError.notDesignatedParty.reply "Only the designated party can request coordinator shutdown.", shared)
  else
    match shared.oneOffExecution with
    | none => (CoordinatorRPCBaseError.shutdownNotAccepted.reply "This coordinator does not accept shutdown requests.", shared)
    | some executionId =>
      if shared.round executionId ≠ some .programFinished then
        (CoordinatorRPCBaseError.wrongRound.reply "The one-off coordinator cannot shut down before ProgramFinished.", shared)
      else if shared.shutdownNotify then (.ok (), { shared with shutdownNotify := false })
      else (CoordinatorRPCBaseError.shutdownNotAccepted.reply "This coordinator does not accept shutdown requests.", shared)

/-- Runs one critical section on the named execution, if it is live. -/
def atExecution (executionId : ExecutionId) (action : Action) :
    Option (RpcResult Unit × CoordinatorRPCServerSharedBase) :=
  match shared.executions.lookup executionId with
  | none => some (executionNotFound executionId, shared)
  | some d => (d.perform connection.topology connection.id action).map fun result =>
      (result.1, shared.put executionId result.2)

/-- A section finds no execution and changes nothing, or it is a step of the
one it names and of no other. -/
theorem atExecution_cases {connection : CoordinatorRPCServerConnectionBase}
    {shared shared' : CoordinatorRPCServerSharedBase} {executionId : ExecutionId} {action : Action}
    {reply : RpcResult Unit} (performed : connection.atExecution shared executionId action = some (reply, shared')) :
    (shared.executions.lookup executionId = none ∧ reply = executionNotFound executionId ∧ shared' = shared) ∨
      ∃ d d', shared.executions.lookup executionId = some d ∧
        d.Step connection.topology ⟨connection.id, action, reply⟩ d' ∧ shared' = shared.put executionId d' := by
  unfold atExecution at performed
  split at performed
  · rename_i absent
    obtain ⟨rfl, rfl⟩ := Prod.mk.inj (Option.some.inj performed)
    exact Or.inl ⟨absent, rfl, rfl⟩
  · rename_i d live
    obtain ⟨⟨answer, d'⟩, moved, same⟩ := Option.map_eq_some_iff.mp performed
    obtain ⟨rfl, rfl⟩ := Prod.mk.inj same
    exact Or.inr ⟨d, d', live, moved, rfl⟩

theorem atExecution_ok {connection : CoordinatorRPCServerConnectionBase} {shared shared' : CoordinatorRPCServerSharedBase}
    {executionId : ExecutionId} {action : Action}
    (performed : connection.atExecution shared executionId action = some (.ok (), shared')) :
    ∃ d d', shared.executions.lookup executionId = some d ∧
      d.Step connection.topology ⟨connection.id, action, .ok ()⟩ d' ∧ shared'.executions.lookup executionId = some d' := by
  rcases atExecution_cases performed with ⟨_, refused, _⟩ | ⟨d, d', live, moved, rfl⟩
  · cases refused
  · exact ⟨d, d', live, moved, CoordinatorRPCServerSharedBase.lookup_put_self d'⟩

end CoordinatorRPCServerConnectionBase

end MpcCoordinator
