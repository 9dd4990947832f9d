import MpcCoordinator.Browser.Tables
import MpcCoordinator.Server.Registry

namespace MpcCoordinator

/-- What does not change while a coordinator serves browsers: its roster, the
library functions it calls, the relying party it checks assertions against, and
the catalog of known credentials. -/
structure CoordinatorListener where
  topology : Topology
  primitives : Primitives
  rpIdHash : Vector UInt8 32
  origin : String
  credentialIdIndex : Table Bytes ClientIdentity

namespace CoordinatorExecutionState

variable (d : CoordinatorExecutionState)

/-- The identities admitted anywhere in an execution's roster. -/
def candidates : Finset ClientIdentity :=
  (d.inputAssignments.filterMap d.inputSlotClient ++ d.outputClients).toFinset

/-- Whether an identity has an input on one of the slots assigned to it. -/
def alreadySubmitted (clientIdentity : ClientIdentity) : Bool :=
  d.inputAssignments.zipIdx.any fun entry =>
    decide (d.inputSlotClient entry.1 = some clientIdentity) && (d.maskedInputs.read entry.2).isSome

theorem alreadySubmitted_iff {clientIdentity : ClientIdentity} : d.alreadySubmitted clientIdentity = true ↔
    ∃ i slot, d.inputAssignments[i]? = some slot ∧ d.inputSlotClient slot = some clientIdentity ∧
      (d.maskedInputs.read i).isSome = true := by
  simp only [alreadySubmitted, List.any_eq_true, Bool.and_eq_true, decide_eq_true_eq]
  constructor
  · rintro ⟨entry, member, owned, filled⟩
    exact ⟨entry.2, entry.1, List.mem_zipIdx_iff_getElem?.mp member, owned, filled⟩
  · rintro ⟨i, slot, assigned, owned, filled⟩
    exact ⟨(slot, i), List.mem_zipIdx_iff_getElem?.mpr assigned, owned, filled⟩

end CoordinatorExecutionState

namespace CoordinatorListener

variable (listener : CoordinatorListener)

def verifyBind (request : BindWebauthnIdentity) (candidate : ClientIdentity) : Option UInt32 :=
  listener.primitives.verifyWebauthnAssertion request.assertion candidate listener.rpIdHash listener.origin
    (listener.primitives.webauthnBindChallenge request.ecdsaPublicKey request.ecdhPublicKey)

/-- The catalog's answer for the claimed credential, if it is on this
execution's roster and the assertion verifies under it. -/
def indexedMatch (candidates : Finset ClientIdentity) (request : BindWebauthnIdentity) :
    Option (ClientIdentity × UInt32) :=
  if request.credentialId.isEmpty then none
  else
    match listener.credentialIdIndex request.credentialId with
    | none => none
    | some candidate =>
      if candidate ∈ candidates then
        (listener.verifyBind request candidate).map fun signCount => (candidate, signCount)
      else none

/-- The first candidate, in the order the hash set yields them, under which
the assertion verifies. -/
def scanCandidates (order : List ClientIdentity) (request : BindWebauthnIdentity) :
    Option (ClientIdentity × UInt32) :=
  order.findSome? fun candidate => (listener.verifyBind request candidate).map fun signCount => (candidate, signCount)

def resolveIdentity (d : CoordinatorExecutionState) (request : BindWebauthnIdentity) (order : List ClientIdentity) :
    RpcResult (ClientIdentity × UInt32) :=
  match (listener.indexedMatch d.candidates request).or (listener.scanCandidates order request) with
  | some found => .ok found
  | none => authError "WebAuthn assertion did not match any registered identity admitted for this execution"

/-- The part of a bind ceremony that runs under the coordinator lock. -/
def checkBind (coordinator : CoordinatorRPCServerSharedBase) (request : BindWebauthnIdentity)
    (order : List ClientIdentity) : RpcResult (ClientIdentity × UInt32) :=
  match coordinator.executions.lookup request.executionId with
  | none => executionNotRegistered
  | some d =>
    match listener.resolveIdentity d request order with
    | .error refusal => .error refusal
    | .ok (clientIdentity, signCount) =>
      if d.alreadySubmitted clientIdentity then
        authError "this identity has already submitted its input for this execution and cannot bind again"
      else .ok (clientIdentity, signCount)

variable {listener}

theorem checkBind_ok {coordinator : CoordinatorRPCServerSharedBase} {request : BindWebauthnIdentity}
    {order : List ClientIdentity} {clientIdentity : ClientIdentity} {signCount : UInt32}
    (passed : listener.checkBind coordinator request order = .ok (clientIdentity, signCount)) :
    ∃ d, coordinator.executions.lookup request.executionId = some d ∧
      listener.resolveIdentity d request order = .ok (clientIdentity, signCount) ∧
      d.alreadySubmitted clientIdentity = false := by
  unfold checkBind at passed
  split at passed
  · cases passed
  · rename_i d live
    split at passed
    · cases passed
    · rename_i resolved
      split at passed
      · cases passed
      · rename_i unsubmitted
        cases passed
        exact ⟨d, live, resolved, by simpa using unsubmitted⟩

end CoordinatorListener

end MpcCoordinator
