import MpcCoordinator.Rpc

namespace MpcCoordinator

/-- A secret-sharing scheme and its decoders, with shares `S` of values `V`.
The callers drop all errors, so none is told apart here. -/
structure ShareBound (S V : Type) where
  computeMaskedInput : V → S → Option S
  minShares : Nat → Nat
  recoverSecret : List S → Nat → Nat → Option V
  deserializeValue : Bytes → Option V
  deserializeShare : Bytes → Option S
  deserializeShares : Bytes → Option (List S)
  /-- Both schemes that there are need a share to recover a secret from. -/
  minShares_pos : ∀ t, 0 < minShares t

def RobustShare.minShares (t : Nat) : Nat := 2 * t + 1

/-- A scheme without secrecy, where every share is the value itself. -/
def ShareBound.plain : ShareBound UInt8 UInt8 where
  computeMaskedInput value maskShare := some (value - maskShare)
  minShares := RobustShare.minShares
  recoverSecret shares _ t := if RobustShare.minShares t ≤ shares.length then shares.head? else none
  deserializeValue bytes := if bytes.length = 1 then bytes.head? else none
  deserializeShare bytes := if bytes.length = 1 then bytes.head? else none
  deserializeShares bytes := some bytes
  minShares_pos := by simp [RobustShare.minShares]

theorem ShareBound.plain_recoverSecret {α : Type} (value : UInt8) (senders : List α) (n t : Nat) :
    plain.recoverSecret (senders.map fun _ => value) n t =
      if plain.minShares t ≤ senders.length then some value else none := by
  cases senders <;> simp [plain, RobustShare.minShares]

/-- How a call stands that waits for something to arrive. -/
inductive Waited (α : Type) where
  | blocked
  | panicked
  | failed (error : CoordinatorError)
  | returned (result : α)
  deriving DecidableEq, Repr

def Waited.result {α : Type} : Waited α → Option α
  | .returned result => some result
  | _ => none

end MpcCoordinator
