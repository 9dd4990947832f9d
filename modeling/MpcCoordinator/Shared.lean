import Mathlib.Logic.Function.Basic

namespace MpcCoordinator

abbrev Bytes := List UInt8

/-- The raw public key that authenticates a party or a client. -/
abbrev ClientIdentity := Bytes

/-- Uniquely identifies one program invocation; the all-zero value is reserved. -/
structure ExecutionId where
  bytes : Vector UInt8 32
  deriving DecidableEq, Repr

def ExecutionId.isZero (executionId : ExecutionId) : Bool :=
  executionId.bytes == Vector.replicate 32 0

/-- The text of an error. An identifier in it stands for its digits, which are
the `hex` crate's. -/
inductive Message where
  | plain (text : String)
  | about (before : String) (executionId : ExecutionId) (after : String)
  deriving DecidableEq, Repr

instance messageOfString : Coe String Message := ⟨.plain⟩

/-- A message with a text in front of it. -/
def Message.precededBy (front : String) : Message → Message
  | .plain text => .plain (front ++ text)
  | .about before executionId after => .about (front ++ before) executionId after

inductive Round where
  | idle
  | preprocessing
  | inputMaskReservation
  | inputCollection
  | mpcExecution
  | outputDistribution
  | programFinished
  deriving DecidableEq, Repr

/-- The name a round is printed under in messages. -/
instance : ToString Round where
  toString
    | .idle => "Idle"
    | .preprocessing => "Preprocessing"
    | .inputMaskReservation => "InputMaskReservation"
    | .inputCollection => "InputCollection"
    | .mpcExecution => "MPCExecution"
    | .outputDistribution => "OutputDistribution"
    | .programFinished => "ProgramFinished"

/-- The position of a round in the fixed protocol order. -/
def roundIndex : Round → Nat
  | .idle => 0
  | .preprocessing => 1
  | .inputMaskReservation => 2
  | .inputCollection => 3
  | .mpcExecution => 4
  | .outputDistribution => 5
  | .programFinished => 6

def roundBefore : Round → Option Round
  | .idle => none
  | .preprocessing => some .idle
  | .inputMaskReservation => some .preprocessing
  | .inputCollection => some .inputMaskReservation
  | .mpcExecution => some .inputCollection
  | .outputDistribution => some .mpcExecution
  | .programFinished => some .outputDistribution

theorem roundIndex_injective : Function.Injective roundIndex := by
  intro a b same
  cases a <;> cases b <;> first | rfl | cases same

theorem roundIndex_le_six (round : Round) : roundIndex round ≤ 6 := by
  cases round <;> decide

theorem roundIndex_of_roundBefore {earlier later : Round} (before : roundBefore later = some earlier) :
    roundIndex later = roundIndex earlier + 1 := by
  cases later <;> cases before <;> rfl

theorem roundBefore_eq_none {round : Round} : roundBefore round = none ↔ round = .idle := by
  cases round <;> decide

/-- The library errors that the modelled functions return. -/
inductive CoordinatorError where
  | jsonError (message : Message)
  | cannotTransitionToIdle
  | maskReconstructionFailed (nShares : Nat)
  | ethereumError (message : String)
  | u256ToU64Error
  | parsingDERAsPKCS8Failed
  | parsingPrivateKeyFailed
  | deserializationError
  | decryptionError
  | subscriptionError (message : Message)
  | parsingEncapsulatedKeyFailed
  | shareError
  deriving DecidableEq, Repr

/-- What an error is printed as. -/
def CoordinatorError.message : CoordinatorError → Message
  | .jsonError message => message.precededBy "JSON error: "
  | .cannotTransitionToIdle => "Cannot transition to Idle round"
  | .maskReconstructionFailed nShares => s!"Mask reconstruction from {nShares} shares failed."
  | .ethereumError message => s!"Interaction with Ethereum blockchain failed: {message}"
  | .u256ToU64Error => "U256 value out of range for u64"
  | .parsingDERAsPKCS8Failed => "Parsing DER-encoded key as PKCS#8 failed"
  | .parsingPrivateKeyFailed => "Parsing private key failed"
  | .deserializationError => "Deserialization failed"
  | .decryptionError => "Decryption failed"
  | .subscriptionError message => message.precededBy "Subscription error: "
  | .parsingEncapsulatedKeyFailed => "Parsing an encapsulated key failed"
  | .shareError => "Calculating a share failed"

end MpcCoordinator
