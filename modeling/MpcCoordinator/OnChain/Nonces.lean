import MpcCoordinator.OnChain.Relay
import MpcCoordinator.General.Framing

namespace MpcCoordinator.OnChain

variable {primitives : EthereumPrimitives} {inputs messages : Set Bytes} {signer : PrivateKeySigner primitives}
  {baseNonce baseNonce' i i' : UInt64} {sigBytes : Bytes}

/-- Within a set of messages, a signature of the key is for one of them only. -/
def PrivateKeySigner.SignsOneOf (signer : PrivateKeySigner primitives) (messages : Set Bytes) : Prop :=
  ∀ message ∈ messages, ∀ other ∈ messages, ∀ raw sig, signer.signMessage message = some raw →
    primitives.signatureFromRaw raw = some sig → primitives.recoverAddressFromMsg sig other = some signer.address →
    other = message

/-- Where Keccak-256 has no collisions and numbers have distinct encodings,
clients sign the sum of the base nonce and the index, and neither of the two. -/
theorem nonceHash_eq_iff (ideal : inputs.InjOn primitives.keccak256) (encodes : Function.Injective primitives.abiEncode)
    (inside : primitives.abiEncode (baseNonce + i) ∈ inputs)
    (inside' : primitives.abiEncode (baseNonce' + i') ∈ inputs) :
    primitives.nonceHash baseNonce' i' = primitives.nonceHash baseNonce i ↔ baseNonce' + i' = baseNonce + i := by
  constructor
  · intro same
    exact encodes (ideal inside' inside (Vector.toList_inj.mp same))
  · intro sums
    rw [EthereumPrimitives.nonceHash, sums]
    rfl

/-- A node accepts a client's signature iff it is of the hash that the node computes. -/
theorem verifyClientSig_iff (unforged : signer.SignsOneOf messages)
    (inside : primitives.nonceHash baseNonce i ∈ messages) (inside' : primitives.nonceHash baseNonce' i' ∈ messages)
    (signed : generateClientSig baseNonce i signer = some sigBytes) :
    primitives.verifyClientSig baseNonce' i' signer.address sigBytes = some true ↔
      primitives.nonceHash baseNonce' i' = primitives.nonceHash baseNonce i := by
  obtain ⟨sig, raw, recovered⟩ := signer.genuine _ _ signed
  simp only [EthereumPrimitives.verifyClientSig, raw, Option.map_eq_some_iff, decide_eq_true_eq, exists_eq_right]
  constructor
  · intro accepted
    exact unforged _ inside _ inside' _ _ signed raw accepted
  · intro same
    rw [same, recovered]

/-- The sum is that of the numbers iff it does not overflow. -/
theorem toNat_nonce_iff : (baseNonce + i).toNat = baseNonce.toNat + i.toNat ↔
    baseNonce.toNat + i.toNat < UInt64.size := by
  constructor
  · intro same
    rw [← same]
    exact (baseNonce + i).toNat_lt
  · intro small
    rw [UInt64.toNat_add]
    exact Nat.mod_eq_of_lt small

/-- With ideal hashes and signatures, a signature for an index of one contract
is accepted for an index of another iff the sums agree. So it is specific to
contract and index unless the base nonces differ and the sums agree. -/
theorem client_sig_specific_iff (ideal : inputs.InjOn primitives.keccak256)
    (encodes : Function.Injective primitives.abiEncode) (unforged : signer.SignsOneOf messages)
    (hashed : primitives.abiEncode (baseNonce + i) ∈ inputs) (hashed' : primitives.abiEncode (baseNonce' + i') ∈ inputs)
    (inside : primitives.nonceHash baseNonce i ∈ messages) (inside' : primitives.nonceHash baseNonce' i' ∈ messages)
    (signed : generateClientSig baseNonce i signer = some sigBytes) :
    (primitives.verifyClientSig baseNonce' i' signer.address sigBytes = some true ↔ baseNonce' + i' = baseNonce + i) ∧
    ((primitives.verifyClientSig baseNonce' i' signer.address sigBytes = some true ↔ baseNonce' = baseNonce ∧ i' = i) ↔
      ¬ (baseNonce' ≠ baseNonce ∧ baseNonce' + i' = baseNonce + i)) ∧
    ((baseNonce + i).toNat = baseNonce.toNat + i.toNat ↔ baseNonce.toNat + i.toNat < UInt64.size) ∧
    ((baseNonce' + i').toNat = baseNonce'.toNat + i'.toNat ↔ baseNonce'.toNat + i'.toNat < UInt64.size) := by
  have accepts : primitives.verifyClientSig baseNonce' i' signer.address sigBytes = some true ↔
      baseNonce' + i' = baseNonce + i :=
    (verifyClientSig_iff unforged inside inside' signed).trans (nonceHash_eq_iff ideal encodes hashed hashed')
  refine ⟨accepts, ?_, toNat_nonce_iff, toNat_nonce_iff⟩
  rw [accepts]
  constructor
  · rintro specific ⟨apart, sums⟩
    exact apart (specific.mp sums).1
  · intro separate
    constructor
    · intro sums
      have bases : baseNonce' = baseNonce := by
        by_contra apart
        exact separate ⟨apart, sums⟩
      subst bases
      exact ⟨rfl, (UInt64.add_right_inj _).mp sums⟩
    · rintro ⟨rfl, rfl⟩
      rfl

namespace Scenario

theorem abiWord_injective : Function.Injective abiWord := by
  intro x y same
  have bytes := List.append_cancel_left same
  refine UInt64.eq_of_byteAt fun k inside => ?_
  have digit := List.map_inj_left.mp bytes (7 - k) (List.mem_range.mpr (by omega))
  rwa [show 7 - (7 - k) = k by omega] at digit

/-- The hashes of the nonces 8 and 9. -/
def nonceEight : Vector UInt8 32 := wordOf 32 0xf3f7a9fe364faab93b216da50a3214154f22a0a2b415b23a84c8169e8b636ee3

def nonceNine : Vector UInt8 32 := wordOf 32 0x6e1540171b6c0c960b71a7020d9f60077f6af931a8bbf590da0223dacf75c7af

/-- The client's signature of the first, as a message. -/
def sigEight : Bytes :=
  (wordOf 65 0xd1879d6c3cec6a9a48fc5ba92808544487a9a0b658265335c1f40acbf457478f16cf7c7268c9feda72af80f896402c6e272ba9ec79107d2782e29707139152b71b).toList

/-- Whom the signature recovers to on the second hash. -/
def stranger : Address := ⟨wordOf 20 0x76b1bd34838fcac54ce46f4d7477372b7a3a803c⟩

end Scenario

/-- Keccak-256 and secp256k1 on the values that are needed for one signature. -/
def EthereumPrimitives.signed : EthereumPrimitives where
  Signature := Bytes
  signatureFromRaw bytes := if bytes = Scenario.sigEight then some bytes else none
  recoverAddressFromMsg sig message :=
    if sig = Scenario.sigEight ∧ message = Scenario.nonceEight.toList then some Scenario.owner
    else if sig = Scenario.sigEight ∧ message = Scenario.nonceNine.toList then some Scenario.stranger
    else none
  keccak256 input :=
    if input = Scenario.abiWord 8 then Scenario.nonceEight
    else if input = Scenario.abiWord 9 then Scenario.nonceNine
    else wordOf 32 0
  abiEncode := Scenario.abiWord
  toChecksum addr := (Scenario.checksummed.lookup addr).getD ""

namespace Scenario

/-- The client's key, as far as it signs the first hash. -/
def ownerKey : PrivateKeySigner .signed where
  address := owner
  signMessage message := if message = nonceEight.toList then some sigEight else none
  genuine := by
    intro message raw signed
    split at signed
    · rename_i same
      cases signed
      subst same
      exact ⟨sigEight, by simp [EthereumPrimitives.signed], by simp [EthereumPrimitives.signed]⟩
    · cases signed

theorem signed_injOn : ({abiWord 8, abiWord 9} : Set Bytes).InjOn EthereumPrimitives.signed.keccak256 := by
  have distinct : EthereumPrimitives.signed.keccak256 (abiWord 8) ≠ EthereumPrimitives.signed.keccak256 (abiWord 9) := by
    decide +kernel
  exact Set.injOn_pair.mpr fun same => absurd same distinct

theorem ownerKey_signsOneOf : ownerKey.SignsOneOf {nonceEight.toList, nonceNine.toList} := by
  have apart : nonceNine.toList ≠ nonceEight.toList := by decide +kernel
  have others : EthereumPrimitives.signed.recoverAddressFromMsg sigEight nonceNine.toList = some stranger := by
    simp [EthereumPrimitives.signed, apart]
  intro message _ other inside raw sig signed parsed recovered
  simp only [ownerKey] at signed
  split at signed
  swap
  · cases signed
  rename_i same
  cases signed
  rcases inside with rfl | rfl
  · exact same.symm
  · have found : EthereumPrimitives.signed.signatureFromRaw sigEight = some sigEight := by simp [EthereumPrimitives.signed]
    obtain rfl := Option.some.inj (found.symm.trans parsed)
    rw [others] at recovered
    exact absurd (Option.some.inj recovered) (by decide +kernel)

theorem ownerKey_signs (baseNonce i : UInt64) (nonce : baseNonce + i = 8) :
    generateClientSig baseNonce i ownerKey = some sigEight := by
  simp only [generateClientSig, EthereumPrimitives.nonceHash, nonce]
  decide +kernel

/-- At one contract the signature is good for its own index and not for the next. -/
theorem client_sig_specific_iff_of_one_contract :
    EthereumPrimitives.signed.verifyClientSig 5 3 owner sigEight = some true ∧
      EthereumPrimitives.signed.verifyClientSig 5 4 owner sigEight ≠ some true := by
  have own := (@client_sig_specific_iff _ _ _ ownerKey 5 5 3 3 sigEight signed_injOn abiWord_injective ownerKey_signsOneOf (by decide +kernel)
    (by decide +kernel) (by decide +kernel) (by decide +kernel) (ownerKey_signs 5 3 rfl)).1
  have next := (@client_sig_specific_iff _ _ _ ownerKey 5 5 3 4 sigEight signed_injOn abiWord_injective ownerKey_signsOneOf (by decide +kernel)
    (by decide +kernel) (by decide +kernel) (by decide +kernel) (ownerKey_signs 5 3 rfl)).1
  exact ⟨own.mpr rfl, fun accepted => absurd (next.mp accepted) (by decide)⟩

/-- The signature for index 3 of the contract with base nonce 5 is good for index
2 of one with base nonce 6, and for index 9 of one whose base nonce overflows. -/
theorem client_sig_accepted_elsewhere :
    ({abiWord 8, abiWord 9} : Set Bytes).InjOn EthereumPrimitives.signed.keccak256 ∧
      Function.Injective EthereumPrimitives.signed.abiEncode ∧
      ownerKey.SignsOneOf {nonceEight.toList, nonceNine.toList} ∧ generateClientSig 5 3 ownerKey = some sigEight ∧
      EthereumPrimitives.signed.verifyClientSig 6 2 ownerKey.address sigEight = some true ∧
      EthereumPrimitives.signed.verifyClientSig 18446744073709551615 9 ownerKey.address sigEight = some true ∧
      ¬ (18446744073709551615 : UInt64).toNat + (9 : UInt64).toNat < UInt64.size := by
  refine ⟨signed_injOn, abiWord_injective, ownerKey_signsOneOf, ownerKey_signs 5 3 rfl, ?_, ?_, by decide⟩
  · decide +kernel
  · decide +kernel

end Scenario

end MpcCoordinator.OnChain
