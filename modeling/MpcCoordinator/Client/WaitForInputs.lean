import MpcCoordinator.Client.Shares
import MpcCoordinator.Client.WaitForIndices
import MpcCoordinator.General.Gather
import MpcCoordinator.OnChain.State

namespace MpcCoordinator

variable {S V : Type} (scheme : ShareBound S V) (maskShares : List S)

/-- The inputs of each client as they come in, with their indices. -/
abbrev IndexedInputs (κ S : Type) := Table κ (List (UInt64 × S))

/-- One input's share. There is none where the index has no mask share: the
access is out of bounds. -/
def ShareBound.unmask (i : UInt64) (maskedInput : Bytes) : Option (Except CoordinatorError S) :=
  match maskShares[i.toNat]? with
  | none => none
  | some maskShare =>
    match scheme.deserializeValue maskedInput with
    | none => some (.error .deserializationError)
    | some value =>
      match scheme.computeMaskedInput value maskShare with
      | none => some (.error .shareError)
      | some input => some (.ok input)

/-- The loop over the pairs of one event. -/
def addMaskedInputs (client : ClientIdentity) :
    List (UInt64 × Bytes) → IndexedInputs ClientIdentity S →
      Option (Except CoordinatorError (IndexedInputs ClientIdentity S))
  | [], map => some (.ok map)
  | (reservedIndex, maskedInput) :: rest, map =>
    match scheme.unmask maskShares reservedIndex maskedInput with
    | none => none
    | some (.error error) => some (.error error)
    | some (.ok input) => addMaskedInputs client rest (Gather.push map (client, reservedIndex, input))

/-- The loop of `wait_for_inputs`, which counts the inputs and not the events. -/
def waitForInputsLoop (nInputs : UInt64) (closed : Bool) : UInt64 → IndexedInputs ClientIdentity S → List (Option Event) →
    Waited (Table ClientIdentity (List S))
  | received, map, [] =>
    if received < nInputs then (if closed then .failed subscriptionEnded else .blocked) else .returned (Gather.finish map)
  | received, map, item :: rest =>
    if received < nInputs then
      match item with
      | some (.maskedInputEvent client maskedInputs) =>
        match addMaskedInputs scheme maskShares client maskedInputs map with
        | none => .panicked
        | some (.error error) => .failed error
        | some (.ok map) =>
          waitForInputsLoop nInputs closed (received + UInt64.ofNat maskedInputs.length) map rest
      | _ => .failed subscriptionEnded
    else .returned (Gather.finish map)

/-- Waits until the events received hold `nInputs` masked inputs, and gives each
client's shares by ascending index. -/
def waitForInputs (nInputs : UInt64) (sub : Except String (Subscription Event)) :
    Waited (Table ClientIdentity (List S)) :=
  match sub with
  | .error error => .failed (.jsonError error)
  | .ok sub => waitForInputsLoop scheme maskShares nInputs sub.closed 0 Table.empty sub.items

namespace OnChain

/-- The event by which the contract reports an input. -/
structure MaskedInputEvent where
  client : Address
  maskedInput : Bytes
  reservedIndex : BitVec 256
  deriving DecidableEq, Repr

def u256ToU64 (x : BitVec 256) : Option UInt64 :=
  if x.toNat < 2 ^ 64 then some (UInt64.ofNat x.toNat) else none

def streamEnded : CoordinatorError :=
  .ethereumError "event stream ended unexpectedly while waiting for MaskedInputEvent events"

/-- The loop of `wait_for_inputs`, with `n` events to go. -/
def waitForInputsLoop (closed : Bool) :
    Nat → IndexedInputs Address S → List (Option MaskedInputEvent) → Waited (Table Address (List S))
  | 0, inputs, _ => .returned (Gather.finish inputs)
  | _ + 1, _, [] => if closed then .failed streamEnded else .blocked
  | _ + 1, _, none :: _ => .failed streamEnded
  | n + 1, inputs, some event :: rest =>
    match u256ToU64 event.reservedIndex with
    | none => .failed .u256ToU64Error
    | some i =>
      match scheme.unmask maskShares i event.maskedInput with
      | none => .panicked
      | some (.error error) => .failed error
      | some (.ok input) => waitForInputsLoop closed n (Gather.push inputs (event.client, i, input)) rest

def waitForInputs (nInputs : UInt64) (events : Except String (Subscription MaskedInputEvent)) :
    Waited (Table Address (List S)) :=
  match events with
  | .error error => .failed (.ethereumError s!"error setting up event listener for MaskedInputEvent events: {error}")
  | .ok events => waitForInputsLoop scheme maskShares events.closed nInputs.toNat Table.empty events.items

end OnChain

/-- An input as its client has masked it. -/
structure MaskedInput (V : Type) where
  client : ClientIdentity
  index : UInt64
  value : V
  deriving DecidableEq

/-- The share that a node has of an input. -/
def ShareBound.shareOf (input : MaskedInput V) : Option S :=
  maskShares[input.index.toNat]?.bind (scheme.computeMaskedInput input.value)

/-- A map with the shares of every client that has inputs, by ascending index. -/
structure Reconstructs (inputs : List (MaskedInput V)) (map : Table ClientIdentity (List S)) : Prop where
  absent : ∀ client, map client = none ↔ ∀ input ∈ inputs, input.client ≠ client
  ordered : ∀ client shares, map client = some shares → ∃ own : List (MaskedInput V),
    own.Perm (inputs.filter fun input => decide (input.client = client)) ∧
      own.Pairwise (fun a b => a.index < b.index) ∧ own.map (scheme.shareOf maskShares) = shares.map some

/-- The inputs that one call submits, as one event reports them. -/
structure InputBatch (V : Type) where
  client : ClientIdentity
  pairs : List (UInt64 × V)

def InputBatch.inputs (batch : InputBatch V) : List (MaskedInput V) :=
  batch.pairs.map fun pair => ⟨batch.client, pair.1, pair.2⟩

def InputBatch.event (encode : V → Bytes) (batch : InputBatch V) : Event :=
  .maskedInputEvent batch.client (batch.pairs.map fun pair => (pair.1, encode pair.2))

/-- How the contract reports an input. -/
def MaskedInput.onChain (encode : V → Bytes) (address : ClientIdentity → OnChain.Address) (input : MaskedInput V) :
    OnChain.MaskedInputEvent :=
  ⟨address input.client, encode input.value, BitVec.ofNat 256 input.index.toNat⟩

section

variable {scheme maskShares} {encode : V → Bytes} {share : MaskedInput V → S} {inputs : List (MaskedInput V)}

/-- An input on its way into a map. -/
def MaskedInput.entry (share : MaskedInput V → S) (input : MaskedInput V) : ClientIdentity × UInt64 × S :=
  (input.client, input.index, share input)

theorem unmask_encode (roundTrip : ∀ value, scheme.deserializeValue (encode value) = some value) {input : MaskedInput V}
    {result : S} (computed : scheme.shareOf maskShares input = some result) :
    scheme.unmask maskShares input.index (encode input.value) = some (.ok result) := by
  obtain ⟨maskShare, stored, computed⟩ := Option.bind_eq_some_iff.mp computed
  simp only [ShareBound.unmask, stored, roundTrip, computed]

theorem addMaskedInputs_eq (roundTrip : ∀ value, scheme.deserializeValue (encode value) = some value)
    {batch : InputBatch V} (computed : ∀ input ∈ batch.inputs, scheme.shareOf maskShares input = some (share input))
    (map : IndexedInputs ClientIdentity S) :
    addMaskedInputs scheme maskShares batch.client (batch.pairs.map fun pair => (pair.1, encode pair.2)) map =
      some (.ok ((batch.inputs.map (MaskedInput.entry share)).foldl Gather.push map)) := by
  obtain ⟨client, pairs⟩ := batch
  induction pairs generalizing map with
  | nil => rfl
  | cons pair rest ih =>
    have first := unmask_encode roundTrip (computed ⟨client, pair.1, pair.2⟩ (List.mem_cons_self ..))
    simp only [List.map_cons, addMaskedInputs, first]
    exact ih _ fun input member => computed input (List.mem_cons_of_mem _ member)

/-- The events of batches that hold what is still missing, whatever comes after. -/
theorem waitForInputsLoop_eq (roundTrip : ∀ value, scheme.deserializeValue (encode value) = some value)
    {batches : List (InputBatch V)} {nInputs received : UInt64} {closed : Bool} {later : List (Option Event)}
    (computed : ∀ input ∈ batches.flatMap InputBatch.inputs, scheme.shareOf maskShares input = some (share input))
    (missing : received.toNat + (batches.flatMap InputBatch.inputs).length = nInputs.toNat)
    (map : IndexedInputs ClientIdentity S) :
    waitForInputsLoop scheme maskShares nInputs closed received map
        (batches.map (fun batch => some (batch.event encode)) ++ later) =
      .returned (Gather.finish (((batches.flatMap InputBatch.inputs).map (MaskedInput.entry share)).foldl
        Gather.push map)) := by
  induction batches generalizing received map with
  | nil =>
    have enough : ¬ received < nInputs := by
      rw [UInt64.lt_iff_toNat_lt]
      simp only [List.flatMap_nil, List.length_nil] at missing
      omega
    cases later with
    | nil => simp [waitForInputsLoop, enough]
    | cons item rest => simp [waitForInputsLoop, enough]
  | cons batch rest ih =>
    have size : batch.inputs.length = batch.pairs.length := List.length_map ..
    rw [List.flatMap_cons, List.length_append, size] at missing
    by_cases more : received < nInputs
    · have first : ∀ input ∈ batch.inputs, scheme.shareOf maskShares input = some (share input) := by
        intro input member
        refine computed input ?_
        rw [List.flatMap_cons]
        exact List.mem_append_left _ member
      have here := addMaskedInputs_eq roundTrip first map
      have counted : (received + UInt64.ofNat batch.pairs.length).toNat = received.toNat + batch.pairs.length := by
        have top := nInputs.toNat_lt
        rw [UInt64.toNat_add, UInt64.toNat_ofNat']
        omega
      simp only [List.map_cons, List.cons_append, InputBatch.event, waitForInputsLoop, more, if_true, here,
        List.length_map, List.flatMap_cons, List.map_append, List.foldl_append]
      refine ih (fun input member => computed input ?_) (by omega) _
      rw [List.flatMap_cons]
      exact List.mem_append_right _ member
    · -- all that is left are events without any input
      have none : (batch :: rest).flatMap InputBatch.inputs = [] := by
        rw [UInt64.lt_iff_toNat_lt] at more
        rw [List.eq_nil_iff_length_eq_zero, List.flatMap_cons, List.length_append, size]
        omega
      simp [waitForInputsLoop, more, none]

/-- What is collected from inputs with distinct indices. -/
theorem reconstructs_collect (distinct : (inputs.map MaskedInput.index).Nodup)
    (computed : ∀ input ∈ inputs, scheme.shareOf maskShares input = some (share input)) :
    Reconstructs scheme maskShares inputs (Gather.collect (inputs.map (MaskedInput.entry share))) := by
  have selected : ∀ client, Mail.select client (inputs.map (MaskedInput.entry share)) =
      (inputs.filter fun input => decide (input.client = client)).map fun input => (input.index, share input) := by
    intro client
    simp only [Mail.select, List.filter_map, List.map_map]
    rfl
  constructor
  · intro client
    rw [Gather.collect_apply, selected]
    simp [List.filter_eq_nil_iff]
  · intro client shares found
    rw [Gather.collect_apply, selected] at found
    split at found
    · cases found
    cases found
    let mine := inputs.filter fun input => decide (input.client = client)
    let own := mine.insertionSort fun a b => a.index ≤ b.index
    have perm : own.Perm mine := List.perm_insertionSort ..
    have sorted : Gather.inOrder (mine.map fun input => (input.index, share input)) =
        own.map fun input => (input.index, share input) := Gather.inOrder_map ..
    refine ⟨own, perm, ?_, ?_⟩
    · have below := Gather.pairwise_inOrder (mine.map fun input => (input.index, share input))
      have apart : (own.map MaskedInput.index).Nodup :=
        (perm.map _).nodup_iff.mpr (distinct.sublist (List.filter_sublist.map _))
      rw [sorted, List.pairwise_map] at below
      exact (below.and (List.pairwise_map.mp apart)).imp fun both => UInt64.lt_of_le_of_ne both.1 both.2
    · rw [sorted, List.map_map, List.map_map]
      refine List.map_congr_left fun input member => computed input ?_
      exact (List.mem_filter.mp (perm.mem_iff.mp member)).1

theorem u256ToU64_ofNat (i : UInt64) : OnChain.u256ToU64 (BitVec.ofNat 256 i.toNat) = some i := by
  have bound := i.toNat_lt
  have small : (BitVec.ofNat 256 i.toNat).toNat = i.toNat := by
    rw [BitVec.toNat_ofNat]
    exact Nat.mod_eq_of_lt (by omega)
  rw [OnChain.u256ToU64, small, if_pos bound, UInt64.ofNat_toNat]

/-- As many events as are waited for, whatever comes after. -/
theorem onChain_waitForInputsLoop_eq (roundTrip : ∀ value, scheme.deserializeValue (encode value) = some value)
    {address : ClientIdentity → OnChain.Address} {closed : Bool} {later : List (Option OnChain.MaskedInputEvent)}
    {n : Nat} (count : n = inputs.length)
    (computed : ∀ input ∈ inputs, scheme.shareOf maskShares input = some (share input))
    (map : IndexedInputs OnChain.Address S) :
    OnChain.waitForInputsLoop scheme maskShares closed n map
        (inputs.map (fun input => some (input.onChain encode address)) ++ later) =
      .returned (Gather.finish ((inputs.map fun input => (address input.client, input.index, share input)).foldl
        Gather.push map)) := by
  subst count
  induction inputs generalizing map with
  | nil => rfl
  | cons input rest ih =>
    have first := unmask_encode roundTrip (computed input (List.mem_cons_self ..))
    simp only [List.length_cons, List.map_cons, List.cons_append, MaskedInput.onChain, OnChain.waitForInputsLoop,
      u256ToU64_ofNat, first, List.foldl_cons]
    exact ih (fun other member => computed other (List.mem_cons_of_mem _ member)) _

/-- There is one function for the shares of all inputs, unless there are none. -/
theorem exists_share (inside : ∀ input ∈ inputs, input.index.toNat < maskShares.length)
    (computes : ∀ input ∈ inputs, ∀ maskShare, maskShares[input.index.toNat]? = some maskShare →
      (scheme.computeMaskedInput input.value maskShare).isSome = true) :
    inputs = [] ∨ ∃ share : MaskedInput V → S, ∀ input ∈ inputs, scheme.shareOf maskShares input = some (share input) := by
  have computed : ∀ input ∈ inputs, ∃ result, scheme.shareOf maskShares input = some result := by
    intro input member
    have stored := List.getElem?_eq_getElem (inside input member)
    obtain ⟨result, computed⟩ := Option.isSome_iff_exists.mp (computes input member _ stored)
    exact ⟨result, by rw [ShareBound.shareOf, stored, Option.bind_some, computed]⟩
  by_cases empty : inputs = []
  · exact Or.inl empty
  · obtain ⟨first, member⟩ := List.exists_mem_of_ne_nil inputs empty
    obtain ⟨fallback, _⟩ := computed first member
    refine Or.inr ⟨fun input => (scheme.shareOf maskShares input).getD fallback, fun input member => ?_⟩
    obtain ⟨result, known⟩ := computed input member
    simp [known]

theorem waitForInputsLoop_zero (closed : Bool) (map : IndexedInputs ClientIdentity S) (items : List (Option Event)) :
    waitForInputsLoop scheme maskShares 0 closed 0 map items = .returned (Gather.finish map) := by
  cases items with
  | nil => simp [waitForInputsLoop]
  | cons item rest => simp [waitForInputsLoop]

variable (scheme) (maskShares) (encode) (inputs) in
/-- However inputs with distinct indices are ordered and batched, a node gets the
same map from them, with each client's shares by ascending index. It is what
the contract's events give, in any order of theirs and under the addresses
that the clients have there. -/
theorem inputs_reconstructed_alike (nInputs : UInt64)
    (roundTrip : ∀ value, scheme.deserializeValue (encode value) = some value)
    (count : nInputs.toNat = inputs.length) (distinct : (inputs.map MaskedInput.index).Nodup)
    (inside : ∀ input ∈ inputs, input.index.toNat < maskShares.length)
    (computes : ∀ input ∈ inputs, ∀ maskShare, maskShares[input.index.toNat]? = some maskShare →
      (scheme.computeMaskedInput input.value maskShare).isSome = true) :
    ∃ map, Reconstructs scheme maskShares inputs map ∧
      (∀ (batches : List (InputBatch V)) (closed : Bool) (later : List (Option Event)),
        (batches.flatMap InputBatch.inputs).Perm inputs →
        waitForInputs scheme maskShares nInputs
          (.ok ⟨batches.map (fun batch => some (batch.event encode)) ++ later, closed⟩) = .returned map) ∧
      ∀ (address : ClientIdentity → OnChain.Address) (ordered : List (MaskedInput V)) (closed : Bool)
        (later : List (Option OnChain.MaskedInputEvent)),
        (∀ a ∈ inputs, ∀ b ∈ inputs, address a.client = address b.client → a.client = b.client) →
        ordered.Perm inputs → ∃ onChainMap,
          OnChain.waitForInputs scheme maskShares nInputs
            (.ok ⟨ordered.map (fun input => some (input.onChain encode address)) ++ later, closed⟩) =
              .returned onChainMap ∧
          (∀ input ∈ inputs, onChainMap (address input.client) = map input.client) ∧
          ∀ addr, (∀ input ∈ inputs, address input.client ≠ addr) → onChainMap addr = none := by
  rcases exists_share inside computes with rfl | ⟨share, computed⟩
  · have zero : nInputs = 0 := UInt64.toNat_inj.mp count
    subst zero
    refine ⟨Table.empty, ⟨by simp, by simp⟩, fun batches closed later _ => ?_, ?_⟩
    · exact waitForInputsLoop_zero closed Table.empty _
    · intro address ordered closed later _ perm
      exact ⟨Table.empty, rfl, by simp, fun _ _ => rfl⟩
  have numbers : ((inputs.map (MaskedInput.entry share)).map fun entry => entry.2.1).Nodup := by
    rw [List.map_map]
    exact distinct
  refine ⟨Gather.collect (inputs.map (MaskedInput.entry share)), reconstructs_collect distinct computed, ?_, ?_⟩
  · intro batches closed later perm
    have arrived : ∀ input ∈ batches.flatMap InputBatch.inputs, scheme.shareOf maskShares input = some (share input) :=
      fun input member => computed input (perm.mem_iff.mp member)
    have missing : (0 : UInt64).toNat + (batches.flatMap InputBatch.inputs).length = nInputs.toNat := by
      rw [perm.length_eq, count]
      simp
    rw [Gather.collect_eq_of_perm numbers (perm.map _).symm]
    exact waitForInputsLoop_eq roundTrip arrived missing Table.empty
  · intro address ordered closed later apart perm
    have arrived : ∀ input ∈ ordered, scheme.shareOf maskShares input = some (share input) :=
      fun input member => computed input (perm.mem_iff.mp member)
    have renamed : (ordered.map fun input => (address input.client, input.index, share input)) =
        (ordered.map (MaskedInput.entry share)).map fun entry => (address entry.1, entry.2) := by
      rw [List.map_map]
      rfl
    refine ⟨Gather.collect (ordered.map fun input => (address input.client, input.index, share input)), ?_, ?_, ?_⟩
    · exact onChain_waitForInputsLoop_eq roundTrip (count.trans perm.length_eq.symm) arrived Table.empty
    · intro input member
      rw [renamed, Gather.collect_eq_of_perm numbers (perm.map _).symm]
      refine Gather.collect_rename fun entry listed same => ?_
      obtain ⟨other, held, rfl⟩ := List.mem_map.mp listed
      exact apart other (perm.mem_iff.mp held) input member same
    · intro addr absent
      rw [Gather.collect_apply, if_pos]
      refine Mail.select_eq_nil fun entry listed => ?_
      obtain ⟨input, held, rfl⟩ := List.mem_map.mp listed
      exact absent input (perm.mem_iff.mp held)

end

namespace Scenario

/-- Three inputs of two clients. -/
def threeInputs : List (MaskedInput UInt8) := [⟨[1], 2, 52⟩, ⟨[2], 1, 41⟩, ⟨[1], 0, 30⟩]

def oneAddressEach (client : ClientIdentity) : OnChain.Address :=
  ⟨Vector.replicate 20 (client.headD 0)⟩

/-- They come in two batches here, and one by one from the contract. -/
theorem inputs_reconstructed_alike_for_two :
    ∃ map onChainMap, Reconstructs .plain [10, 20, 30] threeInputs map ∧
      waitForInputs .plain [10, 20, 30] 3
        (.ok ⟨[some (.maskedInputEvent [2] [(1, [41])]), some (.maskedInputEvent [1] [(2, [52]), (0, [30])])], false⟩) =
          .returned map ∧
      OnChain.waitForInputs .plain [10, 20, 30] 3
        (.ok ⟨threeInputs.map fun input => some (input.onChain (fun value => [value]) oneAddressEach), false⟩) =
          .returned onChainMap ∧
      map [1] = onChainMap (oneAddressEach [1]) ∧ map [1] = some [20, 22] := by
  obtain ⟨map, reconstructs, offChain, onChain⟩ := inputs_reconstructed_alike .plain [10, 20, 30]
    (fun value => [value]) threeInputs 3 (fun _ => rfl) rfl (by decide) (by decide) (fun _ _ _ _ => rfl)
  have batched := offChain [⟨[2], [(1, 41)]⟩, ⟨[1], [(2, 52), (0, 30)]⟩] false [] (by decide)
  obtain ⟨onChainMap, single, same, _⟩ := onChain oneAddressEach threeInputs false [] (by decide) (.refl _)
  have value : (waitForInputs ShareBound.plain [10, 20, 30] 3 (.ok ⟨[some (.maskedInputEvent [2] [(1, [41])]),
      some (.maskedInputEvent [1] [(2, [52]), (0, [30])])], false⟩)).result.bind (fun map => map [1]) = some [20, 22] := by
    decide +kernel
  refine ⟨map, onChainMap, reconstructs, batched, ?_, (same ⟨[1], 2, 52⟩ (by decide)).symm, ?_⟩
  · rw [List.append_nil] at single
    exact single
  · exact (congrArg (fun waited => waited.result.bind fun map => map [1]) batched).symm.trans value

end Scenario

end MpcCoordinator
