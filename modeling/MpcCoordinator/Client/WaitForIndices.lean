import MpcCoordinator.Rpc
import MpcCoordinator.General.Table
import Mathlib.Data.UInt

namespace MpcCoordinator

/-- The part of a subscription that has arrived: its items in order, of which
`none` is one that failed to decode, and whether the stream ended after them. -/
structure Subscription (μ : Type) where
  items : List (Option μ)
  closed : Bool

/-- What a node has learnt from reservation events: each client's indices. -/
abbrev ReservedByClient := Table ClientIdentity (List UInt64)

/-- Adds the indices of one event at the end of its client's list. -/
def ReservedByClient.extend (map : ReservedByClient) (client : ClientIdentity) (indices : List UInt64) :
    ReservedByClient :=
  map.insert client ((map client).getD [] ++ indices)

def subscriptionEnded : CoordinatorError :=
  .jsonError "Subscription ended before event could be received"

/-- The loop of `wait_for_indices`. It has no result while it would block on
the next item. -/
def waitForIndicesLoop (nInputs : UInt64) (closed : Bool) :
    UInt64 → ReservedByClient → List (Option Event) → Option (Except CoordinatorError ReservedByClient)
  | received, map, [] =>
    if received < nInputs then (if closed then some (.error subscriptionEnded) else none) else some (.ok map)
  | received, map, item :: rest =>
    if received < nInputs then
      match item with
      | some (.reservedInputEvent client indices) =>
        waitForIndicesLoop nInputs closed (received + UInt64.ofNat indices.length) (map.extend client indices) rest
      | _ => some (.error subscriptionEnded)
    else some (.ok map)

/-- Waits until the events received list `nInputs` indices. -/
def waitForIndices (nInputs : UInt64) (sub : Subscription Event) : Option (Except CoordinatorError ReservedByClient) :=
  waitForIndicesLoop nInputs sub.closed 0 Table.empty sub.items

/-- The indices that an event lists as reserved. -/
def Event.listedIndices : Event → List UInt64
  | .reservedInputEvent _ reservedIndices => reservedIndices
  | _ => []

/-- Whether an index is in the result, under any client. -/
def ReservedByClient.Has (map : ReservedByClient) (i : UInt64) : Prop :=
  ∃ client, i ∈ (map client).getD []

theorem ReservedByClient.has_extend {map : ReservedByClient} {client : ClientIdentity} {indices : List UInt64}
    {i : UInt64} : (map.extend client indices).Has i ↔ map.Has i ∨ i ∈ indices := by
  constructor
  · rintro ⟨owner, member⟩
    by_cases same : owner = client
    · subst same
      simp only [extend, Table.insert_self, Option.getD_some, List.mem_append] at member
      exact member.imp_left fun old => ⟨owner, old⟩
    · rw [extend, Table.insert_of_ne _ _ same] at member
      exact Or.inl ⟨owner, member⟩
  · rintro (⟨owner, member⟩ | member)
    · by_cases same : owner = client
      · subst same
        exact ⟨owner, by simp [extend, member]⟩
      · exact ⟨owner, by rwa [extend, Table.insert_of_ne _ _ same]⟩
    · exact ⟨client, by simp [extend, member]⟩

/-- A successful wait has read a first part of the items, counted at least
`nInputs` indices in it (in machine arithmetic) and kept all of them. -/
theorem waitForIndicesLoop_ok {nInputs received : UInt64} {closed : Bool} {map result : ReservedByClient}
    {items : List (Option Event)} (done : waitForIndicesLoop nInputs closed received map items = some (.ok result)) :
    ∃ (events : List Event) (rest : List (Option Event)), items = events.map some ++ rest ∧
      nInputs ≤ received + UInt64.ofNat (events.flatMap Event.listedIndices).length ∧
      ∀ i, result.Has i ↔ map.Has i ∨ i ∈ events.flatMap Event.listedIndices := by
  induction items generalizing received map with
  | nil =>
    unfold waitForIndicesLoop at done
    split at done
    · split at done <;> cases done
    · rename_i enough
      cases done
      exact ⟨[], [], rfl, by simpa using UInt64.not_lt.mp enough, by simp⟩
  | cons item rest ih =>
    unfold waitForIndicesLoop at done
    split at done
    · split at done
      · rename_i client indices
        obtain ⟨events, later, split, counted, kept⟩ := ih done
        refine ⟨.reservedInputEvent client indices :: events, later, by simp [split], ?_, ?_⟩
        · rw [List.flatMap_cons, List.length_append, UInt64.ofNat_add, ← UInt64.add_assoc]
          exact counted
        · intro i
          rw [kept, ReservedByClient.has_extend, List.flatMap_cons, List.mem_append, or_assoc]
          rfl
      · cases done
    · rename_i enough
      cases done
      exact ⟨[], item :: rest, rfl, by simpa using UInt64.not_lt.mp enough, by simp⟩

theorem waitForIndices_ok {nInputs : UInt64} {sub : Subscription Event} {result : ReservedByClient}
    (done : waitForIndices nInputs sub = some (.ok result)) :
    ∃ (events : List Event) (rest : List (Option Event)), sub.items = events.map some ++ rest ∧
      nInputs ≤ UInt64.ofNat (events.flatMap Event.listedIndices).length ∧
      ∀ i, result.Has i ↔ i ∈ events.flatMap Event.listedIndices := by
  obtain ⟨events, rest, split, counted, kept⟩ := waitForIndicesLoop_ok done
  refine ⟨events, rest, split, by simpa using counted, fun i => ?_⟩
  rw [kept]
  simp [ReservedByClient.Has]

end MpcCoordinator
