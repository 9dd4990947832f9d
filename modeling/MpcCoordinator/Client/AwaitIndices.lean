import MpcCoordinator.Client.WaitForIndices
import MpcCoordinator.Client.WaitForInputs

namespace MpcCoordinator

variable {κ : Type}

/-- How many indices a list of reservations has. -/
def received (events : List (κ × List UInt64)) : Nat := (events.flatMap Prod.snd).length

/-- A map that holds the indices of some reservations under their clients, and
nothing else. -/
structure Holds [DecidableEq κ] (map : Table κ (List UInt64)) (events : List (κ × List UInt64)) : Prop where
  indices : ∀ client, (map client).getD [] = (events.filter fun event => decide (event.1 = client)).flatMap Prod.snd
  absent : ∀ client, map client = none ↔ ∀ event ∈ events, event.1 ≠ client

/-- A stream of reservations ends or fails before it has `n` indices. An item
that is no reservation is `none`. -/
def EndsBefore (n : Nat) (items : List (Option (κ × List UInt64))) (closed : Bool) : Prop :=
  ∃ events rest, items = events.map some ++ rest ∧ received events < n ∧
    (rest = [] ∧ closed = true ∨ rest.head? = some none)

/-- What waiting for `n` indices should come to: it returns as soon as they are
there, with what was received until then, fails if the stream ends before that,
and goes on waiting otherwise. -/
inductive Awaited [DecidableEq κ] (n : Nat) (items : List (Option (κ × List UInt64))) (closed : Bool) :
    Waited (Table κ (List UInt64)) → Prop
  | enough {events rest map} : items = events.map some ++ rest → n ≤ received events →
      (∀ first last, events = first ++ [last] → received first < n) → Holds map events →
      Awaited n items closed (.returned map)
  | ended {error} : EndsBefore n items closed → Awaited n items closed (.failed error)
  | waiting {events} : items = events.map some → received events < n → closed = false → Awaited n items closed .blocked

/-- The reservation that an item of the coordinator's stream is. -/
def Event.reservation : Option Event → Option (ClientIdentity × List UInt64)
  | some (.reservedInputEvent client reservedIndices) => some (client, reservedIndices)
  | _ => none

/-- A stream of reservations, of which there are so many only that the indices
can be counted, since they are all kept in memory. -/
structure ReservationStream extends Subscription Event where
  countable : received (items.filterMap Event.reservation) < UInt64.size

/-- A call that returns a result, or none while it waits. -/
def Waited.ofResult {α : Type} : Option (Except CoordinatorError α) → Waited α
  | none => .blocked
  | some (.error error) => .failed error
  | some (.ok result) => .returned result

namespace OnChain

/-- The event by which the contract reports a reservation. -/
structure ReservedInputEvent where
  client : Address
  reservedIndex : BitVec 256
  deriving DecidableEq, Repr

/-- The entries of `addr_to_i`. They are counted, so this map is a list. -/
abbrev AddrToIndices := List (Address × List UInt64)

/-- Adds an index at the end of its client's list. -/
def AddrToIndices.push (client : Address) (i : UInt64) : AddrToIndices → AddrToIndices
  | [] => [(client, [i])]
  | (addr, indices) :: rest =>
    if addr = client then (addr, indices ++ [i]) :: rest else (addr, indices) :: push client i rest

/-- The sum of the lengths of all lists. -/
def AddrToIndices.total : AddrToIndices → Nat
  | [] => 0
  | (_, indices) :: rest => indices.length + total rest

/-- The loop of `wait_for_indices`. It ends as if all were well when the stream
ends or fails. -/
def waitForIndicesLoop (nInputs : UInt64) (closed : Bool) :
    AddrToIndices → List (Option ReservedInputEvent) → Waited AddrToIndices
  | addrToI, [] => if closed then .returned addrToI else .blocked
  | addrToI, none :: _ => .returned addrToI
  | addrToI, some event :: rest =>
    match u256ToU64 event.reservedIndex with
    | none => .panicked
    | some i =>
      if (addrToI.push event.client i).total = nInputs.toNat then .returned (addrToI.push event.client i)
      else waitForIndicesLoop nInputs closed (addrToI.push event.client i) rest

def waitForIndices (nInputs : UInt64) (events : Subscription ReservedInputEvent) : Waited AddrToIndices :=
  waitForIndicesLoop nInputs events.closed [] events.items

/-- The reservation that an item of the contract's stream is. -/
def reservation : Option ReservedInputEvent → Option (Address × List UInt64)
  | none => none
  | some event => (u256ToU64 event.reservedIndex).map fun i => (event.client, [i])

end OnChain

/-- What a call comes to, with its result seen in another way. -/
def Waited.map {α β : Type} (f : α → β) : Waited α → Waited β
  | .blocked => .blocked
  | .panicked => .panicked
  | .failed error => .failed error
  | .returned result => .returned (f result)

theorem received_append (first second : List (κ × List UInt64)) :
    received (first ++ second) = received first + received second := by
  simp [received]

theorem received_cons (client : κ) (indices : List UInt64) (rest : List (κ × List UInt64)) :
    received ((client, indices) :: rest) = indices.length + received rest := by
  simp [received]

section

variable [DecidableEq κ] {map map' : Table κ (List UInt64)} {events : List (κ × List UInt64)} {client : κ}
  {indices : List UInt64}

theorem Holds.empty : Holds (Table.empty : Table κ (List UInt64)) [] :=
  ⟨fun _ => rfl, fun _ => by simp⟩

/-- Another reservation goes to the end of its client's indices. -/
theorem Holds.append (holds : Holds map events) (own : map' client = some ((map client).getD [] ++ indices))
    (others : ∀ other ≠ client, map' other = map other) : Holds map' (events ++ [(client, indices)]) := by
  constructor
  · intro other
    by_cases same : other = client
    · subst same
      rw [own, Option.getD_some, holds.indices other]
      simp
    · have apart : ¬ client = other := fun reversed => same reversed.symm
      rw [others other same, holds.indices other]
      simp [apart]
  · intro other
    by_cases same : other = client
    · subst same
      simp [own]
    · rw [others other same, holds.absent other]
      have apart : client ≠ other := fun reversed => same reversed.symm
      constructor
      · intro absent event member
        rcases List.mem_append.mp member with old | new
        · exact absent event old
        · rwa [List.mem_singleton.mp new]
      · exact fun absent event member => absent event (List.mem_append_left _ member)

end

/-- The coordinator's client, with the reservations it has seen so far. -/
theorem waitForIndicesLoop_awaited {nInputs count : UInt64} {closed : Bool} {map : ReservedByClient}
    {seen : List (ClientIdentity × List UInt64)} {items : List (Option Event)} (counted : count.toNat = received seen)
    (small : received seen + received (items.filterMap Event.reservation) < UInt64.size) (holds : Holds map seen)
    (short : ∀ first last, seen = first ++ [last] → received first < nInputs.toNat) :
    Awaited nInputs.toNat (seen.map some ++ items.map Event.reservation) closed
      (.ofResult (waitForIndicesLoop nInputs closed count map items)) := by
  induction items generalizing seen map count with
  | nil =>
    unfold waitForIndicesLoop
    split
    · rename_i missing
      rw [UInt64.lt_iff_toNat_lt, counted] at missing
      cases closed with
      | true => exact .ended ⟨seen, [], rfl, missing, .inl ⟨rfl, rfl⟩⟩
      | false => exact .waiting (by simp) missing rfl
    · rename_i enough
      rw [UInt64.lt_iff_toNat_lt, counted] at enough
      exact .enough rfl (Nat.le_of_not_lt enough) short holds
  | cons item rest ih =>
    unfold waitForIndicesLoop
    split
    · rename_i missing
      rw [UInt64.lt_iff_toNat_lt, counted] at missing
      split
      · rename_i client indices
        have more : (seen ++ [(client, indices)]).map some ++ rest.map Event.reservation =
            seen.map some ++ (some (.reservedInputEvent client indices) :: rest).map Event.reservation := by
          simp [Event.reservation]
        have total : received (seen ++ [(client, indices)]) = received seen + indices.length := by
          simp [received]
        rw [List.filterMap_cons_some (show Event.reservation _ = some (client, indices) from rfl), received_cons] at small
        rw [← more]
        refine ih ?_ (by rw [total]; omega) (holds.append (Table.insert_self _ _ _)
          fun other apart => Table.insert_of_ne _ _ apart) ?_
        · rw [UInt64.toNat_add, UInt64.toNat_ofNat_of_lt' (by omega), total, counted]
          exact Nat.mod_eq_of_lt (by change _ < UInt64.size; omega)
        · intro first last split
          obtain ⟨rfl, _⟩ := List.append_inj' split rfl
          exact missing
      · rename_i other
        have failed : Event.reservation item = none := by
          unfold Event.reservation
          split
          · exact absurd rfl (other _ _)
          · rfl
        exact .ended ⟨seen, _, rfl, missing, .inr (congrArg some failed)⟩
    · rename_i enough
      rw [UInt64.lt_iff_toNat_lt, counted] at enough
      exact .enough rfl (Nat.le_of_not_lt enough) short holds

/-- A stream that ends after some reservations has no others before its end. -/
theorem append_of_ended {events events' : List (κ × List UInt64)} {rest rest' : List (Option (κ × List UInt64))}
    (same : events.map some ++ rest = events'.map some ++ rest') (ended : rest' = [] ∨ rest'.head? = some none) :
    ∃ more, events' = events ++ more := by
  induction events generalizing events' with
  | nil => exact ⟨events', rfl⟩
  | cons event events ih =>
    cases events' with
    | nil =>
      have head : rest'.head? = some (some event) := by rw [← List.nil_append rest', ← List.map_nil, ← same]; rfl
      rcases ended with rfl | failed
      · cases head
      · rw [failed] at head
        cases head
    | cons event' events' =>
      obtain ⟨first, others⟩ := List.cons.inj same
      obtain ⟨more, rfl⟩ := ih others
      exact ⟨more, by rw [Option.some.inj first]; rfl⟩

/-- If the stream ends early, waiting on it should fail. -/
theorem Awaited.failed_of_ends [DecidableEq κ] {n : Nat} {items : List (Option (κ × List UInt64))} {closed : Bool}
    {outcome : Waited (Table κ (List UInt64))} (awaited : Awaited n items closed outcome)
    (ends : EndsBefore n items closed) : ∃ error, outcome = .failed error := by
  obtain ⟨events', rest', same', few, ended⟩ := ends
  cases awaited with
  | @enough events rest map same many _ _ =>
    obtain ⟨more, rfl⟩ := append_of_ended (same.symm.trans same') (ended.imp_left And.left)
    rw [received_append] at few
    omega
  | ended => exact ⟨_, rfl⟩
  | @waiting events same _ unclosed =>
    rcases ended with ⟨_, closed⟩ | failed
    · rw [unclosed] at closed
      cases closed
    · have member : none ∈ events.map some := by
        rw [← same, same']
        exact List.mem_append_right _ (List.mem_of_head? failed)
      simp at member

/-- Waiting for no index should return at once, with nothing. -/
theorem Awaited.returns_of_zero [DecidableEq κ] {items : List (Option (κ × List UInt64))} {closed : Bool}
    {outcome : Waited (Table κ (List UInt64))} (awaited : Awaited 0 items closed outcome) :
    ∃ map, outcome = .returned map ∧ Holds map [] := by
  cases awaited with
  | @enough events rest map same _ minimal holds =>
    rcases List.eq_nil_or_concat events with rfl | ⟨first, last, concat⟩
    · exact ⟨map, rfl, holds⟩
    · exact absurd (minimal first last (by rw [concat, List.concat_eq_append])) (Nat.not_lt_zero _)
  | ended ends =>
    obtain ⟨_, _, _, few, _⟩ := ends
    exact absurd few (Nat.not_lt_zero _)
  | waiting _ few _ => exact absurd few (Nat.not_lt_zero _)

namespace OnChain

variable {nInputs : UInt64} {closed : Bool} {addrToI result : AddrToIndices} {items : List (Option ReservedInputEvent)}

def AddrToIndices.toTable (addrToI : AddrToIndices) : Table Address (List UInt64) := fun addr => addrToI.lookup addr

theorem total_push (client : Address) (i : UInt64) (addrToI : AddrToIndices) :
    (addrToI.push client i).total = addrToI.total + 1 := by
  induction addrToI with
  | nil => rfl
  | cons entry rest ih =>
    obtain ⟨addr, indices⟩ := entry
    unfold AddrToIndices.push
    split
    · simp only [AddrToIndices.total, List.length_append, List.length_singleton]
      omega
    · simp only [AddrToIndices.total, ih]
      omega

theorem toTable_cons (addr other : Address) (indices : List UInt64) (rest : AddrToIndices) :
    AddrToIndices.toTable ((addr, indices) :: rest) other = if other = addr then some indices else rest.toTable other := by
  by_cases same : other = addr
  · subst same
    rw [if_pos rfl]
    exact List.lookup_cons_self
  · have apart : (other == addr) = false := beq_eq_false_iff_ne.mpr same
    rw [if_neg same]
    simp only [AddrToIndices.toTable, List.lookup_cons, apart]

theorem toTable_push (client : Address) (i : UInt64) (addrToI : AddrToIndices) :
    (addrToI.push client i).toTable client = some ((addrToI.toTable client).getD [] ++ [i]) ∧
      ∀ other ≠ client, (addrToI.push client i).toTable other = addrToI.toTable other := by
  induction addrToI with
  | nil =>
    unfold AddrToIndices.push
    refine ⟨by rw [toTable_cons, if_pos rfl]; rfl, fun other apart => ?_⟩
    rw [toTable_cons, if_neg apart]
  | cons entry rest ih =>
    obtain ⟨addr, indices⟩ := entry
    unfold AddrToIndices.push
    split
    · rename_i same
      subst same
      refine ⟨by rw [toTable_cons, toTable_cons, if_pos rfl, if_pos rfl]; rfl, fun other apart => ?_⟩
      rw [toTable_cons, toTable_cons, if_neg apart, if_neg apart]
    · rename_i apart
      have apart' : client ≠ addr := fun same => apart same.symm
      refine ⟨by rw [toTable_cons, toTable_cons, if_neg apart', if_neg apart', ih.1], fun other different => ?_⟩
      rw [toTable_cons, toTable_cons, ih.2 other different]

theorem holds_push {seen : List (Address × List UInt64)} (holds : Holds addrToI.toTable seen) (client : Address)
    (i : UInt64) : Holds (addrToI.push client i).toTable (seen ++ [(client, [i])]) :=
  holds.append (toTable_push client i addrToI).1 (toTable_push client i addrToI).2

/-- As long as the stream does not end early, the wait on the contract's events
comes to what it should. -/
theorem waitForIndicesLoop_awaited {seen : List (Address × List UInt64)} (counted : addrToI.total = received seen)
    (holds : Holds addrToI.toTable seen) (missing : received seen < nInputs.toNat)
    (lasts : ¬ EndsBefore nInputs.toNat (seen.map some ++ items.map reservation) closed) :
    Awaited nInputs.toNat (seen.map some ++ items.map reservation) closed
      ((waitForIndicesLoop nInputs closed addrToI items).map AddrToIndices.toTable) := by
  induction items generalizing seen addrToI with
  | nil =>
    unfold waitForIndicesLoop
    cases closed with
    | true => exact absurd ⟨seen, [], rfl, missing, .inl ⟨rfl, rfl⟩⟩ lasts
    | false => exact .waiting (by simp) missing rfl
  | cons item rest ih =>
    cases read : reservation item with
    | none => exact absurd ⟨seen, _, rfl, missing, .inr (congrArg some read)⟩ lasts
    | some pair =>
      cases item with
      | none => cases read
      | some event =>
        obtain ⟨i, fits, rfl⟩ := Option.map_eq_some_iff.mp read
        have more : seen.map some ++ (some event :: rest).map reservation =
            (seen ++ [(event.client, [i])]).map some ++ rest.map reservation := by
          simp [read]
        have total : (addrToI.push event.client i).total = received (seen ++ [(event.client, [i])]) := by
          rw [total_push, counted, received_append]
          rfl
        have one : received (seen ++ [(event.client, [i])]) = received seen + 1 := by
          rw [received_append]
          rfl
        simp only [waitForIndicesLoop, fits]
        rw [more] at lasts ⊢
        split
        · rename_i full
          rw [total] at full
          refine .enough rfl full.ge ?_ (holds_push holds event.client i)
          intro first last split
          obtain ⟨rfl, _⟩ := List.append_inj' split rfl
          exact missing
        · rename_i open_
          rw [total] at open_
          exact ih total (holds_push holds event.client i) (by omega) lasts

/-- It does not fail, and what it returns has all the indices it had. -/
theorem waitForIndicesLoop_keeps (nInputs : UInt64) (closed : Bool) (addrToI : AddrToIndices)
    (items : List (Option ReservedInputEvent)) :
    waitForIndicesLoop nInputs closed addrToI items = .blocked ∨
      waitForIndicesLoop nInputs closed addrToI items = .panicked ∨
        ∃ result, waitForIndicesLoop nInputs closed addrToI items = .returned result ∧ addrToI.total ≤ result.total := by
  induction items generalizing addrToI with
  | nil =>
    cases closed with
    | true => exact .inr (.inr ⟨addrToI, rfl, le_rfl⟩)
    | false => exact .inl rfl
  | cons item rest ih =>
    cases item with
    | none => exact .inr (.inr ⟨addrToI, rfl, le_rfl⟩)
    | some event =>
      cases fits : u256ToU64 event.reservedIndex with
      | none =>
        simp only [waitForIndicesLoop, fits]
        exact .inr (.inl trivial)
      | some i =>
        have grows : addrToI.total ≤ (addrToI.push event.client i).total := by
          rw [total_push]
          omega
        simp only [waitForIndicesLoop, fits]
        split
        · exact .inr (.inr ⟨_, rfl, grows⟩)
        · exact (ih (addrToI.push event.client i)).imp_right fun ends =>
            ends.imp_right fun ⟨result, same, more⟩ => ⟨result, same, grows.trans more⟩

theorem total_eq_zero_of_holds (holds : Holds addrToI.toTable []) : addrToI.total = 0 := by
  cases addrToI with
  | nil => rfl
  | cons entry rest =>
    have absent := (holds.absent entry.1).mpr fun event member => by cases member
    rw [toTable_cons, if_pos rfl] at absent
    cases absent

/-- It cannot wait for no index: only a stream that has ended when it is first
read makes it return an empty map. -/
theorem waitForIndicesLoop_zero_iff (closed : Bool) (items : List (Option ReservedInputEvent)) :
    Awaited 0 (items.map reservation) closed ((waitForIndicesLoop 0 closed [] items).map AddrToIndices.toTable) ↔
      items = [] ∧ closed = true ∨ items.head? = some none := by
  have nothing (rest : List (Option (Address × List UInt64))) :
      Awaited 0 rest closed (.returned (AddrToIndices.toTable [])) :=
    .enough rfl le_rfl (fun first last concat => by simp at concat) Holds.empty
  constructor
  · intro awaited
    obtain ⟨map, returned, holds⟩ := awaited.returns_of_zero
    cases items with
    | nil =>
      cases closed with
      | true => exact .inl ⟨rfl, rfl⟩
      | false => cases returned
    | cons item rest =>
      cases item with
      | none => exact .inr rfl
      | some event =>
        -- The first index is one too many, so the loop never counts to zero.
        cases fits : u256ToU64 event.reservedIndex with
        | none =>
          simp only [waitForIndicesLoop, fits] at returned
          cases returned
        | some i =>
          have one : (AddrToIndices.push event.client i []).total = 1 := total_push event.client i []
          simp only [waitForIndicesLoop, fits] at returned
          rw [if_neg (by rw [one]; decide)] at returned
          rcases waitForIndicesLoop_keeps 0 closed (AddrToIndices.push event.client i []) rest with
            same | same | ⟨result, same, more⟩
          · rw [same] at returned
            cases returned
          · rw [same] at returned
            cases returned
          · rw [same] at returned
            cases returned
            have none := total_eq_zero_of_holds holds
            omega
  · rintro (⟨rfl, rfl⟩ | failed)
    · exact nothing _
    · obtain ⟨rest, rfl⟩ := List.head?_eq_some_iff.mp failed
      exact nothing _

/-- From the start it comes to what it should exactly if it has to wait and the
stream does not end early, or has nothing to wait for and the stream has ended. -/
theorem waitForIndices_awaited_iff (nInputs : UInt64) (events : Subscription ReservedInputEvent) :
    Awaited nInputs.toNat (events.items.map reservation) events.closed
        ((waitForIndices nInputs events).map AddrToIndices.toTable) ↔
      nInputs ≠ 0 ∧ ¬ EndsBefore nInputs.toNat (events.items.map reservation) events.closed ∨
        nInputs = 0 ∧ (events.items = [] ∧ events.closed = true ∨ events.items.head? = some none) := by
  by_cases zero : nInputs = 0
  · subst zero
    rw [UInt64.toNat_zero, waitForIndices, waitForIndicesLoop_zero_iff]
    simp
  · have positive : 0 < nInputs.toNat := Nat.pos_of_ne_zero fun none => zero (UInt64.toNat_inj.mp none)
    simp only [zero, not_false_eq_true, ne_eq, true_and, false_and, or_false]
    constructor
    · intro awaited ends
      obtain ⟨error, failed⟩ := awaited.failed_of_ends ends
      unfold waitForIndices at failed
      rcases waitForIndicesLoop_keeps nInputs events.closed [] events.items with same | same | ⟨result, same, _⟩ <;>
        (rw [same] at failed; cases failed)
    · intro lasts
      exact @waitForIndicesLoop_awaited nInputs events.closed [] events.items [] rfl Holds.empty positive lasts

end OnChain

/-- The coordinator's client waits for `nInputs` indices as it should, on every
stream. The contract's client does so exactly if there is something to wait for
and the stream does not end early, or if there is not and the stream has ended. -/
theorem wait_for_indices_awaited_iff (nInputs : UInt64) (stream : ReservationStream)
    (events : Subscription OnChain.ReservedInputEvent) :
    Awaited nInputs.toNat (stream.items.map Event.reservation) stream.closed
      (.ofResult (waitForIndices nInputs stream.toSubscription)) ∧
    (Awaited nInputs.toNat (events.items.map OnChain.reservation) events.closed
        ((OnChain.waitForIndices nInputs events).map OnChain.AddrToIndices.toTable) ↔
      nInputs ≠ 0 ∧ ¬ EndsBefore nInputs.toNat (events.items.map OnChain.reservation) events.closed ∨
        nInputs = 0 ∧ (events.items = [] ∧ events.closed = true ∨ events.items.head? = some none)) := by
  refine ⟨?_, OnChain.waitForIndices_awaited_iff nInputs events⟩
  refine @waitForIndicesLoop_awaited nInputs 0 stream.closed Table.empty [] stream.items rfl ?_ Holds.empty ?_
  · rw [received, List.flatMap_nil, List.length_nil, Nat.zero_add]
    exact stream.countable
  · intro first last concat
    simp at concat

namespace OnChain

/-- The event for the first index, reserved by the address of zeros. -/
def firstReserved : ReservedInputEvent := ⟨⟨Vector.replicate 20 0⟩, 0⟩

/-- The contract's client, when it waits for two indices and the stream closes
after one, reports success. When it waits for none, it waits on. -/
theorem closed_stream_reported_as_success :
    waitForIndices 2 ⟨[some firstReserved], true⟩ = .returned [(firstReserved.client, [0])] ∧
    ¬ Awaited 2 [some (firstReserved.client, [0])] true (.returned (AddrToIndices.toTable [(firstReserved.client, [0])])) ∧
    waitForIndices 0 ⟨[some firstReserved], false⟩ = .blocked ∧
    ¬ Awaited 0 [some (firstReserved.client, [0])] false .blocked := by
  refine ⟨by decide, fun awaited => ?_, by decide, fun awaited => ?_⟩
  · obtain ⟨error, failed⟩ := awaited.failed_of_ends ⟨[(firstReserved.client, [0])], [], rfl, by decide, .inl ⟨rfl, rfl⟩⟩
    cases failed
  · obtain ⟨map, returned, _⟩ := awaited.returns_of_zero
    cases returned

end OnChain

end MpcCoordinator
