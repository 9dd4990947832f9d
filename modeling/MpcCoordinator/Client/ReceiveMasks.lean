import MpcCoordinator.Client.Shares
import MpcCoordinator.General.Gather
import Mathlib.Data.UInt

namespace MpcCoordinator

/-- What becomes of the task that waits for the reply of one node. -/
inductive NodeReply where
  | joinError (error : String)
  | closed
  | failed (error : String)
  | shares (assignedShares : List AssignedMaskShare)
  deriving DecidableEq, Repr

/-- An MPC client that is connected to all nodes. -/
structure NodeRPCClient where
  n : Nat
  t : Nat
  deriving DecidableEq, Repr

/-- The shares that have come in so far for each index. -/
abbrev ShareSets (S : Type) := Table UInt64 (List S)

/-- The indices from `start` on. -/
def expectedIndices (start count : UInt64) : List UInt64 :=
  (List.range count.toNat).map fun k => start + UInt64.ofNat k

namespace NodeRPCClient

variable {S V : Type} (client : NodeRPCClient) (scheme : ShareBound S V)

/-- The loop over the shares of one reply. -/
def addShares : List AssignedMaskShare → ShareSets S → Except CoordinatorError (ShareSets S)
  | [], shareSets => .ok shareSets
  | assignedShare :: rest, shareSets =>
    match scheme.deserializeShare assignedShare.shareBytes with
    | none => .error .deserializationError
    | some share => addShares rest (Gather.push shareSets (assignedShare.reservedIndex, share))

/-- Every index has enough shares. -/
def enough (expected : List UInt64) (shareSets : ShareSets S) : Bool :=
  expected.all fun i => (shareSets i).any fun shares => decide (scheme.minShares client.t ≤ shares.length)

/-- The loop over the replies in the order of their arrival. `complete` says
that there are no others to come. -/
def collectReplies (expected : List UInt64) (complete : Bool) : ShareSets S → List NodeReply → Waited (ShareSets S)
  | shareSets, [] => if complete then .returned shareSets else .blocked
  | _, .joinError error :: _ => .failed (.subscriptionError error)
  | _, .failed error :: _ => .failed (.subscriptionError error)
  | shareSets, .closed :: rest => collectReplies expected complete shareSets rest
  | shareSets, .shares assignedShares :: rest =>
    if expected ≠ (assignedShares.map AssignedMaskShare.reservedIndex).insertionSort (· ≤ ·) then
      .failed (.jsonError "MPC node returned the wrong assigned mask share range")
    else
      match addShares scheme assignedShares shareSets with
      | .error error => .failed error
      | .ok shareSets =>
        if client.enough scheme expected shareSets then .returned shareSets
        else collectReplies expected complete shareSets rest

/-- The loop over the indices, which takes the shares of each out. -/
def recoverMasks : List UInt64 → ShareSets S → List V → Except CoordinatorError (List V)
  | [], _, outputs => .ok outputs
  | i :: rest, shareSets, outputs =>
    match shareSets i with
    | none => .error (.maskReconstructionFailed 0)
    | some maskShares =>
      if maskShares.length < scheme.minShares client.t then .error (.maskReconstructionFailed maskShares.length)
      else
        match scheme.recoverSecret maskShares client.n client.t with
        | none => .error (.maskReconstructionFailed maskShares.length)
        | some mask => recoverMasks rest (shareSets.erase i) (outputs ++ [mask])

/-- Requests a range of masks from all nodes, one after the other, and then
reads their replies as they come. `refusals` are the errors of the nodes that
refuse the subscription. -/
def receiveAssignedMasks (start count : UInt64) (refusals : List (Option Message)) (replies : List NodeReply)
    (complete : Bool) : Waited (List V) :=
  if 2 ^ 64 ≤ start.toNat + count.toNat then .failed (.jsonError "Assigned mask range overflows u64")
  else if count = 0 then .returned []
  else
    match refusals.findSome? id with
    | some error => .failed (.subscriptionError error)
    | none =>
      match client.collectReplies scheme (expectedIndices start count) complete Table.empty replies with
      | .blocked => .blocked
      | .panicked => .panicked
      | .failed error => .failed error
      | .returned shareSets =>
        match client.recoverMasks scheme (expectedIndices start count) shareSets [] with
        | .error error => .failed error
        | .ok outputs => .returned outputs

end NodeRPCClient

theorem toNat_mem_expected {start count : UInt64} (bound : start.toNat + count.toNat < 2 ^ 64) {k : Nat}
    (inside : k < count.toNat) : (start + UInt64.ofNat k).toNat = start.toNat + k := by
  rw [UInt64.toNat_add, UInt64.toNat_ofNat']
  omega

theorem pairwise_expectedIndices {start count : UInt64} (bound : start.toNat + count.toNat < 2 ^ 64) :
    (expectedIndices start count).Pairwise (· < ·) := by
  rw [expectedIndices, List.pairwise_map]
  refine List.pairwise_lt_range.imp_of_mem fun {a b} first second below => ?_
  rw [UInt64.lt_iff_toNat_lt, toNat_mem_expected bound (List.mem_range.mp first),
    toNat_mem_expected bound (List.mem_range.mp second)]
  omega

/-- A sorted list is compared with another, sorted, to see that they hold the same. -/
theorem eq_insertionSort_iff {expected indices : List UInt64} (ascending : expected.Pairwise (· < ·)) :
    expected = indices.insertionSort (· ≤ ·) ↔ indices.Perm expected := by
  have total : Std.Total fun a b : UInt64 => a ≤ b := ⟨fun a b => Std.le_total⟩
  have trans : IsTrans UInt64 fun a b => a ≤ b := ⟨fun a b c => Std.le_trans⟩
  constructor
  · intro same
    rw [same]
    exact (List.perm_insertionSort ..).symm
  · intro perm
    refine (perm.symm.trans (List.perm_insertionSort ..).symm).eq_of_pairwise (fun _ _ _ _ => UInt64.le_antisymm)
      (ascending.imp UInt64.le_of_lt) (List.pairwise_insertionSort ..)

section

variable {S V : Type} {client : NodeRPCClient} {scheme : ShareBound S V} {expected : List UInt64}
  {share : UInt64 → Nat → S}

/-- The reply of a node that sends its shares of the whole range. `share i j` is
the share of index `i` that node `j` has. -/
def CorrectReply (scheme : ShareBound S V) (expected : List UInt64) (share : UInt64 → Nat → S) (reply : Nat × NodeReply) :
    Prop :=
  ∃ assignedShares, reply.2 = .shares assignedShares ∧
    (assignedShares.map AssignedMaskShare.reservedIndex).Perm expected ∧
    ∀ assigned ∈ assignedShares,
      scheme.deserializeShare assigned.shareBytes = some (share assigned.reservedIndex reply.1)

/-- A reply that can be told to be none of an honest node. -/
inductive FaultyReply (scheme : ShareBound S V) (expected : List UInt64) : NodeReply → Prop
  | joinError {error} : FaultyReply scheme expected (.joinError error)
  | closed : FaultyReply scheme expected .closed
  | failed {error} : FaultyReply scheme expected (.failed error)
  | wrongRange {assignedShares} : ¬ (assignedShares.map AssignedMaskShare.reservedIndex).Perm expected →
      FaultyReply scheme expected (.shares assignedShares)
  | undecodable {assignedShares assigned} : assigned ∈ assignedShares →
      scheme.deserializeShare assigned.shareBytes = none → FaultyReply scheme expected (.shares assignedShares)

/-- The nodes whose shares were kept, of replies that are correct or closed. -/
def contributors (replies : List (Nat × NodeReply)) : List Nat :=
  (replies.filter fun reply => decide (reply.2 ≠ .closed)).map Prod.fst

/-- The sets hold the shares of some nodes, in the order in which they replied. -/
def HoldsShares (expected : List UInt64) (share : UInt64 → Nat → S) (nodes : List Nat) (shareSets : ShareSets S) : Prop :=
  ∀ i ∈ expected, shareSets i = if nodes = [] then none else some (nodes.map (share i))

/-- A correct reply adds one share to the set of every index. -/
theorem HoldsShares.add {nodes : List Nat} {shareSets : ShareSets S} {indices : List UInt64} {node : Nat}
    (holds : HoldsShares expected share nodes shareSets) (distinct : expected.Nodup) (perm : indices.Perm expected) :
    HoldsShares expected share (nodes ++ [node])
      ((indices.map fun i => (i, share i node)).foldl Gather.push shareSets) := by
  intro i member
  have one : Mail.select i (indices.map fun i => (i, share i node)) = [share i node] := by
    have own : Mail.select i (expected.map fun i => (i, share i node)) = [share i node] :=
      Mail.select_map id distinct Function.injective_id (fun i => share i node) member
    have same := Gather.perm_select (perm.map fun i => (i, share i node)) i
    rw [own] at same
    exact List.perm_singleton.mp same
  rw [Gather.foldl_push_apply, one, holds i member]
  by_cases first : nodes = []
  · simp [first]
  · simp [first]

namespace NodeRPCClient

theorem addShares_eq {assignedShares : List AssignedMaskShare} {node : Nat}
    (decoded : ∀ assigned ∈ assignedShares,
      scheme.deserializeShare assigned.shareBytes = some (share assigned.reservedIndex node)) (shareSets : ShareSets S) :
    addShares scheme assignedShares shareSets =
      .ok (((assignedShares.map AssignedMaskShare.reservedIndex).map fun i => (i, share i node)).foldl
        Gather.push shareSets) := by
  induction assignedShares generalizing shareSets with
  | nil => rfl
  | cons assigned rest ih =>
    simp only [addShares, decoded assigned (List.mem_cons_self ..), List.map_cons, List.foldl_cons]
    exact ih (fun other member => decoded other (List.mem_cons_of_mem _ member)) _

theorem addShares_error {assignedShares : List AssignedMaskShare} {assigned : AssignedMaskShare}
    (member : assigned ∈ assignedShares) (undecodable : scheme.deserializeShare assigned.shareBytes = none)
    (shareSets : ShareSets S) : ∃ error, addShares scheme assignedShares shareSets = .error error := by
  induction assignedShares generalizing shareSets with
  | nil => cases member
  | cons first rest ih =>
    unfold addShares
    split
    · exact ⟨_, rfl⟩
    · rename_i decoded
      rcases List.mem_cons.mp member with rfl | later
      · cases undecodable.symm.trans decoded
      · exact ih later _

theorem enough_iff {nodes : List Nat} {shareSets : ShareSets S} (holds : HoldsShares expected share nodes shareSets)
    (nonempty : expected ≠ []) :
    client.enough scheme expected shareSets = true ↔ scheme.minShares client.t ≤ nodes.length := by
  have positive := scheme.minShares_pos client.t
  simp only [enough, List.all_eq_true, Option.any_eq_true, decide_eq_true_eq]
  constructor
  · intro all
    obtain ⟨i, member⟩ := List.exists_mem_of_ne_nil expected nonempty
    obtain ⟨shares, stored, length⟩ := all i member
    rw [holds i member] at stored
    split at stored
    · cases stored
    · cases stored
      simpa using length
  · intro length i member
    have nonempty : nodes ≠ [] := by
      rintro rfl
      simp at length
      omega
    exact ⟨nodes.map (share i), by rw [holds i member, if_neg nonempty], by simpa using length⟩

theorem collectReplies_correct (client : NodeRPCClient) (complete : Bool) {reply : Nat × NodeReply} {nodes : List Nat}
    {shareSets : ShareSets S} (ascending : expected.Pairwise (· < ·)) (correct : CorrectReply scheme expected share reply)
    (holds : HoldsShares expected share nodes shareSets) (later : List NodeReply) :
    ∃ next, HoldsShares expected share (nodes ++ [reply.1]) next ∧
      client.collectReplies scheme expected complete shareSets (reply.2 :: later) =
        if client.enough scheme expected next then .returned next
        else client.collectReplies scheme expected complete next later := by
  obtain ⟨assignedShares, sent, range, decoded⟩ := correct
  have same := (eq_insertionSort_iff ascending).mpr range
  refine ⟨_, holds.add (ascending.imp UInt64.ne_of_lt) range, ?_⟩
  rw [sent, collectReplies, if_neg (not_not.mpr same), addShares_eq decoded]

theorem collectReplies_faulty (client : NodeRPCClient) (complete : Bool) {reply : NodeReply}
    (ascending : expected.Pairwise (· < ·)) (faulty : FaultyReply scheme expected reply) (answered : reply ≠ .closed)
    (shareSets : ShareSets S) (later : List NodeReply) :
    ∃ error, client.collectReplies scheme expected complete shareSets (reply :: later) = .failed error := by
  cases faulty with
  | joinError => exact ⟨_, rfl⟩
  | closed => exact absurd rfl answered
  | failed => exact ⟨_, rfl⟩
  | wrongRange wrong =>
    have differs := mt (eq_insertionSort_iff ascending).mp wrong
    exact ⟨_, by rw [collectReplies, if_pos differs]⟩
  | undecodable member broken =>
    unfold collectReplies
    split
    · exact ⟨_, rfl⟩
    · obtain ⟨error, fails⟩ := addShares_error member broken shareSets
      exact ⟨error, by rw [fails]⟩

/-- If enough nodes reply before the first one that ends the loop, it ends with
the shares of enough of them. -/
theorem collectReplies_returns (complete : Bool) {before : List (Nat × NodeReply)} {nodes : List Nat}
    {shareSets : ShareSets S} (ascending : expected.Pairwise (· < ·)) (nonempty : expected ≠ [])
    (good : ∀ reply ∈ before, CorrectReply scheme expected share reply ∨ reply.2 = .closed)
    (holds : HoldsShares expected share nodes shareSets) (notYet : nodes.length < scheme.minShares client.t)
    (reached : scheme.minShares client.t ≤ (nodes ++ contributors before).length) (later : List NodeReply) :
    ∃ result kept, client.collectReplies scheme expected complete shareSets (before.map Prod.snd ++ later) =
        .returned result ∧ HoldsShares expected share kept result ∧ scheme.minShares client.t ≤ kept.length ∧
      kept.Sublist (nodes ++ contributors before) := by
  induction before generalizing nodes shareSets with
  | nil =>
    simp only [contributors, List.filter_nil, List.map_nil, List.append_nil] at reached
    omega
  | cons reply rest ih =>
    have others : ∀ other ∈ rest, CorrectReply scheme expected share other ∨ other.2 = .closed :=
      fun other member => good other (List.mem_cons_of_mem _ member)
    rcases good reply (List.mem_cons_self ..) with correct | closed
    · have counted : nodes ++ contributors (reply :: rest) = (nodes ++ [reply.1]) ++ contributors rest := by
        obtain ⟨_, sent, _⟩ := correct
        simp [contributors, sent]
      obtain ⟨next, holds', step⟩ := collectReplies_correct client complete ascending correct holds
        (rest.map Prod.snd ++ later)
      rw [counted] at reached ⊢
      rw [List.map_cons, List.cons_append, step]
      split
      · rename_i full
        exact ⟨next, nodes ++ [reply.1], rfl, holds', (enough_iff holds' nonempty).mp full, List.sublist_append_left ..⟩
      · rename_i short
        exact ih others holds' (by simpa [enough_iff holds' nonempty] using short) reached
    · have counted : contributors (reply :: rest) = contributors rest := by simp [contributors, closed]
      rw [counted] at reached ⊢
      rw [List.map_cons, List.cons_append, closed]
      exact ih others holds notYet reached

/-- The loop only ever ends well on replies that are correct or closed. -/
theorem collectReplies_returned {replies : List (Nat × NodeReply)} {nodes : List Nat} {shareSets result : ShareSets S}
    {complete : Bool} (ascending : expected.Pairwise (· < ·))
    (classified : ∀ reply ∈ replies, CorrectReply scheme expected share reply ∨ FaultyReply scheme expected reply.2)
    (holds : HoldsShares expected share nodes shareSets)
    (returned : client.collectReplies scheme expected complete shareSets (replies.map Prod.snd) = .returned result) :
    ∃ before rest, replies = before ++ rest ∧
      (∀ reply ∈ before, CorrectReply scheme expected share reply ∨ reply.2 = .closed) ∧
      HoldsShares expected share (nodes ++ contributors before) result := by
  induction replies generalizing nodes shareSets with
  | nil =>
    simp only [List.map_nil, collectReplies] at returned
    split at returned
    · cases returned
      exact ⟨[], [], rfl, by simp, by simpa [contributors] using holds⟩
    · cases returned
  | cons reply rest ih =>
    have others : ∀ other ∈ rest, CorrectReply scheme expected share other ∨ FaultyReply scheme expected other.2 :=
      fun other member => classified other (List.mem_cons_of_mem _ member)
    rw [List.map_cons] at returned
    rcases classified reply (List.mem_cons_self ..) with correct | faulty
    · obtain ⟨next, holds', step⟩ := collectReplies_correct client complete ascending correct holds
        (rest.map Prod.snd)
      have counted : ∀ before, nodes ++ contributors (reply :: before) = (nodes ++ [reply.1]) ++ contributors before := by
        obtain ⟨_, sent, _⟩ := correct
        intro before
        simp [contributors, sent]
      rw [step] at returned
      split at returned
      · cases returned
        refine ⟨[reply], rest, rfl, by simpa using Or.inl correct, ?_⟩
        rw [counted]
        simpa [contributors] using holds'
      · obtain ⟨before, last, rfl, good, kept⟩ := ih others holds' returned
        refine ⟨reply :: before, last, rfl, ?_, by rw [counted]; exact kept⟩
        exact List.forall_mem_cons.mpr ⟨Or.inl correct, good⟩
    · by_cases closed : reply.2 = .closed
      · rw [closed] at returned
        obtain ⟨before, last, rfl, good, kept⟩ := ih others holds returned
        refine ⟨reply :: before, last, rfl, ?_, by simpa [contributors, closed] using kept⟩
        exact List.forall_mem_cons.mpr ⟨Or.inr closed, good⟩
      · obtain ⟨error, fails⟩ := collectReplies_faulty client complete ascending faulty closed shareSets
          (rest.map Prod.snd)
        cases fails.symm.trans returned

theorem recoverMasks_eq {indices : List UInt64} {kept : List Nat} {mask : UInt64 → V} {shareSets : ShareSets S}
    (distinct : indices.Nodup) (held : ∀ i ∈ indices, shareSets i = some (kept.map (share i)))
    (many : scheme.minShares client.t ≤ kept.length)
    (recovers : ∀ i ∈ indices, scheme.recoverSecret (kept.map (share i)) client.n client.t = some (mask i))
    (outputs : List V) : client.recoverMasks scheme indices shareSets outputs = .ok (outputs ++ indices.map mask) := by
  induction indices generalizing shareSets outputs with
  | nil => simp [recoverMasks]
  | cons i rest ih =>
    obtain ⟨absent, others⟩ := List.nodup_cons.mp distinct
    have notFew : ¬ (kept.map (share i)).length < scheme.minShares client.t := by
      rw [List.length_map]
      omega
    simp only [recoverMasks, held i (List.mem_cons_self ..), notFew, if_false, recovers i (List.mem_cons_self ..)]
    rw [ih others (fun j member => ?_) (fun j member => recovers j (List.mem_cons_of_mem _ member)),
      List.append_assoc]
    · rfl
    · have different : j ≠ i := by
        rintro rfl
        exact absent member
      rw [Table.erase_of_ne _ different]
      exact held j (List.mem_cons_of_mem _ member)

theorem length_of_recoverMasks {i : UInt64} {rest : List UInt64} {shareSets : ShareSets S} {outputs masks : List V}
    (recovered : client.recoverMasks scheme (i :: rest) shareSets outputs = .ok masks) :
    ∃ shares, shareSets i = some shares ∧ scheme.minShares client.t ≤ shares.length := by
  unfold recoverMasks at recovered
  split at recovered
  · cases recovered
  · rename_i shares stored
    split at recovered
    · cases recovered
    · rename_i many
      exact ⟨shares, stored, not_lt.mp many⟩

/-- The range is one of indices, no node refuses the request, and enough nodes
reply correctly before any other one sends something that is faulty. -/
structure Undisturbed (client : NodeRPCClient) (scheme : ShareBound S V) (share : UInt64 → Nat → S) (start count : UInt64)
    (refusals : List (Option Message)) (replies : List (Nat × NodeReply)) : Prop where
  bound : start.toNat + count.toNat < 2 ^ 64
  accepted : ∀ refusal ∈ refusals, refusal = none
  inTime : ∃ before rest, replies = before ++ rest ∧
    (∀ reply ∈ before, CorrectReply scheme (expectedIndices start count) share reply ∨ reply.2 = .closed) ∧
    scheme.minShares client.t ≤ (contributors before).length

/-- A call that returns has read enough replies and made the masks of them. -/
theorem receiveAssignedMasks_returned_iff {start count : UInt64} {refusals : List (Option Message)}
    {replies : List NodeReply} {complete : Bool} {outputs : List V} (nonzero : count ≠ 0) :
    client.receiveAssignedMasks scheme start count refusals replies complete = .returned outputs ↔
      start.toNat + count.toNat < 2 ^ 64 ∧ (∀ refusal ∈ refusals, refusal = none) ∧ ∃ shareSets,
        client.collectReplies scheme (expectedIndices start count) complete Table.empty replies = .returned shareSets ∧
          client.recoverMasks scheme (expectedIndices start count) shareSets [] = .ok outputs := by
  constructor
  · intro returned
    unfold receiveAssignedMasks at returned
    split at returned
    · cases returned
    rename_i bound
    split at returned
    · cases returned
    rename_i accepted
    split at returned
    · cases returned
    · cases returned
    · cases returned
    rename_i shareSets collected
    split at returned
    · cases returned
    rename_i recovered
    cases returned
    exact ⟨not_le.mp bound, by simpa using accepted, shareSets, collected, recovered⟩
  · rintro ⟨bound, accepted, shareSets, collected, recovered⟩
    have refused : refusals.findSome? id = none := by simpa using accepted
    rw [receiveAssignedMasks, if_neg (not_le.mpr bound), if_neg nonzero, refused, collected]
    simp only [recovered]

theorem expectedIndices_ne_nil {start count : UInt64} (nonzero : count ≠ 0) : expectedIndices start count ≠ [] := by
  intro none
  have size := congrArg List.length none
  simp only [expectedIndices, List.length_map, List.length_range, List.length_nil] at size
  exact nonzero (UInt64.toNat_inj.mp size)

/-- A client gets its masks exactly when the first replies, up to the one with
which there are enough, are correct or none: a faulty one that comes earlier
ends the call, however many correct ones there are. -/
theorem masks_received_iff (client : NodeRPCClient) (scheme : ShareBound S V) (share : UInt64 → Nat → S)
    (mask : UInt64 → V) (start count : UInt64) (refusals : List (Option Message)) (replies : List (Nat × NodeReply))
    (complete : Bool) (positive : 0 < count) (nodes : (replies.map Prod.fst).Nodup)
    (classified : ∀ reply ∈ replies, CorrectReply scheme (expectedIndices start count) share reply ∨
      FaultyReply scheme (expectedIndices start count) reply.2)
    (recovers : ∀ i ∈ expectedIndices start count, ∀ senders : List Nat, senders.Nodup →
      (∀ sender ∈ senders, sender ∈ replies.map Prod.fst) → scheme.minShares client.t ≤ senders.length →
      scheme.recoverSecret (senders.map (share i)) client.n client.t = some (mask i)) :
    client.receiveAssignedMasks scheme start count refusals (replies.map Prod.snd) complete =
        .returned ((expectedIndices start count).map mask) ↔
      Undisturbed client scheme share start count refusals replies := by
  have nonzero : count ≠ 0 := by
    rintro rfl
    exact absurd positive (by decide)
  have nonempty : expectedIndices start count ≠ [] := expectedIndices_ne_nil nonzero
  have fresh : HoldsShares (expectedIndices start count) share [] Table.empty := fun _ _ => rfl
  rw [receiveAssignedMasks_returned_iff nonzero]
  constructor
  · rintro ⟨bound, accepted, shareSets, collected, recovered⟩
    obtain ⟨before, rest, split, good, held⟩ :=
      collectReplies_returned (pairwise_expectedIndices bound) classified fresh collected
    refine ⟨bound, accepted, before, rest, split, good, ?_⟩
    obtain ⟨i, later, first⟩ := List.exists_cons_of_ne_nil nonempty
    rw [first] at recovered
    obtain ⟨shares, stored, many⟩ := length_of_recoverMasks recovered
    rw [held i (by simp [first])] at stored
    split at stored
    · cases stored
    · cases stored
      simpa using many
  · rintro ⟨bound, accepted, before, rest, rfl, good, many⟩
    have ascending := pairwise_expectedIndices bound
    obtain ⟨shareSets, kept, collected, held, enough, within⟩ := collectReplies_returns complete
      ascending nonempty good fresh (scheme.minShares_pos client.t) (by simpa using many) (rest.map Prod.snd)
    rw [List.nil_append] at within
    have sent : kept.Sublist ((before ++ rest).map Prod.fst) := by
      rw [List.map_append]
      exact (within.trans (List.filter_sublist.map _)).trans (List.sublist_append_left ..)
    have present : kept ≠ [] := List.ne_nil_of_length_pos (lt_of_lt_of_le (scheme.minShares_pos client.t) enough)
    have stored : ∀ i ∈ expectedIndices start count, shareSets i = some (kept.map (share i)) := by
      intro i member
      rw [held i member, if_neg present]
    refine ⟨bound, accepted, shareSets, by rw [List.map_append, collected], ?_⟩
    exact recoverMasks_eq (ascending.imp UInt64.ne_of_lt) stored enough
      (fun i member => recovers i member kept (nodes.sublist sent) (fun _ kept => sent.subset kept) enough) []

end NodeRPCClient

end

namespace Scenario

/-- Four nodes, of which one may be faulty, so that three shares make a mask. -/
def fourNodes : NodeRPCClient := ⟨4, 1⟩

/-- What the honest ones of them send for the indices 5 and 6. -/
def honestReply : NodeReply := .shares [⟨6, [16]⟩, ⟨5, [15]⟩]

theorem correctReply_honestReply (node : Nat) :
    CorrectReply .plain (expectedIndices 5 2) (fun i _ => i.toUInt8 + 10) (node, honestReply) :=
  ⟨_, rfl, by decide, by
    simp only [List.forall_mem_cons]
    exact ⟨rfl, rfl, by simp⟩⟩

theorem masks_received_after_closed_reply :
    fourNodes.receiveAssignedMasks .plain 5 2 [none, none, none, none]
      [.closed, honestReply, honestReply, honestReply] true = .returned [15, 16] := by
  have honest : ∀ reply ∈ [(1, honestReply), (2, honestReply), (3, honestReply)],
      CorrectReply .plain (expectedIndices 5 2) (fun i _ => i.toUInt8 + 10) reply := by
    simp [correctReply_honestReply]
  refine (NodeRPCClient.masks_received_iff fourNodes .plain (fun i _ => i.toUInt8 + 10) (fun i => i.toUInt8 + 10) 5 2
    [none, none, none, none] [(0, .closed), (1, honestReply), (2, honestReply), (3, honestReply)] true (by decide)
    (by decide) ?_ ?_).mpr ⟨by decide, by simp, _, [], (List.append_nil _).symm, ?_, by decide⟩
  · exact List.forall_mem_cons.mpr ⟨Or.inr .closed, fun reply member => Or.inl (honest reply member)⟩
  · intro i _ senders _ _ many
    exact (ShareBound.plain_recoverSecret _ senders _ _).trans (if_pos many)
  · exact List.forall_mem_cons.mpr ⟨Or.inr rfl, fun reply member => Or.inl (honest reply member)⟩

/-- The one faulty node of four sends nothing, sends bytes that are no share, or
refuses the subscription. Three correct replies are there each time. -/
theorem faulty_reply_denies_masks :
    (∀ node, CorrectReply .plain (expectedIndices 5 2) (fun i _ => i.toUInt8 + 10) (node, honestReply)) ∧
    ShareBound.plain.minShares fourNodes.t = 3 ∧
    fourNodes.receiveAssignedMasks .plain 5 2 [none, none, none, none]
      [.shares [], honestReply, honestReply, honestReply] true =
        .failed (.jsonError "MPC node returned the wrong assigned mask share range") ∧
    fourNodes.receiveAssignedMasks .plain 5 2 [none, none, none, none]
      [honestReply, honestReply, .shares [⟨5, []⟩, ⟨6, []⟩], honestReply] true = .failed .deserializationError ∧
    fourNodes.receiveAssignedMasks .plain 5 2 [some "refused", none, none, none]
      [honestReply, honestReply, honestReply] true = .failed (.subscriptionError "refused") :=
  ⟨correctReply_honestReply, rfl, by decide +kernel, by decide +kernel, by decide +kernel⟩

end Scenario

end MpcCoordinator
