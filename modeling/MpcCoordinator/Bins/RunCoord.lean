import MpcCoordinator.Execution.Layout

namespace MpcCoordinator.RunCoord

variable {ShareType : Type}

/-- A `Vec`, whose length is a machine number. -/
abbrev Declared (ShareType : Type) := { types : List ShareType // types.length < UInt64.size }

/-- What one client slot of a program takes in and gives out. -/
structure ClientIoSchema (ShareType : Type) where
  clientSlot : UInt64
  inputs : Declared ShareType
  outputs : Declared ShareType

inductive MpcBackend
  | honeyBadger
  | avss
  deriving DecidableEq, Repr

structure ClientIoManifest (ShareType : Type) where
  mpcBackend : MpcBackend
  clients : List (ClientIoSchema ShareType)

abbrev BySlot (ShareType : Type) := AList fun _ : UInt64 => ClientIoSchema ShareType

structure BoundClient where
  client : ClientIdentity
  clientSlot : UInt64
  inputCount : UInt64
  outputCount : UInt64
  deriving DecidableEq, Repr

/-- The lists that the last pass over the bound clients builds up. -/
structure InputLayout where
  seenClients : Finset ClientIdentity
  clients : List ClientIdentity
  ranges : List InputClientRange
  outputClients : List ClientIdentity

/-- The schemas under their slots, unless two have the same one. -/
def indexSchemas : List (ClientIoSchema ShareType) → BySlot ShareType → Except CoordinatorError (BySlot ShareType)
  | [], bySlot => .ok bySlot
  | schema :: rest, bySlot =>
    if schema.clientSlot ∈ bySlot then
      .error (.jsonError s!"Duplicate client_slot {schema.clientSlot} in client IO manifest")
    else indexSchemas rest (bySlot.insert schema.clientSlot schema)

/-- Takes each bound slot's schema out of the map. -/
def bindClients : List (UInt64 × ClientIdentity) → BySlot ShareType →
    Except CoordinatorError (List BoundClient × BySlot ShareType)
  | [], bySlot => .ok ([], bySlot)
  | (clientSlot, client) :: rest, bySlot =>
    match bySlot.lookup clientSlot with
    | none => .error (.jsonError s!"No client IO manifest entry for bound client_slot {clientSlot}")
    | some schema =>
      match bindClients rest (bySlot.erase clientSlot) with
      | .error failed => .error failed
      | .ok (boundClients, left) =>
        .ok (⟨client, clientSlot, UInt64.ofNat schema.inputs.val.length, UInt64.ofNat schema.outputs.val.length⟩ ::
          boundClients, left)

/-- The pass's body: a client without inputs is only seen and perhaps given
outputs. -/
def assignClient (layout : InputLayout) (bound : BoundClient) : Except CoordinatorError InputLayout :=
  if bound.client ∈ layout.seenClients then
    .error (.jsonError "Client identity is bound to multiple client IO slots")
  else
    let layout := { layout with
      seenClients := insert bound.client layout.seenClients
      outputClients := if 0 < bound.outputCount then layout.outputClients ++ [bound.client] else layout.outputClients }
    if bound.inputCount = 0 then .ok layout
    else if UInt32.size ≤ layout.clients.length then .error (.jsonError "too many distinct input clients")
    else .ok { layout with
      clients := layout.clients ++ [bound.client]
      ranges := layout.ranges ++ [⟨UInt32.ofNat layout.clients.length, bound.inputCount⟩] }

def buildInputAssignment (manifest : ClientIoManifest ShareType) (bindings : List (UInt64 × ClientIdentity)) :
    Except CoordinatorError (InputAssignment × List ClientIdentity) :=
  match indexSchemas manifest.clients ∅ with
  | .error failed => .error failed
  | .ok bySlot =>
    match bindClients bindings bySlot with
    | .error failed => .error failed
    | .ok (boundClients, left) =>
      if left.keys ≠ [] then
        let unboundSlots := left.keys.mergeSort fun first second => decide (first ≤ second)
        .error (.jsonError s!"Client IO manifest slots are not bound to off-chain identities: {unboundSlots}")
      else
        match boundClients.foldlM assignClient ⟨∅, [], [], []⟩ with
        | .error failed => .error failed
        | .ok layout => .ok (⟨layout.clients, layout.ranges⟩, layout.outputClients)

/-- The bindings of the command line. Without any, the output clients take the
slots in their order, and `none` is the assertion that their number is right. -/
def clientBindings (manifest : ClientIoManifest ShareType) (given : List (UInt64 × ClientIdentity))
    (outputClientKeys : List ClientIdentity) : Option (List (UInt64 × ClientIdentity)) :=
  if given.isEmpty then
    let schemas := manifest.clients.mergeSort fun first second => decide (first.clientSlot ≤ second.clientSlot)
    if schemas.length ≠ outputClientKeys.length then none
    else some ((schemas.zip outputClientKeys).map fun entry => (entry.1.clientSlot, entry.2))
  else some given

def minOutputShares (t : UInt64) : MpcBackend → UInt64
  | .honeyBadger => 2 * t + 1
  | .avss => t + 1

/-- The registration of a one-off execution of a program. -/
def oneOffRegistration (hash : Vector UInt8 32) (executionId : ExecutionId) (t : UInt64)
    (manifest : ClientIoManifest ShareType) (bindings : List (UInt64 × ClientIdentity)) :
    Except CoordinatorError ExecutionRegistration :=
  match buildInputAssignment manifest bindings with
  | .error failed => .error failed
  | .ok (inputAssignment, outputClients) => .ok {
      executionId := executionId
      programHash := hash
      nInputs := (inputAssignment.ranges.map InputClientRange.count).sum
      outputClients := outputClients
      inputAssignment := inputAssignment
      minOutputShares := minOutputShares t manifest.mpcBackend }

section Passes

variable {schemas : List (ClientIoSchema ShareType)} {bySlot indexed left : BySlot ShareType}
  {bindings : List (UInt64 × ClientIdentity)} {boundClients : List BoundClient}

/-- The first pass succeeds if no slot comes twice. -/
theorem indexSchemas_isOk : (∃ indexed, indexSchemas schemas bySlot = .ok indexed) ↔
    (schemas.map ClientIoSchema.clientSlot).Nodup ∧ ∀ schema ∈ schemas, schema.clientSlot ∉ bySlot := by
  induction schemas generalizing bySlot with
  | nil => simp [indexSchemas]
  | cons schema rest ih =>
    rw [indexSchemas]
    split
    · rename_i known
      simp [known]
    · rename_i fresh
      rw [ih]
      simp only [List.map_cons, List.nodup_cons, List.mem_cons, forall_eq_or_imp, AList.mem_insert, not_or, List.mem_map,
        not_exists, not_and]
      constructor
      · rintro ⟨distinct, new⟩
        exact ⟨⟨fun other member => (new other member).1, distinct⟩, fresh, fun other member => (new other member).2⟩
      · rintro ⟨⟨apart, distinct⟩, _, new⟩
        exact ⟨distinct, fun other member => ⟨apart other member, new other member⟩⟩

theorem lookup_indexSchemas (done : indexSchemas schemas bySlot = .ok indexed) (slot : UInt64) :
    indexed.lookup slot =
      (schemas.find? fun schema => decide (schema.clientSlot = slot)).or (bySlot.lookup slot) := by
  induction schemas generalizing bySlot with
  | nil =>
    cases done
    simp
  | cons schema rest ih =>
    have distinct := (indexSchemas_isOk.mp ⟨_, done⟩).1
    rw [indexSchemas] at done
    split at done
    · cases done
    rw [ih done]
    by_cases here : schema.clientSlot = slot
    · subst here
      have later : rest.find? (fun other => decide (other.clientSlot = schema.clientSlot)) = none := by
        rw [List.find?_eq_none]
        intro other member
        have apart := (List.nodup_cons.mp distinct).1
        simp only [decide_eq_true_eq]
        intro same
        exact apart (List.mem_map.mpr ⟨other, member, same⟩)
      simp [later]
    · simp [here, AList.lookup_insert_ne (Ne.symm here)]

/-- The second pass succeeds if the bound slots differ and are there. -/
theorem bindClients_isOk : (∃ result, bindClients bindings bySlot = .ok result) ↔
    (bindings.map Prod.fst).Nodup ∧ ∀ binding ∈ bindings, binding.1 ∈ bySlot := by
  induction bindings generalizing bySlot with
  | nil => simp [bindClients]
  | cons binding rest ih =>
    obtain ⟨clientSlot, client⟩ := binding
    rw [bindClients]
    cases found : bySlot.lookup clientSlot with
    | none => simp [AList.lookup_eq_none.mp found]
    | some schema =>
      have there : clientSlot ∈ bySlot := AList.lookup_isSome.mp (by simp [found])
      have next := @ih (bySlot.erase clientSlot)
      simp only [AList.mem_erase] at next
      simp only [List.map_cons, List.nodup_cons, List.mem_cons, forall_eq_or_imp, there, true_and]
      constructor
      · rintro ⟨result, done⟩
        split at done
        · cases done
        · rename_i bound others inner
          obtain ⟨distinct, members⟩ := next.mp ⟨_, inner⟩
          refine ⟨⟨fun again => ?_, distinct⟩, fun other member => (members other member).2⟩
          obtain ⟨other, member, same⟩ := List.mem_map.mp again
          exact (members other member).1 same
      · rintro ⟨⟨apart, distinct⟩, members⟩
        have others : ∀ other ∈ rest, other.1 ≠ clientSlot ∧ other.1 ∈ bySlot := fun other member =>
          ⟨fun same => apart (List.mem_map.mpr ⟨other, member, same⟩), members other member⟩
        obtain ⟨⟨bound, leaving⟩, inner⟩ := next.mpr ⟨distinct, others⟩
        exact ⟨_, by rw [inner]⟩

/-- What a binding stands for, given the schemas of the slots. -/
def boundTo (schemaOf : UInt64 → Option (ClientIoSchema ShareType)) (binding : UInt64 × ClientIdentity) : BoundClient where
  client := binding.2
  clientSlot := binding.1
  inputCount := UInt64.ofNat ((schemaOf binding.1).elim 0 fun schema => schema.inputs.val.length)
  outputCount := UInt64.ofNat ((schemaOf binding.1).elim 0 fun schema => schema.outputs.val.length)

/-- The second pass leaves the slots that are not bound. -/
theorem bindClients_ok (done : bindClients bindings bySlot = .ok (boundClients, left)) :
    boundClients = bindings.map (boundTo bySlot.lookup) ∧
      ∀ slot, slot ∈ left ↔ slot ∈ bySlot ∧ slot ∉ bindings.map Prod.fst := by
  induction bindings generalizing bySlot boundClients left with
  | nil =>
    cases done
    simp
  | cons binding rest ih =>
    obtain ⟨clientSlot, client⟩ := binding
    rw [bindClients] at done
    split at done
    · cases done
    rename_i schema found
    split at done
    · cases done
    rename_i bound others inner
    cases done
    obtain ⟨rfl, leaving⟩ := ih inner
    have apart : ∀ other ∈ rest, other.1 ≠ clientSlot := fun other member =>
      (AList.mem_erase.mp ((bindClients_isOk.mp ⟨_, inner⟩).2 other member)).1
    constructor
    · rw [List.map_cons, List.cons.injEq]
      refine ⟨by simp [boundTo, found], List.map_congr_left fun other member => ?_⟩
      simp only [boundTo, AList.lookup_erase_ne (apart other member)]
    · intro slot
      rw [leaving, AList.mem_erase]
      simp only [List.map_cons, List.mem_cons, not_or]
      tauto

/-- What a client adds to the layout once the checks have passed. -/
def InputLayout.add (layout : InputLayout) (bound : BoundClient) : InputLayout where
  seenClients := insert bound.client layout.seenClients
  clients := if bound.inputCount = 0 then layout.clients else layout.clients ++ [bound.client]
  ranges := if bound.inputCount = 0 then layout.ranges
    else layout.ranges ++ [⟨UInt32.ofNat layout.clients.length, bound.inputCount⟩]
  outputClients := if 0 < bound.outputCount then layout.outputClients ++ [bound.client] else layout.outputClients

theorem assignClient_ok {layout layout' : InputLayout} {bound : BoundClient}
    (fits : layout.clients.length < UInt32.size) :
    assignClient layout bound = .ok layout' ↔ bound.client ∉ layout.seenClients ∧ layout' = layout.add bound := by
  unfold assignClient
  split
  · rename_i seen
    simp [seen]
  · rename_i fresh
    by_cases none : bound.inputCount = 0
    · simp [fresh, none, InputLayout.add, eq_comm]
    · simp [fresh, none, InputLayout.add, Nat.not_le.mpr fits, eq_comm]

/-- The third pass succeeds if the identities differ, as there are not too many. -/
theorem assignClients_ok {layout layout' : InputLayout}
    (fits : layout.clients.length + boundClients.length ≤ UInt32.size) :
    boundClients.foldlM assignClient layout = .ok layout' ↔ (boundClients.map BoundClient.client).Nodup ∧
      (∀ bound ∈ boundClients, bound.client ∉ layout.seenClients) ∧
      layout' = boundClients.foldl InputLayout.add layout := by
  induction boundClients generalizing layout with
  | nil =>
    simp only [List.foldlM_nil, List.map_nil, List.nodup_nil, List.not_mem_nil, List.foldl_nil, true_and]
    exact ⟨fun same => ⟨nofun, (Except.ok.inj same).symm⟩, fun same => congrArg Except.ok same.2.symm⟩
  | cons bound rest ih =>
    rw [List.length_cons] at fits
    have room : layout.clients.length < UInt32.size := by omega
    have grown : (layout.add bound).clients.length ≤ layout.clients.length + 1 := by
      rw [InputLayout.add]
      dsimp only
      split
      · omega
      · simp
    have next := @ih (layout.add bound) (by omega)
    have seen : ∀ client, client ∈ (layout.add bound).seenClients ↔ client = bound.client ∨ client ∈ layout.seenClients :=
      fun client => Finset.mem_insert
    simp only [seen, not_or] at next
    simp only [List.map_cons, List.nodup_cons, List.mem_cons, forall_eq_or_imp, List.foldl_cons, List.mem_map, not_exists,
      not_and]
    rw [List.foldlM_cons]
    cases first : assignClient layout bound with
    | error failed =>
      have known : ¬ bound.client ∉ layout.seenClients := fun fresh => by
        rw [(assignClient_ok room).mpr ⟨fresh, rfl⟩] at first
        cases first
      exact ⟨nofun, fun others => absurd others.2.1.1 known⟩
    | ok middle =>
      obtain ⟨fresh, rfl⟩ := (assignClient_ok room).mp first
      refine next.trans ⟨?_, ?_⟩
      · rintro ⟨distinct, others, last⟩
        exact ⟨⟨fun other member => (others other member).1, distinct⟩,
          ⟨fresh, fun other member => (others other member).2⟩, last⟩
      · rintro ⟨⟨apart, distinct⟩, ⟨_, others⟩, last⟩
        exact ⟨distinct, fun other member => ⟨apart other member, others other member⟩, last⟩

/-- The layout that the third pass arrives at. -/
theorem foldl_add (layout : InputLayout) (boundClients : List BoundClient) :
    (boundClients.foldl InputLayout.add layout).clients = layout.clients ++
        (boundClients.filter fun bound => decide (bound.inputCount ≠ 0)).map BoundClient.client ∧
      (boundClients.foldl InputLayout.add layout).ranges = layout.ranges ++
        ((boundClients.filter fun bound => decide (bound.inputCount ≠ 0)).zipIdx layout.clients.length).map
          (fun entry => ⟨UInt32.ofNat entry.2, entry.1.inputCount⟩) ∧
      (boundClients.foldl InputLayout.add layout).outputClients = layout.outputClients ++
        (boundClients.filter fun bound => decide (0 < bound.outputCount)).map BoundClient.client := by
  induction boundClients generalizing layout with
  | nil => simp
  | cons bound rest ih =>
    obtain ⟨clients, ranges, outputs⟩ := ih (layout.add bound)
    rw [List.foldl_cons, clients, ranges, outputs]
    by_cases none : bound.inputCount = 0 <;> by_cases silent : 0 < bound.outputCount <;>
      simp [InputLayout.add, none, silent]

end Passes

namespace ClientIoManifest

variable (manifest : ClientIoManifest ShareType)

def slots : List UInt64 := manifest.clients.map ClientIoSchema.clientSlot

def schemaAt (slot : UInt64) : Option (ClientIoSchema ShareType) :=
  manifest.clients.find? fun schema => decide (schema.clientSlot = slot)

/-- How many entries a slot's schema has in one of its lists. -/
def countAt (declared : ClientIoSchema ShareType → Declared ShareType) (slot : UInt64) : Nat :=
  (manifest.schemaAt slot).elim 0 fun schema => (declared schema).val.length

def inputCount : UInt64 → Nat := manifest.countAt ClientIoSchema.inputs

def outputCount : UInt64 → Nat := manifest.countAt ClientIoSchema.outputs

/-- The inputs of all slots together. -/
def totalInputs : Nat := (manifest.clients.map fun schema => schema.inputs.val.length).sum

end ClientIoManifest

/-- Every slot of the manifest is bound once, and every identity is. -/
structure Bindable (manifest : ClientIoManifest ShareType) (bindings : List (UInt64 × ClientIdentity)) : Prop where
  slots : manifest.slots.Nodup
  bound : (bindings.map Prod.fst).Perm manifest.slots
  identities : (bindings.map Prod.snd).Nodup

section Build

variable {manifest : ClientIoManifest ShareType} {bindings : List (UInt64 × ClientIdentity)}
  {indexed left : BySlot ShareType} {boundClients : List BoundClient} {slot : UInt64}

theorem lookup_indexed (done : indexSchemas manifest.clients ∅ = .ok indexed) : indexed.lookup = manifest.schemaAt := by
  funext slot
  simp [lookup_indexSchemas done, ClientIoManifest.schemaAt]

theorem mem_indexed (done : indexSchemas manifest.clients ∅ = .ok indexed) : slot ∈ indexed ↔ slot ∈ manifest.slots := by
  rw [← AList.lookup_isSome, congrFun (lookup_indexed done) slot]
  simp [ClientIoManifest.schemaAt, ClientIoManifest.slots]

/-- Nothing is left of the map if the bindings are of all slots. -/
theorem left_eq_nil_iff (first : indexSchemas manifest.clients ∅ = .ok indexed)
    (second : bindClients bindings indexed = .ok (boundClients, left)) :
    left.keys = [] ↔ (bindings.map Prod.fst).Perm manifest.slots := by
  obtain ⟨distinct, members⟩ := bindClients_isOk.mp ⟨_, second⟩
  have slots : manifest.slots.Nodup := (indexSchemas_isOk.mp ⟨_, first⟩).1
  rw [List.perm_ext_iff_of_nodup distinct slots, List.eq_nil_iff_forall_not_mem]
  simp only [← AList.mem_keys, (bindClients_ok second).2, mem_indexed first]
  constructor
  · intro none slot
    constructor
    · intro bound
      obtain ⟨binding, member, rfl⟩ := List.mem_map.mp bound
      exact (mem_indexed first).mp (members binding member)
    · intro listed
      by_contra unbound
      exact none slot ⟨listed, unbound⟩
  · rintro same slot ⟨listed, unbound⟩
    exact unbound ((same slot).mpr listed)

theorem length_of_bound (bound : (bindings.map Prod.fst).Perm manifest.slots) :
    bindings.length = manifest.clients.length := by
  have length := bound.length_eq
  rwa [List.length_map, ClientIoManifest.slots, List.length_map] at length

/-- The layout of bindings that are accepted. -/
def layoutOf (manifest : ClientIoManifest ShareType) (bindings : List (UInt64 × ClientIdentity)) : InputLayout :=
  (bindings.map (boundTo manifest.schemaAt)).foldl InputLayout.add ⟨∅, [], [], []⟩

theorem layoutOf_ok {layout : InputLayout} (fits : bindings.length ≤ UInt32.size) :
    (bindings.map (boundTo manifest.schemaAt)).foldlM assignClient ⟨∅, [], [], []⟩ = .ok layout ↔
      (bindings.map Prod.snd).Nodup ∧ layout = layoutOf manifest bindings := by
  have identities : (bindings.map (boundTo manifest.schemaAt)).map BoundClient.client = bindings.map Prod.snd := by
    rw [List.map_map]
    rfl
  rw [assignClients_ok (by simpa using fits), identities]
  simp [layoutOf]

theorem buildInputAssignment_ok {built : InputAssignment × List ClientIdentity}
    (few : manifest.clients.length < UInt32.size) : buildInputAssignment manifest bindings = .ok built ↔
      Bindable manifest bindings ∧ built = (⟨(layoutOf manifest bindings).clients, (layoutOf manifest bindings).ranges⟩,
        (layoutOf manifest bindings).outputClients) := by
  unfold buildInputAssignment
  cases first : indexSchemas manifest.clients ∅ with
  | error failed =>
    refine ⟨nofun, fun accepted => ?_⟩
    obtain ⟨indexed, done⟩ := indexSchemas_isOk.mpr ⟨accepted.1.slots, fun _ _ => AList.notMem_empty _⟩
    rw [done] at first
    cases first
  | ok indexed =>
    dsimp only
    cases second : bindClients bindings indexed with
    | error failed =>
      refine ⟨nofun, fun accepted => ?_⟩
      have members : ∀ binding ∈ bindings, binding.1 ∈ indexed := fun binding member =>
        (mem_indexed first).mpr (accepted.1.bound.mem_iff.mp (List.mem_map_of_mem member))
      obtain ⟨result, done⟩ := bindClients_isOk.mpr ⟨accepted.1.bound.nodup_iff.mpr accepted.1.slots, members⟩
      rw [done] at second
      cases second
    | ok result =>
      obtain ⟨boundClients, left⟩ := result
      dsimp only
      by_cases whole : left.keys = []
      · have bound := (left_eq_nil_iff first second).mp whole
        have slots := (indexSchemas_isOk.mp ⟨_, first⟩).1
        have same := (bindClients_ok second).1
        rw [lookup_indexed first] at same
        subst same
        have fits : bindings.length ≤ UInt32.size := by
          rw [length_of_bound bound]
          exact few.le
        rw [if_neg (not_not.mpr whole)]
        cases third : (bindings.map (boundTo manifest.schemaAt)).foldlM assignClient ⟨∅, [], [], []⟩ with
        | error failed =>
          refine ⟨nofun, fun accepted => ?_⟩
          rw [(layoutOf_ok fits).mpr ⟨accepted.1.identities, rfl⟩] at third
          cases third
        | ok layout =>
          obtain ⟨identities, rfl⟩ := (layoutOf_ok fits).mp third
          dsimp only
          rw [Except.ok.injEq, eq_comm]
          exact ⟨fun same => ⟨⟨slots, bound, identities⟩, same⟩, fun accepted => accepted.2⟩
      · rw [if_pos whole]
        exact ⟨nofun, fun accepted => absurd ((left_eq_nil_iff first second).mpr accepted.1.bound) whole⟩

/-- The bindings of slots that have inputs. -/
def inputBindings (manifest : ClientIoManifest ShareType) (bindings : List (UInt64 × ClientIdentity)) :
    List (UInt64 × ClientIdentity) :=
  bindings.filter fun binding => decide (0 < manifest.inputCount binding.1)

/-- The layout that bindings ask for: the clients with inputs in the order of
the bindings, a range for each, and the clients with outputs. -/
structure LaidOut (manifest : ClientIoManifest ShareType) (bindings : List (UInt64 × ClientIdentity))
    (assignment : InputAssignment) (outputClients : List ClientIdentity) : Prop where
  clients : assignment.clients = (inputBindings manifest bindings).map Prod.snd
  clients_nodup : assignment.clients.Nodup
  ranges_length : assignment.ranges.length = assignment.clients.length
  ranges : ∀ (k : Nat) range, assignment.ranges[k]? = some range → range.clientIndex.toNat = k ∧ 0 < range.count ∧
    ∃ binding, (inputBindings manifest bindings)[k]? = some binding ∧
      range.count.toNat = manifest.inputCount binding.1
  outputClients : outputClients =
    (bindings.filter fun binding => decide (0 < manifest.outputCount binding.1)).map Prod.snd

theorem toNat_countAt (declared : ClientIoSchema ShareType → Declared ShareType) (slot : UInt64) :
    (UInt64.ofNat (manifest.countAt declared slot)).toNat = manifest.countAt declared slot := by
  refine UInt64.toNat_ofNat_of_lt' ?_
  unfold ClientIoManifest.countAt
  cases manifest.schemaAt slot with
  | none => exact Nat.zero_lt_succ _
  | some schema => exact (declared schema).property

theorem filter_inputs : (bindings.map (boundTo manifest.schemaAt)).filter (fun bound => decide (bound.inputCount ≠ 0)) =
    (inputBindings manifest bindings).map (boundTo manifest.schemaAt) := by
  rw [List.filter_map, inputBindings]
  refine congrArg _ (List.filter_congr fun binding _ => decide_eq_decide.mpr ?_)
  change UInt64.ofNat (manifest.inputCount binding.1) ≠ 0 ↔ _
  rw [ne_eq, ← UInt64.toNat_inj, ClientIoManifest.inputCount, toNat_countAt]
  exact Nat.pos_iff_ne_zero.symm

theorem filter_outputs :
    (bindings.map (boundTo manifest.schemaAt)).filter (fun bound => decide (0 < bound.outputCount)) =
      (bindings.filter fun binding => decide (0 < manifest.outputCount binding.1)).map (boundTo manifest.schemaAt) := by
  rw [List.filter_map]
  refine congrArg _ (List.filter_congr fun binding _ => decide_eq_decide.mpr ?_)
  change 0 < UInt64.ofNat (manifest.outputCount binding.1) ↔ _
  rw [UInt64.lt_iff_toNat_lt, ClientIoManifest.outputCount, toNat_countAt]
  rfl

theorem layoutOf_clients : (layoutOf manifest bindings).clients = (inputBindings manifest bindings).map Prod.snd := by
  rw [layoutOf, (foldl_add _ _).1, filter_inputs, List.map_map]
  rfl

theorem layoutOf_ranges : (layoutOf manifest bindings).ranges = (inputBindings manifest bindings).zipIdx.map fun entry =>
    ⟨UInt32.ofNat entry.2, UInt64.ofNat (manifest.inputCount entry.1.1)⟩ := by
  rw [layoutOf, (foldl_add _ _).2.1, filter_inputs, List.zipIdx_map, List.map_map]
  rfl

theorem layoutOf_outputClients : (layoutOf manifest bindings).outputClients =
    (bindings.filter fun binding => decide (0 < manifest.outputCount binding.1)).map Prod.snd := by
  rw [layoutOf, (foldl_add _ _).2.2, filter_outputs, List.map_map]
  rfl

theorem laidOut (few : manifest.clients.length < UInt32.size) (accepted : Bindable manifest bindings) :
    LaidOut manifest bindings ⟨(layoutOf manifest bindings).clients, (layoutOf manifest bindings).ranges⟩
      (layoutOf manifest bindings).outputClients where
  clients := layoutOf_clients
  clients_nodup := by
    rw [layoutOf_clients]
    exact (List.filter_sublist.map Prod.snd).nodup accepted.identities
  ranges_length := by simp [layoutOf_clients, layoutOf_ranges]
  ranges := by
    intro k range found
    rw [layoutOf_ranges, List.getElem?_map, List.getElem?_zipIdx] at found
    obtain ⟨_, placed, rfl⟩ := Option.map_eq_some_iff.mp found
    obtain ⟨binding, here, rfl⟩ := Option.map_eq_some_iff.mp placed
    have inside : k < (inputBindings manifest bindings).length := (List.getElem?_eq_some_iff.mp here).1
    have bound : k < UInt32.size := by
      have shorter := List.length_filter_le (fun binding => decide (0 < manifest.inputCount binding.1)) bindings
      have length := length_of_bound accepted.bound
      rw [inputBindings] at inside
      omega
    have positive : 0 < manifest.inputCount binding.1 := by
      simpa using (List.mem_filter.mp (List.mem_of_getElem? here)).2
    have count : (UInt64.ofNat (manifest.inputCount binding.1)).toNat = manifest.inputCount binding.1 := toNat_countAt _ _
    refine ⟨?_, ?_, binding, here, count⟩
    · rw [Nat.zero_add]
      exact UInt32.toNat_ofNat_of_lt' bound
    · rw [UInt64.lt_iff_toNat_lt, count]
      exact positive
  outputClients := layoutOf_outputClients

/-- A slot's schema is the one that is listed for it. -/
theorem schemaAt_of_mem (distinct : manifest.slots.Nodup) {schema : ClientIoSchema ShareType}
    (member : schema ∈ manifest.clients) : manifest.schemaAt schema.clientSlot = some schema := by
  cases found : manifest.schemaAt schema.clientSlot with
  | none =>
    have absent := List.find?_eq_none.mp found schema member
    simp at absent
  | some other =>
    have same : other.clientSlot = schema.clientSlot := by simpa using List.find?_some found
    rw [List.inj_on_of_nodup_map distinct (List.mem_of_find?_eq_some found) member same]

theorem sum_inputBindings : ((inputBindings manifest bindings).map fun binding => manifest.inputCount binding.1).sum =
    (bindings.map fun binding => manifest.inputCount binding.1).sum := by
  induction bindings with
  | nil => rfl
  | cons binding rest ih =>
    by_cases some : 0 < manifest.inputCount binding.1
    · simpa [inputBindings, some] using ih
    · have none : manifest.inputCount binding.1 = 0 := by omega
      simpa [inputBindings, none] using ih

/-- The counts of the ranges add up to the inputs of the manifest. -/
theorem sum_ranges (accepted : Bindable manifest bindings) :
    (((layoutOf manifest bindings).ranges.map InputClientRange.count).map UInt64.toNat).sum = manifest.totalInputs := by
  have counts : ((layoutOf manifest bindings).ranges.map InputClientRange.count).map UInt64.toNat =
      (inputBindings manifest bindings).map fun binding => manifest.inputCount binding.1 := by
    refine List.ext_getElem? fun k => ?_
    simp only [layoutOf_ranges, List.getElem?_map, List.getElem?_zipIdx, Option.map_map, Function.comp_def,
      ClientIoManifest.inputCount, toNat_countAt]
  calc (((layoutOf manifest bindings).ranges.map InputClientRange.count).map UInt64.toNat).sum
      = (bindings.map fun binding => manifest.inputCount binding.1).sum := by rw [counts, sum_inputBindings]
    _ = ((bindings.map Prod.fst).map manifest.inputCount).sum := by rw [List.map_map]; rfl
    _ = (manifest.slots.map manifest.inputCount).sum := (accepted.bound.map manifest.inputCount).sum_eq
    _ = manifest.totalInputs := by
      rw [ClientIoManifest.slots, List.map_map, ClientIoManifest.totalInputs]
      refine congrArg List.sum (List.map_congr_left fun schema member => ?_)
      simp [ClientIoManifest.inputCount, ClientIoManifest.countAt, schemaAt_of_mem accepted.slots member]

variable {assignment : InputAssignment} {outputClients : List ClientIdentity}

theorem LaidOut.known (laid : LaidOut manifest bindings assignment outputClients) :
    ∀ range ∈ assignment.ranges, range.clientIndex.toNat < assignment.clients.length := by
  intro range member
  obtain ⟨k, found⟩ := List.mem_iff_getElem?.mp member
  rw [(laid.ranges k range found).1, ← laid.ranges_length]
  exact (List.getElem?_eq_some_iff.mp found).1

/-- The ranges belong to the clients in their order, one to each. -/
theorem LaidOut.owners (laid : LaidOut manifest bindings assignment outputClients) {registration : ExecutionRegistration}
    (laying : registration.inputAssignment = assignment) :
    CoordinatorExecutionState.inputOwners registration = assignment.clients.map some := by
  have positive : ∀ range ∈ assignment.ranges, decide (0 < range.count) = true := by
    intro range member
    obtain ⟨k, found⟩ := List.mem_iff_getElem?.mp member
    exact decide_eq_true (laid.ranges k range found).2.1
  rw [CoordinatorExecutionState.inputOwners, laying, List.filter_eq_self.mpr positive]
  refine List.ext_getElem? fun k => ?_
  rw [List.getElem?_map, List.getElem?_map]
  cases found : assignment.ranges[k]? with
  | none =>
    have beyond : assignment.clients[k]? = none := by
      rw [List.getElem?_eq_none_iff, ← laid.ranges_length]
      exact List.getElem?_eq_none_iff.mp found
    rw [beyond]
    rfl
  | some range =>
    have within : k < assignment.clients.length := by
      rw [← laid.ranges_length]
      exact (List.getElem?_eq_some_iff.mp found).1
    rw [Option.map_some, (laid.ranges k range found).1, List.getElem?_eq_getElem within, Option.map_some]

/-- A registration that has the layout and the number of inputs it counts passes
the coordinator's checks of them. -/
theorem LaidOut.admitted (laid : LaidOut manifest bindings assignment outputClients)
    {registration : ExecutionRegistration} {n : UInt64} (laying : registration.inputAssignment = assignment)
    (total : registration.nInputs = (assignment.ranges.map InputClientRange.count).sum) :
    CoordinatorExecutionState.new registration n = .ok (.fresh registration) ↔
      registration.executionId.isZero = false ∧ registration.programHash ≠ Vector.replicate 32 0 ∧
        registration.minOutputShares ≠ 0 ∧ registration.minOutputShares ≤ n := by
  subst laying
  exact CoordinatorExecutionState.new_of_assigned (Or.inr total) laid.known

/-- Bindings are accepted exactly if they bind every slot of the manifest once
and every identity once. The layout is then the one they ask for, and a
registration with it passes the coordinator's checks of it and has every input
under its own client and label. -/
theorem buildInputAssignment_exact (manifest : ClientIoManifest ShareType) (bindings : List (UInt64 × ClientIdentity))
    (few : manifest.clients.length < UInt32.size) (small : manifest.totalInputs < UInt64.size) :
    ((∃ built, buildInputAssignment manifest bindings = .ok built) ↔ Bindable manifest bindings) ∧
    ∀ assignment outputClients, buildInputAssignment manifest bindings = .ok (assignment, outputClients) →
      LaidOut manifest bindings assignment outputClients ∧
      ∀ registration n, registration.inputAssignment = assignment →
        registration.nInputs.toNat = ((assignment.ranges.map InputClientRange.count).map UInt64.toNat).sum →
        (CoordinatorExecutionState.new registration n = .ok (.fresh registration) ↔
          registration.executionId.isZero = false ∧ registration.programHash ≠ Vector.replicate 32 0 ∧
            registration.minOutputShares ≠ 0 ∧ registration.minOutputShares ≤ n) ∧
        ((expandInputRanges assignment.ranges).map fun slot =>
          (assignment.clients[slot.clientIndex.toNat]?, slot.label)).Nodup := by
  constructor
  · constructor
    · rintro ⟨built, done⟩
      exact ((buildInputAssignment_ok few).mp done).1
    · intro accepted
      exact ⟨_, (buildInputAssignment_ok few).mpr ⟨accepted, rfl⟩⟩
  · intro assignment outputClients done
    obtain ⟨accepted, same⟩ := (buildInputAssignment_ok few).mp done
    obtain ⟨rfl, rfl⟩ := Prod.mk.inj same
    have laid := laidOut few accepted
    refine ⟨laid, fun registration n laying total => ⟨?_, ?_⟩⟩
    · have counted := sum_ranges accepted
      rw [← counted] at small
      refine laid.admitted laying (UInt64.toNat_inj.mp ?_)
      rw [total, toNat_sum_of_lt small]
    · have distinct : (CoordinatorExecutionState.inputOwners registration).Nodup := by
        rw [laid.owners laying]
        exact laid.clients_nodup.map (Option.some_injective _)
      have unique := (CoordinatorExecutionState.Coherent.fresh registration).slots_nodup_iff.mpr distinct
      simpa only [CoordinatorExecutionState.fresh, CoordinatorExecutionState.inputSlotClient, laying] using unique

/-- Three slots, bound out of their order; the second has outputs only. -/
def threeSlots : ClientIoManifest Unit :=
  ⟨.avss, [⟨0, ⟨[(), ()], by decide⟩, ⟨[], by decide⟩⟩, ⟨5, ⟨[], by decide⟩, ⟨[()], by decide⟩⟩,
    ⟨2, ⟨[()], by decide⟩, ⟨[()], by decide⟩⟩]⟩

theorem buildInputAssignment_of_three :
    buildInputAssignment threeSlots [(2, [8]), (5, [9]), (0, [7])] = .ok (⟨[[8], [7]], [⟨0, 1⟩, ⟨1, 2⟩]⟩, [[8], [9]]) ∧
      LaidOut threeSlots [(2, [8]), (5, [9]), (0, [7])] ⟨[[8], [7]], [⟨0, 1⟩, ⟨1, 2⟩]⟩ [[8], [9]] := by
  have built : buildInputAssignment threeSlots [(2, [8]), (5, [9]), (0, [7])] =
      .ok (⟨[[8], [7]], [⟨0, 1⟩, ⟨1, 2⟩]⟩, [[8], [9]]) := by rfl
  exact ⟨built, ((buildInputAssignment_exact threeSlots _ (by decide) (by decide)).2 _ _ built).1⟩

/-- An output quorum of either backend is one that a valid roster can reach. -/
theorem minOutputShares_admitted (topology : Topology) (backend : MpcBackend) :
    minOutputShares topology.t backend ≠ 0 ∧ minOutputShares topology.t backend ≤ topology.n := by
  have below := topology.t_lt_n
  rw [ne_eq, ← UInt64.toNat_inj, UInt64.le_iff_toNat_le]
  cases backend with
  | honeyBadger =>
    rw [minOutputShares, topology.doubled_toNat]
    exact ⟨Nat.succ_ne_zero _, topology.doubled_le_n⟩
  | avss =>
    rw [minOutputShares, topology.successor_toNat]
    exact ⟨Nat.succ_ne_zero _, below⟩

end Build

end MpcCoordinator.RunCoord
