import MpcCoordinator.Client.SendOutputs

namespace MpcCoordinator.OnChain

/-- What a party of the on-chain coordinator and a client know about it. A number
of outputs is always given to `new`. -/
structure OnChainCoordinator where
  n : UInt64
  t : UInt64
  nOutputs : UInt64
  keyDer : Option Bytes
  deriving DecidableEq, Repr

/-- The encoding of an encapsulated key and a ciphertext as one byte string. -/
structure PairEncoding where
  serializePair : EncryptedShares → Option Bytes
  deserializePair : Bytes → Option EncryptedShares

/-- What is encoded can be decoded. -/
def PairEncoding.Lawful (encoding : PairEncoding) : Prop :=
  ∀ pair bytes, encoding.serializePair pair = some bytes → encoding.deserializePair bytes = some pair

/-- What becomes of a transaction. -/
inductive Transaction where
  | notSent (error : String)
  | notMined (error : String)
  | mined
  deriving DecidableEq, Repr

/-- The errors of a party that sends output shares to the contract. -/
inductive SendOutputError where
  | parsingPublicKeyFailed
  | serializationError
  | encryptionError
  | ethereumError (message : String)
  deriving DecidableEq, Repr

def eventsEnded : CoordinatorError :=
  .ethereumError "event stream ended unexpectedly while waiting for EnoughOutputShares events"

namespace OnChainCoordinator

variable {K E S V P R : Type}

section

variable (sender : HpkeSender S P R) (encoding : PairEncoding)

/-- What a party sends for a client. Nothing in it depends on the contract. -/
def sealOutputShares (key : Bytes) (outputShares : List S) (rng : R) : Except SendOutputError Bytes :=
  match sender.publicKeyFromBytes key with
  | none => .error .parsingPublicKeyFailed
  | some clientPk =>
    match sender.serializeShares outputShares with
    | none => .error .serializationError
    | some outputSharesBytes =>
      match sender.singleShotSeal clientPk encInfo outputSharesBytes [] rng with
      | none => .error .encryptionError
      | some c =>
        match encoding.serializePair c with
        | none => .error .serializationError
        | some bytes => .ok bytes

/-- The whole call. `send` is what becomes of the transaction with these bytes. -/
def sendOutputShares (key : Bytes) (outputShares : List S) (rng : R) (send : Bytes → Transaction) :
    Except SendOutputError Unit :=
  match sealOutputShares sender encoding key outputShares rng with
  | .error error => .error error
  | .ok bytes =>
    match send bytes with
    | .mined => .ok ()
    | .notMined error =>
      .error (.ethereumError s!"error waiting for transaction to send output shares to be mined: {error}")
    | .notSent error => .error (.ethereumError s!"error sending transaction to send output shares: {error}")

end

variable (coordinator : OnChainCoordinator) (hpke : Hpke K E) (encoding : PairEncoding) (scheme : ShareBound S V)
  (clientSk : K)

def minShares : Nat := scheme.minShares coordinator.t.toNat

/-- The client's secret key. Not to have one is a panic. -/
def parseKey : Waited K :=
  match coordinator.keyDer with
  | none => .panicked
  | some derBytes =>
    match hpke.fromPkcs8Der derBytes with
    | none => .failed .parsingDERAsPKCS8Failed
    | some rawSk =>
      match hpke.privateKeyFromBytes rawSk with
      | none => .failed .parsingPrivateKeyFailed
      | some clientSk => .returned clientSk

/-- Decodes, decrypts and decodes what one party has sent. -/
def openShares (bytes : Bytes) : Except CoordinatorError (List S) :=
  match encoding.deserializePair bytes with
  | none => .error .deserializationError
  | some (encappedKeyBytes, c) =>
    match hpke.encappedKeyFromBytes encappedKeyBytes with
    | none => .error .parsingEncapsulatedKeyFailed
    | some encappedKey =>
      match hpke.singleShotOpen clientSk encappedKey encInfo c [] with
      | none => .error .decryptionError
      | some outputSharesBytes =>
        match scheme.deserializeShares outputSharesBytes with
        | none => .error .deserializationError
        | some shares => .ok shares

/-- The loop over the entries of an event, which ignores a wrong number of shares. -/
def decryptShares : List Bytes → List (List.Vector S coordinator.nOutputs.toNat) →
    Except CoordinatorError (List (List.Vector S coordinator.nOutputs.toNat))
  | [], outputShares => .ok outputShares
  | bytes :: rest, outputShares =>
    match openShares hpke encoding scheme clientSk bytes with
    | .error error => .error error
    | .ok shares =>
      if sized : shares.length = coordinator.nOutputs.toNat then decryptShares rest (outputShares ++ [⟨shares, sized⟩])
      else decryptShares rest outputShares

/-- The shares of each output that an event holds. The contract is trusted with the
number of entries: too few of them are a panic. -/
def readEvent (shares : List Bytes) : Waited (List (List S)) :=
  if shares.length < coordinator.minShares scheme then .panicked
  else
    match coordinator.decryptShares hpke encoding scheme clientSk shares [] with
    | .error error => .failed error
    | .ok outputShares =>
      .returned ((List.finRange coordinator.nOutputs.toNat).map fun i => outputShares.map fun shares => shares.get i)

/-- The outputs that can be recovered; the others are left out. -/
def recoverOutputs (columns : List (List S)) : List V :=
  columns.filterMap fun shares => scheme.recoverSecret shares coordinator.n.toNat coordinator.t.toNat

/-- The loop over the events, until one of them gives all outputs. -/
def obtainOutputsLoop (closed : Bool) : List (Option (List Bytes)) → Waited (List V)
  | [] => if closed then .failed eventsEnded else .blocked
  | none :: _ => .failed eventsEnded
  | some shares :: rest =>
    match coordinator.readEvent hpke encoding scheme clientSk shares with
    | .blocked => .blocked
    | .panicked => .panicked
    | .failed error => .failed error
    | .returned columns =>
      if (coordinator.recoverOutputs scheme columns).length = coordinator.nOutputs.toNat then
        .returned (coordinator.recoverOutputs scheme columns)
      else obtainOutputsLoop closed rest

def obtainOutputs (events : Except String (Subscription (List Bytes))) : Waited (List V) :=
  match coordinator.parseKey hpke with
  | .blocked => .blocked
  | .panicked => .panicked
  | .failed error => .failed error
  | .returned clientSk =>
    match events with
    | .error error =>
      -- the message names another kind of event
      .failed (.ethereumError s!"error setting up event listener for MPCStarted events: {error}")
    | .ok events => coordinator.obtainOutputsLoop hpke encoding scheme clientSk events.closed events.items

/-- The client of the off-chain coordinator that waits for the same outputs. -/
abbrev asOffChain : OffChainCoordinatorClient :=
  ⟨⟨Vector.replicate 32 0⟩, coordinator.t, coordinator.n, coordinator.nOutputs, coordinator.keyDer.getD []⟩

/-- The cipher under which that client reads `(bytes, [])` as this one reads `bytes`. -/
def paired : Hpke K (E × Bytes) where
  fromPkcs8Der := hpke.fromPkcs8Der
  privateKeyFromBytes := hpke.privateKeyFromBytes
  encappedKeyFromBytes bytes :=
    (encoding.deserializePair bytes).bind fun pair => (hpke.encappedKeyFromBytes pair.1).map fun key => (key, pair.2)
  singleShotOpen clientSk key _ _ aad := hpke.singleShotOpen clientSk key.1 encInfo key.2 aad

/-- The entry can be read and has a share of every output. -/
def counts (bytes : Bytes) : Bool :=
  match openShares hpke encoding scheme clientSk bytes with
  | .error _ => false
  | .ok shares => shares.length == coordinator.nOutputs.toNat

/-- Every entry of the event can be read, whatever it holds. -/
def Readable (shares : List Bytes) : Prop :=
  ∀ bytes ∈ shares, ∃ outputShares, openShares hpke encoding scheme clientSk bytes = .ok outputShares

/-- The entries of the event are enough for all outputs, if there are any. -/
def Sufficient (shares : List Bytes) : Prop :=
  coordinator.nOutputs = 0 ∨
    coordinator.minShares scheme ≤ shares.countP (coordinator.counts hpke encoding scheme clientSk)

/-- A sufficient event comes before the first one that cannot be read. -/
def InTime : List (List Bytes) → Prop
  | [] => False
  | shares :: rest => Readable hpke encoding scheme clientSk shares ∧
      (coordinator.Sufficient hpke encoding scheme clientSk shares ∨ InTime rest)

/-- The entry of a party that sends its share of every output. `share i j` is the
share of output `i` that party `j` has. -/
def Sealed (sender : HpkeSender S P R) (key : Bytes) (share : Nat → Nat → S) (entry : Nat × Bytes) : Prop :=
  ∃ rng, sealOutputShares sender encoding key ((List.range coordinator.nOutputs.toNat).map fun i => share i entry.1) rng =
    .ok entry.2

/-- An event as the contract emits it, with entries of enough different parties.
Each of them is sealed shares, or can be told to be none. -/
structure Emitted (sender : HpkeSender S P R) (key : Bytes) (share : Nat → Nat → S) (event : List (Nat × Bytes)) : Prop where
  distinct : (event.map Prod.fst).Nodup
  parties : ∀ entry ∈ event, entry.1 < coordinator.n.toNat
  enough : coordinator.minShares scheme ≤ event.length
  entries : ∀ entry ∈ event, coordinator.Sealed encoding sender key share entry ∨
    coordinator.counts hpke encoding scheme clientSk entry.2 = false

/-- The shares of different parties give the outputs, where they are enough, and
nothing where they are not. -/
def Recovers (share : Nat → Nat → S) (output : Nat → V) : Prop :=
  ∀ i < coordinator.nOutputs.toNat, ∀ parties : List Nat, parties.Nodup →
    (∀ party ∈ parties, party < coordinator.n.toNat) →
    scheme.recoverSecret (parties.map (share i)) coordinator.n.toNat coordinator.t.toNat =
      if coordinator.minShares scheme ≤ parties.length then some (output i) else none

variable {coordinator hpke encoding scheme clientSk}

theorem openShares_ok_iff (coordinator : OnChainCoordinator) {bytes : Bytes} {shares : List S} :
    openShares hpke encoding scheme clientSk bytes = .ok shares ↔
      coordinator.asOffChain.openShares (paired hpke encoding) scheme clientSk (bytes, []) = .ok shares := by
  unfold openShares OffChainCoordinatorClient.openShares
  cases decoded : encoding.deserializePair bytes with
  | none => simp [paired, decoded]
  | some pair =>
    cases parsed : hpke.encappedKeyFromBytes pair.1 with
    | none => simp [paired, decoded, parsed]
    | some encappedKey =>
      cases opened : hpke.singleShotOpen clientSk encappedKey encInfo pair.2 [] with
      | none => simp [paired, decoded, parsed, opened]
      | some outputSharesBytes =>
        cases read : scheme.deserializeShares outputSharesBytes with
        | none => simp [paired, decoded, parsed, opened, read]
        | some own => simp [paired, decoded, parsed, opened, read]

theorem decryptShares_ok_iff {shares : List Bytes}
    {outputShares result : List (List.Vector S coordinator.nOutputs.toNat)} :
    coordinator.decryptShares hpke encoding scheme clientSk shares outputShares = .ok result ↔
      coordinator.asOffChain.decryptShares (paired hpke encoding) scheme clientSk (shares.map fun bytes => (bytes, []))
        outputShares = .ok result := by
  induction shares generalizing outputShares with
  | nil => exact Iff.rfl
  | cons bytes rest ih =>
    rw [List.map_cons, decryptShares]
    rw [OffChainCoordinatorClient.decryptShares]
    cases opened : coordinator.asOffChain.openShares (paired hpke encoding) scheme clientSk (bytes, []) with
    | error error =>
      cases read : openShares hpke encoding scheme clientSk bytes with
      | error other => simp
      | ok shares =>
        rw [openShares_ok_iff coordinator, opened] at read
        cases read
    | ok shares =>
      rw [(openShares_ok_iff coordinator).mpr opened]
      dsimp only
      split
      · exact ih
      · exact ih

theorem opens_iff (coordinator : OnChainCoordinator) {bytes : Bytes} :
    (∃ shares, openShares hpke encoding scheme clientSk bytes = .ok shares) ↔
      coordinator.asOffChain.Opens (paired hpke encoding) scheme clientSk (bytes, []) :=
  exists_congr fun _ => openShares_ok_iff coordinator

theorem counts_eq (coordinator : OnChainCoordinator) (bytes : Bytes) :
    coordinator.counts hpke encoding scheme clientSk bytes =
      (coordinator.asOffChain.sharesOf (paired hpke encoding) scheme clientSk (bytes, [])).isSome := by
  unfold counts OffChainCoordinatorClient.sharesOf
  cases opened : openShares hpke encoding scheme clientSk bytes with
  | ok shares =>
    rw [(openShares_ok_iff coordinator).mp opened]
    dsimp only
    by_cases sized : shares.length = coordinator.nOutputs.toNat
    · rw [dif_pos sized, beq_iff_eq.mpr sized]
      rfl
    · rw [dif_neg sized, beq_eq_false_iff_ne.mpr sized]
      rfl
  | error error =>
    cases read : coordinator.asOffChain.openShares (paired hpke encoding) scheme clientSk (bytes, []) with
    | error other => rfl
    | ok shares =>
      rw [(openShares_ok_iff coordinator).mpr read] at opened
      cases opened

theorem countP_counts (coordinator : OnChainCoordinator) (shares : List Bytes) :
    shares.countP (coordinator.counts hpke encoding scheme clientSk) =
      coordinator.asOffChain.usable (paired hpke encoding) scheme clientSk (shares.map fun bytes => (bytes, [])) := by
  rw [OffChainCoordinatorClient.usable, List.countP_map]
  exact List.countP_congr fun bytes _ => by rw [counts_eq]; rfl

/-- The event as the client of the off-chain coordinator would see it. -/
def offChainEntries (event : List (Nat × Bytes)) : List (Nat × EncryptedShares) :=
  event.map fun entry => (entry.1, entry.2, [])

theorem map_snd_offChainEntries (event : List (Nat × Bytes)) :
    (offChainEntries event).map Prod.snd = (event.map Prod.snd).map fun bytes => (bytes, []) := by
  simp [offChainEntries]

theorem malformedEntry_of_not_counts {bytes : Bytes}
    (miscounted : coordinator.counts hpke encoding scheme clientSk bytes = false) :
    coordinator.asOffChain.MalformedEntry (paired hpke encoding) scheme clientSk (bytes, []) := by
  cases opened : coordinator.asOffChain.openShares (paired hpke encoding) scheme clientSk (bytes, []) with
  | error error => exact .unreadable opened
  | ok shares =>
    refine .miscounted opened fun sized => ?_
    rw [counts, (openShares_ok_iff coordinator).mpr opened] at miscounted
    simp [sized] at miscounted

/-- An event with an entry that cannot be read fails the call. -/
theorem obtainOutputsLoop_of_unreadable {shares : List Bytes} (enough : coordinator.minShares scheme ≤ shares.length)
    (unreadable : ¬ Readable hpke encoding scheme clientSk shares) (closed : Bool) (rest : List (Option (List Bytes))) :
    ∃ error, coordinator.obtainOutputsLoop hpke encoding scheme clientSk closed (some shares :: rest) = .failed error := by
  rw [obtainOutputsLoop, readEvent, if_neg (not_lt.mpr enough)]
  cases decrypted : coordinator.decryptShares hpke encoding scheme clientSk shares [] with
  | error error => exact ⟨error, rfl⟩
  | ok outputShares =>
    obtain ⟨opens, _⟩ := OffChainCoordinatorClient.decryptShares_ok_iff.mp (decryptShares_ok_iff.mp decrypted)
    exact absurd (fun bytes member => (opens_iff coordinator).mpr (opens _ (List.mem_map_of_mem member))) unreadable

section

variable {sender : HpkeSender S P R} {key : Bytes} {share : Nat → Nat → S} {output : Nat → V}
  {event : List (Nat × Bytes)}
  (matching : sender.Matches hpke scheme key clientSk) (lawful : encoding.Lawful)

include matching lawful

/-- What a party has sealed opens, and gives its shares. -/
theorem Sealed.openShares_eq {entry : Nat × Bytes} (sealed : coordinator.Sealed encoding sender key share entry) :
    openShares hpke encoding scheme clientSk entry.2 =
      .ok ((List.range coordinator.nOutputs.toNat).map fun i => share i entry.1) := by
  obtain ⟨rng, sealed⟩ := sealed
  unfold sealOutputShares at sealed
  split at sealed
  · cases sealed
  rename_i clientPk parsed
  split at sealed
  · cases sealed
  rename_i outputSharesBytes serialized
  split at sealed
  · cases sealed
  rename_i c encrypted
  split at sealed
  · cases sealed
  rename_i bytes encoded
  obtain ⟨encappedKey, encapped, opened⟩ := matching.opens _ _ _ _ _ parsed encrypted
  rw [← Except.ok.inj sealed]
  simp only [openShares, lawful _ _ encoded, encapped, opened, matching.decodes _ _ serialized]

theorem Emitted.classified (emitted : coordinator.Emitted hpke encoding scheme clientSk sender key share event) :
    coordinator.asOffChain.Classified (paired hpke encoding) scheme clientSk share (offChainEntries event) := by
  refine ⟨?_, ?_, ?_⟩
  · have same : (offChainEntries event).map Prod.fst = event.map Prod.fst := by
      simp [offChainEntries]
    rw [same]
    exact emitted.distinct
  · intro entry member
    obtain ⟨own, listed, rfl⟩ := List.mem_map.mp member
    exact emitted.parties own listed
  · intro entry member
    obtain ⟨own, listed, rfl⟩ := List.mem_map.mp member
    rcases emitted.entries own listed with sealed | miscounted
    · exact Or.inl ((openShares_ok_iff coordinator).mp (sealed.openShares_eq matching lawful))
    · exact Or.inr (malformedEntry_of_not_counts miscounted)

/-- The number of shares is the same for all outputs, so either all of them are
recovered or none. -/
theorem readEvent_of_readable (emitted : coordinator.Emitted hpke encoding scheme clientSk sender key share event)
    (recovers : coordinator.Recovers scheme share output)
    (readable : Readable hpke encoding scheme clientSk (event.map Prod.snd)) :
    ∃ columns, coordinator.readEvent hpke encoding scheme clientSk (event.map Prod.snd) = .returned columns ∧
      coordinator.recoverOutputs scheme columns =
        if coordinator.minShares scheme ≤
            (event.map Prod.snd).countP (coordinator.counts hpke encoding scheme clientSk) then
          (List.range coordinator.nOutputs.toNat).map output
        else [] := by
  have opens : ∀ entry ∈ (event.map Prod.snd).map fun bytes => (bytes, []),
      coordinator.asOffChain.Opens (paired hpke encoding) scheme clientSk entry := by
    intro entry member
    obtain ⟨bytes, listed, rfl⟩ := List.mem_map.mp member
    exact (opens_iff coordinator).mp (readable bytes listed)
  have long : ¬ (event.map Prod.snd).length < coordinator.minShares scheme := by
    rw [List.length_map]
    exact not_lt.mpr emitted.enough
  have recovered := OffChainCoordinatorClient.recoverOutputs_eq (emitted.classified matching lawful) recovers
  rw [map_snd_offChainEntries, ← countP_counts] at recovered
  refine ⟨_, ?_, recovered⟩
  rw [readEvent, if_neg long,
    decryptShares_ok_iff.mpr (OffChainCoordinatorClient.decryptShares_ok_iff.mpr ⟨opens, rfl⟩)]
  rfl

/-- An event that can be read ends the loop with the outputs, or is passed over. -/
theorem obtainOutputsLoop_of_readable (emitted : coordinator.Emitted hpke encoding scheme clientSk sender key share event)
    (recovers : coordinator.Recovers scheme share output)
    (readable : Readable hpke encoding scheme clientSk (event.map Prod.snd)) (closed : Bool)
    (rest : List (Option (List Bytes))) :
    (coordinator.Sufficient hpke encoding scheme clientSk (event.map Prod.snd) →
      coordinator.obtainOutputsLoop hpke encoding scheme clientSk closed (some (event.map Prod.snd) :: rest) =
        .returned ((List.range coordinator.nOutputs.toNat).map output)) ∧
    (¬ coordinator.Sufficient hpke encoding scheme clientSk (event.map Prod.snd) →
      coordinator.obtainOutputsLoop hpke encoding scheme clientSk closed (some (event.map Prod.snd) :: rest) =
        coordinator.obtainOutputsLoop hpke encoding scheme clientSk closed rest) := by
  obtain ⟨columns, read, recovered⟩ := readEvent_of_readable matching lawful emitted recovers readable
  rw [obtainOutputsLoop, read]
  dsimp only
  constructor
  · intro sufficient
    have all : coordinator.recoverOutputs scheme columns = (List.range coordinator.nOutputs.toNat).map output := by
      rw [recovered]
      rcases sufficient with zero | enough
      · simp [zero]
      · rw [if_pos enough]
    rw [all, if_pos (by simp)]
  · intro insufficient
    obtain ⟨present, few⟩ := not_or.mp insufficient
    rw [recovered, if_neg few, if_neg fun none => present (UInt64.toNat_inj.mp none.symm)]

/-- How the loop ends, by what the events hold. -/
theorem obtainOutputsLoop_of_events {events : List (List (Nat × Bytes))}
    (emitted : ∀ event ∈ events, coordinator.Emitted hpke encoding scheme clientSk sender key share event)
    (recovers : coordinator.Recovers scheme share output) (closed : Bool) :
    let outcome := coordinator.obtainOutputsLoop hpke encoding scheme clientSk closed
      (events.map fun event => some (event.map Prod.snd))
    (∀ outputs, outcome = .returned outputs ↔ outputs = (List.range coordinator.nOutputs.toNat).map output ∧
      coordinator.InTime hpke encoding scheme clientSk (events.map (List.map Prod.snd))) ∧
    outcome ≠ .panicked ∧
    (outcome = .blocked ↔ closed = false ∧ ∀ event ∈ events,
      Readable hpke encoding scheme clientSk (event.map Prod.snd) ∧
        ¬ coordinator.Sufficient hpke encoding scheme clientSk (event.map Prod.snd)) := by
  induction events with
  | nil => cases closed <;> simp [obtainOutputsLoop, InTime]
  | cons event rest ih =>
    obtain ⟨emittedFirst, emittedRest⟩ := List.forall_mem_cons.mp emitted
    simp only [List.map_cons, InTime, List.forall_mem_cons]
    by_cases readable : Readable hpke encoding scheme clientSk (event.map Prod.snd)
    · obtain ⟨ends, passes⟩ := obtainOutputsLoop_of_readable matching lawful emittedFirst recovers readable
        closed (rest.map fun event => some (event.map Prod.snd))
      by_cases sufficient : coordinator.Sufficient hpke encoding scheme clientSk (event.map Prod.snd)
      · simp [ends sufficient, readable, sufficient, eq_comm]
      · simp only [passes sufficient, readable, sufficient, false_or, true_and, not_false_eq_true]
        exact ih emittedRest
    · obtain ⟨error, failed⟩ := obtainOutputsLoop_of_unreadable (by rw [List.length_map]; exact emittedFirst.enough)
        readable closed (rest.map fun event => some (event.map Prod.snd))
      simp [failed, readable]

/-- Entries that are all sealed are enough. -/
theorem inTime_of_sealed (emitted : coordinator.Emitted hpke encoding scheme clientSk sender key share event)
    (sealed : ∀ entry ∈ event, coordinator.Sealed encoding sender key share entry) (rest : List (List Bytes)) :
    coordinator.InTime hpke encoding scheme clientSk (event.map Prod.snd :: rest) := by
  refine ⟨?_, Or.inl (Or.inr ?_)⟩
  · intro bytes member
    obtain ⟨entry, listed, rfl⟩ := List.mem_map.mp member
    exact ⟨_, (sealed entry listed).openShares_eq matching lawful⟩
  · have all : ∀ bytes ∈ event.map Prod.snd, coordinator.counts hpke encoding scheme clientSk bytes = true := by
      intro bytes member
      obtain ⟨entry, listed, rfl⟩ := List.mem_map.mp member
      simp [counts, (sealed entry listed).openShares_eq matching lawful]
    rw [List.countP_eq_length.mpr all, List.length_map]
    exact emitted.enough

end

end OnChainCoordinator

namespace Scenario

open MpcCoordinator.Scenario

/-- The encoding that leaves out the only key there is. -/
def keyless : PairEncoding where
  serializePair pair := if pair.1 = [1] then some pair.2 else none
  deserializePair bytes := some ([1], bytes)

theorem keyless_lawful : keyless.Lawful := by
  rintro ⟨encappedKey, c⟩ bytes encoded
  by_cases same : encappedKey = [1]
  · simp only [keyless, if_pos same, Option.some.injEq] at encoded
    simp [keyless, same, encoded]
  · simp [keyless, same] at encoded

/-- A client with one output from four parties, of which one may be faulty. -/
def outputCoordinator : OnChainCoordinator := ⟨4, 1, 1, some []⟩

/-- The fourth party sends two shares for the one output. In the first event that
leaves two shares, and in the second one three. -/
def outputEvents : List (List (Nat × Bytes)) :=
  [[(0, [9]), (3, [7, 7]), (1, [9])], [(0, [9]), (3, [7, 7]), (1, [9]), (2, [9])]]

theorem emitted_outputEvents : ∀ event ∈ outputEvents,
    outputCoordinator.Emitted plainHpke keyless .plain () plainSender [] (fun _ _ => 9) event := by
  have honest : ∀ party, outputCoordinator.Sealed keyless plainSender [] (fun _ _ => (9 : UInt8)) (party, [9]) :=
    fun party => ⟨(), rfl⟩
  have miscounted : outputCoordinator.counts plainHpke keyless .plain () [7, 7] = false := by decide
  simp only [outputEvents, List.forall_mem_cons]
  refine ⟨⟨by decide, by decide, by decide, ?_⟩, ⟨by decide, by decide, by decide, ?_⟩, by simp⟩
  · simp only [List.forall_mem_cons]
    exact ⟨Or.inl (honest 0), Or.inr miscounted, Or.inl (honest 1), by simp⟩
  · simp only [List.forall_mem_cons]
    exact ⟨Or.inl (honest 0), Or.inr miscounted, Or.inl (honest 1), Or.inl (honest 2), by simp⟩

theorem outputCoordinator_recovers : outputCoordinator.Recovers .plain (fun _ _ => 9) fun _ => 9 := by
  intro i _ parties _ _
  exact ShareBound.plain_recoverSecret 9 parties _ _

end Scenario

end MpcCoordinator.OnChain
