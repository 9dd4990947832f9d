import MpcCoordinator.Client.Shares
import MpcCoordinator.Client.WaitForIndices
import MpcCoordinator.Execution.State
import Mathlib.Data.Vector.Basic
import Mathlib.Data.List.FinRange

namespace MpcCoordinator

/-- The primitives by which output shares are decrypted, with private keys `K`
and encapsulated keys `E`. -/
structure Hpke (K E : Type) where
  fromPkcs8Der : Bytes → Option Bytes
  privateKeyFromBytes : Bytes → Option K
  encappedKeyFromBytes : Bytes → Option E
  singleShotOpen : K → E → (info ciphertext aad : Bytes) → Option Bytes

def encInfo : Bytes := "StoffelOutputShareEncryption".toUTF8.toList

def executionEncInfo (executionId : ExecutionId) : Bytes := encInfo ++ executionId.bytes.toList

/-- A client of the off-chain coordinator. -/
structure OffChainCoordinatorClient where
  executionId : ExecutionId
  t : UInt64
  nParties : UInt64
  nOutputs : UInt64
  keyDer : Bytes
  deriving DecidableEq, Repr

def outputsEnded : CoordinatorError :=
  .jsonError "Output shares subscription ended before enough output shares could be obtained"

namespace OffChainCoordinatorClient

variable {K E S V : Type} (client : OffChainCoordinatorClient) (hpke : Hpke K E) (scheme : ShareBound S V) (clientSk : K)

def minShares : Nat := scheme.minShares client.t.toNat

/-- Decrypts and decodes what one party has sent. -/
def openShares (entry : EncryptedShares) : Except CoordinatorError (List S) :=
  match hpke.encappedKeyFromBytes entry.1 with
  | none => .error .parsingEncapsulatedKeyFailed
  | some encappedKey =>
    match hpke.singleShotOpen clientSk encappedKey (executionEncInfo client.executionId) entry.2 [] with
    | none => .error .decryptionError
    | some outputSharesBytes =>
      match scheme.deserializeShares outputSharesBytes with
      | none => .error .deserializationError
      | some shares => .ok shares

/-- The loop over the entries of a snapshot, which ignores a wrong number of
shares. What it keeps has one share for each output. -/
def decryptShares : List EncryptedShares → List (List.Vector S client.nOutputs.toNat) →
    Except CoordinatorError (List (List.Vector S client.nOutputs.toNat))
  | [], outputShares => .ok outputShares
  | entry :: rest, outputShares =>
    match client.openShares hpke scheme clientSk entry with
    | .error error => .error error
    | .ok shares =>
      if sized : shares.length = client.nOutputs.toNat then decryptShares rest (outputShares ++ [⟨shares, sized⟩])
      else decryptShares rest outputShares

/-- The shares of each output that a snapshot holds. -/
def readSnapshot (encOutputShares : List EncryptedShares) : Except CoordinatorError (List (List S)) :=
  if encOutputShares.length < client.minShares scheme then
    .error (.subscriptionError
      s!"Received {encOutputShares.length} output shares, but at least {client.minShares scheme} are required")
  else
    match client.decryptShares hpke scheme clientSk encOutputShares [] with
    | .error error => .error error
    | .ok outputShares =>
      .ok ((List.finRange client.nOutputs.toNat).map fun i => outputShares.map fun shares => shares.get i)

/-- The outputs that can be recovered; the others are left out. -/
def recoverOutputs (columns : List (List S)) : List V :=
  columns.filterMap fun shares => scheme.recoverSecret shares client.nParties.toNat client.t.toNat

/-- The loop over the snapshots, until one of them gives all outputs. -/
def obtainOutputsLoop (closed : Bool) : List (Option (List EncryptedShares)) → Waited (List V)
  | [] => if closed then .failed outputsEnded else .blocked
  | none :: _ => .failed outputsEnded
  | some encOutputShares :: rest =>
    match client.readSnapshot hpke scheme clientSk encOutputShares with
    | .error error => .failed error
    | .ok columns =>
      if (client.recoverOutputs scheme columns).length = client.nOutputs.toNat then
        .returned (client.recoverOutputs scheme columns)
      else obtainOutputsLoop closed rest

def parseKey : Except CoordinatorError K :=
  match hpke.fromPkcs8Der client.keyDer with
  | none => .error .parsingDERAsPKCS8Failed
  | some rawSk =>
    match hpke.privateKeyFromBytes rawSk with
    | none => .error .parsingPrivateKeyFailed
    | some clientSk => .ok clientSk

def obtainOutputs (sub : Except String (Subscription (List EncryptedShares))) : Waited (List V) :=
  match sub with
  | .error error => .failed (.jsonError error)
  | .ok sub =>
    match client.parseKey hpke with
    | .error error => .failed error
    | .ok clientSk => client.obtainOutputsLoop hpke scheme clientSk sub.closed sub.items

/-- The shares of every call of `recover_secret` that a snapshot leads to. -/
def recoverCalls (encOutputShares : List EncryptedShares) : List (List S) :=
  match client.readSnapshot hpke scheme clientSk encOutputShares with
  | .error _ => []
  | .ok columns => columns

/-- The entry can be read, whatever it holds. -/
def Opens (entry : EncryptedShares) : Prop :=
  ∃ shares, client.openShares hpke scheme clientSk entry = .ok shares

/-- The shares of an entry that is neither an error nor ignored. -/
def sharesOf (entry : EncryptedShares) : Option (List.Vector S client.nOutputs.toNat) :=
  match client.openShares hpke scheme clientSk entry with
  | .error _ => none
  | .ok shares => if sized : shares.length = client.nOutputs.toNat then some ⟨shares, sized⟩ else none

variable {client hpke scheme clientSk}

theorem decryptShares_ok_iff {entries : List EncryptedShares}
    {outputShares result : List (List.Vector S client.nOutputs.toNat)} :
    client.decryptShares hpke scheme clientSk entries outputShares = .ok result ↔
      (∀ entry ∈ entries, client.Opens hpke scheme clientSk entry) ∧
        result = outputShares ++ entries.filterMap (client.sharesOf hpke scheme clientSk) := by
  induction entries generalizing outputShares with
  | nil => simp [decryptShares, eq_comm]
  | cons entry rest ih =>
    rw [List.forall_mem_cons, decryptShares]
    cases opened : client.openShares hpke scheme clientSk entry with
    | error error => simp [Opens, opened]
    | ok shares =>
      have opens : client.Opens hpke scheme clientSk entry := ⟨shares, opened⟩
      by_cases sized : shares.length = client.nOutputs.toNat
      · have kept : client.sharesOf hpke scheme clientSk entry = some ⟨shares, sized⟩ := by
          simp [sharesOf, opened, sized]
        simp only [dif_pos sized, ih, List.filterMap_cons_some kept, List.append_assoc, opens, true_and]
        exact Iff.rfl
      · have ignored : client.sharesOf hpke scheme clientSk entry = none := by
          simp [sharesOf, opened, sized]
        simp only [dif_neg sized, ih, List.filterMap_cons_none ignored, opens, true_and]

theorem readSnapshot_ok_iff {snapshot : List EncryptedShares} {columns : List (List S)} :
    client.readSnapshot hpke scheme clientSk snapshot = .ok columns ↔
      client.minShares scheme ≤ snapshot.length ∧ (∀ entry ∈ snapshot, client.Opens hpke scheme clientSk entry) ∧
        columns = (List.finRange client.nOutputs.toNat).map fun i =>
          (snapshot.filterMap (client.sharesOf hpke scheme clientSk)).map fun shares => shares.get i := by
  unfold readSnapshot
  split
  · rename_i short
    simp [short]
  · rename_i long
    constructor
    · intro read
      split at read
      · cases read
      · rename_i outputShares decrypted
        obtain ⟨opens, rfl⟩ := decryptShares_ok_iff.mp decrypted
        cases read
        exact ⟨not_lt.mp long, opens, rfl⟩
    · rintro ⟨_, opens, rfl⟩
      rw [decryptShares_ok_iff.mpr ⟨opens, rfl⟩]
      rfl

theorem readSnapshot_error_iff {snapshot : List EncryptedShares} :
    (∃ error, client.readSnapshot hpke scheme clientSk snapshot = .error error) ↔
      snapshot.length < client.minShares scheme ∨ ∃ entry ∈ snapshot, ¬ client.Opens hpke scheme clientSk entry := by
  constructor
  · rintro ⟨error, failed⟩
    by_contra! readable
    rw [readSnapshot_ok_iff.mpr ⟨readable.1, readable.2, rfl⟩] at failed
    cases failed
  · intro unreadable
    cases read : client.readSnapshot hpke scheme clientSk snapshot with
    | error error => exact ⟨error, rfl⟩
    | ok columns =>
      obtain ⟨long, opens, _⟩ := readSnapshot_ok_iff.mp read
      rcases unreadable with short | ⟨entry, member, closed⟩
      · exact absurd long (not_le.mpr short)
      · exact absurd (opens entry member) closed

/-- The number of entries whose shares are used. -/
def usable (client : OffChainCoordinatorClient) (hpke : Hpke K E) (scheme : ShareBound S V) (clientSk : K)
    (snapshot : List EncryptedShares) : Nat :=
  snapshot.countP fun entry => (client.sharesOf hpke scheme clientSk entry).isSome

theorem length_filterMap_sharesOf (snapshot : List EncryptedShares) :
    (snapshot.filterMap (client.sharesOf hpke scheme clientSk)).length = client.usable hpke scheme clientSk snapshot :=
  List.length_filterMap_eq_countP ..

/-- The share is the one of output `i` that the entry holds. -/
def Contributes (client : OffChainCoordinatorClient) (hpke : Hpke K E) (scheme : ShareBound S V) (clientSk : K) (i : Nat)
    (entry : EncryptedShares) (share : S) : Prop :=
  ∃ shares, client.openShares hpke scheme clientSk entry = .ok shares ∧ shares[i]? = some share

theorem contributes_of_sharesOf {entry : EncryptedShares} {shares : List.Vector S client.nOutputs.toNat}
    (kept : client.sharesOf hpke scheme clientSk entry = some shares) (i : Fin client.nOutputs.toNat) :
    client.Contributes hpke scheme clientSk i entry (shares.get i) := by
  unfold sharesOf at kept
  split at kept
  · cases kept
  · rename_i own opened
    split at kept
    · rename_i sized
      cases kept
      exact ⟨own, opened, List.getElem?_eq_getElem (by rw [sized]; exact i.isLt)⟩
    · cases kept

/-- The shares of one output are those of different entries. -/
theorem column_of_entries (snapshot : List EncryptedShares) (i : Fin client.nOutputs.toNat) :
    ∃ entries, entries.Sublist snapshot ∧ List.Forall₂ (client.Contributes hpke scheme clientSk i) entries
      ((snapshot.filterMap (client.sharesOf hpke scheme clientSk)).map fun shares => shares.get i) := by
  induction snapshot with
  | nil => exact ⟨[], .slnil, .nil⟩
  | cons entry rest ih =>
    obtain ⟨entries, sublist, shared⟩ := ih
    cases kept : client.sharesOf hpke scheme clientSk entry with
    | none =>
      rw [List.filterMap_cons_none kept]
      exact ⟨entries, sublist.cons _, shared⟩
    | some shares =>
      rw [List.filterMap_cons_some kept]
      exact ⟨entry :: entries, sublist.cons_cons _, .cons (contributes_of_sharesOf kept i) shared⟩

theorem mem_recoverCalls {snapshot : List EncryptedShares} {shares : List S} :
    shares ∈ client.recoverCalls hpke scheme clientSk snapshot ↔
      client.minShares scheme ≤ snapshot.length ∧ (∀ entry ∈ snapshot, client.Opens hpke scheme clientSk entry) ∧
        ∃ i : Fin client.nOutputs.toNat,
          (snapshot.filterMap (client.sharesOf hpke scheme clientSk)).map (fun shares => shares.get i) = shares := by
  unfold recoverCalls
  cases read : client.readSnapshot hpke scheme clientSk snapshot with
  | error error =>
    have unreadable := readSnapshot_error_iff.mp ⟨error, read⟩
    constructor
    · intro member
      cases member
    · rintro ⟨long, opens, _⟩
      rcases unreadable with short | ⟨entry, member, closed⟩
      · exact absurd long (not_le.mpr short)
      · exact absurd (opens entry member) closed
  | ok columns =>
    obtain ⟨long, opens, rfl⟩ := readSnapshot_ok_iff.mp read
    simp only [List.mem_map, List.mem_finRange, true_and, long]
    exact ⟨fun called => ⟨opens, called⟩, And.right⟩

/-- Every call of `recover_secret` has shares of different entries. It has as many
as are needed exactly where no call is made, or where enough entries are left once
those with a wrong number of shares are ignored: the check before that counts them. -/
theorem recover_threshold_iff (client : OffChainCoordinatorClient) (hpke : Hpke K E) (scheme : ShareBound S V)
    (clientSk : K) (snapshot : List EncryptedShares) :
    ((∀ shares ∈ client.recoverCalls hpke scheme clientSk snapshot, client.minShares scheme ≤ shares.length) ↔
      snapshot.length < client.minShares scheme ∨ (∃ entry ∈ snapshot, ¬ client.Opens hpke scheme clientSk entry) ∨
        client.nOutputs = 0 ∨ client.minShares scheme ≤ client.usable hpke scheme clientSk snapshot) ∧
    ∀ shares ∈ client.recoverCalls hpke scheme clientSk snapshot, ∃ i entries, entries.Sublist snapshot ∧
      List.Forall₂ (client.Contributes hpke scheme clientSk i) entries shares := by
  refine ⟨⟨?_, ?_⟩, ?_⟩
  · intro enough
    by_contra! unmet
    obtain ⟨long, opens, present, few⟩ := unmet
    have positive : 0 < client.nOutputs.toNat := Nat.pos_of_ne_zero fun zero => present (UInt64.toNat_inj.mp zero)
    have called := enough _ (mem_recoverCalls.mpr ⟨long, opens, ⟨0, positive⟩, rfl⟩)
    rw [List.length_map, length_filterMap_sharesOf] at called
    omega
  · intro met shares member
    obtain ⟨long, opens, i, rfl⟩ := mem_recoverCalls.mp member
    rw [List.length_map, length_filterMap_sharesOf]
    rcases met with short | ⟨entry, inside, closed⟩ | zero | enough
    · exact absurd long (not_le.mpr short)
    · exact absurd (opens entry inside) closed
    · exact absurd i.isLt (by simp [zero])
    · exact enough
  · intro shares member
    obtain ⟨_, _, i, rfl⟩ := mem_recoverCalls.mp member
    exact ⟨i, column_of_entries snapshot i⟩

/-- The entry of a party that sends its share of every output. `share i j` is the
share of output `i` that party `j` has. -/
def CorrectEntry (client : OffChainCoordinatorClient) (hpke : Hpke K E) (scheme : ShareBound S V) (clientSk : K)
    (share : Nat → Nat → S) (entry : Nat × EncryptedShares) : Prop :=
  client.openShares hpke scheme clientSk entry.2 =
    .ok ((List.range client.nOutputs.toNat).map fun i => share i entry.1)

/-- An entry that can be told to be none of an honest party. -/
inductive MalformedEntry (client : OffChainCoordinatorClient) (hpke : Hpke K E) (scheme : ShareBound S V) (clientSk : K) :
    EncryptedShares → Prop
  | unreadable {entry error} : client.openShares hpke scheme clientSk entry = .error error →
      MalformedEntry client hpke scheme clientSk entry
  | miscounted {entry shares} : client.openShares hpke scheme clientSk entry = .ok shares →
      shares.length ≠ client.nOutputs.toNat → MalformedEntry client hpke scheme clientSk entry

/-- The snapshot has the least number of entries, and all of them can be read. -/
def Orderly (client : OffChainCoordinatorClient) (hpke : Hpke K E) (scheme : ShareBound S V) (clientSk : K)
    (snapshot : List EncryptedShares) : Prop :=
  client.minShares scheme ≤ snapshot.length ∧ ∀ entry ∈ snapshot, client.Opens hpke scheme clientSk entry

/-- The entries of the snapshot are enough for all outputs, if there are any. -/
def Sufficient (client : OffChainCoordinatorClient) (hpke : Hpke K E) (scheme : ShareBound S V) (clientSk : K)
    (snapshot : List EncryptedShares) : Prop :=
  client.nOutputs = 0 ∨ client.minShares scheme ≤ client.usable hpke scheme clientSk snapshot

/-- A sufficient snapshot comes before the first one that is not orderly. -/
inductive InTime (client : OffChainCoordinatorClient) (hpke : Hpke K E) (scheme : ShareBound S V) (clientSk : K) :
    List (List EncryptedShares) → Prop
  | now {snapshot rest} : client.Orderly hpke scheme clientSk snapshot → client.Sufficient hpke scheme clientSk snapshot →
      InTime client hpke scheme clientSk (snapshot :: rest)
  | later {snapshot rest} : client.Orderly hpke scheme clientSk snapshot → InTime client hpke scheme clientSk rest →
      InTime client hpke scheme clientSk (snapshot :: rest)

/-- The entries come from different parties, and each of them is correct or malformed. -/
structure Classified (client : OffChainCoordinatorClient) (hpke : Hpke K E) (scheme : ShareBound S V) (clientSk : K)
    (share : Nat → Nat → S) (snapshot : List (Nat × EncryptedShares)) : Prop where
  distinct : (snapshot.map Prod.fst).Nodup
  parties : ∀ entry ∈ snapshot, entry.1 < client.nParties.toNat
  entries : ∀ entry ∈ snapshot,
    client.CorrectEntry hpke scheme clientSk share entry ∨ client.MalformedEntry hpke scheme clientSk entry.2

/-- The shares of different parties give the outputs, where they are enough, and
nothing where they are not. -/
def Recovers (client : OffChainCoordinatorClient) (scheme : ShareBound S V) (share : Nat → Nat → S) (output : Nat → V) :
    Prop :=
  ∀ i < client.nOutputs.toNat, ∀ parties : List Nat, parties.Nodup → (∀ party ∈ parties, party < client.nParties.toNat) →
    scheme.recoverSecret (parties.map (share i)) client.nParties.toNat client.t.toNat =
      if client.minShares scheme ≤ parties.length then some (output i) else none

section

variable {share : Nat → Nat → S} {output : Nat → V} {snapshot : List (Nat × EncryptedShares)}

theorem CorrectEntry.sharesOf_eq {entry : Nat × EncryptedShares}
    (correct : client.CorrectEntry hpke scheme clientSk share entry) :
    ∃ shares, client.sharesOf hpke scheme clientSk entry.2 = some shares ∧
      ∀ i : Fin client.nOutputs.toNat, shares.get i = share i entry.1 := by
  rw [CorrectEntry] at correct
  refine ⟨⟨(List.range client.nOutputs.toNat).map fun i => share i entry.1, by simp⟩, ?_, ?_⟩
  · simp [sharesOf, correct]
  · intro i
    simp [List.Vector.get]

theorem MalformedEntry.sharesOf_eq {entry : EncryptedShares}
    (malformed : client.MalformedEntry hpke scheme clientSk entry) : client.sharesOf hpke scheme clientSk entry = none := by
  cases malformed with
  | unreadable failed => simp [sharesOf, failed]
  | miscounted opened wrong => simp [sharesOf, opened, wrong]

/-- The parties whose entries are used. -/
def contributors (client : OffChainCoordinatorClient) (hpke : Hpke K E) (scheme : ShareBound S V) (clientSk : K)
    (snapshot : List (Nat × EncryptedShares)) : List Nat :=
  (snapshot.filter fun entry => (client.sharesOf hpke scheme clientSk entry.2).isSome).map Prod.fst

theorem length_contributors (snapshot : List (Nat × EncryptedShares)) :
    (client.contributors hpke scheme clientSk snapshot).length =
      client.usable hpke scheme clientSk (snapshot.map Prod.snd) := by
  rw [contributors, List.length_map, usable, List.countP_map, List.countP_eq_length_filter]
  rfl

theorem column_of_contributors (entries : ∀ entry ∈ snapshot, client.CorrectEntry hpke scheme clientSk share entry ∨
      client.MalformedEntry hpke scheme clientSk entry.2) (i : Fin client.nOutputs.toNat) :
    (((snapshot.map Prod.snd).filterMap (client.sharesOf hpke scheme clientSk)).map fun shares => shares.get i) =
      (client.contributors hpke scheme clientSk snapshot).map (share i) := by
  induction snapshot with
  | nil => rfl
  | cons entry rest ih =>
    obtain ⟨first, others⟩ := List.forall_mem_cons.mp entries
    rw [contributors] at ih ⊢
    rcases first with correct | malformed
    · obtain ⟨shares, kept, own⟩ := correct.sharesOf_eq
      rw [List.map_cons, List.filterMap_cons_some kept, List.filter_cons_of_pos (by rw [kept]; rfl)]
      simp only [List.map_cons, own, ih others]
    · have ignored := malformed.sharesOf_eq
      rw [List.map_cons, List.filterMap_cons_none ignored, List.filter_cons_of_neg (by simp [ignored])]
      exact ih others

/-- The number of shares is the same for all outputs, so either all of them are
recovered or none. -/
theorem recoverOutputs_eq (classified : client.Classified hpke scheme clientSk share snapshot)
    (recovers : client.Recovers scheme share output) :
    client.recoverOutputs scheme ((List.finRange client.nOutputs.toNat).map fun i =>
        ((snapshot.map Prod.snd).filterMap (client.sharesOf hpke scheme clientSk)).map fun shares => shares.get i) =
      if client.minShares scheme ≤ client.usable hpke scheme clientSk (snapshot.map Prod.snd) then
        (List.range client.nOutputs.toNat).map output
      else [] := by
  have distinct : (client.contributors hpke scheme clientSk snapshot).Nodup :=
    classified.distinct.sublist (List.filter_sublist.map _)
  have known : ∀ party ∈ client.contributors hpke scheme clientSk snapshot, party < client.nParties.toNat := by
    intro party member
    obtain ⟨entry, kept, rfl⟩ := List.mem_map.mp member
    exact classified.parties entry (List.mem_filter.mp kept).1
  have recovered : ∀ i : Fin client.nOutputs.toNat,
      scheme.recoverSecret ((client.contributors hpke scheme clientSk snapshot).map (share i)) client.nParties.toNat
        client.t.toNat =
        if client.minShares scheme ≤ client.usable hpke scheme clientSk (snapshot.map Prod.snd) then some (output i)
        else none := by
    intro i
    rw [recovers i i.isLt _ distinct known, length_contributors]
  simp only [column_of_contributors classified.entries]
  simp only [recoverOutputs, List.filterMap_map, Function.comp_def, recovered]
  split
  · rw [← List.map_coe_finRange_eq_range, List.map_map]
    exact congrFun List.filterMap_eq_map _
  · exact List.filterMap_eq_nil_iff.mpr fun _ _ => rfl

/-- The loop ends with the outputs at a snapshot that is orderly and sufficient,
or goes on after one that is orderly. -/
theorem obtainOutputsLoop_returned_iff (closed : Bool) (classified : client.Classified hpke scheme clientSk share snapshot)
    (recovers : client.Recovers scheme share output) (rest : List (Option (List EncryptedShares))) :
    client.obtainOutputsLoop hpke scheme clientSk closed (some (snapshot.map Prod.snd) :: rest) =
        .returned ((List.range client.nOutputs.toNat).map output) ↔
      client.Orderly hpke scheme clientSk (snapshot.map Prod.snd) ∧
        (client.Sufficient hpke scheme clientSk (snapshot.map Prod.snd) ∨
          client.obtainOutputsLoop hpke scheme clientSk closed rest =
            .returned ((List.range client.nOutputs.toNat).map output)) := by
  by_cases orderly : client.Orderly hpke scheme clientSk (snapshot.map Prod.snd)
  · rw [obtainOutputsLoop, readSnapshot_ok_iff.mpr ⟨orderly.1, orderly.2, rfl⟩]
    simp only [recoverOutputs_eq classified recovers, orderly, true_and]
    by_cases sufficient : client.Sufficient hpke scheme clientSk (snapshot.map Prod.snd)
    · have all : (if client.minShares scheme ≤ client.usable hpke scheme clientSk (snapshot.map Prod.snd) then
          (List.range client.nOutputs.toNat).map output else []) = (List.range client.nOutputs.toNat).map output := by
        rcases sufficient with zero | enough
        · simp [zero]
        · rw [if_pos enough]
      rw [all, if_pos (by simp)]
      exact iff_of_true rfl (Or.inl sufficient)
    · obtain ⟨present, few⟩ := not_or.mp sufficient
      rw [if_neg few, if_neg fun none => present (UInt64.toNat_inj.mp none.symm)]
      simp only [sufficient, false_or]
  · have unreadable : (snapshot.map Prod.snd).length < client.minShares scheme ∨
        ∃ entry ∈ snapshot.map Prod.snd, ¬ client.Opens hpke scheme clientSk entry := by
      by_contra! readable
      exact orderly readable
    obtain ⟨error, failed⟩ := readSnapshot_error_iff.mpr unreadable
    rw [obtainOutputsLoop, failed]
    exact iff_of_false (by simp) fun ends => orderly ends.1

theorem inTime_cons_iff {encOutputShares : List EncryptedShares} {rest : List (List EncryptedShares)} :
    client.InTime hpke scheme clientSk (encOutputShares :: rest) ↔ client.Orderly hpke scheme clientSk encOutputShares ∧
      (client.Sufficient hpke scheme clientSk encOutputShares ∨ client.InTime hpke scheme clientSk rest) := by
  constructor
  · intro inTime
    cases inTime with
    | now orderly sufficient => exact ⟨orderly, Or.inl sufficient⟩
    | later orderly inTime => exact ⟨orderly, Or.inr inTime⟩
  · rintro ⟨orderly, sufficient | inTime⟩
    · exact .now orderly sufficient
    · exact .later orderly inTime

/-- A client gets its outputs exactly when a sufficient snapshot comes before
the first one that has too few entries or one that cannot be read. -/
theorem outputs_obtained_iff (client : OffChainCoordinatorClient) (hpke : Hpke K E) (scheme : ShareBound S V) (clientSk : K)
    (share : Nat → Nat → S) (output : Nat → V) (earlier : List (List (Nat × EncryptedShares)))
    (snapshot : List (Nat × EncryptedShares)) (rest : List (Option (List EncryptedShares))) (closed : Bool)
    (key : client.parseKey hpke = .ok clientSk)
    (classified : ∀ taken ∈ earlier ++ [snapshot], client.Classified hpke scheme clientSk share taken)
    (enough : client.minShares scheme ≤ client.usable hpke scheme clientSk (snapshot.map Prod.snd))
    (recovers : client.Recovers scheme share output) :
    client.obtainOutputs hpke scheme
        (.ok ⟨(earlier ++ [snapshot]).map (fun taken => some (taken.map Prod.snd)) ++ rest, closed⟩) =
          .returned ((List.range client.nOutputs.toNat).map output) ↔
      client.InTime hpke scheme clientSk ((earlier ++ [snapshot]).map (List.map Prod.snd)) := by
  rw [obtainOutputs, key]
  -- the last of the snapshots is sufficient, so the loop does not get to `rest`
  induction earlier with
  | nil =>
    have sufficient : client.Sufficient hpke scheme clientSk (snapshot.map Prod.snd) := Or.inr enough
    simp only [List.nil_append, List.map_cons, List.map_nil, List.singleton_append, inTime_cons_iff, sufficient, true_or,
      obtainOutputsLoop_returned_iff closed (classified snapshot (by simp)) recovers rest]
  | cons first others ih =>
    rw [List.cons_append, List.forall_mem_cons] at classified
    obtain ⟨own, later⟩ := classified
    simp only [List.cons_append, List.map_cons, inTime_cons_iff, ← ih later,
      obtainOutputsLoop_returned_iff closed own recovers]

end

end OffChainCoordinatorClient

namespace Scenario

/-- A cipher without secrecy, for which nothing is neither a key nor a ciphertext. -/
def plainHpke : Hpke Unit Unit where
  fromPkcs8Der := some
  privateKeyFromBytes _ := some ()
  encappedKeyFromBytes bytes := if bytes = [] then none else some ()
  singleShotOpen _ _ _ ciphertext _ := if ciphertext = [] then none else some ciphertext

/-- A client with one output from four parties, of which one may be faulty. -/
def outputClient : OffChainCoordinatorClient := ⟨⟨Vector.replicate 32 1⟩, 1, 4, 1, []⟩

/-- The shares of three honest parties for it. -/
def honestEntries : List (Nat × EncryptedShares) := [(0, [1], [9]), (1, [1], [9]), (2, [1], [9])]

theorem correctEntry_honestEntries :
    ∀ entry ∈ honestEntries, outputClient.CorrectEntry plainHpke .plain () (fun _ _ => 9) entry := by
  simp only [honestEntries, List.forall_mem_cons]
  exact ⟨rfl, rfl, rfl, by simp⟩

theorem outputClient_recovers : outputClient.Recovers .plain (fun _ _ => 9) fun _ => 9 := by
  intro i _ parties _ _
  exact ShareBound.plain_recoverSecret 9 parties _ _

/-- The fourth party's entry has two shares for the one output, which is tolerated. -/
theorem outputs_obtained_of_miscounted :
    outputClient.obtainOutputs plainHpke .plain
      (.ok ⟨[some [([1], [7, 7]), ([1], [9]), ([1], [9]), ([1], [9])]], true⟩) = .returned [9] := by
  refine (OffChainCoordinatorClient.outputs_obtained_iff outputClient plainHpke .plain () (fun _ _ => 9) (fun _ => 9) []
    ((3, [1], [7, 7]) :: honestEntries) [] true rfl ?_ (by decide) outputClient_recovers).mpr
    (.now ⟨by decide, ?_⟩ (Or.inr (by decide)))
  · simp only [List.nil_append, List.forall_mem_singleton]
    exact ⟨by decide, by decide, List.forall_mem_cons.mpr ⟨Or.inr (.miscounted rfl (by decide)),
      fun entry member => Or.inl (correctEntry_honestEntries entry member)⟩⟩
  · exact List.forall_mem_cons.mpr ⟨⟨_, rfl⟩,
      List.forall_mem_map.mpr fun entry member => ⟨_, correctEntry_honestEntries entry member⟩⟩

/-- One party's entry with nothing for a key, or nothing for a ciphertext, ends the
call, though the entries of the three honest parties are there. So does a snapshot
that has only two entries, before the one that has all. -/
theorem malformed_entry_denies_outputs :
    (∀ entry ∈ honestEntries, outputClient.CorrectEntry plainHpke .plain () (fun _ _ => 9) entry) ∧
    outputClient.minShares .plain = honestEntries.length ∧
    outputClient.obtainOutputs plainHpke .plain (.ok ⟨[some (([], [9]) :: honestEntries.map Prod.snd)], true⟩) =
      .failed .parsingEncapsulatedKeyFailed ∧
    outputClient.obtainOutputs plainHpke .plain (.ok ⟨[some (([1], []) :: honestEntries.map Prod.snd)], true⟩) =
      .failed .decryptionError ∧
    outputClient.obtainOutputs plainHpke .plain
      (.ok ⟨[some [([1], [9]), ([1], [9])], some (honestEntries.map Prod.snd)], true⟩) =
      .failed (.subscriptionError "Received 2 output shares, but at least 3 are required") :=
  ⟨correctEntry_honestEntries, rfl, by decide +kernel, by decide +kernel, by decide +kernel⟩

/-- Three entries are there, but one of them is ignored. -/
theorem recover_below_threshold :
    outputClient.recoverCalls plainHpke .plain () [([1], [9]), ([1], [9]), ([1], [7, 7])] = [[9, 9]] ∧
    outputClient.minShares .plain = 3 := by
  decide +kernel

end Scenario

end MpcCoordinator
