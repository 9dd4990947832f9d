import MpcCoordinator.Bins.RunCoord
import MpcCoordinator.Execution.Completion
import MpcCoordinator.Server.OneOff

namespace MpcCoordinator

/-- The parts of a text before and after the first mark in it. -/
def splitOnce (mark : UInt8) : Bytes → Option (Bytes × Bytes)
  | [] => none
  | c :: rest =>
    if c = mark then some ([], rest) else (splitOnce mark rest).map fun parts => (c :: parts.1, parts.2)

/-- The conversion of a vector into an array of 32 bytes. -/
def tryInto32 (bytes : Bytes) : Option (Vector UInt8 32) :=
  if sized : bytes.toArray.size = 32 then some ⟨bytes.toArray, sized⟩ else none

/-- What is wrong with an argument, with what the `hex` crate says of its digits. -/
inductive ArgumentError where
  | executionIdLength (length : Nat)
  | invalidExecutionId (error : String)
  | validatedLength
  | zeroExecutionId
  | missingComma
  | invalidHash (error : String)
  | hashLength
  deriving DecidableEq, Repr

/-- Reads an identifier. `validatedLength` is the panic of an `expect`. -/
def ExecutionId.fromStr (hexDecode : Bytes → Except String Bytes) (value : Bytes) : Except ArgumentError ExecutionId :=
  if value.length ≠ 64 then .error (.executionIdLength value.length)
  else
    match hexDecode value with
    | .error error => .error (.invalidExecutionId error)
    | .ok bytes =>
      match tryInto32 bytes with
      | none => .error .validatedLength
      | some bytes => .ok ⟨bytes⟩

namespace RunCoord

structure OneOff where
  hash : Vector UInt8 32
  executionId : ExecutionId
  deriving DecidableEq, Repr

section

variable (hexDecode : Bytes → Except String Bytes)

def parseNonzeroExecutionId (value : Bytes) : Except ArgumentError ExecutionId :=
  match ExecutionId.fromStr hexDecode value with
  | .error error => .error error
  | .ok executionId => if executionId.isZero then .error .zeroExecutionId else .ok executionId

def parseOneOff (value : Bytes) : Except ArgumentError OneOff :=
  match splitOnce 44 value with
  | none => .error .missingComma
  | some (hash, executionId) =>
    match hexDecode hash with
    | .error error => .error (.invalidHash error)
    | .ok hash =>
      match tryInto32 hash with
      | none => .error .hashLength
      | some hash =>
        match parseNonzeroExecutionId hexDecode executionId with
        | .error error => .error error
        | .ok executionId => .ok ⟨hash, executionId⟩

variable {hexDecode}

theorem parseNonzeroExecutionId_nonzero {value : Bytes} {executionId : ExecutionId}
    (parsed : parseNonzeroExecutionId hexDecode value = .ok executionId) : executionId.isZero = false := by
  unfold parseNonzeroExecutionId at parsed
  split at parsed
  · cases parsed
  split at parsed
  · cases parsed
  · rename_i nonzero
    cases parsed
    exact eq_false_of_ne_true nonzero

theorem parseOneOff_nonzero {text : Bytes} {oneOff : OneOff} (parsed : parseOneOff hexDecode text = .ok oneOff) :
    oneOff.executionId.isZero = false := by
  unfold parseOneOff at parsed
  split at parsed
  · cases parsed
  split at parsed
  · cases parsed
  split at parsed
  · cases parsed
  split at parsed
  · cases parsed
  · rename_i identified
    cases parsed
    exact parseNonzeroExecutionId_nonzero identified

end

/-- The name of a file. -/
abbrev FileName := Bytes

/-- What the coordinator finds on its host, through other libraries: its files,
the key in a certificate, the manifest of a program, the digits of a text, and
whether there is memory for the tables of an execution. -/
structure Host (ShareType : Type) where
  read : FileName → Option Bytes
  subjectPublicKey : Bytes → Option ClientIdentity
  loadProgram : FileName → Option (ClientIoManifest ShareType)
  hexDecode : Bytes → Except String Bytes
  allocates : ExecutionRegistration → Bool

/-- The arguments of the browser listener, of which the parser requires the files. -/
structure BrowserArgs where
  tlsCertChain : FileName
  tlsKey : FileName
  webauthnRpId : Option Bytes
  deriving DecidableEq, Repr

structure Args where
  oneOff : Option Bytes
  initialMpcNodes : List FileName
  serverCert : FileName
  serverKey : FileName
  n : UInt64
  t : UInt64
  nInputs : Option UInt64
  outputClients : List FileName
  program : Option FileName
  clientBindings : List Bytes
  backend : MpcBackend
  browser : Option BrowserArgs
  deriving DecidableEq, Repr

/-- How the start can end early: the parser refuses the arguments, or `main` panics. -/
inductive StartUpError where
  | usage (error : ArgumentError)
  | unreadableCertificate (file : FileName)
  | malformedCertificate (file : FileName)
  | noParties
  | rosterLength
  | thresholdTooHigh
  | repeatedParties
  | capacityOverflow
  | invalidRoster (error : CoordinatorError)
  | unreadableFile (file : FileName)
  | browserWithOneOff
  | missingRpId
  | malformedBinding
  | invalidClientSlot
  | unloadableProgram
  | clientCount
  | unboundManifest (error : CoordinatorError)
  | missingInputCount
  | refusedRegistration (error : CoordinatorError)
  | outOfMemory
  deriving DecidableEq, Repr

abbrev StartUp (α : Type) := Except StartUpError α

/-- An assertion. -/
def require (condition : Prop) [Decidable condition] (error : StartUpError) : StartUp Unit :=
  if condition then .ok () else .error error

def expect {α : Type} (value : Option α) (error : StartUpError) : StartUp α :=
  match value with
  | none => .error error
  | some value => .ok value

/-- A result whose error is one of this program. -/
def expectOk {ε α : Type} (result : Except ε α) (error : ε → StartUpError) : StartUp α :=
  match result with
  | .error failed => .error (error failed)
  | .ok value => .ok value

/-- The digits of a number, as long as it fits. -/
def parseDigits : Nat → Bytes → Option Nat
  | value, [] => some value
  | value, c :: rest =>
    if 48 ≤ c ∧ c ≤ 57 ∧ 10 * value + (c - 48).toNat < UInt64.size then parseDigits (10 * value + (c - 48).toNat) rest
    else none

def parseU64 (text : Bytes) : Option UInt64 :=
  match text with
  | [] => none
  | [43] => none
  | 43 :: digits => (parseDigits 0 digits).map UInt64.ofNat
  | digits => (parseDigits 0 digits).map UInt64.ofNat

section

variable {ShareType : Type} (host : Host ShareType)

def parsePublicKey (certFile : FileName) : StartUp ClientIdentity := do
  let certDer ← expect (host.read certFile) (.unreadableCertificate certFile)
  expect (host.subjectPublicKey certDer) (.malformedCertificate certFile)

def parsePublicKeys (certFiles : List FileName) : StartUp (List ClientIdentity) :=
  certFiles.mapM (parsePublicKey host)

/-- A binding has the form `<client_slot>=<cert>`. -/
def bindingKey (binding : Bytes) : StartUp (UInt64 × ClientIdentity) := do
  let (slot, certFile) ← expect (splitOnce 61 binding) .malformedBinding
  let slot ← expect (parseU64 slot) .invalidClientSlot
  let key ← parsePublicKey host certFile
  return (slot, key)

/-- The roster, which is checked again by the coordinator's own constructor. -/
def newTopology (n t : UInt64) (publicKeys : List ClientIdentity) : StartUp Topology :=
  if fits : publicKeys.length < 2 ^ 63 then
    match valid : validateTopology n t ⟨publicKeys, fits⟩ with
    | .error error => .error (.invalidRoster error)
    | .ok () => .ok ⟨n, t, ⟨publicKeys, fits⟩, valid⟩
  else .error .capacityOverflow

/-- The execution that the command line describes, by a program or by its numbers. -/
def oneOffExecution (args : Args) (outputClientKeys : List ClientIdentity) (oneOff : OneOff) :
    StartUp ExecutionRegistration :=
  match args.program with
  | some programPath => do
    let manifest ← expect (host.loadProgram programPath) .unloadableProgram
    let given ← args.clientBindings.mapM (bindingKey host)
    let bindings ← expect (clientBindings manifest given outputClientKeys) .clientCount
    expectOk (oneOffRegistration oneOff.hash oneOff.executionId args.t manifest bindings) .unboundManifest
  | none => do
    let nInputs ← expect args.nInputs .missingInputCount
    return {
      executionId := oneOff.executionId
      programHash := oneOff.hash
      nInputs := nInputs
      outputClients := outputClientKeys
      inputAssignment := ⟨[], []⟩
      minOutputShares := minOutputShares args.t args.backend }

/-- What `main` hands over to one of its two loops. -/
inductive Started where
  | oneOff (topology : Topology) (registration : ExecutionRegistration) (state : OneOffServerState)
  | standing (topology : Topology) (shared : CoordinatorRPCServerSharedBase)

/-- What the parser makes of the one-off argument. -/
def parseArg : Option Bytes → StartUp (Option OneOff)
  | none => .ok none
  | some text => do
    let oneOff ← expectOk (parseOneOff host.hexDecode text) .usage
    return some oneOff

/-- The files of the browser listener, and the name that it is reached by. -/
def openBrowser : Option BrowserArgs → StartUp Unit
  | none => .ok ()
  | some browser => do
    let _ ← expect (host.read browser.tlsCertChain) (.unreadableFile browser.tlsCertChain)
    let _ ← expect (host.read browser.tlsKey) (.unreadableFile browser.tlsKey)
    let _ ← expect browser.webauthnRpId .missingRpId

/-- Registers the execution of a one-off coordinator. -/
def configure (args : Args) (topology : Topology) (outputClientKeys : List ClientIdentity) :
    Option OneOff → StartUp Started
  | none => .ok (.standing topology .new)
  | some oneOff => do
    let registration ← oneOffExecution host args outputClientKeys oneOff
    let state ← expectOk (OneOffServerState.start topology registration) .refusedRegistration
    require (host.allocates registration = true) .outOfMemory
    return .oneOff topology registration state

/-- `main` up to the call that listens and serves. Setting up TLS and binding the
port are left to that call. -/
def startUp (args : Args) : StartUp Started := do
  let oneOff ← parseArg host args.oneOff
  let publicKeys ← parsePublicKeys host args.initialMpcNodes
  require (0 < args.n) .noParties
  require (publicKeys.length = args.n.toNat) .rosterLength
  require (args.t < args.n) .thresholdTooHigh
  require (publicKeys.toFinset.card = publicKeys.length) .repeatedParties
  let outputClientKeys ← parsePublicKeys host args.outputClients
  let _ ← expect (host.read args.serverCert) (.unreadableFile args.serverCert)
  let _ ← expect (host.read args.serverKey) (.unreadableFile args.serverKey)
  require (args.browser = none ∨ args.oneOff = none) .browserWithOneOff
  openBrowser host args.browser
  let topology ← newTopology args.n args.t publicKeys
  configure host args topology outputClientKeys oneOff

variable {host} {args : Args} {text : Bytes} {started : Started}

theorem bind_ok_iff {α β : Type} {first : StartUp α} {next : α → StartUp β} {result : β} :
    (first >>= next) = .ok result ↔ ∃ value, first = .ok value ∧ next value = .ok result := by
  cases first with
  | error error => simp [bind, Except.bind]
  | ok value => simp [bind, Except.bind]

theorem return_ok_iff {α : Type} {value result : α} : (pure value : StartUp α) = .ok result ↔ value = result := by
  simp [pure, Except.pure]

theorem require_ok_iff {condition : Prop} [Decidable condition] {error : StartUpError} {done : Unit} :
    require condition error = .ok done ↔ condition := by
  unfold require
  split <;> simp_all

theorem expect_ok_iff {α : Type} {value : Option α} {error : StartUpError} {result : α} :
    expect value error = .ok result ↔ value = some result := by
  cases value <;> simp [expect]

theorem expectOk_ok_iff {ε α : Type} {outcome : Except ε α} {error : ε → StartUpError} {result : α} :
    expectOk outcome error = .ok result ↔ outcome = .ok result := by
  cases outcome <;> simp [expectOk]

theorem startUp_ok_iff (given : args.oneOff = some text) :
    startUp host args = .ok started ↔ ∃ oneOff keys outputKeys topology registration state,
      parseOneOff host.hexDecode text = .ok oneOff ∧ parsePublicKeys host args.initialMpcNodes = .ok keys ∧ 0 < args.n ∧
      keys.length = args.n.toNat ∧ args.t < args.n ∧ keys.toFinset.card = keys.length ∧
      parsePublicKeys host args.outputClients = .ok outputKeys ∧ (host.read args.serverCert).isSome = true ∧
      (host.read args.serverKey).isSome = true ∧ args.browser = none ∧ newTopology args.n args.t keys = .ok topology ∧
      oneOffExecution host args outputKeys oneOff = .ok registration ∧
      OneOffServerState.start topology registration = .ok state ∧ host.allocates registration = true ∧
      started = .oneOff topology registration state := by
  unfold startUp
  rw [given]
  simp only [parseArg, bind_ok_iff, require_ok_iff, expect_ok_iff, expectOk_ok_iff, return_ok_iff]
  constructor
  · rintro ⟨_, ⟨oneOff, parsed, rfl⟩, keys, read, _, positive, _, length, _, below, _, distinct, outputKeys, outputs, _,
      cert, _, key, _, browser, _, _, topology, roster, configured⟩
    have none : args.browser = none := by simpa using browser
    simp only [configure, bind_ok_iff, expectOk_ok_iff, require_ok_iff, return_ok_iff] at configured
    obtain ⟨registration, described, state, registered, _, memory, rfl⟩ := configured
    exact ⟨oneOff, keys, outputKeys, topology, registration, state, parsed, read, positive, length, below, distinct,
      outputs, Option.isSome_of_mem cert, Option.isSome_of_mem key, none, roster, described, registered, memory, rfl⟩
  · rintro ⟨oneOff, keys, outputKeys, topology, registration, state, parsed, read, positive, length, below, distinct,
      outputs, cert, key, none, roster, described, registered, memory, rfl⟩
    obtain ⟨certDer, cert⟩ := Option.isSome_iff_exists.mp cert
    obtain ⟨keyDer, key⟩ := Option.isSome_iff_exists.mp key
    refine ⟨_, ⟨oneOff, parsed, rfl⟩, keys, read, (), positive, (), length, (), below, (), distinct, outputKeys, outputs,
      certDer, cert, keyDer, key, (), Or.inl none, (), by rw [none]; rfl, topology, roster, ?_⟩
    simp only [configure, bind_ok_iff, expectOk_ok_iff, require_ok_iff, return_ok_iff]
    exact ⟨registration, described, state, registered, (), memory, rfl⟩

theorem newTopology_ok_iff {n t : UInt64} {keys : List ClientIdentity} {topology : Topology} :
    newTopology n t keys = .ok topology ↔ topology.n = n ∧ topology.t = t ∧ topology.mpcNodes.val = keys := by
  unfold newTopology
  constructor
  · intro made
    split at made
    · split at made
      · cases made
      · cases made
        exact ⟨rfl, rfl, rfl⟩
    · cases made
  · rintro ⟨rfl, rfl, rfl⟩
    rw [dif_pos topology.mpcNodes.property]
    split
    · rename_i error invalid
      cases topology.valid.symm.trans invalid
    · rfl

/-- The command line has what the execution is made of: the number of its inputs,
or a program with a binding for every slot. -/
def Described (host : Host ShareType) (args : Args) (outputKeys : List ClientIdentity) : Prop :=
  match args.program with
  | none => args.nInputs.isSome = true
  | some programPath => ∃ manifest given bindings, host.loadProgram programPath = some manifest ∧
      args.clientBindings.mapM (bindingKey host) = .ok given ∧
      clientBindings manifest given outputKeys = some bindings ∧ Bindable manifest bindings

/-- The programs that are loaded have fewer clients than there are indices of them. -/
def FewClients (host : Host ShareType) (args : Args) : Prop :=
  ∀ programPath manifest, args.program = some programPath → host.loadProgram programPath = some manifest →
    manifest.clients.length < UInt32.size

section

variable {outputKeys : List ClientIdentity} {oneOff : OneOff} {registration : ExecutionRegistration}

/-- What is described is a registration for the hash and the identifier. It is
admitted by a roster with the threshold, unless one of these is zero. -/
theorem oneOffExecution_ok (few : FewClients host args)
    (described : oneOffExecution host args outputKeys oneOff = .ok registration) :
    Described host args outputKeys ∧ registration.executionId = oneOff.executionId ∧
      registration.programHash = oneOff.hash ∧ ∀ topology : Topology, topology.t = args.t →
        (CoordinatorExecutionState.new registration topology.n = .ok (.fresh registration) ↔
          oneOff.executionId.isZero = false ∧ oneOff.hash ≠ Vector.replicate 32 0) := by
  unfold oneOffExecution at described
  cases path : args.program with
  | none =>
    simp only [path, bind_ok_iff, expect_ok_iff, return_ok_iff] at described
    obtain ⟨nInputs, given, rfl⟩ := described
    refine ⟨by rw [Described, path]; exact Option.isSome_of_mem given, rfl, rfl, fun topology same => ?_⟩
    have quorum := minOutputShares_admitted topology args.backend
    rw [same] at quorum
    rw [CoordinatorExecutionState.new_of_assigned (Or.inl rfl) (by simp)]
    exact ⟨fun all => ⟨all.1, all.2.1⟩, fun both => ⟨both.1, both.2, quorum⟩⟩
  | some programPath =>
    simp only [path, bind_ok_iff, expect_ok_iff, expectOk_ok_iff] at described
    obtain ⟨manifest, loaded, given, parsed, bindings, bound, registered⟩ := described
    have fits := few programPath manifest path loaded
    rw [oneOffRegistration] at registered
    cases built : buildInputAssignment manifest bindings with
    | error failed =>
      rw [built] at registered
      cases registered
    | ok layout =>
      rw [built] at registered
      cases registered
      obtain ⟨accepted, rfl⟩ := (buildInputAssignment_ok fits).mp built
      refine ⟨?_, rfl, rfl, fun topology same => ?_⟩
      · rw [Described, path]
        exact ⟨manifest, given, bindings, loaded, parsed, bound, accepted⟩
      · have quorum := minOutputShares_admitted topology manifest.mpcBackend
        rw [same] at quorum
        rw [(laidOut fits accepted).admitted rfl rfl]
        exact ⟨fun all => ⟨all.1, all.2.1⟩, fun both => ⟨both.1, both.2, quorum⟩⟩

theorem exists_oneOffExecution (few : FewClients host args) (described : Described host args outputKeys)
    (oneOff : OneOff) : ∃ registration, oneOffExecution host args outputKeys oneOff = .ok registration := by
  unfold oneOffExecution
  unfold Described at described
  cases path : args.program with
  | none =>
    rw [path] at described
    obtain ⟨nInputs, given⟩ := Option.isSome_iff_exists.mp described
    simp only [bind_ok_iff, expect_ok_iff, return_ok_iff]
    exact ⟨_, nInputs, given, rfl⟩
  | some programPath =>
    rw [path] at described
    obtain ⟨manifest, given, bindings, loaded, parsed, bound, accepted⟩ := described
    have fits := few programPath manifest path loaded
    obtain ⟨registration, registered⟩ : ∃ registration,
        oneOffRegistration oneOff.hash oneOff.executionId args.t manifest bindings = .ok registration := by
      rw [oneOffRegistration, (buildInputAssignment_ok fits).mpr ⟨accepted, rfl⟩]
      exact ⟨_, rfl⟩
    simp only [bind_ok_iff, expect_ok_iff, expectOk_ok_iff]
    exact ⟨registration, manifest, loaded, given, parsed, bindings, bound, registered⟩

end

/-- Arguments that fit together, files that can be read, and memory for what they
describe. -/
structure Acceptable (host : Host ShareType) (args : Args) (text : Bytes) (oneOff : OneOff)
    (keys outputKeys : List ClientIdentity) : Prop where
  parsed : parseOneOff host.hexDecode text = .ok oneOff
  hashed : oneOff.hash ≠ Vector.replicate 32 0
  nodes : parsePublicKeys host args.initialMpcNodes = .ok keys
  capacity : keys.length < 2 ^ 63
  count : keys.length = args.n.toNat
  distinct : keys.Nodup
  majority : 2 * args.t.toNat + 1 ≤ args.n.toNat
  clients : parsePublicKeys host args.outputClients = .ok outputKeys
  serverCert : (host.read args.serverCert).isSome = true
  serverKey : (host.read args.serverKey).isSome = true
  browser : args.browser = none
  described : Described host args outputKeys
  memory : ∀ registration, oneOffExecution host args outputKeys oneOff = .ok registration →
    host.allocates registration = true

/-- Any quorum of the parties can bring a new execution to its end. -/
theorem canFinish_fresh {topology : Topology} {registration : ExecutionRegistration} {voters : Finset ClientIdentity}
    (admitted : CoordinatorExecutionState.new registration topology.n = .ok (.fresh registration))
    (roster : voters ⊆ topology.parties) (quorate : topology.transitionQuorum.toNat ≤ voters.card) :
    CoordinatorExecutionState.CanFinish topology voters (.fresh registration) := by
  refine (CoordinatorExecutionState.Sound.start admitted).canFinish_of_idle roster quorate rfl ?_
  rintro ⟨_, proposed, _⟩
  cases proposed

/-- The one execution that a one-off coordinator starts with. -/
theorem live_start {topology : Topology} {registration : ExecutionRegistration} {state : OneOffServerState}
    (started : OneOffServerState.start topology registration = .ok state) (executionId : ExecutionId) :
    state.server.live executionId = if executionId = registration.executionId then some (.fresh registration) else none := by
  obtain ⟨d, admitted, server, _⟩ := OneOffServerState.start_ok started
  obtain ⟨rfl, _⟩ := CoordinatorExecutionState.new_cases admitted
  rw [server]
  split
  · rename_i same
    rw [same]
    exact CoordinatorRPCServerSharedBase.lookup_put_self _
  · rename_i different
    exact (CoordinatorRPCServerSharedBase.lookup_put_of_ne _ different).trans (Finmap.lookup_empty _)

theorem acceptable_of_startUp (few : FewClients host args) (given : args.oneOff = some text)
    (done : startUp host args = .ok started) : ∃ oneOff keys outputKeys, Acceptable host args text oneOff keys outputKeys := by
  obtain ⟨oneOff, keys, outputKeys, topology, registration, state, parsed, read, _, _, _, _, outputs, cert, key, none,
    roster, described, started, memory, _⟩ := (startUp_ok_iff given).mp done
  obtain ⟨n, t, rfl⟩ := newTopology_ok_iff.mp roster
  obtain ⟨length, distinct, majority⟩ := validateTopology_ok_iff.mp topology.valid
  obtain ⟨whole, _, _, admits⟩ := oneOffExecution_ok few described
  obtain ⟨d, admitted, _⟩ := OneOffServerState.start_ok started
  obtain ⟨rfl, _⟩ := CoordinatorExecutionState.new_cases admitted
  have hashed := ((admits topology t).mp admitted).2
  rw [n] at length majority
  rw [t] at majority
  refine ⟨oneOff, _, outputKeys, parsed, hashed, read, topology.mpcNodes.property, length, distinct, majority, outputs,
    cert, key, none, whole, fun other again => ?_⟩
  rw [← Except.ok.inj (described.symm.trans again)]
  exact memory

theorem Acceptable.startUp {oneOff : OneOff} {keys outputKeys : List ClientIdentity} (few : FewClients host args)
    (given : args.oneOff = some text) (fit : Acceptable host args text oneOff keys outputKeys) :
    ∃ started, RunCoord.startUp host args = .ok started := by
  have valid : validateTopology args.n args.t ⟨keys, fit.capacity⟩ = .ok () :=
    validateTopology_ok_iff.mpr ⟨fit.count, fit.distinct, fit.majority⟩
  let topology : Topology := ⟨args.n, args.t, ⟨keys, fit.capacity⟩, valid⟩
  have below : args.t < args.n := topology.checks.2.2.1
  have positive : 0 < args.n := by
    rw [UInt64.lt_iff_toNat_lt] at below ⊢
    exact Nat.zero_lt_of_lt below
  have nonzero : oneOff.executionId.isZero = false := parseOneOff_nonzero fit.parsed
  obtain ⟨registration, described⟩ := exists_oneOffExecution few fit.described oneOff
  obtain ⟨_, _, _, admits⟩ := oneOffExecution_ok few described
  obtain ⟨state, started⟩ : ∃ state, OneOffServerState.start topology registration = .ok state := by
    rw [OneOffServerState.start_eq, (admits topology rfl).mpr ⟨nonzero, fit.hashed⟩]
    exact ⟨_, rfl⟩
  exact ⟨_, (startUp_ok_iff given).mpr ⟨oneOff, keys, outputKeys, topology, registration, state, fit.parsed, fit.nodes,
    positive, fit.count, below, List.toFinset_card_of_nodup fit.distinct, fit.clients, fit.serverCert, fit.serverKey,
    fit.browser, newTopology_ok_iff.mpr ⟨rfl, rfl, rfl⟩, described, started, fit.memory _ described, rfl⟩⟩

end

/-- The digits of 32 equal bytes below ten. -/
def digits (byte : UInt8) : Bytes := (List.replicate 32 [48, 48 + byte]).flatten

/-- Files that hold their own names, one program, and two texts of digits. -/
def namedHost : Host Unit where
  read := some
  subjectPublicKey := some
  loadProgram _ := some threeSlots
  hexDecode text :=
    if text = digits 1 then .ok (List.replicate 32 1)
    else if text = digits 2 then .ok (List.replicate 32 2)
    else .error "Odd number of digits"
  allocates registration := decide (registration.nInputs < 1000)

def threeOneOff : OneOff := ⟨Vector.replicate 32 1, ⟨Vector.replicate 32 2⟩⟩

/-- Three nodes, and the three slots bound out of their order. -/
def threeArgs : Args where
  oneOff := some (digits 1 ++ 44 :: digits 2)
  initialMpcNodes := [[1], [2], [3]]
  serverCert := [4]
  serverKey := [5]
  n := 3
  t := 1
  nInputs := none
  outputClients := []
  program := some []
  clientBindings := [[50, 61, 8], [53, 61, 9], [48, 61, 7]]
  backend := .honeyBadger
  browser := none

theorem fewClients_threeArgs : FewClients namedHost threeArgs := by
  intro programPath manifest _ loaded
  cases loaded
  decide

theorem acceptable_threeArgs : Acceptable namedHost threeArgs (digits 1 ++ 44 :: digits 2) threeOneOff
    [[1], [2], [3]] [] where
  parsed := by decide +kernel
  hashed := by decide
  nodes := rfl
  capacity := by decide
  count := rfl
  distinct := by decide
  majority := by decide
  clients := rfl
  serverCert := rfl
  serverKey := rfl
  browser := rfl
  described := by
    have built : buildInputAssignment threeSlots [(2, [8]), (5, [9]), (0, [7])] =
        .ok (⟨[[8], [7]], [⟨0, 1⟩, ⟨1, 2⟩]⟩, [[8], [9]]) := rfl
    exact ⟨threeSlots, [(2, [8]), (5, [9]), (0, [7])], _, rfl, rfl, rfl, ((buildInputAssignment_ok (by decide)).mp built).1⟩
  memory := by
    intro registration described
    cases described
    decide

end RunCoord

end MpcCoordinator
