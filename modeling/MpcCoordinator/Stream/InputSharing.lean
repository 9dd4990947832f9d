import MpcCoordinator.Stream.Inputs
import MpcCoordinator.Client.Unmask
import MpcCoordinator.Output.Delivery
import Mathlib.Algebra.Field.ZMod

namespace MpcCoordinator

open Polynomial

section Shamir

variable {F S : Type} [Field F]

/-- A scheme whose shares are values of polynomials of bounded degree, and in
which a mask is taken off share by share. -/
structure Shamir (scheme : ShareBound S F) (t : Nat) where
  share : F[X] → F → Nat → S
  value : S → F
  value_share : ∀ f point id, value (share f point id) = f.eval point
  unmasked : ∀ masked f point id,
    scheme.computeMaskedInput masked (share f point id) = some (share (unmask masked f) point id)
  enough : t < scheme.minShares t

theorem RobustShare.lt_minShares (t : Nat) : t < minShares t := by
  unfold minShares
  omega

theorem RobustShare.minShares_pos (t : Nat) : 0 < minShares t := Nat.zero_lt_of_lt (lt_minShares t)

theorem FeldmanShamirShare.lt_minShares (t : Nat) : t < minShares t := Nat.lt_succ_self t

noncomputable def Shamir.robust {scheme : ShareBound (RobustShare F) F} (t : Nat)
    (unmasks : scheme.computeMaskedInput = RobustShare.computeMaskedInput)
    (threshold : scheme.minShares = RobustShare.minShares) : Shamir scheme t where
  share f point id := .ofPolynomial f point id t
  value share := share.share.get 0
  value_share _ _ _ := rfl
  unmasked masked f point id := by
    rw [unmasks, RobustShare.computeMaskedInput_ofPolynomial]
  enough := threshold ▸ RobustShare.lt_minShares t

noncomputable def Shamir.feldman {G : Type} [AddCommGroup G] [Module F G] (generator : G)
    {scheme : ShareBound (FeldmanShamirShare F G) F} (t : Nat)
    (unmasks : scheme.computeMaskedInput = FeldmanShamirShare.computeMaskedInput generator)
    (threshold : scheme.minShares = FeldmanShamirShare.minShares) : Shamir scheme t where
  share f point id := .ofPolynomial generator f point id t
  value share := share.share.get 0
  value_share _ _ _ := rfl
  unmasked masked f point id := by
    rw [unmasks, FeldmanShamirShare.computeMaskedInput_ofPolynomial]
  enough := threshold ▸ FeldmanShamirShare.lt_minShares t

variable {scheme : ShareBound S F} {t : Nat}

/-- The mask shares of one party, one for each index. -/
def Shamir.maskShares (shamir : Shamir scheme t) (mask : Nat → F[X]) (point : F) (id : Nat) (nInputs : UInt64) : List S :=
  (List.range nInputs.toNat).map fun i => shamir.share (mask i) point id

theorem Shamir.shareOf_maskShares (shamir : Shamir scheme t) (mask : Nat → F[X]) (point : F) (id : Nat)
    {nInputs : UInt64} {input : MaskedInput F} (bound : input.index < nInputs) :
    scheme.shareOf (shamir.maskShares mask point id nInputs) input =
      some (shamir.share (unmask input.value (mask input.index.toNat)) point id) := by
  have stored : (shamir.maskShares mask point id nInputs)[input.index.toNat]? =
      some (shamir.share (mask input.index.toNat) point id) := by
    simp [maskShares, UInt64.lt_iff_toNat_lt.mp bound]
  rw [ShareBound.shareOf, stored, Option.bind_some, shamir.unmasked]

theorem Shamir.computes (shamir : Shamir scheme t) (mask : Nat → F[X]) (point : F) (id : Nat) (nInputs : UInt64) :
    ∀ value, ∀ maskShare ∈ shamir.maskShares mask point id nInputs,
      (scheme.computeMaskedInput value maskShare).isSome = true := by
  intro value maskShare member
  obtain ⟨i, _, rfl⟩ := List.mem_map.mp member
  rw [shamir.unmasked]
  rfl

/-- Enough parties' shares of what is left of a masked value give the value. -/
theorem Shamir.interpolate_unmasked (shamir : Shamir scheme t) {parties : Finset Nat} {point : Nat → F} {f : F[X]}
    (distinct : Set.InjOn point parties) (bounded : f.natDegree ≤ t) (enough : scheme.minShares t ≤ parties.card)
    (value : F) :
    (Lagrange.interpolate parties point fun p =>
      shamir.value (shamir.share (unmask (value + f.eval 0) f) (point p) p)).eval 0 = value := by
  simp only [shamir.value_share]
  rw [interpolate_shares distinct (natDegree_unmask_le _ bounded) (lt_of_lt_of_le shamir.enough enough), eval_unmask,
    add_sub_cancel_right]

end Shamir

section Order

variable {S V : Type} {scheme : ShareBound S V} {maskShares : List S}

/-- There is one list of a client's inputs by ascending index. -/
theorem eq_of_ascending {first second : List (MaskedInput V)} (perm : first.Perm second)
    (below : first.Pairwise fun a b => a.index < b.index) (above : second.Pairwise fun a b => a.index < b.index) :
    first = second := by
  refine perm.eq_of_pairwise (fun a b _ _ less more => ?_) below above
  exact absurd more (UInt64.lt_asymm less)

/-- The share of a client's `k`th input is the `k`th of its shares. -/
theorem Reconstructs.getElem? {inputs own : List (MaskedInput V)} {map : Table ClientIdentity (List S)}
    {client : ClientIdentity} {k : Nat} {input : MaskedInput V} {share : S}
    (reconstructs : Reconstructs scheme maskShares inputs map)
    (perm : own.Perm (inputs.filter fun input => decide (input.client = client)))
    (sorted : own.Pairwise fun a b => a.index < b.index) (placed : own[k]? = some input)
    (computed : scheme.shareOf maskShares input = some share) :
    ∃ shares, map client = some shares ∧ shares[k]? = some share := by
  have mine := List.mem_filter.mp (perm.mem_iff.mp (List.mem_of_getElem? placed))
  cases found : map client with
  | none => exact absurd (of_decide_eq_true mine.2) ((reconstructs.absent client).mp found input mine.1)
  | some shares =>
    obtain ⟨listed, same, ascending, computedAll⟩ := reconstructs.ordered client shares found
    obtain rfl : listed = own := eq_of_ascending (same.trans perm.symm) ascending sorted
    have here := congrArg (fun results => results[k]?) computedAll
    simp only [List.getElem?_map, placed, Option.map_some, computed] at here
    refine ⟨shares, rfl, ?_⟩
    obtain ⟨held, stored, rest⟩ := Option.map_eq_some_iff.mp here.symm
    rw [stored, Option.some.inj rest]

end Order

section Masks

variable {F : Type} [Field F]

/-- An input with the mask of its index on it. -/
noncomputable def MaskedInput.blind (mask : Nat → F[X]) (input : MaskedInput F) : MaskedInput F :=
  { input with value := input.value + (mask input.index.toNat).eval 0 }

noncomputable def MaskedInput.reveal (mask : Nat → F[X]) (input : MaskedInput F) : MaskedInput F :=
  { input with value := input.value - (mask input.index.toNat).eval 0 }

@[simp] theorem MaskedInput.blind_reveal (mask : Nat → F[X]) (input : MaskedInput F) :
    (input.reveal mask).blind mask = input := by
  simp [blind, reveal]

@[simp] theorem MaskedInput.reveal_blind (mask : Nat → F[X]) (input : MaskedInput F) :
    (input.blind mask).reveal mask = input := by
  simp [blind, reveal]

theorem InputsOf.reveal {mask : Nat → F[X]} {encode : F → Bytes} {d : CoordinatorExecutionState}
    {inputs : List (MaskedInput F)} (inputsOf : InputsOf (fun input => encode input.value) d inputs) :
    InputsOf (fun input => encode (input.value + (mask input.index.toNat).eval 0)) d
      (inputs.map (MaskedInput.reveal mask)) := by
  refine ⟨?_, fun input => ?_⟩
  · rw [List.map_map]
    exact inputsOf.once
  · have moved : input ∈ inputs.map (MaskedInput.reveal mask) ↔ input.blind mask ∈ inputs := by
      constructor
      · intro member
        obtain ⟨masked, inside, rfl⟩ := List.mem_map.mp member
        rwa [MaskedInput.blind_reveal]
      · intro inside
        exact List.mem_map.mpr ⟨_, inside, MaskedInput.reveal_blind mask input⟩
    exact moved.trans (inputsOf.held (input.blind mask))

/-- The inputs of a client stand in one order, masked or not. -/
theorem perm_blind {mask : Nat → F[X]} {inputs own : List (MaskedInput F)} {client : ClientIdentity}
    (perm : own.Perm ((inputs.map (MaskedInput.reveal mask)).filter fun input => decide (input.client = client))) :
    (own.map (MaskedInput.blind mask)).Perm (inputs.filter fun input => decide (input.client = client)) := by
  have blinded := perm.map (MaskedInput.blind mask)
  rw [List.filter_map, List.map_map] at blinded
  have same : MaskedInput.blind mask ∘ MaskedInput.reveal mask = id := funext (MaskedInput.blind_reveal mask)
  rw [same, List.map_id] at blinded
  exact blinded

end Masks

namespace StreamServerState

variable {F S : Type} [Field F] {scheme : ShareBound S F} {t : Nat} {encode : F → Bytes}
  {listener : CoordinatorListener} {s : StreamServerState} {e : ExecutionId} {d : CoordinatorExecutionState}
  {trace : List (Transition StreamServerState StreamEvent)}

/-- Clients that put the mask of its index on each input, and nodes that hold
shares of these masks: after any run in which the execution stays registered and
accepted no batch that repeats an index, every node that has received all inputs
gets a share of each, at the same place of the same client's list, and enough of
the nodes' shares give the input as it was before the mask. -/
theorem inputs_round_trip (shamir : Shamir scheme t) (run : Run (Step listener) start trace s)
    (remains : Remains e trace) (here : s.live e = some d) (once : (d.maskedPairs.map Prod.fst).Nodup)
    (roundTrip : ∀ value, scheme.deserializeValue (encode value) = some value) (mask : Nat → F[X])
    (bounded : ∀ i, (mask i).natDegree ≤ t)
    (masked : ∀ i x, d.maskedInputs.read i = some x → ∃ value, x = encode (value + (mask i).eval 0)) :
    ∃ inputs : List (MaskedInput F),
      InputsOf (fun input => encode (input.value + (mask input.index.toNat).eval 0)) d inputs ∧
      ∀ (parties : Finset Nat) (point : Nat → F) (sinks : Nat → SubscriptionSink) (closed : Bool),
        Set.InjOn point parties → scheme.minShares t ≤ parties.card →
        (∀ p ∈ parties, s.Follows e (sinks p) ∧
          (s.inputsReceived (sinks p)).length = d.registration.nInputs.toNat) →
        ∃ maps : Nat → Table ClientIdentity (List S),
          (∀ p ∈ parties, waitForInputs scheme (shamir.maskShares mask (point p) p d.registration.nInputs)
            d.registration.nInputs (.ok ⟨s.received (sinks p), closed⟩) = .returned (maps p)) ∧
          ∀ (client : ClientIdentity) (own : List (MaskedInput F)),
            own.Perm (inputs.filter fun input => decide (input.client = client)) →
            own.Pairwise (fun a b => a.index < b.index) →
            ∀ (k : Nat) (input : MaskedInput F), own[k]? = some input →
              ∃ shares : Nat → S,
                (∀ p ∈ parties, ∃ listed, maps p client = some listed ∧ listed[k]? = some (shares p)) ∧
                (Lagrange.interpolate parties point fun p => shamir.value (shares p)).eval 0 = input.value := by
  obtain ⟨registration, initial, calls, admitted, served⟩ := exists_execution_run run here
  obtain ⟨batches, events, inputsOf⟩ := CoordinatorExecutionState.exists_inputBatches admitted served once roundTrip
    fun i x held => (masked i x held).imp' _ fun _ same => same
  have indices := inputsOf.index_lt (.of_run admitted served)
  refine ⟨_, inputsOf.reveal, fun parties point sinks closed distinct enough followed => ?_⟩
  have each : ∀ p ∈ parties, ∃ map,
      Reconstructs scheme (shamir.maskShares mask (point p) p d.registration.nInputs)
        (batches.flatMap InputBatch.inputs) map ∧
      waitForInputs scheme (shamir.maskShares mask (point p) p d.registration.nInputs) d.registration.nInputs
        (.ok ⟨s.received (sinks p), closed⟩) = .returned map := by
    intro p member
    obtain ⟨follows, all⟩ := followed p member
    obtain ⟨arrived, later, split, same, _⟩ := exists_arrived run remains here events follows
    rw [length_inputsReceived same] at all
    rw [same]
    exact (waitForInputs_of_arrived roundTrip (congrArg _ split) inputsOf.once indices (by simp [Shamir.maskShares])
      (shamir.computes mask (point p) p _) closed).1 all
  choose! maps reconstructs returned using each
  refine ⟨maps, returned, fun client own perm sorted k input placed => ?_⟩
  have blinded : (own.map (MaskedInput.blind mask))[k]? = some (input.blind mask) := by
    rw [List.getElem?_map, placed, Option.map_some]
  have ascending : (own.map (MaskedInput.blind mask)).Pairwise fun a b => a.index < b.index :=
    List.pairwise_map.mpr sorted
  have member : input.blind mask ∈ batches.flatMap InputBatch.inputs :=
    (List.mem_filter.mp ((perm_blind perm).mem_iff.mp (List.mem_of_getElem? blinded))).1
  refine ⟨fun p => shamir.share (unmask (input.blind mask).value (mask input.index.toNat)) (point p) p,
    fun p inside => ?_, ?_⟩
  · exact (reconstructs p inside).getElem? (perm_blind perm) ascending blinded
      (shamir.shareOf_maskShares mask (point p) p (indices _ member))
  · exact shamir.interpolate_unmasked distinct (bounded _) enough input.value

end StreamServerState

namespace Scenario

instance primeEleven : Fact (Nat.Prime 11) := ⟨by decide⟩

/-- Shamir shares of values modulo 11, of which only the values are ever decoded. -/
def shamirMod11 : ShareBound (RobustShare (ZMod 11)) (ZMod 11) where
  computeMaskedInput := RobustShare.computeMaskedInput
  minShares := RobustShare.minShares
  recoverSecret _ _ _ := none
  deserializeValue
    | [byte] => some byte.toNat
    | _ => none
  deserializeShare _ := none
  deserializeShares _ := none
  minShares_pos := RobustShare.minShares_pos

noncomputable def robustMod11 : Shamir shamirMod11 1 := .robust 1 rfl rfl

def encodeMod11 (value : ZMod 11) : Bytes := [UInt8.ofNat value.val]

def partySink (p : Nat) : SubscriptionSink := ⟨p, [UInt8.ofNat (p + 1)]⟩

/-- Two of the three parties apply a round. -/
def bothVote (round : Round) : List StreamEvent :=
  [.server (.native execution [1] (.transition round)), .server (.native execution [2] (.transition round))]

theorem stream_ne_idle : Topic.stream .maskedInputs ≠ .round .idle := by decide

def follow (p : Nat) : List StreamEvent :=
  [.request execution (.stream .maskedInputs) [UInt8.ofNat (p + 1)],
    .subscribe ⟨execution, .stream .maskedInputs, [UInt8.ofNat (p + 1)], stream_ne_idle⟩ p fun _ => true]

def relay (p : Nat) (event : Event) : StreamEvent :=
  .send ⟨execution, .stream .maskedInputs, partySink p⟩ (.event event) true

/-- Two clients submit an input each. One party subscribes before both of them, one
between them and one after them. -/
def followTwoInputs : List StreamEvent :=
  [.server (.register [1] (.unassigned 2 []) [])] ++ bothVote .preprocessing ++ bothVote .inputMaskReservation ++
    [.server (.native execution [8] (.reserveMaskIndices [1] fun _ => true)),
      .server (.native execution [9] (.reserveMaskIndices [0] fun _ => true))] ++ bothVote .inputCollection ++
    follow 0 ++ [.server (.native execution [9] (.submitMaskedInputs [[6]] [0])),
      relay 0 (.maskedInputEvent [9] [(0, [6])]), .server (.native execution [9] (.finishSubmission fun _ => true))] ++
    follow 1 ++ [.server (.native execution [8] (.submitMaskedInputs [[1]] [1])),
      relay 0 (.maskedInputEvent [8] [(1, [1])]), relay 1 (.maskedInputEvent [8] [(1, [1])]),
      .server (.native execution [8] (.finishSubmission fun _ => true))] ++ follow 2

end Scenario

namespace StreamServerState

open Scenario

/-- The masks `2 + 3 X` and `5 + X`. -/
noncomputable def twoMasks (i : Nat) : (ZMod 11)[X] := if i = 0 then C 2 + C 3 * X else C 5 + X

theorem eval_twoMasks (i : Nat) : (twoMasks i).eval 0 = if i = 0 then 2 else 5 := by
  unfold twoMasks
  split <;> simp

/-- The tables at the end of that run. -/
def HoldsTwoInputs (d : CoordinatorExecutionState) : Prop :=
  d.maskedInputs = [some [6], some [1]] ∧ d.reservedIndices = [some [9], some [8]]

instance (d : CoordinatorExecutionState) : Decidable (HoldsTwoInputs d) := inferInstanceAs (Decidable (_ ∧ _))

theorem masked_of_two {d : CoordinatorExecutionState} (holds : HoldsTwoInputs d) (i : Nat) (x : Bytes)
    (held : d.maskedInputs.read i = some x) : ∃ value, x = encodeMod11 (value + (twoMasks i).eval 0) := by
  have bound := Slots.lt_of_read held
  rw [holds.1] at held bound
  rw [eval_twoMasks]
  rcases i with _ | _ | i
  · exact ⟨4, (Option.some.inj held).symm⟩
  · exact ⟨7, (Option.some.inj held).symm⟩
  · simp at bound

/-- The input of client 9. -/
theorem perm_of_two {d : CoordinatorExecutionState} {inputs : List (MaskedInput (ZMod 11))} (holds : HoldsTwoInputs d)
    (inputsOf : InputsOf (fun input => encodeMod11 (input.value + (twoMasks input.index.toNat).eval 0)) d inputs) :
    ([⟨[9], 0, 4⟩] : List (MaskedInput (ZMod 11))).Perm (inputs.filter fun input => decide (input.client = [9])) := by
  have single : (inputs.filter fun input => decide (input.client = [9])).Nodup := inputsOf.once.of_map.filter _
  refine (List.perm_ext_iff_of_nodup (by simp) single).mpr fun input => ?_
  rw [List.mem_singleton, List.mem_filter, inputsOf.held, decide_eq_true_eq, holds.1, holds.2, eval_twoMasks]
  constructor
  · rintro rfl
    decide
  · rintro ⟨⟨stored, owned⟩, mine⟩
    obtain ⟨client, index, value⟩ := input
    subst mine
    have bound := Slots.lt_of_read owned
    have first : index = 0 := by
      rw [← UInt64.toNat_inj]
      generalize index.toNat = i at owned bound
      rcases i with _ | _ | i
      · rfl
      · cases owned
      · simp at bound
    subst first
    have decoded : ∀ value : ZMod 11, encodeMod11 (value + 2) = [6] → value = 4 := by decide
    rw [decoded value (Option.some.inj stored).symm]

theorem inputs_round_trip_of_two :
    ∃ trace s, ∃ (maps : Nat → Table ClientIdentity (List (RobustShare (ZMod 11))))
      (shares : Nat → RobustShare (ZMod 11)), Run (Step .trio) start trace s ∧ Remains execution trace ∧
      (∀ p ∈ Finset.range 3,
        waitForInputs shamirMod11 (robustMod11.maskShares twoMasks (p + 1) p 2) 2
          (.ok ⟨s.received (partySink p), false⟩) = .returned (maps p) ∧
        ∃ listed, maps p [9] = some listed ∧ listed[0]? = some (shares p)) ∧
      (Lagrange.interpolate (Finset.range 3) (fun p : Nat => (p + 1 : ZMod 11)) fun p =>
        robustMod11.value (shares p)).eval 0 = 4 := by
  obtain ⟨trace, s, run, remains, seen⟩ := exists_run_of_events .trio execution followTwoInputs
    (fun s => ((s.live execution).map fun d : CoordinatorExecutionState => decide (HoldsTwoInputs d ∧
      (d.maskedPairs.map Prod.fst).Nodup ∧ d.registration.nInputs = 2 ∧ ∀ p ∈ Finset.range 3,
        s.Follows execution (partySink p) ∧ (s.inputsReceived (partySink p)).length = 2)))
    (some true) (by decide +kernel)
  obtain ⟨d, here, visible⟩ := Option.map_eq_some_iff.mp seen
  obtain ⟨holds, once, nInputs, followed⟩ := of_decide_eq_true visible
  have distinct : Set.InjOn (fun p : Nat => (p + 1 : ZMod 11)) ↑(Finset.range 3) := by
    decide
  have bounded : ∀ i, (twoMasks i).natDegree ≤ 1 := by
    intro i
    unfold twoMasks
    split <;> compute_degree
  have roundTrip : ∀ value, shamirMod11.deserializeValue (encodeMod11 value) = some value := by decide
  obtain ⟨inputs, inputsOf, shared⟩ := inputs_round_trip robustMod11 run remains here once roundTrip twoMasks bounded
    (masked_of_two holds)
  obtain ⟨maps, returned, places⟩ := shared (Finset.range 3) (fun p => (p + 1 : ZMod 11)) partySink false distinct
    (by decide) (by rw [nInputs]; exact followed)
  obtain ⟨shares, listed, recovered⟩ := places [9] [⟨[9], 0, 4⟩] (perm_of_two holds inputsOf) (by simp) 0 _ rfl
  rw [nInputs] at returned
  exact ⟨trace, s, maps, shares, run, remains, fun p member => ⟨returned p member, listed p member⟩, recovered⟩

end StreamServerState

end MpcCoordinator
