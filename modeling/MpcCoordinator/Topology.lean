import MpcCoordinator.Shared
import Mathlib.Data.List.Nodup
import Mathlib.Data.UInt
import Mathlib.Data.Finset.Card

namespace MpcCoordinator

/-- A `Vec` never holds more than `isize::MAX` bytes, so a list of node
identities that a program can pass around is shorter than `2 ^ 63`. -/
abbrev NodeList := { nodes : List ClientIdentity // nodes.length < 2 ^ 63 }

def validateTopology (n t : UInt64) (initialMpcNodes : NodeList) : Except CoordinatorError Unit :=
  if initialMpcNodes.val.isEmpty then
    .error (.jsonError "Coordinator requires at least one MPC node")
  else if initialMpcNodes.val.length ≠ n.toNat then
    .error (.jsonError s!"Coordinator was configured for {n} MPC nodes, but received {initialMpcNodes.val.length} node identities")
  else if t ≥ n then
    .error (.jsonError s!"Threshold {t} must be less than the MPC node count {n}")
  else if n < 2 * t + 1 then
    .error (.jsonError s!"MPC node count {n} must be at least 2t + 1 = {2 * t + 1} for threshold {t}")
  else if initialMpcNodes.val.zipIdx.any fun entry => (initialMpcNodes.val.take entry.2).contains entry.1 then
    .error (.jsonError "MPC node identities must be unique")
  else .ok ()

/-- The roster of a coordinator. It is fixed at construction, after which no
call changes it, so its validation is part of the value. -/
structure Topology where
  n : UInt64
  t : UInt64
  mpcNodes : NodeList
  valid : validateTopology n t mpcNodes = .ok ()

namespace Topology

variable (topology : Topology)

/-- How many distinct parties must propose a round before it is applied, in
the machine arithmetic of the code: `usize` and `u64` are both 64 bits wide. -/
def transitionQuorum : UInt64 :=
  let livenessBound := topology.n - topology.t
  let honestMajority := 2 * topology.t + 1
  max (min honestMajority livenessBound) (topology.t + 1)

/-- How many acknowledgements let an execution's protocol state be dropped. -/
def retirementQuorum : UInt64 := topology.n - topology.t

/-- The roster as the set of identities that may vote. -/
def parties : Finset ClientIdentity := topology.mpcNodes.val.toFinset

def isParty (id : ClientIdentity) : Bool := topology.mpcNodes.val.contains id

/-- The first roster entry, named in the preprocessing event. -/
def rosterHead : ClientIdentity := topology.mpcNodes.val.headD []

theorem isParty_iff {id : ClientIdentity} : topology.isParty id = true ↔ id ∈ topology.parties := by
  simp [isParty, parties]

theorem unique_iff (nodes : List ClientIdentity) :
    nodes.zipIdx.any (fun entry => (nodes.take entry.2).contains entry.1) = false ↔ nodes.Nodup := by
  simp only [List.any_eq_false, List.contains_iff_mem]
  constructor
  · intro fresh
    rw [List.nodup_iff_getElem?_ne_getElem?]
    intro i j order bound same
    have entry : (nodes[j], j) ∈ nodes.zipIdx := List.mem_zipIdx_iff_getElem?.mpr (by simp)
    refine fresh _ entry (List.mem_take_iff_getElem.mpr ⟨i, by simp; omega, ?_⟩)
    have left : nodes[i]? = some nodes[j] := by rw [same]; simp
    obtain ⟨_, value⟩ := List.getElem?_eq_some_iff.mp left
    exact value
  · intro distinct entry member repeated
    obtain ⟨i, before, value⟩ := List.mem_take_iff_getElem.mp repeated
    have later := List.mem_zipIdx_iff_getElem?.mp member
    obtain ⟨bound, atLater⟩ := List.getElem?_eq_some_iff.mp later
    have same := (List.Nodup.getElem_inj_iff distinct).mp (value.trans atLater.symm)
    omega

/-- What `validate_topology` establishes, each part read off its own check. -/
theorem checks : topology.mpcNodes.val ≠ [] ∧ topology.mpcNodes.val.length = topology.n.toNat ∧
    topology.t < topology.n ∧ 2 * topology.t + 1 ≤ topology.n ∧ topology.mpcNodes.val.Nodup := by
  have valid := topology.valid
  unfold validateTopology at valid
  split at valid
  · cases valid
  rename_i nonempty
  split at valid
  · cases valid
  rename_i length
  split at valid
  · cases valid
  rename_i below
  split at valid
  · cases valid
  rename_i majority
  split at valid
  · cases valid
  rename_i unique
  refine ⟨by simpa using nonempty, not_not.mp length, UInt64.not_le.mp below,
    UInt64.not_lt.mp majority, (unique_iff _).mp (by simpa using unique)⟩

theorem n_lt : topology.n.toNat < 2 ^ 63 := by
  have length := topology.checks.2.1
  have bound := topology.mpcNodes.property
  omega

theorem t_lt_n : topology.t.toNat < topology.n.toNat :=
  UInt64.lt_iff_toNat_lt.mp topology.checks.2.2.1

/-- The doubled threshold does not overflow: `t` is below a roster length. -/
theorem doubled_toNat : (2 * topology.t + 1).toNat = 2 * topology.t.toNat + 1 := by
  have below := topology.t_lt_n
  have bound := topology.n_lt
  simp only [UInt64.toNat_add, UInt64.toNat_mul, UInt64.toNat_ofNat]
  omega

theorem doubled_le_n : 2 * topology.t.toNat + 1 ≤ topology.n.toNat := by
  have majority := UInt64.le_iff_toNat_le.mp topology.checks.2.2.2.1
  rwa [doubled_toNat] at majority

theorem livenessBound_toNat : (topology.n - topology.t).toNat = topology.n.toNat - topology.t.toNat :=
  UInt64.toNat_sub_of_le _ _ (UInt64.le_of_lt topology.checks.2.2.1)

theorem successor_toNat : (topology.t + 1).toNat = topology.t.toNat + 1 := by
  have below := topology.t_lt_n
  have bound := topology.n_lt
  simp only [UInt64.toNat_add, UInt64.toNat_ofNat]
  omega

theorem toNat_max (a b : UInt64) : (max a b).toNat = max a.toNat b.toNat := by
  change (if a ≤ b then b else a).toNat = _
  split <;> simp_all only [UInt64.le_iff_toNat_le] <;> omega

theorem toNat_min (a b : UInt64) : (min a b).toNat = min a.toNat b.toNat := by
  change (if a ≤ b then a else b).toNat = _
  split <;> simp_all only [UInt64.le_iff_toNat_le] <;> omega

/-- The machine computation of the quorum is the mathematical one. -/
theorem transitionQuorum_toNat : topology.transitionQuorum.toNat =
    max (min (2 * topology.t.toNat + 1) (topology.n.toNat - topology.t.toNat)) (topology.t.toNat + 1) := by
  simp only [transitionQuorum, toNat_max, toNat_min, doubled_toNat, livenessBound_toNat, successor_toNat]

/-- The quorum holds an honest proposer and leaves room for `t` silent parties. -/
theorem transitionQuorum_bounds : topology.t.toNat + 1 ≤ topology.transitionQuorum.toNat ∧
    topology.transitionQuorum.toNat ≤ topology.n.toNat - topology.t.toNat := by
  have majority := topology.doubled_le_n
  rw [transitionQuorum_toNat]
  omega

theorem transitionQuorum_pos : 0 < topology.transitionQuorum.toNat := by
  have bounds := topology.transitionQuorum_bounds
  omega

end Topology

/-- A roster passes if it has the given number of different nodes, and most of them
are not faulty. -/
theorem validateTopology_ok_iff {n t : UInt64} {nodes : NodeList} : validateTopology n t nodes = .ok () ↔
    nodes.val.length = n.toNat ∧ nodes.val.Nodup ∧ 2 * t.toNat + 1 ≤ n.toNat := by
  constructor
  · intro valid
    have checks := (Topology.mk n t nodes valid).checks
    exact ⟨checks.2.1, checks.2.2.2.2, (Topology.mk n t nodes valid).doubled_le_n⟩
  · rintro ⟨length, distinct, majority⟩
    have size := n.toNat_lt
    have doubled : (2 * t + 1).toNat = 2 * t.toNat + 1 := by
      simp only [UInt64.toNat_add, UInt64.toNat_mul, UInt64.toNat_ofNat]
      omega
    have some : nodes.val.isEmpty = false := by
      rw [List.isEmpty_eq_false_iff, ← List.length_pos_iff]
      omega
    have below : ¬ t ≥ n := by
      rw [ge_iff_le, UInt64.le_iff_toNat_le]
      omega
    have enough : ¬ n < 2 * t + 1 := by
      rw [UInt64.lt_iff_toNat_lt, doubled]
      omega
    simp only [validateTopology, some, length, below, enough, (Topology.unique_iff nodes.val).mpr distinct, ne_eq,
      not_true_eq_false, Bool.false_eq_true, if_false]

/-- The smallest roster: one node, and no fault tolerated. -/
def Topology.lone (node : ClientIdentity) : Topology where
  n := 1
  t := 0
  mpcNodes := ⟨[node], by simp⟩
  valid := by simp [validateTopology]

/-- The smallest roster that tolerates a fault. -/
def Topology.trio : Topology where
  n := 3
  t := 1
  mpcNodes := ⟨[[1], [2], [3]], by decide⟩
  valid := by decide

end MpcCoordinator
