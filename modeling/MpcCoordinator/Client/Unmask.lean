import MpcCoordinator.Client.Shares
import Mathlib.LinearAlgebra.Lagrange

namespace MpcCoordinator

open Polynomial

/-- The plain Shamir share: the value of a polynomial at the point of a party. -/
structure RobustShare (F : Type*) where
  share : Vector F 1
  id : Nat
  degree : Nat

def RobustShare.new {F : Type*} (value : F) (id degree : Nat) : RobustShare F := ⟨#v[value], id, degree⟩

/-- A Shamir share with commitments to the coefficients of its polynomial. -/
structure FeldmanShamirShare (F G : Type*) where
  share : Vector F 1
  id : Nat
  degree : Nat
  commitments : List G

variable {F G : Type*} [Field F] [AddCommGroup G] [Module F G]

def RobustShare.computeMaskedInput (input : F) (maskShare : RobustShare F) : Option (RobustShare F) :=
  some (new (input - maskShare.share[0]) maskShare.id maskShare.degree)

namespace FeldmanShamirShare

/-- The library's product of a share and a scalar. -/
def mul (share : FeldmanShamirShare F G) (c : F) : Option (FeldmanShamirShare F G) :=
  some { share with share := share.share.map (· * c), commitments := share.commitments.map (c • ·) }

/-- The library's sum of a share and a value, which moves the commitment to the
constant term along. -/
def add (generator : G) (share : FeldmanShamirShare F G) (v : F) : Option (FeldmanShamirShare F G) :=
  match share.commitments with
  | [] => none
  | constant :: rest =>
    some { share with share := share.share.map (· + v), commitments := (constant + v • generator) :: rest }

def computeMaskedInput (generator : G) (input : F) (maskShare : FeldmanShamirShare F G) :
    Option (FeldmanShamirShare F G) := do
  let negMaskShare ← maskShare.mul (-1)
  negMaskShare.add generator input

def minShares (t : Nat) : Nat := t + 1

end FeldmanShamirShare

/-- Commitments to the coefficients of a polynomial of bounded degree. -/
noncomputable def commitTo (generator : G) (f : F[X]) (t : Nat) : List G :=
  (List.range (t + 1)).map fun i => f.coeff i • generator

/-- The share of a polynomial at a point. -/
noncomputable def RobustShare.ofPolynomial (f : F[X]) (point : F) (id degree : Nat) : RobustShare F :=
  new (f.eval point) id degree

noncomputable def FeldmanShamirShare.ofPolynomial (generator : G) (f : F[X]) (point : F) (id t : Nat) :
    FeldmanShamirShare F G :=
  ⟨#v[f.eval point], id, t, commitTo generator f t⟩

/-- What is left of a masked value when the mask is taken off share by share. -/
noncomputable def unmask (masked : F) (f : F[X]) : F[X] := C masked - f

variable {f : F[X]} {t : Nat}

theorem eval_unmask (masked : F) (f : F[X]) (point : F) : (unmask masked f).eval point = masked - f.eval point := by
  rw [unmask, eval_sub, eval_C]

theorem natDegree_unmask_le (masked : F) (bounded : f.natDegree ≤ t) : (unmask masked f).natDegree ≤ t :=
  (natDegree_sub_le _ _).trans (by simpa using bounded)

/-- The constant term absorbs the masked value, and all others change sign. -/
theorem commitTo_unmask (generator : G) (masked : F) (f : F[X]) (t : Nat) :
    commitTo generator (unmask masked f) t = ((-1 : F) • f.coeff 0 • generator + masked • generator) ::
      ((List.range t).map fun i => (-1 : F) • f.coeff (i + 1) • generator) := by
  rw [commitTo, List.range_succ_eq_map, List.map_cons, List.map_map]
  congr 1
  · simp [unmask, sub_eq_neg_add, add_smul]
  · refine List.map_congr_left fun i _ => ?_
    simp [unmask, coeff_C_succ]

theorem RobustShare.computeMaskedInput_ofPolynomial (masked : F) (f : F[X]) (point : F) (id degree : Nat) :
    computeMaskedInput masked (ofPolynomial f point id degree) =
      some (ofPolynomial (unmask masked f) point id degree) := by
  rw [ofPolynomial, ofPolynomial, eval_unmask]
  rfl

theorem FeldmanShamirShare.computeMaskedInput_ofPolynomial (generator : G) (masked : F) (f : F[X]) (point : F)
    (id t : Nat) : computeMaskedInput generator masked (ofPolynomial generator f point id t) =
      some (ofPolynomial generator (unmask masked f) point id t) := by
  have negated : (commitTo generator f t).map ((-1 : F) • ·) = ((-1 : F) • f.coeff 0 • generator) ::
      ((List.range t).map fun i => (-1 : F) • f.coeff (i + 1) • generator) := by
    rw [commitTo, List.range_succ_eq_map, List.map_cons, List.map_cons, List.map_map, List.map_map]
    rfl
  have value : -f.eval point + masked = (unmask masked f).eval point := by
    rw [eval_unmask]
    ring
  simp only [computeMaskedInput, mul, ofPolynomial, Option.bind_eq_bind, Option.bind_some, add, negated]
  rw [commitTo_unmask, ← value]
  simp

/-- Enough shares of a polynomial, at distinct points, determine it. -/
theorem interpolate_shares {ids : Finset Nat} {point : Nat → F} (distinct : Set.InjOn point ids)
    (bounded : f.natDegree ≤ t) (enough : t < ids.card) :
    Lagrange.interpolate ids point (fun i => f.eval (point i)) = f := by
  refine (Lagrange.eq_interpolate_of_eval_eq _ distinct ?_ fun _ _ => rfl).symm
  exact lt_of_le_of_lt (degree_le_of_natDegree_le bounded) (by exact_mod_cast enough)

/-- Taking the mask off shares gives shares, at the same points, of a polynomial
with the input as its constant term and a degree that is no greater, whose
commitments are moved along; enough of them give the input. -/
theorem unmasking_correct (generator : G) (bounded : f.natDegree ≤ t) (x : F) :
    (unmask (x + f.eval 0) f).eval 0 = x ∧ (unmask (x + f.eval 0) f).natDegree ≤ t ∧
    (∀ point id degree, RobustShare.computeMaskedInput (x + f.eval 0) (.ofPolynomial f point id degree) =
      some (.ofPolynomial (unmask (x + f.eval 0) f) point id degree)) ∧
    (∀ point id, FeldmanShamirShare.computeMaskedInput generator (x + f.eval 0) (.ofPolynomial generator f point id t) =
      some (.ofPolynomial generator (unmask (x + f.eval 0) f) point id t)) ∧
    (∀ (ids : Finset Nat) (point : Nat → F) (results : Nat → RobustShare F), Set.InjOn point ids →
      RobustShare.minShares t ≤ ids.card →
      (∀ i ∈ ids, RobustShare.computeMaskedInput (x + f.eval 0) (.ofPolynomial f (point i) i t) = some (results i)) →
      (Lagrange.interpolate ids point fun i => (results i).share[0]).eval 0 = x) ∧
    ∀ (ids : Finset Nat) (point : Nat → F) (results : Nat → FeldmanShamirShare F G), Set.InjOn point ids →
      FeldmanShamirShare.minShares t ≤ ids.card →
      (∀ i ∈ ids, FeldmanShamirShare.computeMaskedInput generator (x + f.eval 0)
        (.ofPolynomial generator f (point i) i t) = some (results i)) →
      (Lagrange.interpolate ids point fun i => (results i).share[0]).eval 0 = x := by
  have constant : (unmask (x + f.eval 0) f).eval 0 = x := by rw [eval_unmask, add_sub_cancel_right]
  have degrees := natDegree_unmask_le (x + f.eval 0) bounded
  have recovers : ∀ (ids : Finset Nat) (point values : Nat → F), Set.InjOn point ids → t < ids.card →
      (∀ i ∈ ids, values i = (unmask (x + f.eval 0) f).eval (point i)) →
      (Lagrange.interpolate ids point values).eval 0 = x := by
    intro ids point values distinct enough shares
    rw [Lagrange.interpolate_eq_of_values_eq_on _ _ shares, interpolate_shares distinct degrees enough, constant]
  refine ⟨constant, degrees, RobustShare.computeMaskedInput_ofPolynomial _ _,
    fun point id => FeldmanShamirShare.computeMaskedInput_ofPolynomial _ _ _ point id t, ?_, ?_⟩
  · intro ids point results distinct enough unmasked
    refine recovers ids point _ distinct (by unfold RobustShare.minShares at enough; omega) fun i member => ?_
    have result := unmasked i member
    rw [RobustShare.computeMaskedInput_ofPolynomial] at result
    rw [← Option.some.inj result]
    rfl
  · intro ids point results distinct enough unmasked
    refine recovers ids point _ distinct enough fun i member => ?_
    have result := unmasked i member
    rw [FeldmanShamirShare.computeMaskedInput_ofPolynomial] at result
    rw [← Option.some.inj result]
    rfl

/-- Three shares of the mask `2 + 3 X` at the points 1, 2 and 3, taken off the masked value of 10. -/
theorem unmasking_correct_of_three_shares :
    (Lagrange.interpolate {0, 1, 2} (fun i : Nat => (i + 1 : ℚ)) fun i =>
      (RobustShare.new ((12 : ℚ) - (2 + 3 * (i + 1))) i 1).share[0]).eval 0 = 10 := by
  have bounded : (C 2 + C 3 * X : ℚ[X]).natDegree ≤ 1 := by compute_degree
  have mask : (C 2 + C 3 * X : ℚ[X]).eval 0 = 2 := by simp
  have distinct : Set.InjOn (fun i : Nat => (i + 1 : ℚ)) ↑({0, 1, 2} : Finset Nat) := by
    intro i _ j _ same
    exact_mod_cast add_right_cancel same
  refine (unmasking_correct (1 : ℚ) bounded 10).2.2.2.2.1 _ _ _ distinct (by decide) fun i _ => ?_
  have value : (10 + 2 : ℚ) - (C 2 + C 3 * X : ℚ[X]).eval (i + 1 : ℚ) = 12 - (2 + 3 * (i + 1)) := by
    rw [eval_add, eval_mul, eval_C, eval_C, eval_X]
    norm_num
  rw [mask, RobustShare.ofPolynomial, RobustShare.computeMaskedInput]
  exact congrArg some (congrArg (fun value => RobustShare.new value i 1) value)

end MpcCoordinator
