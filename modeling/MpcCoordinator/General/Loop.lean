import Mathlib.Data.List.Basic

namespace Loop

variable {σ α : Type} (body : σ → Option (α × σ))

/-- A `while let` loop over a state: the body either leaves the loop or emits
one output and goes round again. The first argument bounds the iterations. -/
def run : Nat → σ → σ × List α
  | 0, s => (s, [])
  | fuel + 1, s =>
    match body s with
    | none => (s, [])
    | some (a, s') => ((run fuel s').1, a :: (run fuel s').2)

/-- The iterations of the loop in order, each with the state it started from. -/
def iterations : Nat → σ → List (σ × α)
  | 0, _ => []
  | fuel + 1, s =>
    match body s with
    | none => []
    | some (a, s') => (s, a) :: iterations fuel s'

variable {body}

theorem run_invariant {P : σ → Prop} {fuel : Nat} {s : σ} (initial : P s)
    (preserved : ∀ s a s', P s → body s = some (a, s') → P s') : P (run body fuel s).1 := by
  induction fuel generalizing s with
  | zero => exact initial
  | succ fuel ih =>
    unfold run
    split
    · exact initial
    · rename_i a s' moved
      exact ih (preserved _ _ _ initial moved)

theorem run_related {R : σ → σ → Prop} {fuel : Nat} {s : σ} (refl : ∀ s, R s s)
    (trans : ∀ a b c, R a b → R b c → R a c)
    (stepwise : ∀ s a s', body s = some (a, s') → R s s') : R s (run body fuel s).1 :=
  run_invariant (refl s) fun _ _ _ before moved => trans _ _ _ before (stepwise _ _ _ moved)

/-- A measure that every iteration decreases bounds the iterations needed, so
the loop ends where its body leaves it and not for lack of fuel. -/
theorem run_stops {m : σ → Nat} {fuel : Nat} {s : σ}
    (decreases : ∀ s a s', body s = some (a, s') → m s' < m s) (enough : m s < fuel) :
    body (run body fuel s).1 = none := by
  induction fuel generalizing s with
  | zero => omega
  | succ fuel ih =>
    unfold run
    split
    · assumption
    · rename_i a s' moved
      have less := decreases _ _ _ moved
      exact ih (by omega)

/-- With enough fuel for its measure the loop does not see more of it. -/
theorem iterations_fuel {m : σ → Nat} {fuel : Nat} {s : σ}
    (decreases : ∀ s a s', body s = some (a, s') → m s' < m s) (enough : m s < fuel) :
    iterations body (fuel + 1) s = iterations body fuel s := by
  induction fuel generalizing s with
  | zero => omega
  | succ fuel ih =>
    rw [iterations, iterations]
    split
    · rfl
    · rename_i a s' moved
      have less := decreases _ _ _ moved
      rw [ih (by omega)]

theorem iterations_moved {fuel : Nat} {s : σ} {entry : σ × α} (member : entry ∈ iterations body fuel s) :
    ∃ s', body entry.1 = some (entry.2, s') := by
  induction fuel generalizing s with
  | zero => simp [iterations] at member
  | succ fuel ih =>
    unfold iterations at member
    split at member
    · simp at member
    · rename_i a s' moved
      rcases List.mem_cons.mp member with rfl | later
      · exact ⟨s', moved⟩
      · exact ih later

theorem iterations_invariant {P : σ → Prop} {fuel : Nat} {s : σ} (initial : P s)
    (preserved : ∀ s a s', P s → body s = some (a, s') → P s') {entry : σ × α}
    (member : entry ∈ iterations body fuel s) : P entry.1 := by
  induction fuel generalizing s with
  | zero => simp [iterations] at member
  | succ fuel ih =>
    unfold iterations at member
    split at member
    · simp at member
    · rename_i a s' moved
      rcases List.mem_cons.mp member with rfl | later
      · exact initial
      · exact ih (preserved _ _ _ initial moved) later

/-- A fact that the loop makes true was made true by one of its passes. -/
theorem exists_change {Q : σ → Prop} {fuel : Nat} {s : σ} (before : ¬ Q s) (after : Q (run body fuel s).1) :
    ∃ entry ∈ iterations body fuel s, ∃ s', body entry.1 = some (entry.2, s') ∧ ¬ Q entry.1 ∧ Q s' := by
  induction fuel generalizing s with
  | zero => exact absurd after before
  | succ fuel ih =>
    unfold run at after
    unfold iterations
    split at after
    · exact absurd after before
    · rename_i a s' moved
      by_cases changed : Q s'
      · exact ⟨(s, a), List.mem_cons_self, s', moved, before, changed⟩
      · obtain ⟨entry, member, change⟩ := ih changed after
        exact ⟨entry, List.mem_cons_of_mem _ member, change⟩

/-- When a pass keeps `P` exactly under `guard` and what is lost stays lost,
the loop ends in `P` exactly when every pass of it was guarded. -/
theorem run_iff {I P guard : σ → Prop} {fuel : Nat} {s : σ} (base : I s) (initial : P s)
    (kept : ∀ s a s', I s → body s = some (a, s') → I s')
    (exact_pass : ∀ s a s', I s → P s → body s = some (a, s') → (P s' ↔ guard s))
    (lost : ∀ s a s', I s → ¬ P s → body s = some (a, s') → ¬ P s') :
    P (run body fuel s).1 ↔ ∀ entry ∈ iterations body fuel s, guard entry.1 := by
  induction fuel generalizing s with
  | zero => simp [run, iterations, initial]
  | succ fuel ih =>
    unfold run iterations
    split
    · simp [initial]
    · rename_i a s' moved
      have after := kept _ _ _ base moved
      by_cases guarded : guard s
      · have rest := ih after ((exact_pass _ _ _ base initial moved).mpr guarded)
        simpa [guarded] using rest
      · have broken : ¬ P s' := fun held => guarded ((exact_pass _ _ _ base initial moved).mp held)
        have never : I (run body fuel s').1 ∧ ¬ P (run body fuel s').1 :=
          run_invariant (P := fun s => I s ∧ ¬ P s) ⟨after, broken⟩
            fun _ _ _ before again => ⟨kept _ _ _ before.1 again, lost _ _ _ before.1 before.2 again⟩
        simp [never.2, guarded]

end Loop
