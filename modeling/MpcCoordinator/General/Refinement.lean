import MpcCoordinator.General.Run

/-- A system seen as another one: in a sound state, a step is seen as the step
that its label names, or has no label and is not seen. -/
structure Refinement {σ ε α β : Type} (step : σ → ε → σ → Prop) (abstract : α → β → α → Prop) where
  view : σ → α
  label : σ → ε → Option β
  Sound : σ → Prop
  kept : ∀ {s event s'}, Sound s → step s event s' → Sound s'
  seen : ∀ {s event s'}, Sound s → step s event s' → label s event = none ∧ view s' = view s ∨
    ∃ name, label s event = some name ∧ abstract (view s) name (view s')

namespace Refinement

variable {σ ε α β : Type} {step : σ → ε → σ → Prop} {abstract : α → β → α → Prop} (refines : Refinement step abstract)
  {start final : σ} {trace : List (Transition σ ε)}

/-- The labels of a run's steps. -/
def labels (trace : List (Transition σ ε)) : List β := trace.filterMap fun τ => refines.label τ.source τ.event

/-- A run is seen as a run with its labels. -/
theorem exists_run (sound : refines.Sound start) (run : Run step start trace final) :
    ∃ seen, Run abstract (refines.view start) seen (refines.view final) ∧
      seen.map Transition.event = refines.labels trace := by
  induction run with
  | start => exact ⟨[], .start, rfl⟩
  | @next earlier current event after previous taken ih =>
    obtain ⟨seen, run, names⟩ := ih
    have here := previous.invariant sound fun _ _ _ => refines.kept
    rcases refines.seen here taken with ⟨unlabelled, same⟩ | ⟨name, labelled, moved⟩
    · rw [← same] at run
      exact ⟨seen, run, by simpa [labels, unlabelled] using names⟩
    · exact ⟨_, .next run moved, by simpa [labels, labelled] using names⟩

end Refinement
