import MpcCoordinator.General.Run

/-- A system that keeps objects of one kind. An object is known by its place in
a list, which it never leaves: a step adds a fresh one at the end, acts on one of
them, or does not concern them. `call` tells which object an event acts on, and
by which event of that object. -/
structure Handles {σ ε α β : Type} (step : σ → ε → σ → Prop) (object : α → β → α → Prop) (fresh : α) where
  objects : σ → List α
  call : ε → Option (Nat × β)
  moves : ∀ {s event s'}, step s event s' →
    call event = none ∧ (objects s' = objects s ∨ objects s' = objects s ++ [fresh]) ∨
      ∃ handle name a a', call event = some (handle, name) ∧ (objects s)[handle]? = some a ∧ object a name a' ∧
        objects s' = (objects s).set handle a'

namespace Handles

variable {σ ε α β : Type} {step : σ → ε → σ → Prop} {object : α → β → α → Prop} {fresh : α}
  (handles : Handles step object fresh) {s s' start final : σ} {event : ε} {trace : List (Transition σ ε)}
  {handle : Nat} {a a' : α} {name : β}

/-- The event of one object that an event of the system is. -/
def callOn (handle : Nat) (event : ε) : Option β :=
  match handles.call event with
  | none => none
  | some (place, name) => if place = handle then some name else none

/-- What was done to one object, in order. -/
def callsOn (handle : Nat) (trace : List (Transition σ ε)) : List β :=
  trace.filterMap fun τ => handles.callOn handle τ.event

theorem callOn_eq_some : handles.callOn handle event = some name ↔ handles.call event = some (handle, name) := by
  unfold callOn
  split
  · rename_i uncalled
    simp [uncalled]
  · rename_i place other called
    rw [called]
    by_cases same : place = handle <;> simp [same]

theorem mem_callsOn : name ∈ handles.callsOn handle trace ↔ ∃ τ ∈ trace, handles.call τ.event = some (handle, name) := by
  simp only [callsOn, List.mem_filterMap, callOn_eq_some]

theorem callsOn_append (rest : List (Transition σ ε)) :
    handles.callsOn handle (trace ++ rest) = handles.callsOn handle trace ++ handles.callsOn handle rest :=
  List.filterMap_append

/-- What a step does to the object at one place. -/
theorem moves_at (taken : step s event s') (held : (handles.objects s')[handle]? = some a') :
    handles.callOn handle event = none ∧
        ((handles.objects s)[handle]? = some a' ∨ (handles.objects s)[handle]? = none ∧ a' = fresh) ∨
      ∃ name a, handles.callOn handle event = some name ∧ (handles.objects s)[handle]? = some a ∧ object a name a' := by
  rcases handles.moves taken with ⟨uncalled, same | added⟩ | ⟨place, name, a, after, called, here, moved, written⟩
  · rw [same] at held
    exact Or.inl ⟨by simp [callOn, uncalled], Or.inl held⟩
  · refine Or.inl ⟨by simp [callOn, uncalled], ?_⟩
    rw [added] at held
    rcases Nat.lt_or_ge handle (handles.objects s).length with old | beyond
    · rw [List.getElem?_append_left old] at held
      exact Or.inl held
    · rw [List.getElem?_append_right beyond] at held
      have last := List.mem_singleton.mp (List.mem_of_getElem? held)
      exact Or.inr ⟨List.getElem?_eq_none beyond, last⟩
  · rw [written] at held
    by_cases same : place = handle
    · subst same
      have inside : place < (handles.objects s).length := (List.getElem?_eq_some_iff.mp here).1
      rw [List.getElem?_set_self inside] at held
      cases held
      exact Or.inr ⟨name, a, handles.callOn_eq_some.mpr called, here, moved⟩
    · rw [List.getElem?_set_ne same] at held
      exact Or.inl ⟨by simp [callOn, called, same], Or.inl held⟩

/-- A place that is taken stays so. -/
theorem moves_kept (taken : step s event s') (held : (handles.objects s)[handle]? = some a) :
    ∃ a', (handles.objects s')[handle]? = some a' := by
  have inside : handle < (handles.objects s).length := (List.getElem?_eq_some_iff.mp held).1
  have room : handle < (handles.objects s').length := by
    rcases handles.moves taken with ⟨_, same | added⟩ | ⟨_, _, _, _, _, _, _, written⟩
    · exact same ▸ inside
    · rw [added, List.length_append]
      exact Nat.lt_add_right _ inside
    · rwa [written, List.length_set]
  exact ⟨_, List.getElem?_eq_getElem room⟩

theorem callsOn_of_vacant (run : Run step start trace final) (vacant : (handles.objects final)[handle]? = none) :
    handles.callsOn handle trace = [] := by
  induction run with
  | start => rfl
  | @next earlier current event after _ taken ih =>
    have before : (handles.objects current)[handle]? = none := by
      cases held : (handles.objects current)[handle]? with
      | none => rfl
      | some a =>
        obtain ⟨a', later⟩ := handles.moves_kept taken held
        rw [vacant] at later
        cases later
    have uncalled : handles.callOn handle event = none := by
      cases called : handles.callOn handle event with
      | none => rfl
      | some name =>
        rw [handles.callOn_eq_some] at called
        rcases handles.moves taken with ⟨uncalled, _⟩ | ⟨place, other, a, _, this, here, _⟩
        · rw [called] at uncalled
          cases uncalled
        · rw [called] at this
          cases this
          rw [before] at here
          cases here
    rw [callsOn_append, ih before]
    simp [callsOn, uncalled]

/-- Each object has a run of its own, by what was done to it and nothing else. -/
theorem exists_run_on (empty : handles.objects start = []) (run : Run step start trace final)
    (held : (handles.objects final)[handle]? = some a) :
    ∃ seen, Run object fresh seen a ∧ seen.map Transition.event = handles.callsOn handle trace := by
  induction run generalizing a with
  | start =>
    rw [empty] at held
    cases held
  | @next earlier current event after previous taken ih =>
    rw [callsOn_append]
    rcases handles.moves_at taken held with ⟨uncalled, old | ⟨vacant, rfl⟩⟩ | ⟨name, before, called, here, moved⟩
    · obtain ⟨seen, run, events⟩ := ih old
      exact ⟨seen, run, by simp [events, callsOn, uncalled]⟩
    · refine ⟨[], .start, ?_⟩
      rw [handles.callsOn_of_vacant previous vacant]
      simp [callsOn, uncalled]
    · obtain ⟨seen, run, events⟩ := ih here
      exact ⟨seen ++ [⟨before, name, a⟩], run.next moved, by simp [events, callsOn, called]⟩

/-- The object that a step acts on, with its run up to there. -/
theorem exists_run_before (empty : handles.objects start = []) (run : Run step start trace s) (taken : step s event s')
    (called : handles.call event = some (handle, name)) :
    ∃ seen a a', Run object fresh seen a ∧ object a name a' ∧
      (handles.objects s')[handle]? = some a' ∧
      List.map Transition.event (seen ++ [⟨a, name, a'⟩]) = handles.callsOn handle (trace ++ [⟨s, event, s'⟩]) := by
  rcases handles.moves taken with ⟨uncalled, _⟩ | ⟨place, other, a, a', this, here, moved, written⟩
  · rw [called] at uncalled
    cases uncalled
  · rw [called] at this
    cases this
    obtain ⟨seen, first, events⟩ := handles.exists_run_on empty run here
    refine ⟨seen, a, a', first, moved, ?_, ?_⟩
    · rw [written, List.getElem?_set_self (List.getElem?_eq_some_iff.mp here).1]
    · rw [callsOn_append, List.map_append, events]
      simp [callsOn, handles.callOn_eq_some.mpr called]

end Handles
