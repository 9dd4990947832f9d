import MpcCoordinator.General.Table
import MpcCoordinator.General.Mail
import Mathlib.Data.List.Sort

namespace Gather

variable {κ ι ν μ : Type} [DecidableEq κ]

/-- Adds an entry at the end of the list of its key, which is empty at first. -/
def push (table : Table κ (List μ)) (entry : κ × μ) : Table κ (List μ) :=
  table.insert entry.1 ((table entry.1).getD [] ++ [entry.2])

theorem foldl_push_apply (entries : List (κ × μ)) (table : Table κ (List μ)) (key : κ) :
    entries.foldl push table key =
      if Mail.select key entries = [] then table key else some ((table key).getD [] ++ Mail.select key entries) := by
  induction entries generalizing table with
  | nil => simp
  | cons entry rest ih =>
    rw [List.foldl_cons, ih, push, Table.insert_apply]
    have split : entry :: rest = [entry] ++ rest := rfl
    rw [split, Mail.select_append]
    by_cases here : key = entry.1
    · subst here
      have own : Mail.select entry.1 [entry] = [entry.2] := by simp [Mail.select]
      simp only [own, List.cons_append, List.nil_append, List.append_assoc, if_true, Option.getD_some,
        reduceCtorEq, if_false]
      split
      · rename_i last
        rw [last]
      · rfl
    · have other : Mail.select key [entry] = [] := Mail.select_eq_nil (by simpa using Ne.symm here)
      simp only [other, List.nil_append, here, if_false]

theorem perm_select {entries others : List (κ × μ)} (perm : entries.Perm others) (key : κ) :
    (Mail.select key entries).Perm (Mail.select key others) :=
  (perm.filter _).map _

theorem nodup_select {entries : List (κ × ι × ν)} (distinct : (entries.map fun entry => entry.2.1).Nodup) (key : κ) :
    ((Mail.select key entries).map Prod.fst).Nodup := by
  rw [Mail.select, List.map_map]
  exact distinct.sublist (List.filter_sublist.map _)

variable [LE ι] [DecidableLE ι]

/-- A list by ascending numbers; a stable sort. -/
def inOrder (numbered : List (ι × ν)) : List (ι × ν) := numbered.insertionSort fun a b => a.1 ≤ b.1

/-- The lists of all keys, each put in order and rid of its numbers. -/
def finish (table : Table κ (List (ι × ν))) : Table κ (List ν) :=
  fun key => (table key).map fun numbered => (inOrder numbered).map Prod.snd

/-- What numbered entries that came in one after the other amount to. -/
def collect (entries : List (κ × ι × ν)) : Table κ (List ν) := finish (entries.foldl push Table.empty)

theorem collect_apply (entries : List (κ × ι × ν)) (key : κ) :
    collect entries key =
      if Mail.select key entries = [] then none else some ((inOrder (Mail.select key entries)).map Prod.snd) := by
  unfold collect finish
  rw [foldl_push_apply]
  split
  · rfl
  · simp

theorem inOrder_map {ρ : Type} (number : ρ → ι × ν) (values : List ρ) :
    inOrder (values.map number) = (values.insertionSort fun a b => (number a).1 ≤ (number b).1).map number :=
  (List.map_insertionSort _ _ number values fun _ _ _ _ => Iff.rfl).symm

theorem perm_inOrder (numbered : List (ι × ν)) : (inOrder numbered).Perm numbered := List.perm_insertionSort ..

/-- Keys may be renamed. -/
theorem collect_rename {η : Type} [DecidableEq η] {name : κ → η} {entries : List (κ × ι × ν)} {key : κ}
    (apart : ∀ entry ∈ entries, name entry.1 = name key → entry.1 = key) :
    collect (entries.map fun entry => (name entry.1, entry.2)) (name key) = collect entries key := by
  have same : Mail.select (name key) (entries.map fun entry => (name entry.1, entry.2)) = Mail.select key entries := by
    simp only [Mail.select, List.filter_map, List.map_map]
    rw [List.filter_congr fun entry member => ?_]
    · rfl
    · simp only [Function.comp_apply, decide_eq_decide]
      exact ⟨apart entry member, fun equal => by rw [equal]⟩
  rw [collect_apply, collect_apply, same]

variable [Std.IsLinearOrder ι]

theorem pairwise_inOrder (numbered : List (ι × ν)) : (inOrder numbered).Pairwise fun a b => a.1 ≤ b.1 := by
  have total : Std.Total fun a b : ι × ν => a.1 ≤ b.1 := ⟨fun a b => Std.le_total⟩
  have trans : IsTrans (ι × ν) fun a b => a.1 ≤ b.1 := ⟨fun a b c => Std.le_trans⟩
  exact List.pairwise_insertionSort _ numbered

/-- Distinct numbers leave one order only. -/
theorem inOrder_eq_of_perm {numbered others : List (ι × ν)} (distinct : (numbered.map Prod.fst).Nodup)
    (perm : numbered.Perm others) : inOrder numbered = inOrder others := by
  refine ((perm_inOrder numbered).trans (perm.trans (perm_inOrder others).symm)).eq_of_pairwise ?_
    (pairwise_inOrder numbered) (pairwise_inOrder others)
  intro a b first second below above
  have here := (perm_inOrder numbered).mem_iff.mp first
  have there := perm.mem_iff.mpr ((perm_inOrder others).mem_iff.mp second)
  exact List.inj_on_of_nodup_map distinct here there (Std.le_antisymm below above)

/-- In what order entries with distinct numbers come in makes no difference. -/
theorem collect_eq_of_perm {entries others : List (κ × ι × ν)} (distinct : (entries.map fun entry => entry.2.1).Nodup)
    (perm : entries.Perm others) : collect entries = collect others := by
  funext key
  have same := perm_select perm key
  rw [collect_apply, collect_apply, inOrder_eq_of_perm (nodup_select distinct key) same]
  by_cases none : Mail.select key entries = []
  · have none' : Mail.select key others = [] := (none ▸ same).nil_eq.symm
    simp [none, none']
  · have some' : Mail.select key others ≠ [] := fun empty => none (empty ▸ same).eq_nil
    simp [none, some']

end Gather
