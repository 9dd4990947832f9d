import Mathlib.Data.List.Nodup
import Mathlib.Data.List.Flatten
import Mathlib.Algebra.BigOperators.Group.List.Basic

/-- Contiguous blocks of numbered places: who has a block, and how long it is. -/
abbrev Blocks (κ : Type) := List (κ × Nat)

namespace Blocks

variable {κ ι : Type}

/-- The places of all blocks in order, each with its number in its own block. -/
def expand (blocks : Blocks κ) : List (κ × Nat) :=
  blocks.flatMap fun block => (List.range block.2).map fun label => (block.1, label)

/-- How many places there are. -/
def total : Blocks κ → Nat
  | [] => 0
  | block :: rest => block.2 + total rest

/-- Those who have a block that is not empty, once for each. -/
def holders (blocks : Blocks κ) : List κ := (blocks.filter fun block => decide (0 < block.2)).map Prod.fst

@[simp] theorem expand_nil : expand ([] : Blocks κ) = [] := rfl

theorem expand_cons (block : κ × Nat) (rest : Blocks κ) :
    expand (block :: rest) = ((List.range block.2).map fun label => (block.1, label)) ++ expand rest := rfl

theorem total_cons (block : κ × Nat) (rest : Blocks κ) : total (block :: rest) = block.2 + total rest := rfl

theorem expand_eq_nil_iff {blocks : Blocks κ} : expand blocks = [] ↔ ∀ block ∈ blocks, block.2 = 0 := by
  simp [expand, List.flatMap_eq_nil_iff]

/-- A place is found by the total length of the blocks before its own. -/
theorem getElem?_expand_iff {blocks : Blocks κ} {i label : Nat} {key : κ} :
    (expand blocks)[i]? = some (key, label) ↔ ∃ before count after, blocks = before ++ (key, count) :: after ∧
      label < count ∧ i = total before + label := by
  induction blocks generalizing i with
  | nil => simp
  | cons block rest ih =>
    rw [expand_cons]
    constructor
    · intro found
      by_cases here : i < block.2
      · rw [List.getElem?_append_left (by simpa using here)] at found
        simp only [List.getElem?_map, List.getElem?_range here, Option.map_some, Option.some.injEq, Prod.mk.injEq] at found
        obtain ⟨rfl, rfl⟩ := found
        exact ⟨[], block.2, rest, rfl, here, by simp [total]⟩
      · rw [List.getElem?_append_right (by simpa using here), List.length_map, List.length_range] at found
        obtain ⟨before, count, after, rfl, below, place⟩ := ih.mp found
        exact ⟨block :: before, count, after, rfl, below, by rw [total_cons]; omega⟩
    · rintro ⟨before, count, after, split, below, rfl⟩
      cases before with
      | nil =>
        obtain ⟨rfl, rfl⟩ := List.cons.inj split
        rw [List.getElem?_append_left (by simpa [total] using below)]
        simp [total, List.getElem?_range below]
      | cons first before =>
        obtain ⟨rfl, rfl⟩ := List.cons.inj split
        rw [total_cons, List.getElem?_append_right (by simp; omega), List.length_map, List.length_range, ih]
        exact ⟨before, count, after, rfl, below, by omega⟩

theorem expand_map (f : κ → ι) (blocks : Blocks κ) :
    expand (blocks.map fun block => (f block.1, block.2)) = (expand blocks).map fun place => (f place.1, place.2) := by
  simp [expand, List.flatMap_map, List.map_flatMap, Function.comp_def]

theorem mem_expand {blocks : Blocks κ} {key : κ} {label : Nat} :
    (key, label) ∈ expand blocks ↔ ∃ count, (key, count) ∈ blocks ∧ label < count := by
  simp only [expand, List.mem_flatMap, List.mem_map, List.mem_range, Prod.mk.injEq]
  constructor
  · rintro ⟨⟨_, count⟩, member, _, below, rfl, rfl⟩
    exact ⟨count, member, below⟩
  · rintro ⟨count, member, below⟩
    exact ⟨(key, count), member, label, below, rfl, rfl⟩

theorem mem_holders {blocks : Blocks κ} {key : κ} : key ∈ holders blocks ↔ ∃ count, (key, count) ∈ blocks ∧ 0 < count := by
  simp [holders]

theorem not_mem_expand {blocks : Blocks κ} {key : κ} (absent : key ∉ holders blocks) (label : Nat) :
    (key, label) ∉ expand blocks := by
  intro member
  obtain ⟨count, listed, below⟩ := mem_expand.mp member
  exact absent (mem_holders.mpr ⟨count, listed, by omega⟩)

theorem holders_cons_of_pos {block : κ × Nat} {rest : Blocks κ} (positive : 0 < block.2) :
    holders (block :: rest) = block.1 :: holders rest := by
  simp [holders, positive]

theorem expand_cons_of_zero {block : κ × Nat} {rest : Blocks κ} (zero : block.2 = 0) :
    expand (block :: rest) = expand rest ∧ holders (block :: rest) = holders rest := by
  simp [expand_cons, holders, zero]

/-- The places differ in their holder or their number exactly if nobody has two
blocks that are not empty. -/
theorem nodup_expand_iff {blocks : Blocks κ} : (expand blocks).Nodup ↔ (holders blocks).Nodup := by
  induction blocks with
  | nil => simp [holders]
  | cons block rest ih =>
    rcases Nat.eq_zero_or_pos block.2 with zero | positive
    · rw [(expand_cons_of_zero zero).1, (expand_cons_of_zero zero).2, ih]
    · have own : ((List.range block.2).map fun label => (block.1, label)).Nodup :=
        List.nodup_range.map fun _ _ same => (Prod.mk.inj same).2
      rw [expand_cons, List.nodup_append, holders_cons_of_pos positive, List.nodup_cons, ← ih]
      constructor
      · rintro ⟨_, later, apart⟩
        refine ⟨fun again => ?_, later⟩
        obtain ⟨count, listed, nonempty⟩ := mem_holders.mp again
        exact apart (block.1, 0) (List.mem_map.mpr ⟨0, List.mem_range.mpr positive, rfl⟩) (block.1, 0)
          (mem_expand.mpr ⟨count, listed, nonempty⟩) rfl
      · rintro ⟨absent, later⟩
        refine ⟨own, later, ?_⟩
        rintro place first _ second rfl
        obtain ⟨label, _, rfl⟩ := List.mem_map.mp first
        exact not_mem_expand absent label second

/-- The numbers of the places of one holder are those of one block. -/
theorem labels_expand [DecidableEq κ] {blocks : Blocks κ} (distinct : (holders blocks).Nodup) (key : κ) :
    (((expand blocks).filter fun place => decide (place.1 = key)).map Prod.snd) =
      List.range ((expand blocks).countP fun place => decide (place.1 = key)) := by
  induction blocks with
  | nil => simp
  | cons block rest ih =>
    rcases Nat.eq_zero_or_pos block.2 with zero | positive
    · rw [(expand_cons_of_zero zero).2] at distinct
      rw [(expand_cons_of_zero zero).1, ih distinct]
    · rw [holders_cons_of_pos positive] at distinct
      obtain ⟨absent, later⟩ := List.nodup_cons.mp distinct
      rw [expand_cons, List.filter_append, List.countP_append]
      by_cases mine : block.1 = key
      · subst mine
        have none : (expand rest).filter (fun place => decide (place.1 = block.1)) = [] := by
          rw [List.filter_eq_nil_iff]
          rintro ⟨_, label⟩ member
          simp only [decide_eq_true_eq]
          rintro rfl
          exact not_mem_expand absent label member
        rw [List.countP_eq_length_filter (l := expand rest), none]
        simp [List.filter_map, List.countP_map, Function.comp_def]
      · have none : ((List.range block.2).map fun label => (block.1, label)).filter
            (fun place => decide (place.1 = key)) = [] := by simp [List.filter_map, mine, Function.comp_def]
        rw [List.countP_eq_length_filter, none]
        simp [ih later]

end Blocks
