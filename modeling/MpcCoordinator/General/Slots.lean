import Mathlib.Data.List.Basic
import Mathlib.Data.List.Nodup
import Mathlib.Data.List.Count
import Mathlib.Data.Finset.Card

/-- A fixed number of write slots, each empty or holding one value. -/
abbrev Slots (α : Type) := List (Option α)

namespace Slots

variable {α : Type}

/-- The value in a slot; out of range reads as empty. -/
def read (slots : Slots α) (i : Nat) : Option α := slots[i]?.join

/-- Write a batch in order, so that of two writes to one slot the later stays. -/
def writeAll (slots : Slots α) (writes : List (Nat × α)) : Slots α :=
  writes.foldl (fun current write => current.set write.1 (some write.2)) slots

/-- How many slots hold a value. -/
def filled (slots : Slots α) : Nat := slots.countP Option.isSome

theorem read_eq_some {slots : Slots α} {i : Nat} {x : α} :
    slots.read i = some x ↔ slots[i]? = some (some x) := by
  simp [read, Option.join_eq_some_iff]

theorem some_mem_iff {slots : Slots α} {x : α} : some x ∈ slots ↔ ∃ i, slots.read i = some x := by
  rw [List.mem_iff_getElem?]
  exact exists_congr fun i => read_eq_some.symm

theorem lt_of_read {slots : Slots α} {i : Nat} {x : α} (full : slots.read i = some x) :
    i < slots.length := by
  obtain ⟨bound, _⟩ := List.getElem?_eq_some_iff.mp (read_eq_some.mp full)
  exact bound

theorem vacant_iff {slots : Slots α} {i : Nat} : slots[i]? = some none ↔ i < slots.length ∧ slots.read i = none := by
  constructor
  · intro vacant
    obtain ⟨bound, _⟩ := List.getElem?_eq_some_iff.mp vacant
    exact ⟨bound, by simp [read, vacant]⟩
  · rintro ⟨bound, empty⟩
    rw [read, List.getElem?_eq_getElem bound, Option.join_some] at empty
    rw [List.getElem?_eq_getElem bound, empty]

@[simp] theorem read_replicate (n i : Nat) : read (List.replicate n (none : Option α)) i = none := by
  simp only [read, List.getElem?_replicate]
  split <;> rfl

theorem read_set_self {slots : Slots α} {i : Nat} {x : α} (bound : i < slots.length) :
    read (slots.set i (some x)) i = some x := by
  simp [read, bound]

theorem read_set_of_ne {slots : Slots α} {i j : Nat} {x : Option α} (different : i ≠ j) :
    read (slots.set i x) j = slots.read j := by
  simp [read, List.getElem?_set_ne different]

@[simp] theorem writeAll_cons (slots : Slots α) (i : Nat) (x : α) (writes : List (Nat × α)) :
    slots.writeAll ((i, x) :: writes) = writeAll (slots.set i (some x)) writes := rfl

@[simp] theorem length_writeAll (slots : Slots α) (writes : List (Nat × α)) :
    (slots.writeAll writes).length = slots.length := by
  induction writes generalizing slots with
  | nil => rfl
  | cons write writes ih =>
    rw [writeAll_cons, ih, List.length_set]

theorem read_writeAll_of_not_mem {slots : Slots α} {writes : List (Nat × α)} {i : Nat}
    (fresh : i ∉ writes.map Prod.fst) : (slots.writeAll writes).read i = slots.read i := by
  induction writes generalizing slots with
  | nil => rfl
  | cons write writes ih =>
    simp only [List.map_cons, List.mem_cons, not_or] at fresh
    rw [writeAll_cons, ih fresh.2, read_set_of_ne (Ne.symm fresh.1)]

/-- What a slot holds after a batch is either what it held before or a value
the batch wrote to it. -/
theorem read_writeAll_cases {slots : Slots α} {writes : List (Nat × α)} {i : Nat} {x : α}
    (full : (slots.writeAll writes).read i = some x) :
    (i ∉ writes.map Prod.fst ∧ slots.read i = some x) ∨ (i, x) ∈ writes := by
  induction writes generalizing slots with
  | nil => exact Or.inl ⟨by simp, full⟩
  | cons write writes ih =>
    obtain ⟨j, y⟩ := write
    rw [writeAll_cons] at full
    rcases ih full with ⟨fresh, old⟩ | later
    · by_cases same : j = i
      · subst j
        rw [read_set_self (by simpa using lt_of_read old)] at old
        cases Option.some.inj old
        exact Or.inr (List.mem_cons_self ..)
      · rw [read_set_of_ne same] at old
        exact Or.inl ⟨by simpa [Ne.symm same] using fresh, old⟩
    · exact Or.inr (List.mem_cons_of_mem _ later)

/-- Every slot named by a batch holds a value afterwards. -/
theorem read_writeAll_of_mem {slots : Slots α} {writes : List (Nat × α)} {i : Nat}
    (named : i ∈ writes.map Prod.fst) (bound : i < slots.length) :
    ∃ x, (i, x) ∈ writes ∧ (slots.writeAll writes).read i = some x := by
  induction writes generalizing slots with
  | nil => simp at named
  | cons write writes ih =>
    obtain ⟨j, y⟩ := write
    rw [writeAll_cons]
    by_cases later : i ∈ writes.map Prod.fst
    · have within : i < (slots.set j (some y)).length := by simpa using bound
      obtain ⟨x, member, value⟩ := ih later within
      exact ⟨x, List.mem_cons_of_mem _ member, value⟩
    · have same : i = j := by simpa [later] using named
      subst j
      refine ⟨y, List.mem_cons_self .., ?_⟩
      rw [read_writeAll_of_not_mem later, read_set_self bound]

theorem read_writeAll_of_nodup {slots : Slots α} {writes : List (Nat × α)} {i : Nat} {x : α}
    (distinct : (writes.map Prod.fst).Nodup) (member : (i, x) ∈ writes) (bound : i < slots.length) :
    (slots.writeAll writes).read i = some x := by
  have named : i ∈ writes.map Prod.fst := List.mem_map.mpr ⟨_, member, rfl⟩
  obtain ⟨y, other, value⟩ := read_writeAll_of_mem named bound
  have same : (i, y) = (i, x) := List.inj_on_of_nodup_map distinct other member rfl
  cases same
  exact value

theorem isSome_read_writeAll {slots : Slots α} {writes : List (Nat × α)} {i : Nat}
    (bounds : ∀ j ∈ writes.map Prod.fst, j < slots.length) :
    ((slots.writeAll writes).read i).isSome = true ↔ (slots.read i).isSome = true ∨ i ∈ writes.map Prod.fst := by
  by_cases named : i ∈ writes.map Prod.fst
  · obtain ⟨x, _, value⟩ := read_writeAll_of_mem named (bounds i named)
    simp [value, named]
  · rw [read_writeAll_of_not_mem named]
    simp [named]

/-- Between two tables exactly the slots of a batch are filled, each with a value
that the batch has for it. -/
structure Fills (slots slots' : Slots α) (writes : List (Nat × α)) : Prop where
  length : slots'.length = slots.length
  before : ∀ i ∈ writes.map Prod.fst, slots.read i = none
  after : ∀ i ∈ writes.map Prod.fst, ∃ x, (i, x) ∈ writes ∧ slots'.read i = some x
  others : ∀ i ∉ writes.map Prod.fst, slots'.read i = slots.read i

theorem fills_writeAll {slots : Slots α} {writes : List (Nat × α)}
    (vacant : ∀ i ∈ writes.map Prod.fst, i < slots.length ∧ slots.read i = none) :
    Fills slots (slots.writeAll writes) writes where
  length := length_writeAll slots writes
  before i named := (vacant i named).2
  after i named := read_writeAll_of_mem named (vacant i named).1
  others _ fresh := read_writeAll_of_not_mem fresh

/-- Every value of the batch is there exactly if no slot has two different ones. -/
theorem Fills.whole_iff {slots slots' : Slots α} {writes : List (Nat × α)} (fills : Fills slots slots' writes) :
    (∀ write ∈ writes, slots'.read write.1 = some write.2) ↔
      ∀ write ∈ writes, ∀ other ∈ writes, write.1 = other.1 → write.2 = other.2 := by
  constructor
  · intro whole write member other otherMember same
    have first := whole write member
    rw [same, whole other otherMember] at first
    exact (Option.some.inj first).symm
  · intro agree write member
    obtain ⟨x, listed, stored⟩ := fills.after write.1 (List.mem_map_of_mem member)
    rw [stored, agree write member (write.1, x) listed rfl]

/-- A table is the list of what its slots read. -/
theorem eq_map_read (slots : Slots α) : slots = (List.range slots.length).map slots.read := by
  refine List.ext_getElem (by simp) fun i bound _ => ?_
  simp [read, bound]

/-- Counting the values is counting the slots that have one. -/
theorem filled_eq_card {slots : Slots α} {indices : Finset Nat}
    (named : ∀ i, (slots.read i).isSome = true ↔ i ∈ indices) : slots.filled = indices.card := by
  have inside : indices = ((List.range slots.length).filter fun i => (slots.read i).isSome).toFinset := by
    ext i
    rw [List.mem_toFinset, List.mem_filter, List.mem_range, named]
    refine ⟨fun member => ⟨?_, member⟩, And.right⟩
    obtain ⟨x, value⟩ := Option.isSome_iff_exists.mp ((named i).mpr member)
    exact lt_of_read value
  have distinct : ((List.range slots.length).filter fun i => (slots.read i).isSome).Nodup :=
    List.nodup_range.filter _
  have count : slots.filled = (List.range slots.length).countP fun i => (slots.read i).isSome := by
    unfold filled
    nth_rewrite 1 [eq_map_read slots]
    rw [List.countP_map]
    rfl
  rw [inside, List.toFinset_card_of_nodup distinct, count, List.countP_eq_length_filter]

theorem filled_eq_card_filter (slots : Slots α) :
    slots.filled = ((Finset.range slots.length).filter fun i => (slots.read i).isSome = true).card := by
  refine filled_eq_card fun i => ?_
  rw [Finset.mem_filter, Finset.mem_range]
  refine ⟨fun full => ⟨?_, full⟩, And.right⟩
  obtain ⟨x, value⟩ := Option.isSome_iff_exists.mp full
  exact lt_of_read value

/-- A batch that writes anything leaves fewer slots empty. -/
theorem Fills.filled_lt {slots slots' : Slots α} {writes : List (Nat × α)} (fills : Fills slots slots' writes)
    (nonempty : writes ≠ []) : slots.filled < slots'.filled := by
  obtain ⟨write, member⟩ := List.exists_mem_of_ne_nil writes nonempty
  have named : write.1 ∈ writes.map Prod.fst := List.mem_map_of_mem member
  rw [filled_eq_card_filter, filled_eq_card_filter, fills.length]
  refine Finset.card_lt_card (Finset.ssubset_iff.mpr ⟨write.1, ?_, ?_⟩)
  · simp [fills.before _ named]
  · intro i inside
    obtain ⟨x, _, stored⟩ := fills.after _ named
    rcases Finset.mem_insert.mp inside with rfl | old
    · have bound := lt_of_read stored
      rw [fills.length] at bound
      simp [stored, bound]
    · obtain ⟨bound, full⟩ := Finset.mem_filter.mp old
      have fresh : i ∉ writes.map Prod.fst := by
        intro again
        simp [fills.before i again] at full
      exact Finset.mem_filter.mpr ⟨bound, by rwa [fills.others i fresh]⟩

theorem filled_le_length (slots : Slots α) : slots.filled ≤ slots.length := List.countP_le_length

/-- The slots without a value are those the count leaves over. -/
theorem length_sub_filled (slots : Slots α) :
    slots.length - slots.filled = slots.countP Option.isNone := by
  have total : slots.length = _ := List.length_eq_countP_add_countP Option.isSome
  have other : slots.countP (fun a => decide ¬ a.isSome = true) = slots.countP Option.isNone := by
    congr 1
    funext a
    cases a <;> rfl
  unfold filled
  rw [other] at total
  omega

theorem none_notMem_iff {slots : Slots α} : none ∉ slots ↔ ∀ i < slots.length, (slots.read i).isSome = true := by
  constructor
  · intro complete i inside
    rw [Option.isSome_iff_ne_none]
    intro empty
    refine complete (List.mem_iff_getElem.mpr ⟨i, inside, ?_⟩)
    simpa [read, inside] using empty
  · intro all member
    obtain ⟨i, inside, empty⟩ := List.mem_iff_getElem.mp member
    have filled := all i inside
    simp [read, inside, empty] at filled

/-- All slots hold a value when as many do as there are slots. -/
theorem filled_eq_length_iff {slots : Slots α} : slots.filled = slots.length ↔ none ∉ slots := by
  rw [filled, List.countP_eq_length]
  constructor
  · intro all member
    cases all none member
  · intro complete entry member
    rw [Option.isSome_iff_ne_none]
    rintro rfl
    exact complete member

end Slots
