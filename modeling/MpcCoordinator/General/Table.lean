import Mathlib.Logic.Function.Basic

/-- A hash map as the partial function it denotes. Iteration order and size
are not part of this view; maps that are counted or walked use lists. -/
abbrev Table (κ ν : Type) := κ → Option ν

namespace Table

variable {κ ν : Type} [DecidableEq κ]

def empty : Table κ ν := fun _ => none

def insert (table : Table κ ν) (key : κ) (value : ν) : Table κ ν :=
  Function.update table key (some value)

def erase (table : Table κ ν) (key : κ) : Table κ ν :=
  Function.update table key none

omit [DecidableEq κ] in
@[simp] theorem empty_apply (key : κ) : (empty : Table κ ν) key = none := rfl

@[simp] theorem insert_self (table : Table κ ν) (key : κ) (value : ν) :
    table.insert key value key = some value := by
  simp [insert]

theorem insert_of_ne (table : Table κ ν) {key other : κ} (value : ν) (different : other ≠ key) :
    table.insert key value other = table other := by
  simp [insert, Function.update_of_ne different]

theorem insert_apply (table : Table κ ν) (key other : κ) (value : ν) :
    table.insert key value other = if other = key then some value else table other := by
  simp [insert, Function.update_apply]

theorem erase_apply (table : Table κ ν) (key other : κ) :
    table.erase key other = if other = key then none else table other := by
  simp [erase, Function.update_apply]

theorem erase_of_ne (table : Table κ ν) {key other : κ} (different : other ≠ key) :
    table.erase key other = table other := by
  simp [erase, Function.update_of_ne different]

end Table
