import Mathlib.Data.List.Basic

/-!
Handles of resources that are allocated, accessed and released. A handle that has been
released stays closed. An access to a closed handle and a second release change no
resource and are recorded.
-/
namespace Handles

universe u

structure Resource (ν : Type u) where
  value : ν
  isOpen : Bool

/-- The resources in the order of their allocation and the handles used while closed. -/
structure Table (ν : Type u) where
  resources : List (Resource ν)
  misused : List Nat

namespace Table

variable {ν : Type u}

def empty : Table ν := ⟨[], []⟩

def isOpen (table : Table ν) (handle : Nat) : Bool :=
  (table.resources[handle]?).any Resource.isOpen

def allocate (value : ν) (table : Table ν) : Table ν :=
  { table with resources := table.resources ++ [⟨value, true⟩] }

def next (table : Table ν) : Nat := table.resources.length

def use (f : Resource ν → Resource ν) (handle : Nat) (table : Table ν) : Table ν :=
  if table.isOpen handle then { table with resources := table.resources.modify handle f }
  else { table with misused := table.misused ++ [handle] }

def access (f : ν → ν) (handle : Nat) : Table ν → Table ν :=
  use (fun r => { r with value := f r.value }) handle

def release (handle : Nat) : Table ν → Table ν := use (fun r => { r with isOpen := false }) handle

theorem use_of_isOpen (f : Resource ν → Resource ν) {handle : Nat} {table : Table ν}
    (h : table.isOpen handle = true) :
    table.use f handle = { table with resources := table.resources.modify handle f } :=
  if_pos h

theorem misused_use (f : Resource ν → Resource ν) (handle : Nat) (table : Table ν) :
    (table.use f handle).misused = [] ↔ table.misused = [] ∧ table.isOpen handle = true := by
  unfold use
  split
  · rename_i hopen
    simp only [hopen, and_true]
  · rename_i hclosed
    simp [hclosed]

theorem isOpen_access (f : ν → ν) (handle other : Nat) (table : Table ν) :
    (table.access f handle).isOpen other = table.isOpen other := by
  unfold access use
  split
  · simp only [isOpen, List.getElem?_modify]
    split
    · cases table.resources[other]? <;> rfl
    · cases table.resources[other]? <;> rfl
  · rfl

theorem isOpen_release_self {handle : Nat} {table : Table ν} (h : table.isOpen handle = true) :
    (table.release handle).isOpen handle = false := by
  rw [release, use_of_isOpen _ h]
  simp only [isOpen, List.getElem?_modify, if_pos]
  cases table.resources[handle]? <;> rfl

theorem isOpen_allocate_next (value : ν) (table : Table ν) :
    (table.allocate value).isOpen table.next = true := by
  simp [isOpen, allocate, next]

end Table

end Handles
