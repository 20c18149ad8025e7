import Mathlib.Data.List.Induction
import Mathlib.Data.List.Nodup

/-!
Records with room for a fixed number of bins. Setting a bin that is there replaces its
value, a new bin takes the next free place, and a record without a free place stays as
it is.
-/
namespace BoundedRecord

universe u v

structure Record (κ : Type u) (ν : Type v) where
  capacity : Nat
  bins : List (κ × ν)

variable {κ : Type u} {ν : Type v} [DecidableEq κ]

def Record.new (capacity : Nat) : Record κ ν := { capacity := capacity, bins := [] }

def Record.set (r : Record κ ν) (bin : κ × ν) : Record κ ν :=
  if r.bins.any fun old => old.1 = bin.1 then
    { r with bins := r.bins.map fun old => if old.1 = bin.1 then bin else old }
  else if r.bins.length < r.capacity then { r with bins := r.bins ++ [bin] }
  else r

theorem set_take {capacity : Nat} {kept : List (κ × ν)} {bin : κ × ν}
    (hnew : bin.1 ∉ kept.map Prod.fst) :
    Record.set ⟨capacity, kept.take capacity⟩ bin = ⟨capacity, (kept ++ [bin]).take capacity⟩ := by
  have habsent : ((kept.take capacity).any fun old => old.1 = bin.1) = false := by
    rw [List.any_eq_false]
    intro old hold heq
    exact hnew (of_decide_eq_true heq ▸ List.mem_map_of_mem (List.mem_of_mem_take hold))
  simp only [Record.set, habsent, Bool.false_eq_true, if_false, List.length_take]
  by_cases hroom : kept.length < capacity
  · have hall : (kept ++ [bin]).length ≤ capacity := by
      rw [List.length_append, List.length_singleton]
      omega
    rw [if_pos (by omega), List.take_of_length_le (Nat.le_of_lt hroom), List.take_of_length_le hall]
  · rw [if_neg (by omega), List.take_append_of_le_length (by omega)]

/-- Of bins with different names a record keeps the first ones that it has room for. -/
theorem foldl_set (capacity : Nat) (bins : List (κ × ν)) (hnodup : (bins.map Prod.fst).Nodup) :
    bins.foldl Record.set (Record.new capacity) = ⟨capacity, bins.take capacity⟩ := by
  induction bins using List.reverseRecOn with
  | nil => simp [Record.new]
  | append_singleton kept bin ih =>
      rw [List.map_append, List.nodup_append] at hnodup
      rw [List.foldl_append, ih hnodup.1]
      refine set_take fun hmem => ?_
      exact hnodup.2.2 _ hmem _ (List.mem_singleton_self _) rfl

end BoundedRecord
