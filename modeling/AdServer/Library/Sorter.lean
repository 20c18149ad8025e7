import Mathlib.Data.List.Pairwise
import Mathlib.Data.List.Nodup
import Mathlib.Data.List.Perm.Basic
import Mathlib.Order.Lattice

/-!
A sort of index arrays by a comparison. Which of two equal indices comes first is open, so a sort
is any function that rearranges its array and leaves no index before a smaller one.
-/

universe u

structure Sorter where
  sort : (Nat → Nat → Bool) → List Nat → List Nat
  perm : ∀ less l, (sort less l).Perm l
  sorted : ∀ (less : Nat → Nat → Bool) (l : List Nat),
    (∀ a b, less a b = true → less b a = false) →
    (∀ a b c, less a b = false → less b c = false → less a c = false) →
    (sort less l).Pairwise fun a b => less b a = false

namespace Sorter

def merge : Sorter where
  sort less l := l.mergeSort fun a b => !less b a
  perm less l := List.mergeSort_perm l _
  sorted less l hasymm htrans := by
    refine (List.pairwise_mergeSort (fun a b c hab hbc => ?_) (fun a b => ?_) l).imp fun h => ?_
    · rw [Bool.not_eq_true'] at hab hbc ⊢
      exact htrans c b a hbc hab
    · cases hba : less b a with
      | false => rfl
      | true => rw [hasymm b a hba]; rfl
    · rwa [Bool.not_eq_true'] at h

/-- The sort by a key in a linear order. -/
def byKey {κ : Type u} [LinearOrder κ] (sorter : Sorter) (key : Nat → κ) (l : List Nat) :
    List Nat :=
  sorter.sort (fun a b => key a < key b) l

theorem perm_byKey {κ : Type u} [LinearOrder κ] (sorter : Sorter) (key : Nat → κ)
    (l : List Nat) : (sorter.byKey key l).Perm l :=
  sorter.perm _ l

theorem byKey_sorted {κ : Type u} [LinearOrder κ] (sorter : Sorter) (key : Nat → κ)
    (l : List Nat) : ((sorter.byKey key l).map key).Pairwise (· ≤ ·) := by
  have hsorted := sorter.sorted (fun a b => key a < key b) l
    (fun a b h => decide_eq_false (lt_asymm (of_decide_eq_true h))) fun a b c hab hbc => ?_
  · refine List.pairwise_map.mpr (hsorted.imp fun h => ?_)
    exact not_lt.mp (of_decide_eq_false h)
  · have hab := not_lt.mp (of_decide_eq_false hab)
    have hbc := not_lt.mp (of_decide_eq_false hbc)
    exact decide_eq_false (not_lt.mpr (hbc.trans hab))

end Sorter
