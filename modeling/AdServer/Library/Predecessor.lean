import Mathlib.Order.Bounds.Defs
import Mathlib.Order.Lattice
import Mathlib.Data.List.Basic

/-!
Binary search for the last index of a table that is not above a key. The bounds are
integers, since the search ends below the first index if every entry is above the key.
-/
namespace Predecessor

universe u

def search (above : Nat → Bool) (l h : Int) : Int :=
  if l ≤ h then
    let mid := l + (h - l) / 2
    if above mid.toNat then search above l (mid - 1) else search above (mid + 1) h
  else h
termination_by (h + 1 - l).toNat

/-- The entries below `l` are not above the key and those from `h` on are. -/
structure Between (above : Nat → Bool) (size : Nat) (l h : Int) : Prop where
  low : 0 ≤ l
  order : l ≤ h + 1
  high : h < size
  left : ∀ i : Nat, (i : Int) < l → above i = false
  right : ∀ i : Nat, h < i → i < size → above i = true

theorem Between.search {above : Nat → Bool} {size : Nat}
    (hmono : ∀ i j, i ≤ j → j < size → above i = true → above j = true) {l h : Int}
    (hb : Between above size l h) :
    ∃ r, Predecessor.search above l h = r ∧ Between above size (r + 1) r := by
  fun_induction Predecessor.search above l h with
  | case1 l h hle mid habove ih =>
      have hmid : l ≤ mid ∧ mid ≤ h := by omega
      refine ih ⟨hb.low, by omega, by have := hb.high; omega, hb.left, ?_⟩
      intro i hi hsize
      refine hmono mid.toNat i ?_ hsize habove
      have := hb.low
      omega
  | case2 l h hle mid habove ih =>
      have hmid : l ≤ mid ∧ mid ≤ h := by omega
      have hlow := hb.low
      refine ih ⟨by omega, by omega, hb.high, ?_, hb.right⟩
      intro i hi
      by_contra hi'
      rw [Bool.not_eq_false] at hi'
      have hhigh := hb.high
      exact habove (hmono i mid.toNat (by omega) (by omega) hi')
  | case3 l h hle =>
      refine ⟨h, rfl, ?_⟩
      have hl : l = h + 1 := by
        have := hb.order
        omega
      exact hl ▸ hb

section
variable {α : Type u} [LinearOrder α]

def above (table : List α) (key : α) (i : Nat) : Bool := (table[i]?).any fun x => key < x

theorem above_eq_true_iff {table : List α} {key : α} {i : Nat} (hi : i < table.length) :
    above table key i = true ↔ key < table[i] := by
  simp only [above, List.getElem?_eq_getElem hi, Option.any_some, decide_eq_true_eq]

theorem getElem_le_getElem {table : List α} (hsorted : table.Pairwise (· ≤ ·)) {i j : Nat}
    (hij : i ≤ j) (hj : j < table.length) : table[i] ≤ table[j] := by
  rcases Nat.lt_or_eq_of_le hij with hlt | rfl
  · exact List.pairwise_iff_getElem.mp hsorted i j (by omega) hj hlt
  · exact le_refl _

theorem above_mono {table : List α} (hsorted : table.Pairwise (· ≤ ·)) (key : α) :
    ∀ i j, i ≤ j → j < table.length → above table key i = true → above table key j = true := by
  intro i j hij hj habove
  rw [above_eq_true_iff (by omega)] at habove
  rw [above_eq_true_iff hj]
  exact lt_of_lt_of_le habove (getElem_le_getElem hsorted hij hj)

/-- The search over a sorted table ends at the greatest entry that is at most the key, or
below the table if there is none. -/
theorem search_sorted {table : List α} (hsorted : table.Pairwise (· ≤ ·)) (key : α) :
    ∃ r, search (above table key) 0 (table.length - 1) = r ∧
      ((r < 0 ∧ ∀ x ∈ table, key < x) ∨
        (0 ≤ r ∧ ∃ x, table[r.toNat]? = some x ∧ IsGreatest {y | y ∈ table ∧ y ≤ key} x)) := by
  have hstart : Between (above table key) table.length 0 (table.length - 1) := by
    refine ⟨Int.le_refl _, by omega, by omega, ?_, ?_⟩
    · intro i hi
      omega
    · intro i hi hsize
      omega
  obtain ⟨r, hr, hend⟩ := hstart.search (above_mono hsorted key)
  have hhigh := hend.high
  have hright : ∀ i (hi : i < table.length), r < i → key < table[i] := fun i hi hlt =>
    (above_eq_true_iff hi).mp (hend.right i hlt hi)
  refine ⟨r, hr, ?_⟩
  by_cases hneg : r < 0
  · refine .inl ⟨hneg, ?_⟩
    intro x hx
    obtain ⟨i, hi, rfl⟩ := List.getElem_of_mem hx
    exact hright i hi (by omega)
  · have hlt : r.toNat < table.length := by omega
    refine .inr ⟨by omega, table[r.toNat], List.getElem?_eq_getElem hlt,
      ⟨List.getElem_mem hlt, ?_⟩, ?_⟩
    · have hleft := hend.left r.toNat (by omega)
      rw [← Bool.not_eq_true, above_eq_true_iff hlt] at hleft
      exact not_lt.mp hleft
    · rintro y ⟨hy, hkey⟩
      obtain ⟨j, hj, rfl⟩ := List.getElem_of_mem hy
      have hjr : j ≤ r.toNat := by
        by_contra hgt
        exact not_lt.mpr hkey (hright j hj (by omega))
      exact getElem_le_getElem hsorted hjr hlt

end

end Predecessor
