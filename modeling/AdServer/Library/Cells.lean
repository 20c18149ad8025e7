import Mathlib.Data.List.Basic

/-!
Arrays with indices that may be any integer. A read or a write outside of the array has no
result. The cells can also be taken two at a time, as a pointer to a wider type does.
-/
namespace Cells

universe u

variable {α : Type u}

/-- The entry of an array at an index that may be any integer. -/
def entry (cells : List α) (i : Int) : Option α :=
  if 0 ≤ i then cells[i.toNat]? else none

def put (cells : List α) (i : Int) (x : α) : Option (List α) :=
  if 0 ≤ i ∧ i < cells.length then some (cells.set i.toNat x) else none

theorem entry_natCast (cells : List α) (i : Nat) : entry cells i = cells[i]? :=
  if_pos (Int.natCast_nonneg i)

theorem entry_of_lt {cells : List α} {i : Int} (hlow : 0 ≤ i) (hhigh : i < cells.length) :
    ∃ x, entry cells i = some x ∧ cells[i.toNat]? = some x := by
  have hlt : i.toNat < cells.length := by omega
  exact ⟨cells[i.toNat], by rw [entry, if_pos hlow, List.getElem?_eq_getElem hlt],
    List.getElem?_eq_getElem hlt⟩

theorem getElem?_length_append (front : List α) (x : α) (back : List α) :
    (front ++ x :: back)[front.length]? = some x := by
  rw [List.getElem?_append_right (Nat.le_refl _), Nat.sub_self, List.getElem?_cons_zero]

theorem entry_append_cons {front : List α} {i : Int} (hi : i = front.length) (x : α)
    (back : List α) : entry (front ++ x :: back) i = some x := by
  rw [hi, entry_natCast, getElem?_length_append]

theorem put_append_cons {front : List α} {i : Int} (hi : i = front.length) (x y : α)
    (back : List α) : put (front ++ x :: back) i y = some (front ++ y :: back) := by
  have hlt : front.length < (front ++ x :: back).length := by
    rw [List.length_append, List.length_cons]
    omega
  rw [hi, put, if_pos ⟨Int.natCast_nonneg _, Int.ofNat_lt.mpr hlt⟩, Int.toNat_natCast,
    List.set_append_right _ _ (Nat.le_refl _), Nat.sub_self]
  rfl

/-- Pairs of cells one behind the other. -/
def flat (us : List (α × α)) : List α := us.flatMap fun u => [u.1, u.2]

/-- The cells two at a time; an odd one at the end is in no pair. -/
def units : List α → List (α × α)
  | a :: b :: cells => (a, b) :: units cells
  | _ => []

/-- An operation on the pairs of the cells. -/
def onUnits (f : List (α × α) → Option (List (α × α))) (cells : List α) : Option (List α) :=
  (f (units cells)).map fun us => flat us ++ cells.drop (2 * us.length)

theorem flat_append (us vs : List (α × α)) : flat (us ++ vs) = flat us ++ flat vs :=
  List.flatMap_append

theorem flat_cons (u : α × α) (us : List (α × α)) : flat (u :: us) = u.1 :: u.2 :: flat us :=
  List.flatMap_cons

theorem length_flat (us : List (α × α)) : (flat us).length = 2 * us.length := by
  induction us with
  | nil => rfl
  | cons u us ih =>
      rw [flat_cons, List.length_cons, List.length_cons, List.length_cons, ih]
      omega

theorem units_flat_append (us : List (α × α)) (tail : List α) :
    units (flat us ++ tail) = us ++ units tail := by
  induction us with
  | nil => rfl
  | cons u us ih => exact congrArg (u :: ·) ih

theorem exists_flat {k : Nat} {cells : List α} (h : 2 * k ≤ cells.length) :
    ∃ us, us.length = k ∧ cells = flat us ++ cells.drop (2 * k) := by
  induction k generalizing cells with
  | zero => exact ⟨[], rfl, rfl⟩
  | succ k ih =>
      match cells, h with
      | a :: b :: cells, h =>
          simp only [List.length_cons] at h
          obtain ⟨us, hlength, hcells⟩ := @ih cells (by omega)
          exact ⟨(a, b) :: us, congrArg (· + 1) hlength, congrArg (fun l => a :: b :: l) hcells⟩

theorem flat_units_append_drop (cells : List α) :
    flat (units cells) ++ cells.drop (2 * (units cells).length) = cells := by
  induction cells using units.induct with
  | case1 a b cells ih =>
      rw [units, List.length_cons, Nat.mul_succ]
      exact congrArg (fun l => a :: b :: l) ih
  | case2 cells hcells =>
      match cells, hcells with
      | [], _ => rfl
      | [a], _ => rfl
      | a :: b :: cells, hcells => exact absurd rfl (hcells a b cells)

theorem onUnits_flat {f : List (α × α) → Option (List (α × α))} {us vs : List (α × α)}
    {tail : List α} (h : f (us ++ units tail) = some (vs ++ units tail))
    (hlength : vs.length = us.length) :
    onUnits f (flat us ++ tail) = some (flat vs ++ tail) := by
  rw [onUnits, units_flat_append, h, Option.map_some, flat_append, List.length_append, hlength,
    Nat.mul_add, ← length_flat us, List.drop_length_add_append, List.append_assoc,
    flat_units_append_drop]

end Cells
