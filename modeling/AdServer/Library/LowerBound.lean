import AdServer.Library.Cells
import AdServer.Library.Predecessor

/-!
Binary search for the first entry of a sorted table that is not below a key. The table is read
through a function that has no value outside of it, so that a search that returns has read
inside. Where the key is an entry, the search ends at one.
-/
namespace LowerBound

open Cells

universe u

variable {κ : Type u}

section
variable [LinearOrder κ]

def search (get : Int → Option κ) (key : κ) (l h : Int) : Option Int :=
  if l ≤ h then
    match get (l + (h - l) / 2) with
    | none => none
    | some x =>
      if key ≤ x then search get key l (l + (h - l) / 2 - 1)
      else search get key (l + (h - l) / 2 + 1) h
  else some l
termination_by (h + 1 - l).toNat

end

variable [LinearOrder κ] {table : List κ} {key : κ}

/-- Whether the entry at an index is at least the key. -/
def reaches (table : List κ) (key : κ) (i : Nat) : Bool := (table[i]?).any fun x => key ≤ x

theorem reaches_eq_true_iff {i : Nat} (hi : i < table.length) :
    reaches table key i = true ↔ key ≤ table[i] := by
  simp only [reaches, List.getElem?_eq_getElem hi, Option.any_some, decide_eq_true_eq]

/-- The search that returns the lower bound ends one above the one that returns the upper. -/
theorem search_eq {l h : Int} (hlow : 0 ≤ l) (horder : l ≤ h + 1) (hhigh : h < table.length) :
    search (entry table) key l h = some (Predecessor.search (reaches table key) l h + 1) := by
  fun_induction search (entry table) key l h with
  | case1 l h hle hnone =>
      obtain ⟨x, hx, -⟩ := @entry_of_lt _ table (l + (h - l) / 2) (by omega) (by omega)
      cases hx.symm.trans hnone
  | case2 l h hle x hx hkey ih =>
      obtain ⟨y, hy, hget⟩ := @entry_of_lt _ table (l + (h - l) / 2) (by omega) (by omega)
      cases hx.symm.trans hy
      have hreaches : reaches table key (l + (h - l) / 2).toNat = true := by
        rw [reaches, hget, Option.any_some, decide_eq_true hkey]
      rw [Predecessor.search, if_pos hle, if_pos hreaches, ih hlow (by omega) (by omega)]
  | case3 l h hle x hx hkey ih =>
      obtain ⟨y, hy, hget⟩ := @entry_of_lt _ table (l + (h - l) / 2) (by omega) (by omega)
      cases hx.symm.trans hy
      have hreaches : ¬reaches table key (l + (h - l) / 2).toNat = true := by
        rw [reaches, hget, Option.any_some, decide_eq_false hkey]
        exact Bool.false_ne_true
      rw [Predecessor.search, if_pos hle, if_neg hreaches, ih (by omega) (by omega) hhigh]
  | case4 l h hle =>
      rw [Predecessor.search, if_neg hle]
      exact congrArg some (by omega)

theorem reaches_mono (hsorted : table.Pairwise (· ≤ ·)) (key : κ) :
    ∀ i j, i ≤ j → j < table.length → reaches table key i = true →
      reaches table key j = true := by
  intro i j hij hj hreaches
  rw [reaches_eq_true_iff (by omega)] at hreaches
  rw [reaches_eq_true_iff hj]
  exact hreaches.trans (Predecessor.getElem_le_getElem hsorted hij hj)

/-- The search reads inside a sorted table, and it ends at the key if the table has it. -/
theorem search_sorted (hsorted : table.Pairwise (· ≤ ·)) (key : κ) :
    ∃ i : Nat, search (entry table) key 0 (table.length - 1) = some (i : Int) ∧ i ≤ table.length ∧
      (table[i]? = some key ↔ key ∈ table) := by
  have hstart : Predecessor.Between (reaches table key) table.length 0 (table.length - 1) := by
    refine ⟨Int.le_refl _, by omega, by omega, fun i hi => ?_, fun i hi hsize => ?_⟩
    · omega
    · omega
  obtain ⟨r, hr, hend⟩ := hstart.search (reaches_mono hsorted key)
  have hlow := hend.low
  have hhigh := hend.high
  refine ⟨(r + 1).toNat, ?_, by omega, List.mem_of_getElem?, fun hmem => ?_⟩
  · rw [search_eq (Int.le_refl 0) (by omega) (by omega), hr, Int.toNat_of_nonneg hlow]
  · obtain ⟨j, hj, hkey⟩ := List.getElem_of_mem hmem
    have hle : (r + 1).toNat ≤ j := by
      by_contra hlt
      have hleft := hend.left j (by omega)
      rw [← Bool.not_eq_true, reaches_eq_true_iff hj] at hleft
      exact hleft hkey.ge
    have hlt : (r + 1).toNat < table.length := by omega
    have hright := hend.right (r + 1).toNat (by omega) hlt
    rw [reaches_eq_true_iff hlt] at hright
    have hfirst := Predecessor.getElem_le_getElem hsorted hle hj
    rw [List.getElem?_eq_getElem hlt, le_antisymm (hfirst.trans hkey.le) hright]

end LowerBound
