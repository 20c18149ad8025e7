import Mathlib.Data.List.Basic

/-!
Bounded printing into a buffer whose cells keep where their content comes from, and the string
copied out of it by a length. Printing cuts the text and reports the length of the whole.
-/
namespace PrintBuffer

variable {α : Type*}

inductive Cell (α : Type*)
  | written (a : α)
  | terminator
  | old (content : Option α)

/-- The text goes into `size` cells together with its terminator; the cells behind keep what was
in them, `none` where nothing was. -/
def print (before : List (Option α)) (size : Nat) (text : List α) : List (Cell α) :=
  (text.take (size - 1)).map .written ++
    .terminator :: (before.drop ((text.take (size - 1)).length + 1)).map .old

inductive Copied (α : Type*)
  | text (cells : List (Cell α))
  | refused
  | outside

def copy (buffer : List (Cell α)) (length : Int) : Copied α :=
  if length < 0 then .refused
  else if length.toNat ≤ buffer.length then .text (buffer.take length.toNat)
  else .outside

/-- The copy is a part of the printed text and not longer than the buffer. -/
def Copied.OnlyWritten (capacity : Nat) : Copied α → Prop
  | .text cells => (∃ shown : List α, cells = shown.map .written) ∧ cells.length ≤ capacity
  | .refused => True
  | .outside => False

theorem length_print {before : List (Option α)} {size : Nat} (hpos : 0 < size)
    (hroom : size ≤ before.length) (text : List α) :
    (print before size text).length = before.length := by
  simp only [print, List.length_append, List.length_map, List.length_cons, List.length_drop,
    List.length_take]
  omega

theorem take_print_of_le {before : List (Option α)} {size n : Nat} {text : List α}
    (hn : n ≤ (text.take (size - 1)).length) :
    (print before size text).take n = ((text.take (size - 1)).take n).map .written := by
  rw [print, List.take_append_of_le_length (by rwa [List.length_map]), ← List.map_take]

theorem terminator_mem_take_print (before : List (Option α)) {size n : Nat} {text : List α}
    (hn : (text.take (size - 1)).length < n) :
    Cell.terminator ∈ (print before size text).take n := by
  obtain ⟨k, rfl⟩ := Nat.exists_eq_add_of_lt hn
  rw [print, List.take_append, List.length_map]
  refine List.mem_append_right _ ?_
  rw [show (text.take (size - 1)).length + k + 1 - (text.take (size - 1)).length = k + 1 by omega,
    List.take_succ_cons]
  exact List.mem_cons_self

/-- A copy is good if its length is at most that of the printed part. -/
theorem copy_print_onlyWritten_iff {before : List (Option α)} {size : Nat} (hpos : 0 < size)
    (hroom : size ≤ before.length) (text : List α) (length : Int) :
    (copy (print before size text) length).OnlyWritten before.length ↔
      length < 0 ∨ (length ≤ text.length ∧ length < size) := by
  have hshown : (text.take (size - 1)).length = min (size - 1) text.length := List.length_take
  rw [copy]
  split
  · rename_i hneg
    exact iff_of_true trivial (.inl hneg)
  · rename_i hneg
    by_cases hle : length.toNat ≤ (text.take (size - 1)).length
    · rw [length_print hpos hroom, if_pos (by omega), take_print_of_le hle]
      refine iff_of_true ⟨⟨_, rfl⟩, ?_⟩ (.inr ⟨by omega, by omega⟩)
      rw [List.length_map, List.length_take]
      omega
    · refine iff_of_false ?_ (by omega)
      split
      · rintro ⟨⟨shown, hcells⟩, -⟩
        have hmem := terminator_mem_take_print before (Nat.lt_of_not_le hle)
        rw [hcells, List.mem_map] at hmem
        obtain ⟨a, -, ha⟩ := hmem
        cases ha
      · exact id

end PrintBuffer
