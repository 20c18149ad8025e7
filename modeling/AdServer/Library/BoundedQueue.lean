import Mathlib.Data.Nat.ModEq

/-!
A first-in first-out queue of bounded capacity, and the layout of such a queue in a ring of cells.
The items stand in the cells from the read place on, around the end of the ring.
-/

universe u

structure BoundedQueue (α : Type u) (capacity : Nat) where
  items : List α
  bounded : items.length ≤ capacity

namespace BoundedQueue

variable {α : Type u} {capacity : Nat}

inductive Request (α : Type u) where
  | push (item : α)
  | pop

inductive Answer (α : Type u) where
  | pushed (success : Bool)
  | popped (item : Option α)
  deriving DecidableEq

def empty : BoundedQueue α capacity := ⟨[], Nat.zero_le capacity⟩

/-- An item goes behind the others, unless the queue is at its capacity. -/
def tryPush (queue : BoundedQueue α capacity) (item : α) : BoundedQueue α capacity × Bool :=
  if hroom : queue.items.length < capacity then
    (⟨queue.items ++ [item], by rw [List.length_append]; exact hroom⟩, true)
  else (queue, false)

/-- The oldest item leaves the queue, unless the queue is empty. -/
def tryPop (queue : BoundedQueue α capacity) : BoundedQueue α capacity × Option α :=
  match hitems : queue.items with
  | [] => (queue, none)
  | oldest :: rest =>
    (⟨rest, Nat.le_of_succ_le (by simpa [hitems] using queue.bounded)⟩, some oldest)

def answer (queue : BoundedQueue α capacity) : Request α → BoundedQueue α capacity × Answer α
  | .push item => ((queue.tryPush item).1, .pushed (queue.tryPush item).2)
  | .pop => (queue.tryPop.1, .popped queue.tryPop.2)

variable {queue : BoundedQueue α capacity}

theorem tryPush_of_lt (h : queue.items.length < capacity) (item : α) :
    (queue.tryPush item).1.items = queue.items ++ [item] ∧ (queue.tryPush item).2 = true := by
  rw [tryPush, dif_pos h]
  exact ⟨rfl, rfl⟩

theorem tryPush_of_full (h : queue.items.length = capacity) (item : α) :
    queue.tryPush item = (queue, false) :=
  dif_neg (Nat.not_lt.mpr (Nat.le_of_eq h.symm))

theorem tryPop_of_nil (h : queue.items = []) : queue.tryPop = (queue, none) := by
  unfold tryPop
  split
  · rfl
  · rename_i hcons
    cases h.symm.trans hcons

theorem tryPop_of_cons {oldest : α} {rest : List α} (h : queue.items = oldest :: rest) :
    queue.tryPop.1.items = rest ∧ queue.tryPop.2 = some oldest := by
  unfold tryPop
  split
  · rename_i hnil
    cases h.symm.trans hnil
  · rename_i hcons
    cases h.symm.trans hcons
    exact ⟨rfl, rfl⟩

end BoundedQueue

namespace Ring

variable {α : Type u} {n r : Nat}

/-- The place that is `i` cells behind the place `r` in a ring of `n` cells. -/
def place (n r i : Nat) : Nat := (r + i) % n

theorem place_lt (hn : 0 < n) (r i : Nat) : place n r i < n := Nat.mod_lt _ hn

theorem place_zero (hr : r < n) : place n r 0 = r := Nat.mod_eq_of_lt hr

theorem place_place (n r i j : Nat) : place n (place n r i) j = place n r (i + j) := by
  rw [place, place, place, Nat.mod_add_mod, Nat.add_assoc]

theorem place_inj {i j : Nat} (hi : i < n) (hj : j < n) : place n r i = place n r j ↔ i = j := by
  refine ⟨?_, fun h => congrArg (place n r) h⟩
  intro hplace
  exact (Nat.ModEq.add_left_cancel' r hplace).eq_of_lt_of_lt hi hj

/-- Within one round a place is reached directly or once around the end. -/
theorem place_eq_ite {i : Nat} (hr : r < n) (hi : i ≤ n) :
    place n r i = if r + i < n then r + i else r + i - n := by
  unfold place
  split
  · exact Nat.mod_eq_of_lt ‹_›
  · rw [Nat.mod_eq_sub_mod (by omega), Nat.mod_eq_of_lt (by omega)]

/-- The items stand in the cells from the place `r` on. -/
def Holds (cells : List α) (r : Nat) (items : List α) : Prop :=
  ∀ i < items.length, cells[place cells.length r i]? = items[i]?

variable {cells items : List α}

theorem holds_nil (cells : List α) (r : Nat) : Holds cells r [] :=
  fun i hi => absurd hi (Nat.not_lt_zero i)

/-- A write to the first free place puts an item behind the others. -/
theorem Holds.push (h : Holds cells r items) (hroom : items.length < cells.length) (x : α) :
    Holds (cells.set (place cells.length r items.length) x) r (items ++ [x]) := by
  intro i hi
  rw [List.length_append, List.length_singleton] at hi
  rw [List.length_set]
  rcases Nat.lt_or_eq_of_le (Nat.le_of_lt_succ hi) with hlt | rfl
  · have hother : place cells.length r items.length ≠ place cells.length r i := by
      rw [Ne, place_inj hroom (Nat.lt_trans hlt hroom)]
      exact (Nat.ne_of_lt hlt).symm
    rw [List.getElem?_set_ne hother, h i hlt, List.getElem?_append_left hlt]
  · have hplace := place_lt (Nat.zero_lt_of_lt hroom) r items.length
    rw [List.getElem?_set_self hplace, List.getElem?_concat_length]

theorem Holds.oldest {x : α} (h : Holds cells r (x :: items)) (hr : r < cells.length) :
    cells[r]? = some x := by
  have hfirst := h 0 (Nat.zero_lt_succ _)
  rwa [place_zero hr] at hfirst

/-- The items behind the first stand from the next place on. -/
theorem Holds.pop {x : α} (h : Holds cells r (x :: items)) :
    Holds cells (place cells.length r 1) items := by
  intro i hi
  have hnext := h (i + 1) (Nat.succ_lt_succ hi)
  rwa [Nat.add_comm i 1, ← place_place, Nat.add_comm 1 i, List.getElem?_cons_succ] at hnext

/-- A write to the first free place leaves the items. -/
theorem Holds.set_free (h : Holds cells r items) (hroom : items.length < cells.length) (x : α) :
    Holds (cells.set (place cells.length r items.length) x) r items := by
  intro i hi
  have hlonger : i < (items ++ [x]).length := Nat.lt_of_lt_of_le hi (List.length_append ▸ by simp)
  rw [h.push hroom x i hlonger, List.getElem?_append_left hi]

/-- What stands at the first free place is behind the others. -/
theorem Holds.concat {x : α} (h : Holds cells r items)
    (hx : cells[place cells.length r items.length]? = some x) : Holds cells r (items ++ [x]) := by
  intro i hi
  rw [List.length_append, List.length_singleton] at hi
  rcases Nat.lt_or_eq_of_le (Nat.le_of_lt_succ hi) with hlt | rfl
  · rw [h i hlt, List.getElem?_append_left hlt]
  · rw [hx, List.getElem?_concat_length]

end Ring
