import Mathlib.Data.List.Basic

/-!
A first-in first-out queue with its books. Besides the queue they hold everything that was
ever inserted, in order, and everything that was taken, with the one who took it. The
record carries the proof that nothing is lost, doubled or overtaken.
-/
namespace Fifo

universe u v

structure Ledger (κ : Type u) (τ : Type v) where
  queue : List τ
  inserted : List τ
  taken : List (κ × τ)
  accounted : taken.map Prod.snd ++ queue = inserted

namespace Ledger

variable {κ : Type u} {τ : Type v}

def empty : Ledger κ τ := ⟨[], [], [], rfl⟩

def insert (item : τ) (l : Ledger κ τ) : Ledger κ τ where
  queue := l.queue ++ [item]
  inserted := l.inserted ++ [item]
  taken := l.taken
  accounted := by rw [← List.append_assoc, l.accounted]

/-- The head of the queue goes to `taker`. -/
def remove (taker : κ) (l : Ledger κ τ) : Ledger κ τ :=
  match hqueue : l.queue with
  | [] => l
  | item :: rest =>
    { queue := rest
      inserted := l.inserted
      taken := l.taken ++ [(taker, item)]
      accounted := by
        rw [← l.accounted, hqueue, List.map_append, List.append_assoc]
        rfl }

theorem queue_remove {l : Ledger κ τ} {item : τ} {rest : List τ} (h : l.queue = item :: rest)
    (taker : κ) : (l.remove taker).queue = rest := by
  unfold remove
  split
  · rename_i hnil
    cases h.symm.trans hnil
  · rename_i hcons
    cases h.symm.trans hcons
    rfl

theorem inserted_remove (l : Ledger κ τ) (taker : κ) : (l.remove taker).inserted = l.inserted := by
  unfold remove
  split <;> rfl

theorem taken_remove {l : Ledger κ τ} {item : τ} {rest : List τ} (h : l.queue = item :: rest)
    (taker : κ) : (l.remove taker).taken = l.taken ++ [(taker, item)] := by
  unfold remove
  split
  · rename_i hnil
    cases h.symm.trans hnil
  · rename_i hcons
    cases h.symm.trans hcons
    rfl

/-- The entries after a removal are the old ones and one at the next position. -/
theorem getElem?_taken_remove {l : Ledger κ τ} {item : τ} {rest : List τ}
    (h : l.queue = item :: rest) (taker : κ) {i : Nat} {entry : κ × τ} :
    (l.remove taker).taken[i]? = some entry ↔
      l.taken[i]? = some entry ∨ (i = l.taken.length ∧ entry = (taker, item)) := by
  rw [taken_remove h, List.getElem?_append]
  split
  · rename_i hlt
    exact ⟨.inl, fun hor => hor.resolve_right fun hlast => Nat.ne_of_lt hlt hlast.1⟩
  · rename_i hge
    rw [List.getElem?_eq_none (Nat.le_of_not_lt hge), List.getElem?_singleton]
    split
    · rename_i hzero
      have hlast : i = l.taken.length := by omega
      simp [hlast, eq_comm]
    · rename_i hpos
      have hlast : i ≠ l.taken.length := by omega
      simp [hlast]

/-- An item is still queued, or it was taken by exactly one taker, and never both. -/
theorem custody (l : Ledger κ τ) {i : Nat} {item : τ} (h : l.inserted[i]? = some item) :
    (i < l.taken.length ∧ ∃! taker, l.taken[i]? = some (taker, item)) ∨
      (l.taken.length ≤ i ∧ l.queue[i - l.taken.length]? = some item) := by
  rw [← l.accounted, List.getElem?_append, List.length_map] at h
  split at h
  · rename_i hlt
    refine .inl ⟨hlt, ?_⟩
    rw [List.getElem?_map, Option.map_eq_some_iff] at h
    obtain ⟨⟨taker, item'⟩, htaken, rfl⟩ := h
    refine ⟨taker, htaken, ?_⟩
    intro other hother
    cases htaken.symm.trans hother
    rfl
  · rename_i hge
    exact .inr ⟨Nat.le_of_not_lt hge, h⟩

/-- Once the queue is empty, everything inserted was taken. -/
theorem taken_of_empty (l : Ledger κ τ) (hqueue : l.queue = []) :
    l.taken.map Prod.snd = l.inserted := by
  rw [← l.accounted, hqueue, List.append_nil]

end Ledger

end Fifo
