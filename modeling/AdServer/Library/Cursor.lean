import Mathlib.Data.List.Basic

/-!
Scanning memory by a pointer. A pointer is the part of the memory from its position on; a scan
that finds nothing to stop at would read behind the memory. The last part is a scan that moves
what it keeps to the front of the same memory, by a second pointer that never gets ahead.
-/
namespace Cursor

variable {α : Type*} {stop : α → Bool} {p q : List α}

/-- The pointer is moved to the next stop and one further. -/
def past (stop : α → Bool) : List α → Option (List α)
  | [] => none
  | c :: rest => if stop c then some rest else past stop rest

theorem past_append_cons {u : List α} {c : α} (hu : ∀ x ∈ u, stop x = false)
    (hc : stop c = true) (q : List α) : past stop (u ++ c :: q) = some q := by
  induction u with
  | nil => rw [List.nil_append, past, if_pos hc]
  | cons x u ih =>
      obtain ⟨hx, hu⟩ := List.forall_mem_cons.mp hu
      rw [List.cons_append, past, hx, if_neg Bool.false_ne_true]
      exact ih hu

theorem past_eq_none (h : ∀ x ∈ p, stop x = false) : past stop p = none := by
  induction p with
  | nil => rfl
  | cons x p ih =>
      obtain ⟨hx, hp⟩ := List.forall_mem_cons.mp h
      rw [past, hx, if_neg Bool.false_ne_true]
      exact ih hp

theorem eq_append_of_past (h : past stop p = some q) :
    ∃ u c, p = u ++ c :: q ∧ stop c = true ∧ ∀ x ∈ u, stop x = false := by
  induction p with
  | nil => cases h
  | cons x p ih =>
      rw [past] at h
      split at h
      · rename_i hx
        cases h
        exact ⟨[], x, rfl, hx, List.forall_mem_nil _⟩
      · rename_i hx
        obtain ⟨u, c, rfl, hc, hu⟩ := ih h
        exact ⟨x :: u, c, rfl, hc, List.forall_mem_cons.mpr ⟨eq_false_of_ne_true hx, hu⟩⟩

/-- What stands behind the memory does not matter to a scan that stops inside. -/
theorem past_append (h : past stop p = some q) (more : List α) :
    past stop (p ++ more) = some (q ++ more) := by
  obtain ⟨u, c, rfl, hc, hu⟩ := eq_append_of_past h
  rw [List.append_assoc, List.cons_append, past_append_cons hu hc]

theorem past_append_of_none (h : past stop p = none) (more : List α) :
    past stop (p ++ more) = past stop more := by
  induction p with
  | nil => rfl
  | cons x p ih =>
      rw [past] at h
      split at h
      · cases h
      · rename_i hx
        rw [List.cons_append, past, if_neg hx, ih h]

/-- What is passed on the way to the next stop, the stop and what is behind it. -/
def cut (stop : α → Bool) : List α → Option (List α × α × List α)
  | [] => none
  | c :: rest =>
    if stop c then some ([], c, rest)
    else (cut stop rest).map fun (front, d, more) => (c :: front, d, more)

theorem cut_append_cons {u : List α} {c : α} (hu : ∀ x ∈ u, stop x = false)
    (hc : stop c = true) (q : List α) : cut stop (u ++ c :: q) = some (u, c, q) := by
  induction u with
  | nil => rw [List.nil_append, cut, if_pos hc]
  | cons x u ih =>
      obtain ⟨hx, hu⟩ := List.forall_mem_cons.mp hu
      rw [List.cons_append, cut, hx, if_neg Bool.false_ne_true, ih hu]
      rfl

theorem cut_eq_none (h : ∀ x ∈ p, stop x = false) : cut stop p = none := by
  induction p with
  | nil => rfl
  | cons x p ih =>
      obtain ⟨hx, hp⟩ := List.forall_mem_cons.mp h
      rw [cut, hx, if_neg Bool.false_ne_true, ih hp]
      rfl

theorem length_of_cut {u : List α} {c : α} (h : cut stop p = some (u, c, q)) :
    q.length < p.length := by
  induction p generalizing u with
  | nil => cases h
  | cons x p ih =>
      rw [cut] at h
      split at h
      · cases h
        exact Nat.lt_succ_self _
      · obtain ⟨⟨u, c, q⟩, hcut, heq⟩ := Option.map_eq_some_iff.mp h
        cases heq
        exact Nat.lt_succ_of_lt (ih hcut)

/-- A text has no stop or falls into a part without one, a stop and a rest. -/
theorem forall_or_exists_append (stop : α → Bool) (p : List α) :
    (∀ x ∈ p, stop x = false) ∨
      ∃ u c q, p = u ++ c :: q ∧ stop c = true ∧ ∀ x ∈ u, stop x = false := by
  induction p with
  | nil => exact .inl (List.forall_mem_nil _)
  | cons x p ih =>
      cases hx : stop x with
      | true => exact .inr ⟨[], x, p, rfl, hx, List.forall_mem_nil _⟩
      | false =>
          obtain hp | ⟨u, c, q, rfl, hc, hu⟩ := ih
          · exact .inl (List.forall_mem_cons.mpr ⟨hx, hp⟩)
          · exact .inr ⟨x :: u, c, q, rfl, hc, List.forall_mem_cons.mpr ⟨hx, hu⟩⟩

/-- What is read at `p1` and kept is written to `p2`, up to a stop. The first argument is how much
of the memory is left at `p1`. -/
def compact (stop keep : α → Bool) : Nat → List α → Nat → Nat → Option (List α × Nat)
  | 0, _, _, _ => none
  | left + 1, memory, p1, p2 =>
    match memory[p1]? with
    | none => none
    | some c =>
      if stop c then some (memory, p2)
      else if keep c then compact stop keep left (memory.set p2 c) (p1 + 1) (p2 + 1)
      else compact stop keep left memory (p1 + 1) p2

section
variable {keep : α → Bool} {left p1 p2 : Nat} {memory : List α}

theorem drop_set_le (hle : p2 ≤ p1) (c : α) :
    (memory.set p2 c).drop (p1 + 1) = memory.drop (p1 + 1) := by
  rw [List.drop_set, if_pos (by omega)]

theorem take_set_succ (h : p2 < memory.length) (c : α) :
    (memory.set p2 c).take (p2 + 1) = memory.take p2 ++ [c] := by
  have hlength : (memory.take p2).length = p2 := List.length_take_of_le (Nat.le_of_lt h)
  rw [List.set_eq_take_append_cons_drop, if_pos h, ← List.singleton_append, ← List.append_assoc,
    List.take_left' (by rw [List.length_append, hlength, List.length_singleton])]

theorem drop_eq_cons {c : α} (hc : memory[p1]? = some c) :
    memory.drop p1 = c :: memory.drop (p1 + 1) := by
  rw [List.drop_eq_getElem?_toList_append, hc]
  rfl

theorem getElem?_of_drop {c : α} {rest : List α} (h : memory.drop p1 = c :: rest) :
    memory[p1]? = some c := by
  rw [← List.head?_drop, h]
  rfl

theorem compact_eq_none (hle : p2 ≤ p1) (h : ∀ x ∈ memory.drop p1, stop x = false) :
    compact stop keep left memory p1 p2 = none := by
  induction left generalizing memory p1 p2 with
  | zero => rfl
  | succ left ih =>
      rw [compact]
      split
      · rfl
      · rename_i c hc
        rw [drop_eq_cons hc] at h
        obtain ⟨hstop, hrest⟩ := List.forall_mem_cons.mp h
        rw [hstop, if_neg Bool.false_ne_true]
        split
        · exact ih (by omega) (by rwa [drop_set_le hle])
        · exact ih (by omega) hrest

/-- What stands in front of the first stop is kept as a filter keeps it, behind what was written
before. -/
theorem compact_append_cons (hle : p2 ≤ p1) {u rest : List α} {c : α}
    (hmemory : memory.drop p1 = u ++ c :: rest) (hu : ∀ x ∈ u, stop x = false)
    (hc : stop c = true) (hleft : u.length < left) :
    ∃ written, compact stop keep left memory p1 p2 =
        some (written, p2 + (u.filter keep).length) ∧
      written.take (p2 + (u.filter keep).length) = memory.take p2 ++ u.filter keep := by
  induction u generalizing memory p1 p2 left with
  | nil =>
      obtain ⟨left, rfl⟩ : ∃ n, left = n + 1 := ⟨left - 1, by omega⟩
      have hget : memory[p1]? = some c := getElem?_of_drop hmemory
      refine ⟨memory, ?_, by simp⟩
      rw [compact, hget]
      simp [hc]
  | cons x u ih =>
      obtain ⟨left, rfl⟩ : ∃ n, left = n + 1 := ⟨left - 1, by rw [List.length_cons] at hleft; omega⟩
      have hget : memory[p1]? = some x := getElem?_of_drop hmemory
      have hp1 : p1 < memory.length := (List.getElem?_eq_some_iff.mp hget).1
      obtain ⟨hx, hu⟩ := List.forall_mem_cons.mp hu
      have hnext : memory.drop (p1 + 1) = u ++ c :: rest := by
        rw [drop_eq_cons hget] at hmemory
        exact List.tail_eq_of_cons_eq hmemory
      have hleft : u.length < left := Nat.lt_of_succ_lt_succ hleft
      rw [compact, hget]
      simp only [hx, Bool.false_eq_true, if_false]
      cases hkeep : keep x with
      | true =>
          have hp2 : p2 < memory.length := by omega
          obtain ⟨written, hrun, htake⟩ :=
            ih (Nat.succ_le_succ hle) ((drop_set_le hle x).trans hnext) hu hleft
          rw [List.filter_cons_of_pos hkeep, List.length_cons, ← Nat.add_assoc,
            Nat.add_right_comm]
          refine ⟨written, hrun, ?_⟩
          rw [htake, take_set_succ hp2, List.append_assoc]
          rfl
      | false =>
          obtain ⟨written, hrun, htake⟩ := ih (Nat.le_succ_of_le hle) hnext hu hleft
          rw [List.filter_cons_of_neg (by simp [hkeep])]
          exact ⟨written, hrun, htake⟩

/-- Nothing is written from the last position of the second pointer on. -/
theorem drop_of_compact (hle : p2 ≤ p1) {written : List α} {k : Nat}
    (hrun : compact stop keep left memory p1 p2 = some (written, k)) :
    p2 ≤ k ∧ written.drop k = memory.drop k ∧ written.length = memory.length := by
  induction left generalizing memory p1 p2 with
  | zero => cases hrun
  | succ left ih =>
      rw [compact] at hrun
      split at hrun
      · cases hrun
      · rename_i c hc
        split at hrun
        · cases hrun
          exact ⟨Nat.le_refl _, rfl, rfl⟩
        · split at hrun
          · obtain ⟨hk, hdrop, hlength⟩ := ih (Nat.succ_le_succ hle) hrun
            rw [List.length_set] at hlength
            refine ⟨Nat.le_of_succ_le hk, ?_, hlength⟩
            rw [hdrop, List.drop_set, if_pos (Nat.lt_of_succ_le hk)]
          · exact ih (Nat.le_succ_of_le hle) hrun

end

end Cursor
