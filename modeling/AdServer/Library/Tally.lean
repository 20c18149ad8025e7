import Mathlib.Algebra.BigOperators.Finprod

/-!
Totals over a family of places of which all but finitely many are empty. Changing
one place changes the total by what left it and what came to it.
-/
namespace Tally

open Function

universe u v w

variable {α : Type u} {β : Type v} {M : Type w} [AddCommMonoid M]

/-- All but finitely many places are as `empty`. -/
def Settled (empty : β) (places : α → β) : Prop :=
  ∃ used : Finset α, ∀ x, x ∉ used → places x = empty

noncomputable def total (weight : β → M) (places : α → β) : M := ∑ᶠ x, weight (places x)

theorem settled_const (empty : β) : Settled empty (fun _ : α => empty) := ⟨∅, fun _ _ => rfl⟩

theorem Settled.update [DecidableEq α] {empty : β} {places : α → β} (h : Settled empty places)
    (a : α) (b : β) : Settled empty (update places a b) := by
  obtain ⟨used, hused⟩ := h
  refine ⟨insert a used, fun x hx => ?_⟩
  rw [Finset.mem_insert, not_or] at hx
  rw [update_of_ne hx.1, hused x hx.2]

theorem total_eq_zero {weight : β → M} {places : α → β} (h : ∀ x, weight (places x) = 0) :
    total weight places = 0 :=
  finsum_eq_zero_of_forall_eq_zero h

theorem total_update [DecidableEq α] {empty : β} {places : α → β} (h : Settled empty places)
    {weight : β → M} (hempty : weight empty = 0) (a : α) (b : β) :
    total weight (update places a b) + weight (places a) = total weight places + weight b := by
  obtain ⟨used, hused⟩ := h
  -- both totals are sums over the used places and the changed one
  have hsum : ∀ b, total weight (update places a b) =
      weight b + ∑ x ∈ (insert a used).erase a, weight (places x) := by
    intro b
    have hsupport : (support fun x => weight (update places a b x)) ⊆ ↑(insert a used) := by
      intro x hx
      by_contra hnot
      rw [Finset.mem_coe, Finset.mem_insert, not_or] at hnot
      rw [mem_support, update_of_ne hnot.1, hused x hnot.2, hempty] at hx
      exact hx rfl
    rw [total, finsum_eq_sum_of_support_subset _ hsupport,
      ← Finset.add_sum_erase _ _ (Finset.mem_insert_self a used), update_self]
    congr 1
    refine Finset.sum_congr rfl fun x hx => ?_
    rw [update_of_ne (Finset.ne_of_mem_erase hx)]
  have hself := hsum (places a)
  rw [update_eq_self] at hself
  rw [hsum b, hself]
  ac_rfl

end Tally
