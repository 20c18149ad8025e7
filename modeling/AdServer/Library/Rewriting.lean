import Mathlib.Data.List.Infix

/-!
Replacing the occurrences of a pattern in a text, from left to right. If no occurrence can begin
in the replacement or reach into it, one pass leaves none.
-/
namespace Rewriting

universe u
variable {α : Type u} {pattern replacement text before after : List α}

/-- The first occurrence of the pattern, with what stands on both sides of it. -/
structure FirstAt (pattern text before after : List α) : Prop where
  split : text = before ++ (pattern ++ after)
  earlier : ∀ i < before.length, ¬pattern <+: text.drop i

theorem infix_iff_exists_drop : pattern <:+: text ↔ ∃ i, pattern <+: text.drop i := by
  refine ⟨?_, ?_⟩
  · rintro ⟨before, after, rfl⟩
    refine ⟨before.length, after, ?_⟩
    rw [List.append_assoc, List.drop_left]
  · rintro ⟨i, hi⟩
    exact hi.isInfix.trans (List.drop_suffix i text).isInfix

theorem FirstAt.cons {c : α} (hc : ¬pattern <+: c :: text)
    (h : FirstAt pattern text before after) : FirstAt pattern (c :: text) (c :: before) after := by
  refine ⟨congrArg (c :: ·) h.split, ?_⟩
  intro i hi
  cases i with
  | zero => exact hc
  | succ i => exact h.earlier i (Nat.lt_of_succ_lt_succ hi)

theorem singleton_prefix_drop_iff (a : α) (text : List α) (i : Nat) :
    [a] <+: text.drop i ↔ text[i]? = some a := by
  rw [← List.head?_drop]
  cases text.drop i with
  | nil => simp
  | cons b bs => simp [List.cons_prefix_cons, eq_comm]

theorem firstAt_singleton {a : α} (h : a ∉ before) (after : List α) :
    FirstAt [a] (before ++ a :: after) before after := by
  refine ⟨rfl, ?_⟩
  intro i hi hoccurs
  rw [singleton_prefix_drop_iff, List.getElem?_append_left hi] at hoccurs
  exact h (List.mem_of_getElem? hoccurs)

theorem exists_firstAt (h : pattern <:+: text) :
    ∃ before after, FirstAt pattern text before after := by
  induction text with
  | nil => exact ⟨[], [], by rw [List.infix_nil.mp h]; rfl, by simp⟩
  | cons c text ih =>
      by_cases hc : pattern <+: c :: text
      · obtain ⟨after, hafter⟩ := hc
        exact ⟨[], after, hafter.symm, by simp⟩
      · obtain ⟨before, after, hfirst⟩ := ih ((List.infix_cons_iff.mp h).resolve_left hc)
        exact ⟨c :: before, after, hfirst.cons hc⟩

/-- Behind a text in which no occurrence begins, the first one is found in the rest. -/
theorem FirstAt.of_append {front : List α} (h : FirstAt pattern (front ++ text) before after)
    (hfront : ∀ i < front.length, ¬pattern <+: (front ++ text).drop i) :
    ∃ rest, before = front ++ rest ∧ FirstAt pattern text rest after := by
  have hoccurs : pattern <+: (front ++ text).drop before.length := by
    rw [h.split, List.drop_left]
    exact List.prefix_append pattern after
  have hle : front.length ≤ before.length := Nat.le_of_not_lt fun hlt => hfront _ hlt hoccurs
  have hprefix : front <+: before :=
    List.prefix_of_prefix_length_le (List.prefix_append front text)
      (h.split ▸ List.prefix_append before _) hle
  obtain ⟨rest, rfl⟩ := hprefix
  refine ⟨rest, rfl, ?_, ?_⟩
  · have hsplit := h.split
    rw [List.append_assoc] at hsplit
    exact List.append_cancel_left hsplit
  · intro i hi
    have hearlier := h.earlier (front.length + i) (by rw [List.length_append]; omega)
    rwa [List.drop_append, List.drop_of_length_le (Nat.le_add_right _ _), List.nil_append,
      Nat.add_sub_cancel_left] at hearlier

/-- An occurrence that does not lie in a front part ends in the rest. -/
theorem FirstAt.length_after_lt {front : List α} (h : FirstAt pattern (front ++ text) before after)
    (hfront : ¬pattern <:+: front) : after.length < text.length := by
  by_contra hge
  have hsplit := h.split
  rw [← List.append_assoc] at hsplit
  have hprefix : before ++ pattern <+: front := by
    refine List.prefix_of_prefix_length_le (hsplit ▸ List.prefix_append _ after)
      (List.prefix_append front text) ?_
    have hlen := congrArg List.length hsplit
    rw [List.length_append, List.length_append] at hlen
    omega
  exact hfront ((List.suffix_append before pattern).isInfix.trans hprefix.isInfix)

/-- No occurrence of the pattern begins in the replacement or reaches into it. -/
structure Apart (pattern replacement : List α) : Prop where
  nonempty : replacement ≠ []
  head : ∀ a ∈ replacement.head?, a ∉ pattern.tail
  inside : ∀ t ∈ replacement.tails, t ≠ [] → ¬t <+: pattern ∧ ¬pattern <+: t

namespace Apart

theorem not_prefix_drop (h : Apart pattern replacement) (text : List α) {i : Nat}
    (hi : i < replacement.length) : ¬pattern <+: (replacement ++ text).drop i := by
  intro hoccurs
  rw [List.drop_append_of_le_length (Nat.le_of_lt hi)] at hoccurs
  have hne : replacement.drop i ≠ [] := by
    rw [Ne, List.drop_eq_nil_iff]
    omega
  obtain ⟨hleft, hright⟩ :=
    h.inside _ ((List.mem_tails _ _).mpr (List.drop_suffix i replacement)) hne
  exact (List.prefix_or_prefix_of_prefix hoccurs (List.prefix_append _ text)).elim hright hleft

theorem absent (h : Apart pattern replacement) (hne : pattern ≠ []) :
    ¬pattern <:+: replacement := by
  rintro ⟨before, after, hsplit⟩
  have hlen := congrArg List.length hsplit
  have hpos := List.length_pos_of_ne_nil hne
  rw [List.length_append, List.length_append] at hlen
  refine h.not_prefix_drop [] (show before.length < replacement.length by omega) ?_
  rw [List.append_nil, ← hsplit, List.append_assoc, List.drop_left]
  exact List.prefix_append pattern after

theorem prefix_of_prefix_append (h : Apart pattern replacement) {front : List α}
    (hfront : front ≠ []) (hoccurs : pattern <+: front ++ (replacement ++ text)) :
    pattern <+: front := by
  rcases List.prefix_or_prefix_of_prefix hoccurs (List.prefix_append front _) with hle | hle
  · exact hle
  · obtain ⟨rest, rfl⟩ := hle
    cases rest with
    | nil => rw [List.append_nil]
    | cons b rest =>
        obtain ⟨a, as, rfl⟩ := List.exists_cons_of_ne_nil h.nonempty
        obtain ⟨c, cs, rfl⟩ := List.exists_cons_of_ne_nil hfront
        have hrest := (List.prefix_append_right_inj _).mp hoccurs
        obtain ⟨rfl, -⟩ := List.cons_prefix_cons.mp hrest
        exact absurd (by simp) (h.head b (by simp))

theorem singleton {a b : α} (hab : a ≠ b) : Apart [a] [b] where
  nonempty := List.cons_ne_nil b []
  head := fun _ _ => List.not_mem_nil
  inside := by
    intro t ht hne
    obtain rfl : t = [b] := by simpa [hne] using ht
    simp [hab, hab.symm]

end Apart

variable [DecidableEq α]

/-- One pass over a text, the first `skip` elements of which belong to an occurrence. -/
def onePass (pattern replacement : List α) : Nat → List α → List α
  | _, [] => []
  | skip + 1, _ :: rest => onePass pattern replacement skip rest
  | 0, c :: rest =>
    if pattern <+: c :: rest then
      replacement ++ onePass pattern replacement (pattern.length - 1) rest
    else c :: onePass pattern replacement 0 rest

theorem onePass_append (pattern replacement front text : List α) :
    onePass pattern replacement front.length (front ++ text) =
      onePass pattern replacement 0 text := by
  induction front with
  | nil => rfl
  | cons c front ih => exact ih

theorem onePass_of_absent (h : ¬pattern <:+: text) : onePass pattern replacement 0 text = text := by
  induction text with
  | nil => rfl
  | cons c text ih =>
      obtain ⟨hc, htext⟩ := not_or.mp (mt List.infix_cons_iff.mpr h)
      rw [onePass, if_neg hc, ih htext]

theorem onePass_singleton (a b : α) (text : List α) :
    onePass [a] [b] 0 text = text.map fun c => if c = a then b else c := by
  induction text with
  | nil => rfl
  | cons c text ih =>
      rw [onePass, List.map_cons, ← ih]
      by_cases hc : c = a
      · rw [if_pos (by simp [hc]), if_pos hc]
        rfl
      · rw [if_neg (by simpa using Ne.symm hc), if_neg hc]

theorem FirstAt.onePass_eq (h : FirstAt pattern text before after) (hne : pattern ≠ []) :
    onePass pattern replacement 0 text =
      before ++ (replacement ++ onePass pattern replacement 0 after) := by
  obtain ⟨rfl, hearlier⟩ := h
  induction before with
  | nil =>
      obtain ⟨c, cs, rfl⟩ := List.exists_cons_of_ne_nil hne
      exact (if_pos (List.prefix_append _ after)).trans
        (congrArg (replacement ++ ·) (onePass_append (c :: cs) replacement cs after))
  | cons c before ih =>
      have hc : ¬pattern <+: c :: (before ++ (pattern ++ after)) :=
        hearlier 0 (Nat.zero_lt_succ _)
      rw [List.cons_append, onePass, if_neg hc, ih fun i hi => hearlier (i + 1) (by simpa using hi)]
      rfl

/-- What one pass leaves has no occurrence. -/
theorem Apart.absent_onePass (h : Apart pattern replacement) (hne : pattern ≠ [])
    (text : List α) : ¬pattern <:+: onePass pattern replacement 0 text := by
  induction hn : text.length using Nat.strong_induction_on generalizing text with
  | _ n ih =>
      by_cases hoccurs : pattern <:+: text
      · obtain ⟨before, after, hfirst⟩ := exists_firstAt hoccurs
        have hsplit : FirstAt pattern ([] ++ text) before after := hfirst
        have hshort := hsplit.length_after_lt (mt List.infix_nil.mp hne)
        rw [hfirst.onePass_eq hne, infix_iff_exists_drop]
        rintro ⟨i, hi⟩
        rcases Nat.lt_or_ge i before.length with hbefore | hbefore
        · rw [List.drop_append_of_le_length (Nat.le_of_lt hbefore)] at hi
          have hlies := h.prefix_of_prefix_append (by rw [Ne, List.drop_eq_nil_iff]; omega) hi
          refine hfirst.earlier i hbefore ?_
          rw [hfirst.split, List.drop_append_of_le_length (Nat.le_of_lt hbefore)]
          exact hlies.trans (List.prefix_append _ _)
        · obtain ⟨j, rfl⟩ := Nat.exists_eq_add_of_le hbefore
          rw [← List.drop_drop, List.drop_left] at hi
          rcases Nat.lt_or_ge j replacement.length with hj | hj
          · exact h.not_prefix_drop _ hj hi
          · obtain ⟨k, rfl⟩ := Nat.exists_eq_add_of_le hj
            rw [← List.drop_drop, List.drop_left] at hi
            exact ih _ (hn ▸ hshort) after rfl (infix_iff_exists_drop.mpr ⟨k, hi⟩)
      · rwa [onePass_of_absent hoccurs]

end Rewriting
