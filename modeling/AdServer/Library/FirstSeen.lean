import Mathlib.Data.List.Induction
import Mathlib.Data.List.Nodup
import Mathlib.Data.List.Perm.Subperm

/-!
The different elements of a list in the order of their first places, which is how a table that
takes each element once numbers them. A list has its new elements first if nothing new follows a
repetition, and then the number of an element is a place of it in the list too.
-/
namespace FirstSeen

universe u

variable {α : Type u}

/-- Behind the different elements there are only repetitions. -/
def NewFirst (l : List α) : Prop :=
  ∃ news repeats, l = news ++ repeats ∧ news.Nodup ∧ repeats ⊆ news

variable {l : List α} {x : α}

theorem NewFirst.of_nodup (h : l.Nodup) : NewFirst l :=
  ⟨l, [], (List.append_nil l).symm, h, List.nil_subset l⟩

theorem newFirst_concat : NewFirst (l ++ [x]) ↔ NewFirst l ∧ (x ∈ l ∨ l.Nodup) := by
  refine ⟨?_, ?_⟩
  · rintro ⟨news, repeats, heq, hnodup, hsubset⟩
    rcases List.eq_nil_or_concat repeats with rfl | ⟨repeats, y, rfl⟩
    · rw [List.append_nil] at heq
      subst heq
      exact ⟨.of_nodup hnodup.of_append_left, .inr hnodup.of_append_left⟩
    · rw [List.concat_eq_append] at heq hsubset
      rw [← List.append_assoc] at heq
      obtain ⟨rfl, hlast⟩ := List.append_inj' heq rfl
      obtain rfl := List.singleton_inj.mp hlast
      have hrepeats := List.append_subset.mp hsubset
      have hx := hrepeats.2 (List.mem_singleton_self x)
      exact ⟨⟨news, repeats, rfl, hnodup, hrepeats.1⟩, .inl (List.mem_append_left _ hx)⟩
  · rintro ⟨⟨news, repeats, rfl, hnodup, hsubset⟩, hx⟩
    by_cases hmem : x ∈ news ++ repeats
    · have hnew : x ∈ news := (List.mem_append.mp hmem).elim id (@hsubset x)
      refine ⟨news, repeats ++ [x], List.append_assoc .., hnodup, ?_⟩
      exact List.append_subset.mpr ⟨hsubset, by simpa using hnew⟩
    · refine .of_nodup ?_
      rw [← List.concat_eq_append, List.nodup_concat]
      exact ⟨hmem, hx.resolve_left hmem⟩

variable [BEq α] [LawfulBEq α]

theorem eraseDups_concat_of_mem (hx : x ∈ l) : (l ++ [x]).eraseDups = l.eraseDups := by
  have hgone : [x].removeAll l = [] := by simp [List.removeAll, hx]
  rw [List.eraseDups_append, hgone, List.eraseDups_nil, List.append_nil]

theorem eraseDups_concat_of_notMem (hx : x ∉ l) :
    (l ++ [x]).eraseDups = l.eraseDups ++ [x] := by
  have hkept : [x].removeAll l = [x] := by simp [List.removeAll, hx]
  rw [List.eraseDups_append, hkept, List.eraseDups_cons, List.filter_nil, List.eraseDups_nil]

theorem nodup_eraseDups (l : List α) : l.eraseDups.Nodup := by
  induction l using List.reverseRecOn with
  | nil => exact List.nodup_nil
  | append_singleton l x ih =>
      by_cases hx : x ∈ l
      · rwa [eraseDups_concat_of_mem hx]
      · rw [eraseDups_concat_of_notMem hx, ← List.concat_eq_append, List.nodup_concat,
          List.mem_eraseDups]
        exact ⟨hx, ih⟩

theorem eraseDups_sublist (l : List α) : l.eraseDups.Sublist l := by
  induction l using List.reverseRecOn with
  | nil => exact List.Sublist.refl []
  | append_singleton l x ih =>
      by_cases hx : x ∈ l
      · rw [eraseDups_concat_of_mem hx]
        exact ih.trans (List.sublist_append_left l [x])
      · rw [eraseDups_concat_of_notMem hx]
        exact ih.append (List.Sublist.refl [x])

theorem length_eraseDups_le (l : List α) : l.eraseDups.length ≤ l.length :=
  (eraseDups_sublist l).length_le

theorem length_eraseDups_eq_iff : l.eraseDups.length = l.length ↔ l.Nodup := by
  refine ⟨?_, fun hnodup => ?_⟩
  · intro hlength
    rw [← (eraseDups_sublist l).eq_of_length hlength]
    exact nodup_eraseDups l
  · refine Nat.le_antisymm (length_eraseDups_le l) ?_
    exact (hnodup.subperm fun x hx => List.mem_eraseDups.mpr hx).length_le

/-- Where the new elements come first, each stands at the place of its number. -/
theorem NewFirst.getElem? (h : NewFirst l) {i : Nat} (hi : l.eraseDups[i]? = some x) :
    l[i]? = some x := by
  obtain ⟨news, repeats, rfl, hnodup, hsubset⟩ := h
  have hnews : news.eraseDups = news :=
    (eraseDups_sublist news).eq_of_length (length_eraseDups_eq_iff.mpr hnodup)
  have hgone : repeats.removeAll news = [] := by
    rw [List.removeAll, List.filter_eq_nil_iff]
    intro y hy
    simpa using hsubset hy
  rw [List.eraseDups_append, hnews, hgone, List.eraseDups_nil, List.append_nil] at hi
  rw [List.getElem?_append_left (List.getElem?_eq_some_iff.mp hi).1, hi]

end FirstSeen
