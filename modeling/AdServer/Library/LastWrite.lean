import Mathlib.Data.List.Basic
import Mathlib.Logic.Function.Basic

/-!
Keyed writes, of which the last one wins. `last? p` is the most recent entry of a
history with a property, and a map after a run of writes has under every key what
the last write to the key put there.
-/
namespace LastWrite

universe u v

section
variable {α : Type u} {β : Type v}

def last? (p : α → Bool) (history : List α) : Option α := history.reverse.find? p

theorem last?_cons (p : α → Bool) (a : α) (history : List α) :
    last? p (a :: history) = (last? p history).or (if p a then some a else none) := by
  rw [last?, List.reverse_cons, List.find?_append, List.find?_singleton, last?]

theorem last?_append (p : α → Bool) (earlier later : List α) :
    last? p (earlier ++ later) = (last? p later).or (last? p earlier) := by
  rw [last?, List.reverse_append, List.find?_append, last?, last?]

theorem last?_filter (p q : α → Bool) (history : List α) :
    last? p (history.filter q) = last? (fun a => q a ∧ p a) history := by
  rw [last?, ← List.filter_reverse, List.find?_filter, last?]

theorem last?_map (f : α → β) (p : β → Bool) (history : List α) :
    last? p (history.map f) = (last? (p ∘ f) history).map f := by
  rw [last?, ← List.map_reverse, List.find?_map, last?]

theorem last?_some {p : α → Bool} {history : List α} {a : α} (h : last? p history = some a) :
    p a = true ∧ a ∈ history :=
  ⟨List.find?_some h, List.mem_reverse.mp (List.mem_of_find?_eq_some h)⟩

/-- An entry that is the last of its kind is the last of every narrower kind it is of. -/
theorem last?_of_imp {p q : α → Bool} (hpq : ∀ a, q a = true → p a = true) {history : List α}
    {a : α} (h : last? p history = some a) (ha : q a = true) : last? q history = some a := by
  obtain ⟨-, later, earlier, hsplit, hlater⟩ := List.find?_eq_some_iff_append.mp h
  refine List.find?_eq_some_iff_append.mpr ⟨ha, later, earlier, hsplit, ?_⟩
  intro b hb
  have hnot := hlater b hb
  rw [Bool.not_eq_true'] at hnot ⊢
  exact Bool.eq_false_iff.mpr fun hq => Bool.eq_false_iff.mp hnot (hpq b hq)

theorem last?_none_of_imp {p q : α → Bool} (hpq : ∀ a, q a = true → p a = true)
    {history : List α} (h : last? p history = none) : last? q history = none := by
  rw [last?, List.find?_eq_none] at h ⊢
  exact fun a ha hq => h a ha (hpq a hq)

end

section
variable {κ : Type u} {ν : Type v} [DecidableEq κ]

def write (f : κ → Option ν) (entry : κ × ν) : κ → Option ν :=
  Function.update f entry.1 (some entry.2)

theorem foldl_write (f : κ → Option ν) (entries : List (κ × ν)) (key : κ) :
    entries.foldl write f key =
      ((last? (fun entry => entry.1 = key) entries).map Prod.snd).or (f key) := by
  induction entries generalizing f with
  | nil => rfl
  | cons entry entries ih =>
      rw [List.foldl_cons, ih, last?_cons]
      cases last? (fun entry => entry.1 = key) entries with
      | some later => rfl
      | none =>
          by_cases hkey : entry.1 = key
          · simp [write, hkey]
          · simp [write, Function.update_of_ne (Ne.symm hkey), hkey]

end

end LastWrite
