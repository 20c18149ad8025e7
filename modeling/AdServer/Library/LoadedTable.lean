import Mathlib.Data.List.Basic
import Mathlib.Logic.Function.Basic

/-!
Tables that are filled entry by entry, and once. An entry under a key that is taken is dropped, so
that a key has the first value that came for it. The first use of a table loads it from what the
outside holds then. A load may stop with an error, which ends all uses.
-/
namespace LoadedTable

universe u v

section
variable {κ : Type u} {ν : Type v} [DecidableEq κ]

def insertNew (table : κ → Option ν) (entry : κ × ν) : κ → Option ν :=
  Function.update table entry.1 ((table entry.1).or (some entry.2))

theorem foldl_insertNew (entries : List (κ × ν)) (table : κ → Option ν) (key : κ) :
    entries.foldl insertNew table key =
      (table key).or ((entries.find? fun entry => entry.1 = key).map Prod.snd) := by
  induction entries generalizing table with
  | nil => simp
  | cons entry entries ih =>
      rw [List.foldl_cons, ih, List.find?_cons]
      by_cases hkey : entry.1 = key
      · subst hkey
        simp [insertNew]
      · simp [insertNew, Function.update_of_ne (Ne.symm hkey), hkey]

end

/-- A beginning that comes once more before the whole list changes no first element. -/
theorem find?_take_append {α : Type u} (p : α → Bool) (n : Nat) (l : List α) :
    (l.take n ++ l).find? p = l.find? p := by
  rw [List.find?_append]
  cases hfind : (l.take n).find? p with
  | some a =>
      conv_rhs => rw [← List.take_append_drop n l, List.find?_append, hfind]
      rfl
  | none => rw [Option.none_or]

section
variable {ε : Type u} {τ ι ο χ : Type v} (load : ε → τ → Except χ τ)
  (answer : τ → ι → ο)

structure State (τ : Type v) where
  started : Bool
  table : τ

/-- The table for a use, with what is outside at its time. -/
def ensure (outside : ε) (s : State τ) : Except χ (State τ) :=
  if s.started then .ok s else (load outside s.table).map (State.mk true)

/-- Uses one after the other. -/
def uses (s : State τ) : List (ε × ι) → Except χ (List ο)
  | [] => .ok []
  | call :: calls => do
    let s ← ensure load call.1 s
    let answers ← uses s calls
    pure (answer s.table call.2 :: answers)

theorem uses_started (table : τ) (calls : List (ε × ι)) :
    uses load answer ⟨true, table⟩ calls = .ok (calls.map fun call => answer table call.2) := by
  induction calls with
  | nil => rfl
  | cons call calls ih =>
      have hstarted : ensure load call.1 ⟨true, table⟩ = .ok ⟨true, table⟩ := rfl
      rw [uses, hstarted]
      simp only [bind, Except.bind, ih]
      rfl

/-- All answers come from the first load. -/
theorem uses_of_ensure (outside : ε) (table : τ) (calls : List (ε × ι)) :
    (ensure load outside ⟨false, table⟩ >>= fun s => uses load answer s calls) =
      (load outside table).map fun loaded => calls.map fun call => answer loaded call.2 := by
  have hload : ensure load outside ⟨false, table⟩ =
      (load outside table).map (State.mk true) := rfl
  rw [hload]
  cases load outside table with
  | error error => rfl
  | ok loaded => exact uses_started load answer loaded calls

end

end LoadedTable
