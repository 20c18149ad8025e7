import Mathlib.Data.List.Basic

/-!
Machines with output. A step takes an input and gives the next state and what it
puts out; a run over a list of inputs puts out the outputs of its steps one after
the other. Inputs that come in segments give one output list for each segment.
-/
namespace Mealy

universe u v w

variable {σ : Type u} {α : Type v} {β : Type w} (step : σ → α → σ × List β)

def run : σ → List α → σ × List β
  | s, [] => (s, [])
  | s, a :: inputs =>
    ((run (step s a).1 inputs).1, (step s a).2 ++ (run (step s a).1 inputs).2)

/-- The outputs of each segment, each run from the state the ones before it lead to. -/
def outputs : σ → List (List α) → List (List β)
  | _, [] => []
  | s, segment :: segments =>
    (run step s segment).2 :: outputs (run step s segment).1 segments

@[simp]
theorem run_nil (s : σ) : run step s [] = (s, []) := rfl

@[simp]
theorem run_cons (s : σ) (a : α) (inputs : List α) :
    run step s (a :: inputs) =
      ((run step (step s a).1 inputs).1, (step s a).2 ++ (run step (step s a).1 inputs).2) := rfl

theorem run_append (s : σ) (inputs more : List α) :
    run step s (inputs ++ more) =
      ((run step (run step s inputs).1 more).1,
        (run step s inputs).2 ++ (run step (run step s inputs).1 more).2) := by
  induction inputs generalizing s with
  | nil => rfl
  | cons a inputs ih => simp only [List.cons_append, run_cons, ih, List.append_assoc]

@[simp]
theorem outputs_cons (s : σ) (segment : List α) (segments : List (List α)) :
    outputs step s (segment :: segments) =
      (run step s segment).2 :: outputs step (run step s segment).1 segments := rfl

theorem flatten_outputs (s : σ) (segments : List (List α)) :
    (outputs step s segments).flatten = (run step s segments.flatten).2 := by
  induction segments generalizing s with
  | nil => rfl
  | cons segment segments ih =>
      rw [outputs_cons, List.flatten_cons, List.flatten_cons, run_append, ih]

theorem getElem?_outputs (s : σ) (segments : List (List α)) (k : Nat) :
    (outputs step s segments)[k]? =
      segments[k]?.map fun segment =>
        (run step (run step s (segments.take k).flatten).1 segment).2 := by
  induction segments generalizing s k with
  | nil => rfl
  | cons segment segments ih =>
      cases k with
      | zero => rfl
      | succ k =>
          rw [outputs_cons, List.getElem?_cons_succ, ih, List.getElem?_cons_succ,
            List.take_succ_cons, List.flatten_cons, run_append]

/-- What every step on the given inputs keeps holds after the run. -/
theorem run_invariant (Inv : σ → Prop) {inputs : List α}
    (hstep : ∀ s, ∀ a ∈ inputs, Inv s → Inv (step s a).1) {s : σ} (hs : Inv s) :
    Inv (run step s inputs).1 := by
  induction inputs generalizing s with
  | nil => exact hs
  | cons a inputs ih =>
      exact ih (fun s b hb => hstep s b (List.mem_cons_of_mem a hb))
        (hstep s a List.mem_cons_self hs)

/-- What a step leaves true exactly for some inputs is true after a run exactly if all its
inputs are such. -/
theorem run_iff (P : σ → Prop) (Q : α → Prop) (hstep : ∀ s a, P (step s a).1 ↔ Q a ∧ P s) (s : σ)
    (inputs : List α) : P (run step s inputs).1 ↔ (∀ a ∈ inputs, Q a) ∧ P s := by
  induction inputs generalizing s with
  | nil => simp
  | cons a inputs ih => rw [run_cons, ih, hstep, List.forall_mem_cons, and_assoc, and_left_comm]

/-- Steps that keep an invariant and guarantee something of their outputs, relying on
another property of them, guarantee it along a run whose outputs all have that property. -/
theorem run_guarantee (Inv : σ → Prop) (Rely Out : β → Prop) {inputs : List α}
    (hstep : ∀ s, ∀ a ∈ inputs, Inv s → (∀ o ∈ (step s a).2, Rely o) →
      Inv (step s a).1 ∧ ∀ o ∈ (step s a).2, Out o)
    {s : σ} (hs : Inv s) (hrely : ∀ o ∈ (run step s inputs).2, Rely o) :
    Inv (run step s inputs).1 ∧ ∀ o ∈ (run step s inputs).2, Out o := by
  induction inputs generalizing s with
  | nil => exact ⟨hs, fun o ho => nomatch ho⟩
  | cons a inputs ih =>
      have hfirst := hstep s a List.mem_cons_self hs
        fun o ho => hrely o (List.mem_append_left _ ho)
      have hrest := ih (fun s b hb => hstep s b (List.mem_cons_of_mem a hb)) hfirst.1
        fun o ho => hrely o (List.mem_append_right _ ho)
      refine ⟨hrest.1, ?_⟩
      intro o ho
      rcases List.mem_append.mp ho with ho | ho
      · exact hfirst.2 o ho
      · exact hrest.2 o ho

end Mealy
