import Mathlib.Data.List.Forall2

/-!
Two machines that answer the same requests. One of them may fail at a request. If each of its
steps gives the answer of the other and leads to related states, then it never fails and a whole
run gives the answers of the other.
-/
namespace Lockstep

universe u v w x

variable {σ : Type u} {τ : Type v} {ι : Type w} {ω : Type x}

/-- The run of a machine that may fail. -/
def run (step : σ → ι → Option (σ × ω)) : σ → List ι → Option (σ × List ω)
  | s, [] => some (s, [])
  | s, request :: requests => do
    let (next, answer) ← step s request
    let (last, answers) ← run step next requests
    some (last, answer :: answers)

/-- The run of a machine that answers every request. -/
def specRun (spec : τ → ι → τ × ω) : τ → List ι → τ × List ω
  | t, [] => (t, [])
  | t, request :: requests =>
    let rest := specRun spec (spec t request).1 requests
    (rest.1, (spec t request).2 :: rest.2)

/-- Each step gives the other's answer and keeps the relation. -/
def Simulates (step : σ → ι → Option (σ × ω)) (spec : τ → ι → τ × ω) (R : σ → τ → Prop) : Prop :=
  ∀ s t request, R s t →
    ∃ next, step s request = some (next, (spec t request).2) ∧ R next (spec t request).1

variable {step : σ → ι → Option (σ × ω)} {spec : τ → ι → τ × ω} {R : σ → τ → Prop}

/-- Answers of one run go on with those of the next. -/
theorem specRun_append {t t' t'' : τ} {xs ys : List ι} {as bs : List ω}
    (hxs : specRun spec t xs = (t', as)) (hys : specRun spec t' ys = (t'', bs)) :
    specRun spec t (xs ++ ys) = (t'', as ++ bs) := by
  induction xs generalizing t as with
  | nil =>
      cases hxs
      exact hys
  | cons x xs ih =>
      cases hxs
      rw [List.cons_append, specRun, ih rfl]
      rfl

theorem Simulates.run (h : Simulates step spec R) {s : σ} {t : τ} (hrel : R s t)
    (requests : List ι) :
    ∃ last, Lockstep.run step s requests = some (last, (specRun spec t requests).2) ∧
      R last (specRun spec t requests).1 := by
  induction requests generalizing s t with
  | nil => exact ⟨s, rfl, hrel⟩
  | cons request requests ih =>
      obtain ⟨next, hstep, hnext⟩ := h s t request hrel
      obtain ⟨last, hrun, hlast⟩ := ih hnext
      refine ⟨last, ?_, hlast⟩
      simp only [Lockstep.run, hstep, Option.bind_eq_bind, Option.bind_some, hrun]
      rfl

/-- If each step comes back to the state it starts from, then a run is its steps one by one. -/
theorem run_returning {s : σ}
    (hback : ∀ request next answer, step s request = some (next, answer) → next = s)
    {last : σ} {requests : List ι} {answers : List ω} :
    run step s requests = some (last, answers) ↔ last = s ∧
      List.Forall₂ (fun request answer => step s request = some (s, answer)) requests answers := by
  induction requests generalizing answers with
  | nil =>
      rw [List.forall₂_nil_left_iff]
      constructor
      · intro hrun
        cases hrun
        exact ⟨rfl, rfl⟩
      · rintro ⟨rfl, rfl⟩
        rfl
  | cons request requests ih =>
      rw [List.forall₂_cons_left_iff]
      constructor
      · intro hrun
        obtain ⟨⟨next, answer⟩, hnext, hrest⟩ := Option.bind_eq_some_iff.mp hrun
        obtain ⟨⟨end', others⟩, hothers, hpair⟩ := Option.bind_eq_some_iff.mp hrest
        cases hpair
        obtain rfl := hback request next answer hnext
        obtain ⟨hlast, hall⟩ := ih.mp hothers
        exact ⟨hlast, answer, others, hnext, hall, rfl⟩
      · rintro ⟨hlast, answer, others, hnext, hall, rfl⟩
        simp only [run, hnext, ih.mpr ⟨hlast, hall⟩, Option.bind_eq_bind, Option.bind_some]

end Lockstep
