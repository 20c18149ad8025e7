import Mathlib.Data.List.Basic

/-!
Labelled transition systems and the invariant rule. A run starts in an initial
state, and a guard on the state before a step and on its event says which steps
it may take.
-/
namespace Transition

universe u v

structure System (σ : Type u) (ε : Type v) where
  init : σ → Prop
  step : σ → ε → σ → Prop

variable {σ : Type u} {ε : Type v}

inductive Run (M : System σ ε) (guard : σ → ε → Prop) : List ε → σ → Prop where
  | start {s : σ} (hinit : M.init s) : Run M guard [] s
  | next {events : List ε} {s t : σ} {event : ε} (hrun : Run M guard events s)
      (hguard : guard s event) (hstep : M.step s event t) : Run M guard (events ++ [event]) t

/-- What holds initially and is kept by every guarded step holds along every run. -/
theorem Run.invariant {M : System σ ε} {guard : σ → ε → Prop} (Inv : σ → Prop)
    (hinit : ∀ s, M.init s → Inv s)
    (hstep : ∀ s event t, Inv s → guard s event → M.step s event t → Inv t)
    {events : List ε} {s : σ} (hrun : Run M guard events s) : Inv s := by
  induction hrun with
  | start h => exact hinit _ h
  | next _ hguard hnext ih => exact hstep _ _ _ ih hguard hnext

/-- The same for a property that also looks at the events so far. -/
theorem Run.history_invariant {M : System σ ε} {guard : σ → ε → Prop} (Inv : List ε → σ → Prop)
    (hinit : ∀ s, M.init s → Inv [] s)
    (hstep : ∀ events s event t, Inv events s → guard s event → M.step s event t →
      Inv (events ++ [event]) t)
    {events : List ε} {s : σ} (hrun : Run M guard events s) : Inv events s := by
  induction hrun with
  | start h => exact hinit _ h
  | next _ hguard hnext ih => exact hstep _ _ _ _ ih hguard hnext

/-- A run in all of whose states the property holds. -/
def Throughout (M : System σ ε) (P : σ → Prop) (events : List ε) (s : σ) : Prop :=
  Run M (fun s _ => P s) events s ∧ P s

/-- If a step from a good state leads to a good one exactly if it is guarded, the runs
through good states are the guarded ones. -/
theorem throughout_iff {M : System σ ε} {guard : σ → ε → Prop} (Inv P : σ → Prop)
    (hinit : ∀ s, M.init s → Inv s ∧ P s)
    (hstep : ∀ s event t, Inv s → P s → M.step s event t → (P t ↔ guard s event))
    (hinv : ∀ s event t, Inv s → P s → guard s event → M.step s event t → Inv t)
    (events : List ε) (s : σ) : Throughout M P events s ↔ Run M guard events s := by
  refine ⟨?_, ?_⟩
  · rintro ⟨hrun, hs⟩
    have hboth : Run M guard events s ∧ Inv s := by
      induction hrun with
      | start h => exact ⟨.start h, (hinit _ h).1⟩
      | next _ hbefore hnext ih =>
          obtain ⟨hfront, hInv⟩ := ih hbefore
          have hguard := (hstep _ _ _ hInv hbefore hnext).mp hs
          exact ⟨hfront.next hguard hnext, hinv _ _ _ hInv hbefore hguard hnext⟩
    exact hboth.1
  · intro hrun
    have hboth : Throughout M P events s ∧ Inv s := by
      induction hrun with
      | start h => exact ⟨⟨.start h, (hinit _ h).2⟩, (hinit _ h).1⟩
      | next _ hguard hnext ih =>
          obtain ⟨⟨hfront, hbefore⟩, hInv⟩ := ih
          exact ⟨⟨hfront.next hbefore hnext, (hstep _ _ _ hInv hbefore hnext).mpr hguard⟩,
            hinv _ _ _ hInv hbefore hguard hnext⟩
    exact hboth.1

def System.startingAt (M : System σ ε) (s : σ) : System σ ε where
  init t := t = s
  step := M.step

theorem Run.prepend {M : System σ ε} {guard : σ → ε → Prop} {s t u : σ} {event : ε}
    {events : List ε} (hguard : guard s event) (hstep : M.step s event t)
    (hrun : Run (M.startingAt t) guard events u) :
    Run (M.startingAt s) guard (event :: events) u := by
  induction hrun with
  | start h =>
      cases h
      exact (Run.start rfl : Run (M.startingAt s) guard [] s).next hguard hstep
  | next _ hlater hnext ih => exact ih.next hlater hnext

/-- Every event of the list is permitted in the state that the events before it lead to. -/
def Permitted (execute : σ → ε → σ) (permit : σ → ε → Prop) : σ → List ε → Prop
  | _, [] => True
  | s, event :: events => permit s event ∧ Permitted execute permit (execute s event) events

instance (execute : σ → ε → σ) (permit : σ → ε → Prop) [∀ s event, Decidable (permit s event)] :
    ∀ (s : σ) (events : List ε), Decidable (Permitted execute permit s events)
  | _, [] => inferInstanceAs (Decidable True)
  | s, event :: events =>
    have := instDecidablePermitted execute permit (execute s event) events
    inferInstanceAs (Decidable (_ ∧ _))

/-- A run goes on with the events that an executable step function permits. -/
theorem Run.execute {M : System σ ε} {guard : σ → ε → Prop} {events : List ε} {s : σ}
    (hrun : Run M guard events s) (execute : σ → ε → σ) (permit : σ → ε → Prop)
    (hguard : ∀ s event, permit s event → guard s event)
    (hstep : ∀ s event, permit s event → M.step s event (execute s event)) (more : List ε)
    (hmore : Permitted execute permit s more) :
    Run M guard (events ++ more) (more.foldl execute s) := by
  induction more generalizing events s with
  | nil => simpa only [List.append_nil, List.foldl_nil] using hrun
  | cons event more ih =>
      have hnext := ih (hrun.next (hguard s event hmore.1) (hstep s event hmore.1)) hmore.2
      simpa only [List.append_assoc, List.singleton_append, List.foldl_cons] using hnext

/-- What every step of a step function keeps holds after any events it takes. -/
theorem foldlM_invariant {step : σ → ε → Option σ} (Inv : σ → Prop)
    (hstep : ∀ s event t, Inv s → step s event = some t → Inv t) {s t : σ} (hs : Inv s)
    {events : List ε} (hrun : events.foldlM step s = some t) : Inv t := by
  induction events generalizing s with
  | nil =>
      cases hrun
      exact hs
  | cons event events ih =>
      rw [List.foldlM_cons] at hrun
      obtain ⟨next, hnext, hrest⟩ := Option.bind_eq_some_iff.mp hrun
      exact ih (hstep s event next hs hnext) hrest

end Transition
