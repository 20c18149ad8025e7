import Mathlib.Logic.Function.Basic

/-!
Threads that share a section of code. Each thread is at some place of its program; some places are
inside the section. Where the section is locked, a thread enters it by taking the lock and leaves
it by giving the lock back; where it is not, one thread alone runs the code.
-/
namespace CriticalSection

universe u v

structure Threads (ι : Type u) (π : Type v) where
  place : ι → π
  owner : Option ι

variable {ι : Type u} {π : Type v} {locked : Bool} {inside : π → Prop}

/-- The thread inside a locked section is the one that holds the lock. -/
def Exclusive (locked : Bool) (inside : π → Prop) (threads : Threads ι π) : Prop :=
  locked = true → ∀ i, inside (threads.place i) ↔ threads.owner = some i

variable [DecidableEq ι] {threads : Threads ι π} {i : ι} {p : π}

def Threads.move (threads : Threads ι π) (i : ι) (p : π) : Threads ι π :=
  { threads with place := Function.update threads.place i p }

/-- The thread goes on inside, having the lock if there is one. -/
def Threads.enter (locked : Bool) (threads : Threads ι π) (i : ι) (p : π) :
    Option (Threads ι π) :=
  if locked then
    if threads.owner = none then some { threads.move i p with owner := some i } else none
  else some (threads.move i p)

def Threads.leave (locked : Bool) (threads : Threads ι π) (i : ι) (p : π) : Threads ι π :=
  if locked then { threads.move i p with owner := none } else threads.move i p

@[simp]
theorem Threads.move_self : (threads.move i p).place i = p := Function.update_self ..

theorem Threads.move_of_ne {j : ι} (h : j ≠ i) : (threads.move i p).place j = threads.place j :=
  Function.update_of_ne h ..

/-- A property of the places of all threads goes on, if it does for the one that moves. -/
theorem Threads.forall_move {P : π → Prop} (hothers : ∀ j ≠ i, P (threads.place j)) (hp : P p)
    (j : ι) : P ((threads.move i p).place j) := by
  by_cases hji : j = i
  · rw [hji, move_self]
    exact hp
  · rw [move_of_ne hji]
    exact hothers j hji

theorem Threads.place_enter {threads' : Threads ι π}
    (h : threads.enter locked i p = some threads') :
    threads'.place = (threads.move i p).place := by
  unfold enter at h
  split at h
  · split at h
    · cases h
      rfl
    · cases h
  · cases h
    rfl

theorem Threads.place_leave :
    (threads.leave locked i p).place = (threads.move i p).place := by
  unfold leave
  split <;> rfl

theorem Exclusive.move (h : Exclusive locked inside threads)
    (hp : inside p ↔ inside (threads.place i)) : Exclusive locked inside (threads.move i p) := by
  intro hlocked j
  by_cases hji : j = i
  · rw [hji, Threads.move_self, hp]
    exact h hlocked i
  · rw [Threads.move_of_ne hji]
    exact h hlocked j

theorem Exclusive.enter (h : Exclusive locked inside threads) (hp : inside p)
    {threads' : Threads ι π} (henter : threads.enter locked i p = some threads') :
    Exclusive locked inside threads' := by
  intro hlocked j
  rw [Threads.place_enter henter]
  rw [Threads.enter, if_pos hlocked] at henter
  split at henter
  · rename_i hfree
    cases henter
    by_cases hji : j = i
    · rw [hji, Threads.move_self]
      exact ⟨fun _ => rfl, fun _ => hp⟩
    · rw [Threads.move_of_ne hji, h hlocked j, hfree]
      refine ⟨(nomatch ·), fun howner => ?_⟩
      exact absurd (Option.some.inj howner).symm hji
  · cases henter

theorem Exclusive.leave (h : Exclusive locked inside threads) (hinside : inside (threads.place i))
    (hp : ¬inside p) : Exclusive locked inside (threads.leave locked i p) := by
  intro hlocked j
  rw [Threads.place_leave, Threads.leave, if_pos hlocked]
  refine ⟨fun hj => ?_, (nomatch ·)⟩
  by_cases hji : j = i
  · rw [hji, Threads.move_self] at hj
    exact absurd hj hp
  · rw [Threads.move_of_ne hji, h hlocked j, (h hlocked i).mp hinside] at hj
    exact absurd (Option.some.inj hj).symm hji

omit [DecidableEq ι] in
/-- Two threads inside are one. -/
theorem Exclusive.eq (h : Exclusive locked inside threads)
    (halone : locked = false → Subsingleton ι) {j : ι} (hi : inside (threads.place i))
    (hj : inside (threads.place j)) : i = j := by
  cases locked with
  | false => exact (halone rfl).elim i j
  | true => exact Option.some.inj (((h rfl i).mp hi).symm.trans ((h rfl j).mp hj))

end CriticalSection
