import AdServer.Library.Cells
import Mathlib.Data.List.Induction

/-!
Cells swapped without a third one, by three assignments that mix one cell into the other, and the
two loops over an array that do so: from both ends, which reverses it, and over its pairs.
-/
namespace XorSwap

open Cells

universe u

variable {α : Type u} (xor : α → α → α)

/-- `cells[i] ^= cells[j]`. -/
def mix (cells : List α) (i j : Int) : Option (List α) :=
  (entry cells i).bind fun a => (entry cells j).bind fun b => put cells i (xor a b)

def swap (cells : List α) (i j : Int) : Option (List α) :=
  (mix xor cells i j).bind fun cells => (mix xor cells j i).bind fun cells => mix xor cells i j

/-- `for (; i < j; i++, j--)`. -/
def reverseLoop (cells : List α) (i j : Int) : Option (List α) :=
  if i < j then (swap xor cells i j).bind fun cells => reverseLoop cells (i + 1) (j - 1)
  else some cells
termination_by (j - i).toNat

/-- `for (; i > 0; i -= 2)`. -/
def pairLoop (cells : List α) (i : Int) : Option (List α) :=
  if 0 < i then (swap xor cells i (i - 1)).bind fun cells => pairLoop cells (i - 2)
  else some cells
termination_by i.toNat

/-- Mixing the same cell in again takes it out. -/
def Cancels : Prop := ∀ a b, xor b (xor a b) = a

variable {xor}

section
variable {front middle : List α} {i j : Int} (hi : i = front.length)
  (hj : j = front.length + 1 + middle.length) (a b : α) (back : List α)
include hi hj

theorem mix_left : mix xor (front ++ a :: (middle ++ b :: back)) i j =
    some (front ++ xor a b :: (middle ++ b :: back)) := by
  have hright : entry (front ++ a :: (middle ++ b :: back)) j = some b := by
    rw [List.append_cons, ← List.append_assoc]
    refine entry_append_cons ?_ b back
    rw [List.length_append, List.length_append, List.length_singleton]
    omega
  rw [mix, entry_append_cons hi, hright]
  exact put_append_cons hi a _ _

theorem mix_right : mix xor (front ++ a :: (middle ++ b :: back)) j i =
    some (front ++ a :: (middle ++ xor b a :: back)) := by
  have hfront : j = (front ++ [a] ++ middle).length := by
    rw [List.length_append, List.length_append, List.length_singleton]
    omega
  have hleft := entry_append_cons hi a (middle ++ b :: back)
  rw [mix, hleft, List.append_cons, ← List.append_assoc, entry_append_cons hfront, Option.bind_some,
    Option.bind_some, put_append_cons hfront, List.append_assoc, ← List.append_cons]

theorem swap_left (h : Cancels xor) : swap xor (front ++ a :: (middle ++ b :: back)) i j =
    some (front ++ b :: (middle ++ a :: back)) := by
  rw [swap, mix_left hi hj, Option.bind_some, mix_right hi hj, Option.bind_some, mix_left hi hj,
    h b (xor a b), h a b]

theorem swap_right (h : Cancels xor) : swap xor (front ++ a :: (middle ++ b :: back)) j i =
    some (front ++ b :: (middle ++ a :: back)) := by
  rw [swap, mix_right hi hj, Option.bind_some, mix_left hi hj, Option.bind_some, mix_right hi hj,
    h a (xor b a), h b a]

end

variable (h : Cancels xor)
include h

/-- The induction takes the first and the last cell off. -/
theorem reverseLoop_eq (front middle back : List α) {i j : Int} (hi : i = front.length)
    (hj : j = front.length + middle.length - 1) :
    reverseLoop xor (front ++ (middle ++ back)) i j =
      some (front ++ (middle.reverse ++ back)) := by
  induction middle using List.bidirectionalRec generalizing front back i j with
  | nil =>
      rw [List.length_nil] at hj
      rw [reverseLoop, if_neg (by omega)]
      rfl
  | singleton a =>
      rw [List.length_singleton] at hj
      rw [reverseLoop, if_neg (by omega)]
      rfl
  | cons_append a middle b ih =>
      rw [List.length_cons, List.length_append, List.length_singleton] at hj
      rw [List.cons_append, List.append_assoc, List.singleton_append, reverseLoop,
        if_pos (by omega), swap_left hi (by omega) a b back h, Option.bind_some, List.append_cons,
        ih (front ++ [b]) (a :: back)]
      · simp only [List.reverse_cons, List.reverse_append, List.reverse_nil, List.nil_append,
          List.cons_append, List.append_assoc]
      · rw [List.length_append, List.length_singleton]
        omega
      · rw [List.length_append, List.length_singleton]
        omega

theorem pairLoop_eq (us : List (α × α)) (tail : List α) {i : Int} (hi : i = 2 * us.length - 1) :
    pairLoop xor (flat us ++ tail) i = some (flat (us.map Prod.swap) ++ tail) := by
  induction us using List.reverseRecOn generalizing tail i with
  | nil =>
      rw [List.length_nil] at hi
      rw [pairLoop, if_neg (by omega)]
      rfl
  | append_singleton us u ih =>
      rw [List.length_append, List.length_singleton] at hi
      have hflat := length_flat us
      have hswap := @swap_right _ xor (flat us) [] (i - 1) i (by omega)
        (by rw [List.length_nil]; omega) u.1 u.2 tail h
      rw [flat_append, List.append_assoc]
      change pairLoop xor (flat us ++ u.1 :: ([] ++ u.2 :: tail)) i = _
      rw [pairLoop, if_pos (by omega), hswap, Option.bind_some, ih _ (by omega), List.map_append,
        flat_append, List.append_assoc]
      rfl

end XorSwap
