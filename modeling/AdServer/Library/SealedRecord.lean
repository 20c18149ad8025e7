import Mathlib.Data.List.Basic

/-!
Records that carry a nonce, a text masked with a pad that depends on the nonce, and a tag over
both. The pad and the tag are arbitrary functions; the mask is taken off by putting it on again.
-/
namespace SealedRecord

universe u

structure Scheme (α : Type u) where
  nonceSize : Nat
  plainSize : Nat
  mix : α → α → α
  mix_mix : ∀ a b, mix (mix a b) b = a
  pad : List α → List α
  length_pad : ∀ nonce, (pad nonce).length = plainSize
  tag : List α → List α → List α

variable {α : Type u} (scheme : Scheme α)

def Scheme.mask (nonce text : List α) : List α := List.zipWith scheme.mix text (scheme.pad nonce)

def Scheme.seal (nonce plain : List α) : List α :=
  nonce ++ (scheme.mask nonce plain ++ scheme.tag nonce plain)

/-- The text of a record, if its tag is the one that belongs to its nonce and its text. -/
def Scheme.unseal [DecidableEq α] (record : List α) : Option (List α) :=
  let nonce := record.take scheme.nonceSize
  let plain := scheme.mask nonce ((record.drop scheme.nonceSize).take scheme.plainSize)
  if record.drop (scheme.nonceSize + scheme.plainSize) = scheme.tag nonce plain then some plain
  else none

variable {scheme} {nonce text : List α}

theorem length_mask (h : text.length = scheme.plainSize) :
    (scheme.mask nonce text).length = scheme.plainSize := by
  rw [Scheme.mask, List.length_zipWith, h, scheme.length_pad, Nat.min_self]

theorem zipWith_zipWith_right {f : α → α → α} (hf : ∀ a b, f (f a b) b = a) {xs ys : List α}
    (h : xs.length ≤ ys.length) : List.zipWith f (List.zipWith f xs ys) ys = xs := by
  induction xs generalizing ys with
  | nil => rfl
  | cons x xs ih =>
      cases ys with
      | nil => exact absurd h (by simp)
      | cons y ys =>
          rw [List.zipWith_cons_cons, List.zipWith_cons_cons, hf, ih (Nat.le_of_succ_le_succ h)]

theorem mask_mask (h : text.length = scheme.plainSize) :
    scheme.mask nonce (scheme.mask nonce text) = text :=
  zipWith_zipWith_right scheme.mix_mix (Nat.le_of_eq (by rw [h, scheme.length_pad]))

theorem unseal_append [DecidableEq α] (hnonce : nonce.length = scheme.nonceSize)
    (htext : text.length = scheme.plainSize) (tag : List α) :
    scheme.unseal (nonce ++ (text ++ tag)) =
      if tag = scheme.tag nonce (scheme.mask nonce text) then some (scheme.mask nonce text)
      else none := by
  have hfront : (nonce ++ (text ++ tag)).take scheme.nonceSize = nonce := List.take_left' hnonce
  have hback : (nonce ++ (text ++ tag)).drop scheme.nonceSize = text ++ tag :=
    List.drop_left' hnonce
  rw [Scheme.unseal, ← List.drop_drop, hfront, hback, List.take_left' htext,
    List.drop_left' htext]

theorem unseal_seal [DecidableEq α] (hnonce : nonce.length = scheme.nonceSize)
    (htext : text.length = scheme.plainSize) :
    scheme.unseal (scheme.seal nonce text) = some text := by
  rw [Scheme.seal, unseal_append hnonce (length_mask htext), mask_mask htext, if_pos rfl]

end SealedRecord
