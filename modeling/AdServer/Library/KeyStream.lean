import AdServer.Library.SealedRecord

/-!
Texts masked with a key that is used over and over. The loop keeps the part of the key that is
not used up and begins anew at its end; it is the mask of the repeated key.
-/
namespace KeyStream

universe u
variable {α : Type u}

/-- The loop over the text with the rest of the key. An empty key leaves the text. -/
def mask (mix : α → α → α) (key : List α) : List α → List α → List α
  | _, [] => []
  | k :: rest, c :: text => mix c k :: mask mix key rest text
  | [], c :: text =>
    match key with
    | k :: rest => mix c k :: mask mix key rest text
    | [] => c :: text

def repeated (key : List α) (times : Nat) : List α := (List.replicate times key).flatten

theorem length_repeated (key : List α) (times : Nat) :
    (repeated key times).length = times * key.length := by
  simp [repeated]

/-- As many copies as the text has elements are enough. -/
theorem mask_eq_zipWith (mix : α → α → α) {key : List α} (hkey : key ≠ []) (rest text : List α)
    {times : Nat} (htimes : text.length ≤ times) :
    mask mix key rest text = List.zipWith mix text (rest ++ repeated key times) := by
  induction text generalizing rest times with
  | nil => cases rest <;> rfl
  | cons c text ih =>
      rw [List.length_cons] at htimes
      cases rest with
      | cons k rest =>
          have hrest : text.length ≤ times := by omega
          rw [mask, List.cons_append, List.zipWith_cons_cons, ih rest hrest]
      | nil =>
          obtain ⟨k, rest, rfl⟩ := List.exists_cons_of_ne_nil hkey
          obtain ⟨times, rfl⟩ : ∃ n, times = n + 1 := ⟨times - 1, by omega⟩
          have hcopy : repeated (k :: rest) (times + 1) =
              k :: (rest ++ repeated (k :: rest) times) := rfl
          have hrest : text.length ≤ times := by omega
          rw [mask, List.nil_append, hcopy, List.zipWith_cons_cons, ih rest hrest]

theorem mask_self_eq_zipWith (mix : α → α → α) {key : List α} (hkey : key ≠ [])
    (text : List α) : mask mix key key text = List.zipWith mix text (repeated key text.length) := by
  cases text with
  | nil => cases key <;> rfl
  | cons c text =>
      have hcopy : repeated key (text.length + 1) = key ++ repeated key text.length := rfl
      obtain ⟨k, rest, rfl⟩ := List.exists_cons_of_ne_nil hkey
      rw [List.length_cons, hcopy, List.cons_append, List.zipWith_cons_cons, mask,
        mask_eq_zipWith mix hkey rest text (Nat.le_refl _)]

end KeyStream
