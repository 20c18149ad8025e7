import Mathlib.Data.Nat.Digits.Lemmas

/-!
Positional notation, most significant digit first and without leading zeros:
what a C++ stream or `std::to_string` prints for an unsigned number. The digit
alphabet is a parameter.
-/
namespace AdServer.Numeral

variable {α : Type} (base : Nat) (digit : Nat → α)

def text (n : Nat) : List α :=
  if n = 0 then [digit 0] else (Nat.digits base n).reverse.map digit

def read (base : Nat) (digitValue : α → Nat) (ds : List α) : Nat :=
  ds.foldl (fun acc d => acc * base + digitValue d) 0

theorem text_ne_nil (n : Nat) : text base digit n ≠ [] := by
  unfold text
  split
  · simp
  · rename_i hn
    simp [Nat.digits_eq_nil_iff_eq_zero, hn]

theorem mem_text (hbase : 1 < base) {n : Nat} {c : α} (h : c ∈ text base digit n) :
    ∃ d, d < base ∧ c = digit d := by
  unfold text at h
  split at h
  · exact ⟨0, by omega, by simpa using h⟩
  · obtain ⟨d, hd, rfl⟩ := List.mem_map.mp h
    exact ⟨d, Nat.digits_lt_base hbase (List.mem_reverse.mp hd), rfl⟩

theorem length_text_le (hbase : 1 < base) {n k : Nat} (hk : 0 < k) (h : n < base ^ k) :
    (text base digit n).length ≤ k := by
  unfold text
  split
  · simpa using Nat.succ_le_of_lt hk
  · simpa using (Nat.digits_length_le_iff hbase n).mpr h

private theorem foldl_reverse_digits (ds : List Nat) :
    ds.reverse.foldl (fun acc d => acc * base + d) 0 = Nat.ofDigits base ds := by
  induction ds with
  | nil => rfl
  | cons d ds ih =>
      rw [List.reverse_cons, List.foldl_append, ih, List.foldl_cons, List.foldl_nil,
        Nat.ofDigits_cons]
      ring

theorem read_text (hbase : 1 < base) (digitValue : α → Nat)
    (hdigit : ∀ d, d < base → digitValue (digit d) = d) (n : Nat) :
    read base digitValue (text base digit n) = n := by
  unfold read text
  split
  · rename_i hn
    simp [hdigit 0 (by omega), hn]
  · rw [List.foldl_map]
    calc (Nat.digits base n).reverse.foldl (fun acc d => acc * base + digitValue (digit d)) 0
        = (Nat.digits base n).reverse.foldl (fun acc d => acc * base + d) 0 := by
          refine List.foldl_ext _ _ _ fun acc d hd => ?_
          rw [hdigit d (Nat.digits_lt_base hbase (List.mem_reverse.mp hd))]
      _ = Nat.ofDigits base (Nat.digits base n) := foldl_reverse_digits base _
      _ = n := Nat.ofDigits_digits base n

theorem read_replicate_append (digitValue : α → Nat) {zero : α} (hzero : digitValue zero = 0)
    (k : Nat) (ds : List α) :
    read base digitValue (List.replicate k zero ++ ds) = read base digitValue ds := by
  induction k with
  | zero => rfl
  | succ k ih => simpa [read, List.replicate_succ, hzero] using ih

theorem read_lt (digitValue : α → Nat) {ds : List α} (h : ∀ d ∈ ds, digitValue d < base) :
    read base digitValue ds < base ^ ds.length := by
  induction ds using List.reverseRecOn with
  | nil => simp [read]
  | append_singleton ds d ih =>
      have hd : digitValue d < base := h d (by simp)
      have hds := ih fun x hx => h x (by simp [hx])
      rw [read, List.foldl_append, List.foldl_cons, List.foldl_nil, ← read]
      calc read base digitValue ds * base + digitValue d
          < read base digitValue ds * base + base := by omega
        _ = (read base digitValue ds + 1) * base := by ring
        _ ≤ base ^ ds.length * base := Nat.mul_le_mul_right base hds
        _ = base ^ (ds ++ [d]).length := by rw [List.length_append, List.length_singleton, pow_succ]

theorem text_injective (hbase : 1 < base) (digitValue : α → Nat)
    (hdigit : ∀ d, d < base → digitValue (digit d) = d) :
    Function.Injective (text base digit) := by
  intro n m h
  rw [← read_text base digit hbase digitValue hdigit n, h,
    read_text base digit hbase digitValue hdigit m]

end AdServer.Numeral
