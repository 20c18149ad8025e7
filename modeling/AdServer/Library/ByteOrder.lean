import Mathlib.Data.Nat.Digits.Lemmas

/-!
Numbers in the bytes of memory, the lowest byte first. The bytes of a number in the other order
are the same list read from its end.
-/
namespace ByteOrder

def value (bs : List UInt8) : Nat := Nat.ofDigits 256 (bs.map UInt8.toNat)

def littleEndian : Nat → Nat → List UInt8
  | 0, _ => []
  | n + 1, x => UInt8.ofNat x :: littleEndian n (x / 256)

theorem toNat_mem_lt (bs : List UInt8) : ∀ d ∈ bs.map UInt8.toNat, d < 256 := by
  intro d hd
  obtain ⟨b, -, rfl⟩ := List.mem_map.mp hd
  exact b.toNat_lt

theorem value_append (low high : List UInt8) :
    value (low ++ high) = value low + 256 ^ low.length * value high := by
  rw [value, List.map_append, Nat.ofDigits_append, List.length_map]
  rfl

theorem value_lt {bs : List UInt8} {n : Nat} (h : bs.length = n) : value bs < 256 ^ n := by
  have hlt := Nat.ofDigits_lt_base_pow_length (by decide) (toNat_mem_lt bs)
  rwa [List.length_map, h] at hlt

theorem value_injective {bs cs : List UInt8} (hlen : bs.length = cs.length)
    (h : value bs = value cs) : bs = cs := by
  have hmap := Nat.ofDigits_inj_of_len_eq (b := 256) (by decide) (by simp [hlen])
    (toNat_mem_lt bs) (toNat_mem_lt cs) h
  exact List.map_injective_iff.mpr (fun _ _ => UInt8.toNat_inj.mp) hmap

theorem length_littleEndian (n x : Nat) : (littleEndian n x).length = n := by
  induction n generalizing x with
  | zero => rfl
  | succ n ih => rw [littleEndian, List.length_cons, ih]

theorem value_littleEndian (n x : Nat) : value (littleEndian n x) = x % 256 ^ n := by
  induction n generalizing x with
  | zero => rw [Nat.pow_zero, Nat.mod_one]; rfl
  | succ n ih =>
      have hcons : value (littleEndian (n + 1) x) =
          (UInt8.ofNat x).toNat + 256 * value (littleEndian n (x / 256)) := Nat.ofDigits_cons
      rw [hcons, ih, UInt8.toNat_ofNat', Nat.pow_succ' (n := n), Nat.mod_mul (x := x) (a := 256)]

end ByteOrder
