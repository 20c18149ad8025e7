import Mathlib.Data.Nat.Digits.Lemmas

/-!
Little-endian base-128 numerals over bytes. Every byte carries seven bits; the
top bit says that another byte follows. A numeral is therefore recognisable
from its own bytes, whatever comes after it.
-/
namespace AdServer.Base128

def continues (b : UInt8) : Bool := 128 ≤ b.toNat

def group (b : UInt8) : Nat := b.toNat % 128

/-- Digits with the continuation bit on all of them but the last. -/
def mark : List Nat → List UInt8
  | [] => []
  | [d] => [UInt8.ofNat d]
  | d :: e :: ds => UInt8.ofNat (d + 128) :: mark (e :: ds)

def encode (n : Nat) : List UInt8 := mark (Nat.digits 128 n)

def value (bs : List UInt8) : Nat := Nat.ofDigits 128 (bs.map group)

theorem value_cons (b : UInt8) (bs : List UInt8) : value (b :: bs) = group b + 128 * value bs := by
  rw [value, List.map_cons, Nat.ofDigits_cons]
  rfl

theorem length_mark (ds : List Nat) : (mark ds).length = ds.length := by
  induction ds using mark.induct with
  | case1 => rfl
  | case2 d => rfl
  | case3 d e ds ih => simp [mark, ih]

theorem group_ofNat {d : Nat} (h : d < 128) : group (UInt8.ofNat d) = d := by
  simp only [group, UInt8.toNat_ofNat']
  omega

theorem group_ofNat_add {d : Nat} (h : d < 128) : group (UInt8.ofNat (d + 128)) = d := by
  simp only [group, UInt8.toNat_ofNat']
  omega

theorem continues_ofNat {d : Nat} (h : d < 128) : continues (UInt8.ofNat d) = false := by
  simp only [continues, UInt8.toNat_ofNat', decide_eq_false_iff_not]
  omega

theorem continues_ofNat_add {d : Nat} (h : d < 128) :
    continues (UInt8.ofNat (d + 128)) = true := by
  simp only [continues, UInt8.toNat_ofNat', decide_eq_true_eq]
  omega

theorem map_group_mark (ds : List Nat) (h : ∀ d ∈ ds, d < 128) :
    (mark ds).map group = ds := by
  induction ds using mark.induct with
  | case1 => rfl
  | case2 d => simp [mark, group_ofNat (h d (by simp))]
  | case3 d e ds ih =>
      have hd := h d (by simp)
      have htail := ih (fun x hx => h x (List.mem_cons_of_mem d hx))
      simp only [mark, List.map_cons, group_ofNat_add hd, htail]

theorem value_encode (n : Nat) : value (encode n) = n := by
  have hdigits : ∀ d ∈ Nat.digits 128 n, d < 128 :=
    fun d hd => Nat.digits_lt_base (by omega) hd
  rw [value, encode, map_group_mark _ hdigits, Nat.ofDigits_digits]

theorem length_encode (n : Nat) : (encode n).length = (Nat.digits 128 n).length :=
  length_mark _

theorem encode_ne_nil {n : Nat} (h : 0 < n) : encode n ≠ [] := by
  have hpos : (encode n).length ≠ 0 := by
    rw [length_encode, Ne, List.length_eq_zero_iff, Nat.digits_eq_nil_iff_eq_zero]
    omega
  exact fun hnil => hpos (by simp [hnil])

theorem length_encode_le {n k : Nat} (h : n < 128 ^ k) : (encode n).length ≤ k := by
  rw [length_encode]
  exact (Nat.digits_length_le_iff (by omega) n).mpr h

theorem takeWhile_mark_append (ds : List Nat) (h : ∀ d ∈ ds, d < 128) (hne : ds ≠ [])
    (rest : List UInt8) :
    (mark ds ++ rest).takeWhile continues = (mark ds).dropLast := by
  induction ds using mark.induct with
  | case1 => exact absurd rfl hne
  | case2 d => simp [mark, continues_ofNat (h d (by simp))]
  | case3 d e ds ih =>
      have hd := h d (by simp)
      have htail := ih (fun x hx => h x (List.mem_cons_of_mem d hx)) (by simp)
      have hcons : mark (e :: ds) ≠ [] := by
        intro hnil
        have hlen := length_mark (e :: ds)
        simp [hnil] at hlen
      simp only [mark, List.cons_append, List.takeWhile_cons, continues_ofNat_add hd, if_true,
        htail, List.dropLast_cons_of_ne_nil hcons]

/-- A numeral is delimited by its own continuation bits. -/
theorem takeWhile_encode_append {n : Nat} (h : 0 < n) (rest : List UInt8) :
    (encode n ++ rest).takeWhile continues = (encode n).dropLast := by
  have hdigits : ∀ d ∈ Nat.digits 128 n, d < 128 :=
    fun d hd => Nat.digits_lt_base (by omega) hd
  exact takeWhile_mark_append _ hdigits (by simpa [Nat.digits_eq_nil_iff_eq_zero] using by omega) rest

theorem encode_lt {n : Nat} (h0 : 0 < n) (h : n < 128) : encode n = [UInt8.ofNat n] := by
  rw [encode, Nat.digits_of_lt 128 n (by omega) h]
  rfl

theorem encode_ge {n : Nat} (h : 128 ≤ n) :
    encode n = UInt8.ofNat (n % 128 + 128) :: encode (n / 128) := by
  have htail : Nat.digits 128 (n / 128) ≠ [] := by
    rw [Ne, Nat.digits_eq_nil_iff_eq_zero]
    omega
  rw [encode, encode, Nat.digits_def' (by omega) (by omega)]
  cases hd : Nat.digits 128 (n / 128) with
  | nil => exact absurd hd htail
  | cons e ds => rfl

end AdServer.Base128
