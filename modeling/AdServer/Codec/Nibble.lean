import AdServer.Basic

/-!
Bytes as two nibbles, for the codecs that write one character per nibble. A decoder clears a byte
and then adds the four bits of one character after the other to it.
-/
namespace AdServer.Codec

def lowNibble (c : UInt8) : UInt8 := c &&& 0x0F

def highNibble (c : UInt8) : UInt8 := c >>> 4

/-- `(value << (high ? 4 : 0)) & mask`, as far as a byte keeps it. -/
def nibbleBits (high : Bool) (value : UInt8) : UInt8 :=
  if high then (value <<< 4) &&& 0xF0 else value &&& 0x0F

theorem toNat_lowNibble_lt (c : UInt8) : (lowNibble c).toNat < 16 := by
  rw [lowNibble, UInt8.toNat_and]
  exact Nat.lt_succ_of_le Nat.and_le_right

theorem toNat_highNibble_lt (c : UInt8) : (highNibble c).toNat < 16 := by
  rw [highNibble, UInt8.toNat_shiftRight, Nat.shiftRight_eq_div_pow]
  exact Nat.div_lt_of_lt_mul c.toNat_lt

theorem nibbleBits_or (c : UInt8) :
    nibbleBits false (lowNibble c) ||| nibbleBits true (highNibble c) = c := by
  have hall : ∀ n < 256, nibbleBits false (lowNibble (UInt8.ofNat n)) |||
      nibbleBits true (highNibble (UInt8.ofNat n)) = UInt8.ofNat n := by decide +kernel
  have hbyte := hall c.toNat c.toNat_lt
  rwa [UInt8.ofNat_toNat] at hbyte

theorem exists_nibbles {v w : Nat} (hv : v < 16) (hw : w < 16) :
    ∃ c, (lowNibble c).toNat = v ∧ (highNibble c).toNat = w := by
  have hall : ∀ v < 16, ∀ w < 16, (lowNibble (UInt8.ofNat (v + 16 * w))).toNat = v ∧
      (highNibble (UInt8.ofNat (v + 16 * w))).toNat = w := by decide +kernel
  exact ⟨_, hall v hv w hw⟩

/-- A byte is written behind the bytes that are done. -/
theorem modify_length_append (done : Bytes) (f : UInt8 → UInt8) (x : UInt8) (rest : Bytes) :
    (done ++ x :: rest).modify done.length f = done ++ f x :: rest := by
  rw [List.modify_eq_take_drop, List.take_left, List.drop_left, List.modifyHead_cons]

/-- A text of two characters per byte is empty or begins with two. -/
theorem eq_cons_cons {α : Type} {text : List α} {k : Nat} (h : text.length = 2 * (k + 1)) :
    ∃ a b rest, text = a :: b :: rest ∧ rest.length = 2 * k := by
  match text, h with
  | a :: b :: rest, h =>
      refine ⟨a, b, rest, rfl, ?_⟩
      simp only [List.length_cons] at h
      omega

end AdServer.Codec
