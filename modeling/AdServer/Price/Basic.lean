import AdServer.Basic
import AdServer.Library.Base64

/-!
What the price decoders share. The library functions that they call are known as far as the
decoders rely on them: digests and authentication codes have a fixed length, and the Base64
filter reports how many bytes it has written or a number below zero.
-/
namespace AdServer.Price

structure Digest where
  md5 : Bytes → Bytes
  length_md5 : ∀ message, (md5 message).length = 16

/-- `HMAC` with `EVP_sha1` of a key and a message. -/
structure Hmac where
  mac : Bytes → Bytes → Bytes
  length_mac : ∀ key message, (mac key message).length = 20

/-- `BIO_read` from a Base64 filter over a text, with the size of the target: the number that is
returned and the bytes that were written. -/
structure Base64Bio where
  read : Bytes → Nat → Int × Bytes
  length_read : ∀ text size, (read text size).2.length ≤ size
  reported : ∀ text size, 0 ≤ (read text size).1 → (read text size).1 = (read text size).2.length

/-- The filter inverts the standard code. -/
def Base64Bio.Inverts (bio : Base64Bio) : Prop :=
  ∀ bs size, bs.length ≤ size → bio.read (Base64.padded bs) size = ((bs.length : Int), bs)

def plainBio : Base64Bio where
  read text size :=
    (((Base64.decode text).take size).length, (Base64.decode text).take size)
  length_read _ size := List.length_take_le size _
  reported _ _ _ := rfl

theorem plainBio_inverts : plainBio.Inverts := by
  intro bs size h
  simp only [plainBio, Base64.decode_padded, List.take_of_length_le h]

theorem xor_xor_cancel (a b : UInt8) : a ^^^ b ^^^ b = a := by
  rw [UInt8.xor_assoc, UInt8.xor_self, UInt8.xor_zero]

def replaceByte (oc nc c : UInt8) : UInt8 := if c = oc then nc else c

/-- Bytes that are read at a place of a string, which must not end before them. -/
def bytesAt (s : Bytes) (start count : Nat) : Except Fault Bytes :=
  if start + count ≤ s.length then .ok ((s.drop start).take count) else .error .outside

/-- The three parts of a record of 16, 8 and 4 bytes are there if the whole record is. -/
theorem bytesAt_record {β : Type} (s : Bytes) (f : Bytes → Bytes → Bytes → Except Fault β) :
    (do
      let nonce ← bytesAt s 0 16
      let text ← bytesAt s 16 8
      let tag ← bytesAt s 24 4
      f nonce text tag) =
      if 28 ≤ s.length then f (s.take 16) ((s.drop 16).take 8) ((s.drop 24).take 4)
      else .error .outside := by
  by_cases hnonce : 16 ≤ s.length
  · by_cases htext : 24 ≤ s.length
    · by_cases htag : 28 ≤ s.length
      · simp [bytesAt, hnonce, htext, htag, bind, Except.bind]
      · simp [bytesAt, hnonce, htext, htag, bind, Except.bind]
    · simp [bytesAt, hnonce, htext, show ¬28 ≤ s.length by omega, bind, Except.bind]
  · simp [bytesAt, hnonce, show ¬28 ≤ s.length by omega, bind, Except.bind]

end AdServer.Price
