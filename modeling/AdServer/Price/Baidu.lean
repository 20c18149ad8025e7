import AdServer.Library.ByteOrder
import AdServer.Library.SealedRecord
import AdServer.Price.Basic

/-!
`baidu_price_decode`. The text is Base64 with the web safe alphabet and without padding. It
holds a record of an initialization vector, a price of eight bytes in network order under a
mask, and four bytes of a signature. The decoder does not look at the size of the record.
-/
namespace AdServer.Price

open ByteOrder SealedRecord

def encryptionKey : Bytes :=
  [0x01, 0x1d, 0x6a, 0x0b, 0x00, 0x2a, 0xa1, 0x12, 0xde, 0x49, 0x48, 0x51, 0x00, 0x2a, 0xa1, 0x12,
    0xde, 0x49, 0x8d, 0xdc, 0x00, 0x2a, 0xa1, 0x12, 0xde, 0x49, 0x98, 0xce, 0x85, 0x76, 0xb3, 0xaf]

def integrityKey : Bytes :=
  [0x01, 0x1d, 0x6a, 0x0b, 0x00, 0x2a, 0xa1, 0x12, 0xde, 0x4a, 0x17, 0x7a, 0x00, 0x2a, 0xa1, 0x12,
    0xde, 0x4a, 0x20, 0x98, 0x00, 0x2a, 0xa1, 0x12, 0xde, 0x4a, 0x25, 0xf2, 0xd3, 0x93, 0x5b, 0x25]

/-- `ntohl` of a little endian host. -/
def ntohl (x : BitVec 32) : BitVec 32 := BitVec.ofNat 32 (value (littleEndian 4 x.toNat).reverse)

def ntohll (hostInt : BitVec 64) : BitVec 64 :=
  (ntohl ((hostInt >>> 32).setWidth 32)).setWidth 64 |||
    (ntohl (hostInt.setWidth 32)).setWidth 64 <<< 32

def decryptInt64 (hmac : Hmac) (encryptedValue encryptionKey integrityKey : Bytes) :
    Except Fault (Option Int) := do
  let initializationVector ← bytesAt encryptedValue 0 16
  let pricePad := hmac.mac encryptionKey initializationVector
  let ciphertextBytes ← bytesAt encryptedValue 16 8
  let plaintextBytes := List.zipWith (· ^^^ ·) (pricePad.take 8) ciphertextBytes
  let actValue := (ntohll (BitVec.ofNat 64 (value plaintextBytes))).toInt
  let integrityHash := hmac.mac integrityKey (plaintextBytes ++ initializationVector)
  let signature ← bytesAt encryptedValue 24 4
  return if integrityHash.take 4 = signature then some actValue else none

/-- `base64_decode`; a length below zero makes `assign` throw. -/
def base64Decode (bio : Base64Bio) (encoded : Bytes) : Except Fault Bytes :=
  let (outLength, temp) := bio.read encoded encoded.length
  if outLength < 0 then .error .exception else .ok (temp.take outLength.toNat)

def normalEncoded (encoded : Bytes) : Bytes :=
  (encoded.map (replaceByte (byte '-') (byte '+'))).map (replaceByte (byte '_') (byte '/'))

def webSafeBase64Decode (bio : Base64Bio) (encoded : Bytes) : Except Fault Bytes :=
  base64Decode bio (normalEncoded encoded)

def addPadding (b64String : Bytes) : Bytes :=
  if b64String.length % 4 = 3 then b64String ++ bytes "="
  else if b64String.length % 4 = 2 then b64String ++ bytes "=="
  else b64String

def baiduPriceDecode (hmac : Hmac) (bio : Base64Bio) (encryptionValue : Bytes) :
    Except Fault Int := do
  let decodeValue ← webSafeBase64Decode bio (addPadding encryptionValue)
  let actValue ← decryptInt64 hmac decodeValue encryptionKey integrityKey
  return actValue.getD 0

/-- The records of the exchanges that sign with two keys. -/
def hmacScheme (hmac : Hmac) (encryptionKey integrityKey : Bytes) : Scheme UInt8 where
  nonceSize := 16
  plainSize := 8
  mix := (· ^^^ ·)
  mix_mix := xor_xor_cancel
  pad nonce := (hmac.mac encryptionKey nonce).take 8
  length_pad nonce := by rw [List.length_take, hmac.length_mac]; rfl
  tag nonce plain := (hmac.mac integrityKey (plain ++ nonce)).take 4

theorem ntohl_value {bs : Bytes} (h : bs.length = 4) :
    ntohl (BitVec.ofNat 32 (value bs)) = BitVec.ofNat 32 (value bs.reverse) := by
  have hlt : value bs < 2 ^ 32 := value_lt h
  have hbytes : littleEndian 4 (value bs) = bs := by
    refine value_injective ((length_littleEndian 4 _).trans h.symm) ?_
    rw [value_littleEndian, Nat.mod_eq_of_lt (value_lt h)]
  rw [ntohl, BitVec.toNat_ofNat, Nat.mod_eq_of_lt hlt, hbytes]

theorem setWidth_or_shiftLeft {low high : Nat} (hlow : low < 2 ^ 32) (hhigh : high < 2 ^ 32) :
    (BitVec.ofNat 32 low).setWidth 64 ||| (BitVec.ofNat 32 high).setWidth 64 <<< 32 =
      BitVec.ofNat 64 (low + 256 ^ 4 * high) := by
  apply BitVec.eq_of_toNat_eq
  have hor := Nat.two_pow_add_eq_or_of_lt hlow high
  simp only [BitVec.toNat_or, BitVec.toNat_setWidth, BitVec.toNat_ofNat, BitVec.toNat_shiftLeft,
    Nat.shiftLeft_eq]
  rw [Nat.mod_eq_of_lt hlow, Nat.mod_eq_of_lt hhigh, Nat.mod_eq_of_lt (a := low) (by omega),
    Nat.mod_eq_of_lt (a := high) (by omega), Nat.mod_eq_of_lt (a := high * _) (by omega),
    Nat.or_comm, Nat.mul_comm, ← hor, Nat.mod_eq_of_lt (by omega)]
  omega

/-- The two halves change places and their bytes are turned around. -/
theorem ntohll_value {bs : Bytes} (h : bs.length = 8) :
    ntohll (BitVec.ofNat 64 (value bs)) = BitVec.ofNat 64 (value bs.reverse) := by
  obtain ⟨low, high, rfl, hlow, hhigh⟩ : ∃ low high, bs = low ++ high ∧ low.length = 4 ∧
      high.length = 4 :=
    ⟨bs.take 4, bs.drop 4, (List.take_append_drop 4 bs).symm, by simp [h], by simp [h]⟩
  have hlt : value low < 2 ^ 32 := value_lt hlow
  have hfirst : (BitVec.ofNat 64 (value (low ++ high))).setWidth 32 =
      BitVec.ofNat 32 (value low) := by
    rw [value_append, hlow]
    apply BitVec.eq_of_toNat_eq
    simp only [BitVec.toNat_setWidth, BitVec.toNat_ofNat]
    omega
  have hsecond : (BitVec.ofNat 64 (value (low ++ high)) >>> 32).setWidth 32 =
      BitVec.ofNat 32 (value high) := by
    rw [value_append, hlow]
    apply BitVec.eq_of_toNat_eq
    simp only [BitVec.toNat_setWidth, BitVec.toNat_ofNat, BitVec.toNat_ushiftRight,
      Nat.shiftRight_eq_div_pow]
    omega
  rw [ntohll, hfirst, hsecond, ntohl_value hlow, ntohl_value hhigh, List.reverse_append,
    value_append, List.length_reverse, hhigh]
  exact setWidth_or_shiftLeft (value_lt (by rw [List.length_reverse, hhigh]))
    (value_lt (by rw [List.length_reverse, hlow]))

/-- On a whole record the decoder takes the seal off. -/
theorem decryptInt64_eq_unseal (hmac : Hmac) {record : Bytes} (hlen : record.length = 28)
    (encryptionKey integrityKey : Bytes) :
    decryptInt64 hmac record encryptionKey integrityKey =
      .ok (((hmacScheme hmac encryptionKey integrityKey).unseal record).map fun plain =>
        (BitVec.ofNat 64 (value plain.reverse)).toInt) := by
  have hmask : List.zipWith (· ^^^ ·) ((hmac.mac encryptionKey (record.take 16)).take 8)
      ((record.drop 16).take 8) = (hmacScheme hmac encryptionKey integrityKey).mask
        (record.take 16) ((record.drop 16).take 8) := List.zipWith_comm_of_comm UInt8.xor_comm
  have hplain : ((hmacScheme hmac encryptionKey integrityKey).mask (record.take 16)
      ((record.drop 16).take 8)).length = 8 :=
    length_mask (by rw [List.length_take, List.length_drop, hlen]; rfl)
  have hsignature : (record.drop 24).take 4 = record.drop 24 :=
    List.take_of_length_le (by rw [List.length_drop, hlen])
  refine ((bytesAt_record record _).trans (if_pos (Nat.le_of_eq hlen.symm))).trans ?_
  rw [hsignature, hmask, ntohll_value hplain, Scheme.unseal, apply_ite (Option.map _)]
  exact congrArg Except.ok (if_congr eq_comm rfl rfl)

/-- The message of a value, as the exchange makes it. -/
def baiduMessage (hmac : Hmac) (iv : Bytes) (v : BitVec 64) : Bytes :=
  let bigEndian := (littleEndian 8 v.toNat).reverse
  iv ++ (List.zipWith (· ^^^ ·) bigEndian ((hmac.mac encryptionKey iv).take 8) ++
    (hmac.mac integrityKey (bigEndian ++ iv)).take 4)

/-- Base64 with the web safe alphabet and without padding. -/
def webSafeText (bs : Bytes) : Bytes :=
  (((Base64.digits bs).map Base64.digitChar).map (replaceByte (byte '+') (byte '-'))).map
    (replaceByte (byte '/') (byte '_'))

private theorem webSafe_table : ∀ d : Fin 64, replaceByte (byte '_') (byte '/')
    (replaceByte (byte '-') (byte '+') (replaceByte (byte '/') (byte '_')
      (replaceByte (byte '+') (byte '-') (Base64.digitChar d)))) = Base64.digitChar d := by
  decide

theorem addPadding_webSafeText (bs : Bytes) :
    addPadding (webSafeText bs) = webSafeText bs ++ Base64.padding bs.length := by
  have hcount := Base64.length_digits_padding bs
  have hlen : (webSafeText bs).length = (Base64.digits bs).length := by simp [webSafeText]
  have hone : bytes "=" = List.replicate 1 Base64.pad := by decide
  have htwo : bytes "==" = List.replicate 2 Base64.pad := by decide
  rw [Base64.padding, List.length_replicate] at hcount
  rw [addPadding, hlen, hone, htwo, Base64.padding]
  split
  · rw [show (3 - bs.length % 3) % 3 = 1 by omega]
  · split
    · rw [show (3 - bs.length % 3) % 3 = 2 by omega]
    · rw [show (3 - bs.length % 3) % 3 = 0 by omega, List.replicate_zero, List.append_nil]

theorem normalEncoded_webSafeText (bs : Bytes) :
    normalEncoded (addPadding (webSafeText bs)) = Base64.padded bs := by
  have hpad : replaceByte (byte '_') (byte '/') (replaceByte (byte '-') (byte '+') Base64.pad) =
      Base64.pad := by decide
  rw [addPadding_webSafeText, normalEncoded, List.map_append, List.map_append, Base64.padded,
    webSafeText, Base64.padding, List.map_replicate, List.map_replicate, hpad]
  refine congrArg (· ++ _) ?_
  simp only [List.map_map]
  refine List.map_congr_left fun d hd => ?_
  simp only [Function.comp_apply]
  exact webSafe_table ⟨d, Base64.digits_lt bs d hd⟩

theorem webSafeBase64Decode_webSafeText {bio : Base64Bio} (hbio : bio.Inverts) (bs : Bytes) :
    webSafeBase64Decode bio (addPadding (webSafeText bs)) = .ok bs := by
  have hread := hbio bs (Base64.padded bs).length (by rw [Base64.length_padded]; omega)
  rw [webSafeBase64Decode, normalEncoded_webSafeText, base64Decode, hread]
  refine (if_neg (Int.not_lt.mpr (Int.natCast_nonneg _))).trans ?_
  rw [Int.toNat_natCast, List.take_length]

theorem baiduPriceDecode_record {hmac : Hmac} {bio : Base64Bio} {text record : Bytes}
    (hdecode : webSafeBase64Decode bio (addPadding text) = .ok record) (hlen : record.length = 28) :
    baiduPriceDecode hmac bio text =
      .ok ((((hmacScheme hmac encryptionKey integrityKey).unseal record).map fun plain =>
        (BitVec.ofNat 64 (value plain.reverse)).toInt).getD 0) := by
  rw [baiduPriceDecode, hdecode]
  change (decryptInt64 hmac record encryptionKey integrityKey >>= _) = _
  rw [decryptInt64_eq_unseal hmac hlen]
  rfl

/-- A value that the exchange has sealed comes back, and a record whose signature is not the one
that belongs to it gives 0. -/
theorem baiduPriceDecode_authenticated (hmac : Hmac) (bio : Base64Bio) (hbio : bio.Inverts) :
    (∀ (iv : Bytes) (v : BitVec 64), iv.length = 16 →
      baiduPriceDecode hmac bio (webSafeText (baiduMessage hmac iv v)) = .ok v.toInt) ∧
    ∀ text record, webSafeBase64Decode bio (addPadding text) = .ok record → record.length = 28 →
      record.drop 24 ≠ (hmac.mac integrityKey
        (List.zipWith (· ^^^ ·) ((record.drop 16).take 8)
          ((hmac.mac encryptionKey (record.take 16)).take 8) ++ record.take 16)).take 4 →
      baiduPriceDecode hmac bio text = .ok 0 := by
  refine ⟨fun iv v hiv => ?_, fun text record hdecode hlen hforged => ?_⟩
  · have hsize : (littleEndian 8 v.toNat).reverse.length =
        (hmacScheme hmac encryptionKey integrityKey).plainSize := by
      rw [List.length_reverse, length_littleEndian]
      rfl
    have hlen : (baiduMessage hmac iv v).length = 28 := by
      simp [baiduMessage, hiv, length_littleEndian, hmac.length_mac]
    have hunseal : (hmacScheme hmac encryptionKey integrityKey).unseal (baiduMessage hmac iv v) =
        some (littleEndian 8 v.toNat).reverse := unseal_seal hiv hsize
    rw [baiduPriceDecode_record (webSafeBase64Decode_webSafeText hbio _) hlen, hunseal,
      Option.map_some, List.reverse_reverse, value_littleEndian,
      Nat.mod_eq_of_lt (show v.toNat < 256 ^ 8 from v.isLt), BitVec.ofNat_toNat, BitVec.setWidth_eq]
    rfl
  · have hunseal : (hmacScheme hmac encryptionKey integrityKey).unseal record = none :=
      if_neg hforged
    rw [baiduPriceDecode_record hdecode hlen, hunseal]
    rfl

/-- An authentication code that never changes. -/
def constantHmac : Hmac where
  mac _ _ := List.replicate 20 1
  length_mac _ _ := List.length_replicate

theorem baiduPriceDecode_authenticated_sample :
    baiduPriceDecode constantHmac plainBio
      (webSafeText (baiduMessage constantHmac (List.replicate 16 7) 5)) = .ok 5 ∧
    baiduPriceDecode constantHmac plainBio (webSafeText (List.replicate 28 0)) = .ok 0 := by
  obtain ⟨hvalue, hforged⟩ :=
    baiduPriceDecode_authenticated constantHmac plainBio plainBio_inverts
  refine ⟨hvalue (List.replicate 16 7) 5 rfl, ?_⟩
  have hdecode := webSafeBase64Decode_webSafeText plainBio_inverts (List.replicate 28 0)
  exact hforged _ _ hdecode List.length_replicate (by decide)

end AdServer.Price
