import AdServer.Price.Max360
import AdServer.Price.Tanx

/-!
What the price decoders touch on a text from a URL, whatever the Base64 decoder makes of it.
`tanx_price_decode` uses the reported length as an index before it checks it, and the other
three never check it.
-/
namespace AdServer.Price

open Url

section
variable {hmac : Hmac} {bio : Base64Bio} {base64 : Bytes → Option Bytes} {toPrice : Bytes → Int}

/-- The number of bytes the Base64 filter reports to `baidu_price_decode`. -/
def baiduReported (bio : Base64Bio) (encryptionValue : Bytes) : Int :=
  let encoded := normalEncoded (addPadding encryptionValue)
  (bio.read encoded encoded.length).1

theorem decryptInt64_ne_outside_iff (record encryptionKey integrityKey : Bytes) :
    decryptInt64 hmac record encryptionKey integrityKey ≠ .error .outside ↔ 28 ≤ record.length := by
  have hread : decryptInt64 hmac record encryptionKey integrityKey = if 28 ≤ record.length then _
      else .error .outside := bytesAt_record record _
  rw [hread]
  split
  · rename_i hlen
    exact iff_of_true nofun hlen
  · rename_i hlen
    exact iff_of_false (not_not.mpr rfl) hlen

theorem baiduPriceDecode_ne_outside_iff (input : Bytes) :
    baiduPriceDecode hmac bio input ≠ .error .outside ↔
      baiduReported bio input < 0 ∨ 28 ≤ baiduReported bio input := by
  have hreported := bio.reported (normalEncoded (addPadding input))
    (normalEncoded (addPadding input)).length
  rw [baiduReported, baiduPriceDecode, webSafeBase64Decode, base64Decode]
  generalize bio.read (normalEncoded (addPadding input)) _ = result at hreported ⊢
  obtain ⟨outLength, temp⟩ := result
  dsimp only at hreported ⊢
  by_cases hneg : outLength < 0
  · rw [if_pos hneg]
    refine iff_of_true ?_ (.inl hneg)
    intro h
    cases h
  · have htemp : temp.take outLength.toNat = temp := List.take_of_length_le (by omega)
    have hlen : (28 ≤ temp.length) ↔ outLength < 0 ∨ 28 ≤ outLength := by omega
    rw [if_neg hneg, htemp, ← hlen,
      ← @decryptInt64_ne_outside_iff hmac temp encryptionKey integrityKey]
    refine not_congr ?_
    change (decryptInt64 hmac temp encryptionKey integrityKey >>= _) = _ ↔ _
    cases decryptInt64 hmac temp encryptionKey integrityKey with
    | error fault => simp only [bind, Except.bind, Except.error.injEq]
    | ok actValue =>
        refine iff_of_false ?_ ?_
        · intro h
          cases h
        · intro h
          cases h

theorem decodeHex_cases (data : Bytes) :
    decodeHex data = .error .exception ∨ ∃ key, decodeHex data = .ok key := by
  unfold decodeHex
  split
  · exact .inl rfl
  · cases hexPairs data with
    | none => exact .inl rfl
    | some key => exact .inr ⟨key, rfl⟩

theorem checkSigned_ne_outside (decKey iKey iv enPrice integrity : Bytes) :
    checkSigned hmac toPrice decKey iKey iv enPrice integrity ≠ .error .outside := by
  unfold checkSigned
  rcases decodeHex_cases decKey with hdec | ⟨key, hdec⟩
  · rw [hdec]
    exact nofun
  rcases decodeHex_cases iKey with hint | ⟨key', hint⟩
  · rw [hdec, hint]
    exact nofun
  · rw [hdec, hint]
    simp only [bind, Except.bind]
    split <;> exact nofun

theorem catchPrice_eq_outside_iff (result : Except Fault Int) :
    catchPrice result = .error .outside ↔ result = .error .outside := by
  unfold catchPrice
  split
  · exact iff_of_false nofun nofun
  · exact Iff.rfl

theorem decodeSigned_ne_outside_iff (decKey iKey input : Bytes) :
    catchPrice (decodeSigned hmac base64 toPrice decKey iKey input) ≠ .error .outside ↔
      ∀ record, base64 (normalEncoded input) = some record → 28 ≤ record.length := by
  rw [ne_eq, catchPrice_eq_outside_iff]
  cases hdecode : base64 (normalEncoded input) with
  | none =>
      rw [decodeSigned, hdecode]
      refine iff_of_true ?_ ?_
      · intro h
        cases h
      · intro record h
        cases h
  | some record =>
      rw [decodeSigned_some hdecode]
      split
      · rename_i hlen
        refine iff_of_true (checkSigned_ne_outside _ _ _ _ _) ?_
        rintro _ ⟨⟩
        exact hlen
      · rename_i hlen
        exact iff_of_false (not_not.mpr rfl) fun hall => hlen (hall record rfl)

end

/-- Where the decoders stay inside: `tanx_price_decode` as long as the Base64 filter reports no
error, the others as long as nothing is decoded at all or at least a whole record. -/
theorem priceDecoders_inBounds_iff (stray stray' : Stray) (hmac : Hmac) (bio : Base64Bio)
    (base64 : Bytes → Option Bytes) (input : Bytes) (h : input.length ≤ 2047) :
    ((∀ offset ∈ tanxWrites stray stray' bio input, 0 ≤ offset ∧ offset ≤ 2047) ↔
      0 ≤ (tanxRead stray stray' bio input).1) ∧
    (baiduPriceDecode hmac bio input ≠ .error .outside ↔
      baiduReported bio input < 0 ∨ 28 ≤ baiduReported bio input) ∧
    (max360PriceDecode hmac base64 input ≠ .error .outside ↔
      ∀ record, base64 (normalEncoded input) = some record → 28 ≤ record.length) ∧
    (kupaiPriceDecode hmac base64 input ≠ .error .outside ↔
      ∀ record, base64 (normalEncoded input) = some record → 28 ≤ record.length) := by
  refine ⟨?_, baiduPriceDecode_ne_outside_iff input, decodeSigned_ne_outside_iff _ _ input,
    decodeSigned_ne_outside_iff _ _ input⟩
  rw [← tanxWrites_inBuffer_iff h]
  simp only [List.all_eq_true, inBuffer, decide_eq_true_eq]

theorem priceDecoders_inBounds_sample :
    (bytes "AAAA").length ≤ 2047 ∧
      ∀ offset ∈ tanxWrites blankStray blankStray plainBio (bytes "AAAA"),
        0 ≤ offset ∧ offset ≤ 2047 :=
  ⟨by decide, (priceDecoders_inBounds_iff blankStray blankStray constantHmac plainBio
    (fun _ => none) (bytes "AAAA") (by decide)).1.mpr (by decide)⟩

/-- A filter that cannot read its text. -/
def failingBio : Base64Bio where
  read _ _ := (-1, [])
  length_read _ size := Nat.zero_le size
  reported _ _ h := absurd h (by decide)

/-- The terminator in front of the buffer, and a text of three bytes for the others. -/
theorem priceDecoders_outside :
    -1 ∈ tanxWrites blankStray blankStray failingBio (bytes "AAAA") ∧
    baiduPriceDecode constantHmac plainBio (bytes "AAAA") = .error .outside ∧
    max360PriceDecode constantHmac (fun text => some (Base64.decode text)) (bytes "AAAA") =
      .error .outside ∧
    kupaiPriceDecode constantHmac (fun text => some (Base64.decode text)) (bytes "AAAA") =
      .error .outside :=
  ⟨by decide, rfl, rfl, rfl⟩

end AdServer.Price
