import AdServer.Url.Cipher
import AdServer.Url.RoundTrip

/-!
The check value of the program's own output. The serialiser takes it from the
offered fields, the reader from the stored ones. They differ by the weights lost
in between: a negative number is stored as zero, and a string of `2 ^ 31` bytes
or more is stored with another length.
-/
namespace AdServer.Url

/-- The weight of a field that its byte form does not carry. -/
def lostWeight : ParamType → Bytes → BitVec 64
  | .int, value => if paramNumber value < 0 then toUInt64 (paramNumber value) else 0#64
  | .string, value =>
    BitVec.ofNat 64 value.length ^^^ BitVec.ofNat 64 (toInt32 value.length).toNat

def lostXor (table : List ParamBindingItem) (m : ParamMap) : BitVec 64 :=
  (table.map fun item => lostWeight item.2 (m.value item.1)).foldr (· ^^^ ·) 0#64

/-- The reader accepts the bytes: it computes the recorded check value, and
`processParamData` keeps a map that holds it. -/
def CheckAccepted (table : List ParamBindingItem) (m : ParamMap) : Prop :=
  ∃ out mh, urlParamSerialize table m = .ok (out, mh) ∧
    ∃ vc p, urlParamDeserialize table out ∅ = .ok vc p ∧ hexText vc = mh ∧
      ∀ q : ParamMap, q.lookup macroHolder = some mh → verify vc q = q

theorem verify_of_lookup {vc : BitVec 64} {q : ParamMap}
    (h : q.lookup macroHolder = some (hexText vc)) : verify vc q = q := by
  simp [verify, ParamMap.value, h]

theorem weight_stored (paramType : ParamType) (value : Bytes) :
    (stored paramType value).weight =
      (offered paramType value).weight ^^^ lostWeight paramType value := by
  cases paramType with
  | int =>
      simp only [stored, offered, FieldValue.weight, lostWeight]
      split
      · rename_i hneg
        rw [max_eq_right hneg.le, BitVec.xor_self]
        rfl
      · rename_i hnonneg
        rw [max_eq_left (Int.not_lt.mp hnonneg), BitVec.xor_zero]
  | string =>
      have hle := toInt32_le value.length
      have hlen : (value.take (toInt32 value.length).toNat).length =
          (toInt32 value.length).toNat := by
        rw [List.length_take]
        omega
      simp only [stored, offered, FieldValue.weight, lostWeight, hlen, ← BitVec.xor_assoc,
        BitVec.xor_self, BitVec.zero_xor]

theorem xorWeights_stored (table : List ParamBindingItem) (m : ParamMap) :
    xorWeights (storedFields table m) = xorWeights (offeredFields table m) ^^^ lostXor table m := by
  induction table with
  | nil => simp [storedFields, offeredFields, lostXor]
  | cons item table ih =>
      simp only [storedFields, offeredFields, lostXor, List.map_cons, xorWeights, List.foldr_cons,
        weight_stored] at ih ⊢
      rw [ih]
      ac_rfl

theorem checkValue_stored_iff (table : List ParamBindingItem) (m : ParamMap) :
    checkValue (storedFields table m) = checkValue (offeredFields table m) ↔
      lostXor table m = 0#64 := by
  rw [checkValue, checkValue, xorWeights_stored, BitVec.xor_right_inj]
  nth_rewrite 2 [← BitVec.xor_zero (x := xorWeights (offeredFields table m))]
  rw [BitVec.xor_right_inj]

theorem checkAccepted_of_serialize {table : List ParamBindingItem} {m : ParamMap} {out mh : Bytes}
    (h : urlParamSerialize table m = .ok (out, mh)) :
    CheckAccepted table m ↔
      checkValue (storedFields table m) = checkValue (offeredFields table m) := by
  obtain ⟨rfl, rfl, hfits⟩ := urlParamSerialize_ok h
  refine ⟨?_, ?_⟩
  · rintro ⟨out, mh, hserialize, vc, p, hdeserialize, hhex, -⟩
    rw [h] at hserialize
    cases hserialize
    rw [deserialize_recordBytes hfits] at hdeserialize
    cases hdeserialize
    exact hexText_injective hhex
  · intro hcheck
    refine ⟨_, _, h, _, _, deserialize_recordBytes hfits ∅, by rw [hcheck], ?_⟩
    intro q hq
    rw [← hcheck] at hq
    exact verify_of_lookup hq

/-- The own output of the serialiser passes the check if and only if the lost
weights cancel and the record fits the buffer. -/
theorem checkAccepted_iff (table : List ParamBindingItem) (m : ParamMap)
    (hthrow : ∀ e, urlParamSerialize table m ≠ .error (.exception e)) :
    CheckAccepted table m ↔ lostXor table m = 0#64 ∧ recordSize table m ≤ bufSize := by
  rw [← checkValue_stored_iff]
  refine ⟨?_, ?_⟩
  · intro haccepted
    have hproduced := haccepted
    obtain ⟨out, mh, hserialize, -⟩ := hproduced
    exact ⟨(checkAccepted_of_serialize hserialize).mp haccepted,
      (urlParamSerialize_ok hserialize).2.2⟩
  · rintro ⟨hcheck, hfits⟩
    exact (checkAccepted_of_serialize (urlParamSerialize_of_fits hthrow hfits)).mpr hcheck

theorem checkAccepted_sample : CheckAccepted (paramBindingTable sampleKeys) sampleMap := by
  apply (checkAccepted_iff (paramBindingTable sampleKeys) sampleMap sampleMap_serializes).mpr
  exact ⟨by decide, by rw [sampleMap_recordSize]; decide⟩

/-- An owner of `-1` is written as zero and counted as `0xFFFFFFFFFFFFFFFF`. -/
theorem not_checkAccepted_negative :
    let m : ParamMap := Finmap.singleton (sampleKeys .adownerId) (bytes "-1")
    (∃ r, urlParamSerialize (paramBindingTable sampleKeys) m = .ok r) ∧
      ¬ CheckAccepted (paramBindingTable sampleKeys) m := by
  intro m
  have hsize : recordSize (paramBindingTable sampleKeys) m = 37 := by decide
  have hserialize := urlParamSerialize_of_room (show recordSize (paramBindingTable sampleKeys) m + 10 ≤
    bufSize by rw [hsize]; decide)
  refine ⟨⟨_, hserialize⟩, ?_⟩
  rw [checkAccepted_of_serialize hserialize, checkValue_stored_iff]
  decide

end AdServer.Url
