import AdServer.Url.Record

/-!
What the serialiser writes. Every row of the table offers a field value: the
number or the string found in the map. The byte form keeps only part of some of
them. A number that is not positive is stored as zero, and a string is stored up
to its length as an `int`. The check value is taken from what was offered, the
bytes from what was stored.
-/
namespace AdServer.Url

def offered : ParamType → Bytes → FieldValue
  | .int, value => .int (paramNumber value)
  | .string, value => .string value

def stored : ParamType → Bytes → FieldValue
  | .int, value => .int (max (paramNumber value) 0)
  | .string, value => .string (value.take (toInt32 value.length).toNat)

/-- What a field takes off `bufRemain`. -/
def charged (paramType : ParamType) (value : Bytes) : Int :=
  if paramType = .int ∧ paramNumber value ≤ 0 then 0 else (stored paramType value).encode.length

def recordBytes (table : List ParamBindingItem) (m : ParamMap) : Bytes :=
  table.flatMap fun item => (stored item.2 (m.value item.1)).encode

def offeredFields (table : List ParamBindingItem) (m : ParamMap) : List FieldValue :=
  table.map fun item => offered item.2 (m.value item.1)

def storedFields (table : List ParamBindingItem) (m : ParamMap) : List FieldValue :=
  table.map fun item => stored item.2 (m.value item.1)

theorem paramNumber_range (value : Bytes) :
    -2 ^ 63 ≤ paramNumber value ∧ paramNumber value < 2 ^ 63 := by
  simp only [paramNumber]
  split
  · simp
  · exact stringToInt_range value

theorem stored_type (paramType : ParamType) (value : Bytes) :
    (stored paramType value).type = paramType := by
  cases paramType <;> rfl

theorem stored_storable (paramType : ParamType) (value : Bytes) :
    (stored paramType value).Storable := by
  cases paramType with
  | int =>
      have hrange := paramNumber_range value
      simp only [stored, FieldValue.Storable]
      omega
  | string =>
      have hlt := toInt32_lt value.length
      simp only [stored, FieldValue.Storable, List.length_take]
      omega

theorem clearLast_append (xs : Bytes) {ys : Bytes} (h : ys ≠ []) :
    clearLast (xs ++ ys) = xs ++ clearLast ys := by
  induction xs with
  | nil => rfl
  | cons x xs ih =>
      obtain ⟨z, zs, hcons⟩ := List.exists_cons_of_ne_nil (show xs ++ ys ≠ [] by simp [h])
      rw [List.cons_append, hcons, clearLast, ← hcons, ih, List.cons_append]

theorem numberEncodeLoop_of_pos {number : Int} (h : 0 < number) :
    numberEncodeLoop number =
      UInt8.ofNat (number.toNat % 128 + 128) :: numberEncodeLoop (number / 128) := by
  have hbyte : (number.toNat &&& 0x7F) ||| 0x80 = number.toNat % 128 + 128 := by
    rw [Nat.and_two_pow_sub_one_eq_mod number.toNat 7, Nat.or_comm,
      ← Nat.two_pow_add_eq_or_of_lt (i := 7) (Nat.mod_lt _ (by decide)) 1]
    omega
  have hshift : number >>> (7 : Nat) = number / 128 := Int.shiftRight_eq_div_pow number 7
  rw [numberEncodeLoop, if_pos h, hbyte, hshift]

/-- The loop of `numberEncode` with its last byte corrected is the base-128
numeral; the induction follows the loop, seven bits at a time. -/
theorem clearLast_numberEncodeLoop (n : Nat) (h : 0 < n) :
    clearLast (numberEncodeLoop n) = Base128.encode n := by
  induction n using Nat.strongRecOn with
  | ind n ih =>
      rw [numberEncodeLoop_of_pos (by omega), Int.toNat_natCast]
      by_cases hlast : n < 128
      · have hstop : numberEncodeLoop ((n : Int) / 128) = [] := by
          rw [numberEncodeLoop, if_neg (by omega)]
        have hclear : UInt8.ofNat (n % 128 + 128) &&& 0x7F = UInt8.ofNat n := by
          apply UInt8.toNat_inj.mp
          rw [and_mask_toNat, Base128.group, UInt8.toNat_ofNat', UInt8.toNat_ofNat']
          omega
        rw [hstop, Base128.encode_lt h hlast, clearLast, hclear]
      · have hpos : 0 < n / 128 := by omega
        have htail := ih (n / 128) (by omega) hpos
        have hcast : (n : Int) / 128 = ((n / 128 : Nat) : Int) := by omega
        rw [hcast, Base128.encode_ge (by omega), ← htail]
        obtain ⟨z, zs, hcons⟩ := List.exists_cons_of_ne_nil
          (show numberEncodeLoop ((n / 128 : Nat) : Int) ≠ [] by
            rw [numberEncodeLoop_of_pos (by omega)]
            simp)
        rw [hcons, clearLast]

theorem length_clearLast (bs : Bytes) : (clearLast bs).length = bs.length := by
  induction bs using clearLast.induct with
  | case1 => rfl
  | case2 b => rfl
  | case3 b c bs ih => simp [clearLast, ih]

theorem numberEncode_eq {number : Int} (h : 0 < number) (s : WriteState) :
    numberEncode number s =
      if s.bufRemain ≤ 10 then .error ⟨"numberEncode:buffer reach boundary"⟩ s
      else .ok () { s with
        written := s.written ++ Base128.encode number.toNat
        bufRemain := s.bufRemain - (Base128.encode number.toNat).length } := by
  have hcast : ((number.toNat : Nat) : Int) = number := Int.toNat_of_nonneg (by omega)
  have hclear := clearLast_numberEncodeLoop number.toNat (by omega)
  rw [hcast] at hclear
  have hlen : (numberEncodeLoop number).length = (Base128.encode number.toNat).length := by
    rw [← hclear, length_clearLast]
  have hne : numberEncodeLoop number ≠ [] := by
    rw [numberEncodeLoop_of_pos h]
    simp
  simp only [numberEncode, clearLast_append s.written hne, hclear, hlen]

theorem length_encode_int64 {n : Nat} (h : n < 2 ^ 63) : (Base128.encode n).length ≤ 9 :=
  Base128.length_encode_le (by omega)

/-- A writer that returned: its bytes and its charge. -/
structure Wrote (out : Bytes) (charge : Int) (s s' : WriteState) : Prop where
  written : s'.written = s.written ++ out
  bufRemain : s'.bufRemain = s.bufRemain - charge
  vc : s'.vc = s.vc
  nonneg : 0 ≤ s.bufRemain → 0 ≤ s'.bufRemain

/-- A writer that threw: the front of its bytes it wrote before is charged. -/
structure Threw (out : Bytes) (s s' : WriteState) : Prop where
  written : ∃ front : Bytes, front <+: out ∧
    s'.written = s.written ++ front ∧ s'.bufRemain = s.bufRemain - front.length
  nonneg : 0 ≤ s.bufRemain → 0 ≤ s'.bufRemain

theorem Threw.refl (out : Bytes) (s : WriteState) : Threw out s s :=
  ⟨⟨[], List.nil_prefix, by simp, by simp⟩, id⟩

theorem encode_stored_string {value : Bytes} (h : 0 < toInt32 value.length) :
    (stored .string value).encode =
      Base128.encode (toInt32 value.length).toNat ++ value.take (toInt32 value.length).toNat := by
  have hle := toInt32_le value.length
  have hlen : (value.take (toInt32 value.length).toNat).length = (toInt32 value.length).toNat := by
    rw [List.length_take]
    omega
  have hne : value.take (toInt32 value.length).toNat ≠ [] := by
    intro hnil
    rw [hnil] at hlen
    simp only [List.length_nil] at hlen
    omega
  simp only [stored, FieldValue.encode, hne, if_false, hlen]

theorem encode_stored_string_nonpos {value : Bytes} (h : ¬ 0 < toInt32 value.length) :
    (stored .string value).encode = [0x00] := by
  have hzero : (toInt32 value.length).toNat = 0 := by omega
  simp [stored, FieldValue.encode, hzero]

theorem encode_stored_int {value : Bytes} (h : 0 < paramNumber value) :
    (stored .int value).encode = Base128.encode (paramNumber value).toNat := by
  have hmax : max (paramNumber value) 0 = paramNumber value := by omega
  simp only [stored, FieldValue.encode, hmax, h, if_true]

theorem encode_stored_int_nonpos {value : Bytes} (h : ¬ 0 < paramNumber value) :
    (stored .int value).encode = [0x00] := by
  have hmax : max (paramNumber value) 0 = 0 := by omega
  simp [stored, FieldValue.encode, hmax]

theorem numberEncode_cases {number : Int} (h : 0 < number) (hn : number < 2 ^ 63) (s : WriteState) :
    (∃ s', numberEncode number s = .ok () s' ∧ 10 < s.bufRemain ∧
      Wrote (Base128.encode number.toNat) (Base128.encode number.toNat).length s s') ∨
    (∃ e, numberEncode number s = .error e s) := by
  have hlen := length_encode_int64 (n := number.toNat) (by omega)
  rw [numberEncode_eq h]
  split
  · exact .inr ⟨_, rfl⟩
  · exact .inl ⟨_, rfl, by omega, rfl, rfl, rfl, fun _ => by dsimp only; omega⟩

theorem writeStringToBuf_cases (value : Bytes) (s : WriteState) :
    (∃ s', writeStringToBuf value (toInt32 value.length) s = .ok () s' ∧
      Wrote (stored .string value).encode (stored .string value).encode.length s s') ∨
    (∃ e s', writeStringToBuf value (toInt32 value.length) s = .error e s' ∧
      Threw (stored .string value).encode s s') := by
  by_cases hsize : 0 < toInt32 value.length
  · have hlt := toInt32_lt value.length
    have hle := toInt32_le value.length
    have htake : (value.take (toInt32 value.length).toNat).length = (toInt32 value.length).toNat := by
      rw [List.length_take]
      omega
    simp only [writeStringToBuf, hsize, if_true, encode_stored_string hsize]
    obtain ⟨s', hok, hbuf, hwrote⟩ | ⟨e, herror⟩ := numberEncode_cases hsize (by omega) s
    · have hlen := hwrote.bufRemain
      simp only [hok, copyToBuf]
      split
      · exact .inr ⟨_, s', rfl, ⟨_, List.prefix_append _ _, hwrote.written, hwrote.bufRemain⟩,
          hwrote.nonneg⟩
      · refine .inl ⟨_, rfl, ?_, ?_, hwrote.vc, fun _ => ?_⟩
        · simp only [hwrote.written, List.append_assoc]
        · simp only [hlen, List.length_append, htake]
          omega
        · dsimp only
          omega
    · simp only [herror]
      exact .inr ⟨e, s, rfl, Threw.refl _ s⟩
  · simp only [writeStringToBuf, hsize, if_false, encode_stored_string_nonpos hsize]
    split
    · exact .inl ⟨_, rfl, rfl, rfl, rfl, fun _ => by dsimp only; omega⟩
    · exact .inr ⟨_, s, rfl, Threw.refl _ s⟩

theorem writeIntToBuf_cases (value : Bytes) (s : WriteState) :
    (∃ s', writeIntToBuf (paramNumber value) s = .ok () s' ∧
      Wrote (stored .int value).encode (charged .int value) s s') ∨
    (∃ e s', writeIntToBuf (paramNumber value) s = .error e s' ∧
      Threw (stored .int value).encode s s') := by
  by_cases hpos : 0 < paramNumber value
  · have hcharged : charged .int value = (stored .int value).encode.length := by
      simp only [charged, true_and, Int.not_le.mpr hpos, if_false]
    simp only [writeIntToBuf, hpos, if_true, hcharged, encode_stored_int hpos]
    obtain ⟨s', hok, -, hwrote⟩ | ⟨e, herror⟩ :=
      numberEncode_cases hpos (paramNumber_range value).2 s
    · exact .inl ⟨s', hok, hwrote⟩
    · exact .inr ⟨e, s, herror, Threw.refl _ s⟩
  · have hcharged : charged .int value = 0 := by
      simp only [charged, true_and, Int.not_lt.mp hpos, if_true]
    simp only [writeIntToBuf, hpos, if_false, hcharged, encode_stored_int_nonpos hpos]
    split
    · exact .inl ⟨_, rfl, rfl, by simp, rfl, id⟩
    · exact .inr ⟨_, s, rfl, Threw.refl _ s⟩

structure RowWritten (paramType : ParamType) (value : Bytes) (s s' : WriteState) : Prop where
  written : s'.written = s.written ++ (stored paramType value).encode
  bufRemain : s'.bufRemain = s.bufRemain - charged paramType value
  vc : s'.vc = s.vc ^^^ (offered paramType value).weight
  nonneg : 0 ≤ s.bufRemain → 0 ≤ s'.bufRemain

theorem encodeUrlParam_cases (paramType : ParamType) (value : Bytes) (s : WriteState) :
    (∃ s', encodeUrlParam paramType value s = .ok () s' ∧ RowWritten paramType value s s') ∨
    (∃ e s', encodeUrlParam paramType value s = .error e s' ∧
      Threw (stored paramType value).encode s s') := by
  cases paramType with
  | int =>
      simp only [encodeUrlParam]
      obtain ⟨s', hok, hwrote⟩ | ⟨e, s', herror, hthrew⟩ := writeIntToBuf_cases value s
      · simp only [hok]
        exact .inl ⟨_, rfl, hwrote.written, hwrote.bufRemain, by rw [hwrote.vc]; rfl, hwrote.nonneg⟩
      · simp only [herror]
        exact .inr ⟨e, s', rfl, hthrew⟩
  | string =>
      simp only [encodeUrlParam]
      obtain ⟨s', hok, hwrote⟩ | ⟨e, s', herror, hthrew⟩ := writeStringToBuf_cases value s
      · have hcharged : charged .string value = (stored .string value).encode.length := by
          simp [charged]
        simp only [hok]
        exact .inl ⟨_, rfl, hwrote.written, by rw [hcharged]; exact hwrote.bufRemain,
          by rw [hwrote.vc]; rfl, hwrote.nonneg⟩
      · simp only [herror]
        exact .inr ⟨e, s', rfl, hthrew⟩

theorem recordBytes_cons (item : ParamBindingItem) (table : List ParamBindingItem) (m : ParamMap) :
    recordBytes (item :: table) m = (stored item.2 (m.value item.1)).encode ++ recordBytes table m :=
  List.flatMap_cons

theorem serializeLoop_ok (m : ParamMap) (table : List ParamBindingItem) {s s' : WriteState}
    (h : serializeLoop m table s = .ok () s') :
    s'.written = s.written ++ recordBytes table m ∧
      s'.vc = s.vc ^^^ xorWeights (offeredFields table m) := by
  induction table generalizing s with
  | nil =>
      cases h
      simp [recordBytes, offeredFields, xorWeights]
  | cons item table ih =>
      obtain ⟨s₁, hok, hrow⟩ | ⟨e, s₁, herror, -⟩ := encodeUrlParam_cases item.2 (m.value item.1) s
      · simp only [serializeLoop, hok] at h
        obtain ⟨hwritten, hvc⟩ := ih h
        refine ⟨?_, ?_⟩
        · rw [hwritten, hrow.written, recordBytes_cons, List.append_assoc]
        · rw [hvc, hrow.vc, BitVec.xor_assoc]
          rfl
      · simp [serializeLoop, herror] at h

theorem serializeLoop_error (m : ParamMap) (table : List ParamBindingItem) {s s' : WriteState}
    {e : URLException} (h : serializeLoop m table s = .error e s') :
    s'.written.length ≤ s.written.length + (recordBytes table m).length := by
  induction table generalizing s with
  | nil => cases h
  | cons item table ih =>
      rw [recordBytes_cons, List.length_append]
      obtain ⟨s₁, hok, hrow⟩ | ⟨e₁, s₁, herror, hthrew⟩ :=
        encodeUrlParam_cases item.2 (m.value item.1) s
      · simp only [serializeLoop, hok] at h
        have htail := ih h
        rw [hrow.written, List.length_append] at htail
        omega
      · simp only [serializeLoop, herror, EStateM.Result.error.injEq] at h
        obtain ⟨-, rfl⟩ := h
        obtain ⟨front, hfront, hwritten, -⟩ := hthrew.written
        have hle := hfront.length_le
        rw [hwritten, List.length_append]
        omega

def rowSize : ParamType → Bytes → Nat
  | .int, value =>
    if 0 < paramNumber value then (Nat.digits 128 (paramNumber value).toNat).length else 1
  | .string, value =>
    let size := toInt32 value.length
    if 0 < size then (Nat.digits 128 size.toNat).length + size.toNat else 1

def recordSize (table : List ParamBindingItem) (m : ParamMap) : Nat :=
  (table.map fun item => rowSize item.2 (m.value item.1)).sum

theorem length_encode_stored (paramType : ParamType) (value : Bytes) :
    (stored paramType value).encode.length = rowSize paramType value := by
  cases paramType with
  | int =>
      by_cases hpos : 0 < paramNumber value
      · simp only [encode_stored_int hpos, Base128.length_encode, rowSize, hpos, if_true]
      · simp only [encode_stored_int_nonpos hpos, rowSize, hpos, if_false, List.length_singleton]
  | string =>
      by_cases hsize : 0 < toInt32 value.length
      · have hle := toInt32_le value.length
        have htake : (value.take (toInt32 value.length).toNat).length =
            (toInt32 value.length).toNat := by
          rw [List.length_take]
          omega
        simp only [encode_stored_string hsize, List.length_append, Base128.length_encode, htake,
          rowSize, hsize, if_true]
      · simp only [encode_stored_string_nonpos hsize, rowSize, hsize, if_false,
          List.length_singleton]

theorem length_recordBytes (table : List ParamBindingItem) (m : ParamMap) :
    (recordBytes table m).length = recordSize table m := by
  simp only [recordBytes, List.length_flatMap, recordSize, length_encode_stored]

/-- Whether a row can be written when `remain` bytes are left. -/
def Room (paramType : ParamType) (value : Bytes) (remain : Int) : Prop :=
  match paramType with
  | .int => if 0 < paramNumber value then 10 < remain else 1 ≤ remain
  | .string =>
    let size := toInt32 value.length
    if 0 < size then 10 < remain ∧ size ≤ remain - (Nat.digits 128 size.toNat).length
    else 1 ≤ remain

instance Room.decidable :
    ∀ (paramType : ParamType) (value : Bytes) (remain : Int), Decidable (Room paramType value remain)
  | .int, value, remain =>
    inferInstanceAs (Decidable (if 0 < paramNumber value then 10 < remain else 1 ≤ remain))
  | .string, value, remain =>
    inferInstanceAs (Decidable (if 0 < toInt32 value.length then
      10 < remain ∧
        toInt32 value.length ≤ remain - (Nat.digits 128 (toInt32 value.length).toNat).length
      else 1 ≤ remain))

theorem writeStringToBuf_ok_iff (value : Bytes) (s : WriteState) :
    (∃ s', writeStringToBuf value (toInt32 value.length) s = .ok () s') ↔
      Room .string value s.bufRemain := by
  by_cases hsize : 0 < toInt32 value.length
  · simp only [writeStringToBuf, Room, hsize, if_true, numberEncode_eq hsize, Base128.length_encode]
    by_cases hbuf : s.bufRemain ≤ 10
    · simp [hbuf]
    · simp only [hbuf, if_false, copyToBuf, Int.not_le.mp hbuf, true_and]
      split <;> simp <;> omega
  · simp only [writeStringToBuf, Room, hsize, if_false]
    split <;> simp_all

theorem writeIntToBuf_ok_iff (value : Bytes) (s : WriteState) :
    (∃ s', writeIntToBuf (paramNumber value) s = .ok () s') ↔ Room .int value s.bufRemain := by
  by_cases hpos : 0 < paramNumber value
  · simp only [writeIntToBuf, Room, hpos, if_true, numberEncode_eq hpos]
    split <;> simp <;> omega
  · simp only [writeIntToBuf, Room, hpos, if_false]
    split <;> simp_all

theorem encodeUrlParam_ok_iff (paramType : ParamType) (value : Bytes) (s : WriteState) :
    (∃ s', encodeUrlParam paramType value s = .ok () s') ↔ Room paramType value s.bufRemain := by
  cases paramType with
  | int =>
      rw [← writeIntToBuf_ok_iff]
      simp only [encodeUrlParam]
      cases writeIntToBuf (paramNumber value) s <;> simp
  | string =>
      rw [← writeStringToBuf_ok_iff]
      simp only [encodeUrlParam]
      cases writeStringToBuf value (toInt32 value.length) s <;> simp

theorem room_of_rowSize {paramType : ParamType} {value : Bytes} {remain : Int}
    (h : rowSize paramType value + 10 ≤ remain) : Room paramType value remain := by
  have hpos : 0 < rowSize paramType value := by
    rw [← length_encode_stored]
    exact List.length_pos_iff.mpr (FieldValue.encode_ne_nil _)
  cases paramType with
  | int =>
      simp only [Room]
      split <;> omega
  | string =>
      simp only [Room, rowSize] at h ⊢
      split <;> simp_all <;> omega

theorem charged_le (paramType : ParamType) (value : Bytes) :
    charged paramType value ≤ rowSize paramType value := by
  rw [charged, length_encode_stored]
  split <;> omega

def RoomAll (m : ParamMap) : List ParamBindingItem → Int → Prop
  | [], _ => True
  | item :: table, remain =>
    Room item.2 (m.value item.1) remain ∧
      RoomAll m table (remain - charged item.2 (m.value item.1))

instance RoomAll.decidable (m : ParamMap) :
    ∀ (table : List ParamBindingItem) (remain : Int), Decidable (RoomAll m table remain)
  | [], _ => isTrue trivial
  | item :: table, remain =>
    have := RoomAll.decidable m table (remain - charged item.2 (m.value item.1))
    inferInstanceAs (Decidable (_ ∧ _))

theorem serializeLoop_of_roomAll (m : ParamMap) (table : List ParamBindingItem) (s : WriteState)
    (h : RoomAll m table s.bufRemain) : ∃ s', serializeLoop m table s = .ok () s' := by
  induction table generalizing s with
  | nil => exact ⟨s, rfl⟩
  | cons item table ih =>
      obtain ⟨s₁, hok⟩ := (encodeUrlParam_ok_iff item.2 (m.value item.1) s).mpr h.1
      obtain ⟨s₂, hok', hrow⟩ | ⟨e, s₂, herror, -⟩ := encodeUrlParam_cases item.2 (m.value item.1) s
      · obtain ⟨s', hs'⟩ := ih s₂ (hrow.bufRemain ▸ h.2)
        exact ⟨s', by rw [serializeLoop, hok']; exact hs'⟩
      · rw [hok] at herror
        cases herror

theorem roomAll_of_recordSize (m : ParamMap) (table : List ParamBindingItem) (remain : Int)
    (h : recordSize table m + 10 ≤ remain) : RoomAll m table remain := by
  induction table generalizing remain with
  | nil => exact trivial
  | cons item table ih =>
      simp only [recordSize, List.map_cons, List.sum_cons] at h ih
      have hcharged := charged_le item.2 (m.value item.1)
      exact ⟨room_of_rowSize (by omega), ih _ (by omega)⟩

theorem urlParamSerialize_ok {table : List ParamBindingItem} {m : ParamMap} {out mh : Bytes}
    (h : urlParamSerialize table m = .ok (out, mh)) :
    out = recordBytes table m ∧ mh = hexText (checkValue (offeredFields table m)) ∧
      recordSize table m ≤ bufSize := by
  unfold urlParamSerialize at h
  cases hloop : serializeLoop m table initialWriteState with
  | ok u s =>
      obtain ⟨hwritten, hvc⟩ := serializeLoop_ok m table hloop
      simp only [initialWriteState, List.nil_append] at hwritten hvc
      simp only [hloop] at h
      split at h
      · rename_i hfits
        cases h
        exact ⟨hwritten, by rw [hvc]; rfl, by rw [← length_recordBytes, ← hwritten]; exact hfits⟩
      · contradiction
  | error e s =>
      simp only [hloop] at h
      split at h <;> contradiction

theorem urlParamSerialize_of_fits {table : List ParamBindingItem} {m : ParamMap}
    (hthrow : ∀ e, urlParamSerialize table m ≠ .error (.exception e))
    (hfits : recordSize table m ≤ bufSize) :
    urlParamSerialize table m =
      .ok (recordBytes table m, hexText (checkValue (offeredFields table m))) := by
  cases hresult : urlParamSerialize table m with
  | ok r =>
      obtain ⟨out, mh⟩ := r
      obtain ⟨rfl, rfl, -⟩ := urlParamSerialize_ok hresult
      rfl
  | error fault =>
      unfold urlParamSerialize at hresult
      cases hloop : serializeLoop m table initialWriteState with
      | ok u s =>
          have hwritten := (serializeLoop_ok m table hloop).1
          simp only [initialWriteState, List.nil_append] at hwritten
          simp only [hloop, hwritten, length_recordBytes, hfits, if_true] at hresult
          contradiction
      | error e s =>
          have hwritten := serializeLoop_error m table hloop
          simp only [initialWriteState, List.length_nil, length_recordBytes] at hwritten
          have hinside : s.written.length ≤ bufSize := by omega
          refine absurd ?_ (hthrow e)
          simp only [urlParamSerialize, hloop, hinside, if_true]

theorem urlParamSerialize_overrun {table : List ParamBindingItem} {m : ParamMap}
    (hroom : RoomAll m table bufSize) (hsize : bufSize < recordSize table m) :
    urlParamSerialize table m = .error .overrun := by
  obtain ⟨s, hs⟩ := serializeLoop_of_roomAll m table initialWriteState hroom
  have hwritten := (serializeLoop_ok m table hs).1
  simp only [initialWriteState, List.nil_append] at hwritten
  simp only [urlParamSerialize, hs, hwritten, length_recordBytes, Nat.not_le.mpr hsize, if_false]

theorem urlParamSerialize_of_room {table : List ParamBindingItem} {m : ParamMap}
    (h : recordSize table m + 10 ≤ bufSize) :
    urlParamSerialize table m =
      .ok (recordBytes table m, hexText (checkValue (offeredFields table m))) := by
  refine urlParamSerialize_of_fits ?_ (by omega)
  intro e herror
  obtain ⟨s', hs'⟩ := serializeLoop_of_roomAll m table initialWriteState
    (roomAll_of_recordSize m table _ (by simp only [initialWriteState]; omega))
  simp only [urlParamSerialize, hs'] at herror
  split at herror <;> cases herror

end AdServer.Url
