import AdServer.Url.Cipher
import AdServer.Url.RoundTrip

/-!
The accounting of `urlParamSerialize`: `bufRemain` should be what the bytes
written so far leave of the buffer. All writers keep it so except the branch of
`writeIntToBuf` for numbers that are not positive. The invariant therefore
holds along the whole loop exactly when the loop throws before it gets to write
such a number.

`cipherParam` percent-encodes the Base64 text of the record into another buffer
of the same size and checks nothing, so the text has to be short enough.
-/
namespace AdServer.Url

/-- The locals after some rows, or at the exception if one was thrown before. -/
def writeStateAfter (m : ParamMap) (rows : List ParamBindingItem) : WriteState :=
  match serializeLoop m rows initialWriteState with
  | .ok _ s => s
  | .error _ s => s

def Exact (s : WriteState) : Prop :=
  s.bufRemain = bufSize - s.written.length ∧ s.written.length ≤ bufSize

def Accounted (table : List ParamBindingItem) (m : ParamMap) : Prop :=
  ∀ rows, rows <+: table → Exact (writeStateAfter m rows)

/-- A row that `writeIntToBuf` would write without counting it. -/
def Uncounted (m : ParamMap) (item : ParamBindingItem) : Prop :=
  item.2 = .int ∧ paramNumber (m.value item.1) ≤ 0

/-- One of the rows finds no room behind the bytes of the rows before it. -/
def Refused (m : ParamMap) (rows : List ParamBindingItem) : Prop :=
  ∃ front item, front ++ [item] <+: rows ∧
    ¬ Room item.2 (m.value item.1) (bufSize - recordSize front m)

theorem serializeLoop_append (m : ParamMap) (front back : List ParamBindingItem) (s : WriteState) :
    serializeLoop m (front ++ back) s =
      match serializeLoop m front s with
      | .ok _ s' => serializeLoop m back s'
      | .error e s' => .error e s' := by
  induction front generalizing s with
  | nil => rfl
  | cons item front ih =>
      simp only [List.cons_append, serializeLoop]
      cases encodeUrlParam item.2 (m.value item.1) s with
      | ok u s' => exact ih s'
      | error e s' => rfl

theorem serializeLoop_singleton (m : ParamMap) (item : ParamBindingItem) (s : WriteState) :
    serializeLoop m [item] s = encodeUrlParam item.2 (m.value item.1) s := by
  simp only [serializeLoop]
  cases encodeUrlParam item.2 (m.value item.1) s <;> rfl

theorem exact_initial : Exact initialWriteState := ⟨rfl, Nat.zero_le _⟩

theorem Exact.nonneg {s : WriteState} (h : Exact s) : 0 ≤ s.bufRemain := by
  rw [h.1]
  have hle := h.2
  omega

theorem Exact.of_written {out : Bytes} {s s' : WriteState} (hs : Exact s)
    (hwritten : s'.written = s.written ++ out) (hremain : s'.bufRemain = s.bufRemain - out.length)
    (hnonneg : 0 ≤ s'.bufRemain) : Exact s' := by
  have hlen : s'.written.length = s.written.length + out.length := by
    rw [hwritten, List.length_append]
  have hexact := hs.1
  refine ⟨?_, ?_⟩ <;> omega

theorem Exact.of_row {m : ParamMap} {item : ParamBindingItem} {s s' : WriteState} (hs : Exact s)
    (hcounted : ¬ Uncounted m item) (hrow : RowWritten item.2 (m.value item.1) s s') :
    Exact s' := by
  have hcharged : charged item.2 (m.value item.1) =
      (stored item.2 (m.value item.1)).encode.length := if_neg hcounted
  exact hs.of_written hrow.written (hcharged ▸ hrow.bufRemain) (hrow.nonneg hs.nonneg)

theorem Exact.of_threw {out : Bytes} {s s' : WriteState} (hs : Exact s) (hthrew : Threw out s s') :
    Exact s' := by
  obtain ⟨front, -, hwritten, hremain⟩ := hthrew.written
  exact hs.of_written hwritten hremain (hthrew.nonneg hs.nonneg)

theorem not_exact_of_uncounted {m : ParamMap} {item : ParamBindingItem} {s s' : WriteState}
    (hs : Exact s) (huncounted : Uncounted m item)
    (hrow : RowWritten item.2 (m.value item.1) s s') : ¬ Exact s' := by
  intro hs'
  have hcharged : charged item.2 (m.value item.1) = 0 := if_pos huncounted
  have hpos : 0 < (stored item.2 (m.value item.1)).encode.length :=
    List.length_pos_iff.mpr (FieldValue.encode_ne_nil _)
  have hlen : s'.written.length =
      s.written.length + (stored item.2 (m.value item.1)).encode.length := by
    rw [hrow.written, List.length_append]
  have hremain := hrow.bufRemain
  have hexact := hs.1
  have hexact' := hs'.1
  omega

theorem Exact.remain {m : ParamMap} {rows : List ParamBindingItem} {s : WriteState}
    (hs : Exact s) (hloop : serializeLoop m rows initialWriteState = .ok () s) :
    s.bufRemain = bufSize - recordSize rows m := by
  have hwritten := (serializeLoop_ok m rows hloop).1
  rw [hs.1, hwritten, ← length_recordBytes]
  simp [initialWriteState]

theorem refused_concat (m : ParamMap) (rows : List ParamBindingItem) (item : ParamBindingItem) :
    Refused m (rows ++ [item]) ↔
      Refused m rows ∨ ¬ Room item.2 (m.value item.1) (bufSize - recordSize rows m) := by
  refine ⟨?_, ?_⟩
  · rintro ⟨front, item', hfront, hroom⟩
    cases List.prefix_concat_iff.mp hfront with
    | inl heq =>
        obtain ⟨rfl, hitem⟩ := List.append_inj' heq rfl
        cases hitem
        exact .inr hroom
    | inr hfront => exact .inl ⟨front, item', hfront, hroom⟩
  · rintro (⟨front, item', hfront, hroom⟩ | hroom)
    · exact ⟨front, item', hfront.trans (List.prefix_append rows [item]), hroom⟩
    · exact ⟨rows, item, List.prefix_rfl, hroom⟩

theorem serializeLoop_ok_iff (m : ParamMap) (rows : List ParamBindingItem)
    (hexact : ∀ front item, front ++ [item] <+: rows → Exact (writeStateAfter m front)) :
    (∃ s, serializeLoop m rows initialWriteState = .ok () s) ↔ ¬ Refused m rows := by
  induction rows using List.reverseRecOn with
  | nil =>
      refine ⟨?_, fun _ => ⟨initialWriteState, rfl⟩⟩
      rintro - ⟨front, item, hfront, -⟩
      simp at hfront
  | append_singleton rows item ih =>
      have hfront := hexact rows item List.prefix_rfl
      rw [refused_concat, not_or, not_not, ← ih fun front item' hfront =>
        hexact front item' (hfront.trans (List.prefix_append rows [item])), serializeLoop_append]
      cases hloop : serializeLoop m rows initialWriteState with
      | error e s => simp
      | ok u s =>
          rw [writeStateAfter, hloop] at hfront
          simp only [serializeLoop_singleton, encodeUrlParam_ok_iff, hfront.remain hloop,
            EStateM.Result.ok.injEq, true_and, exists_eq', true_and]

theorem prefix_of_concat {front rows : List ParamBindingItem} {item : ParamBindingItem}
    (h : front ++ [item] <+: rows) : front <+: rows :=
  (List.prefix_append front [item]).trans h

theorem prefix_of_concat_concat {front rows : List ParamBindingItem} {item item' : ParamBindingItem}
    (h : front ++ [item'] <+: rows ++ [item]) : front <+: rows := by
  have hlen := h.length_le
  simp only [List.length_append, List.length_singleton, Nat.add_le_add_iff_right] at hlen
  exact List.prefix_of_prefix_length_le (prefix_of_concat h) (List.prefix_append rows [item]) hlen

theorem exact_concat {m : ParamMap} {rows : List ParamBindingItem} {item : ParamBindingItem}
    (hrows : ∀ front, front <+: rows → Exact (writeStateAfter m front))
    (hrefused : Uncounted m item → Refused m (rows ++ [item])) :
    Exact (writeStateAfter m (rows ++ [item])) := by
  have hlast := hrows rows List.prefix_rfl
  have hiff := serializeLoop_ok_iff m (rows ++ [item]) fun front item' h =>
    hrows front (prefix_of_concat_concat h)
  rw [serializeLoop_append] at hiff
  rw [writeStateAfter, serializeLoop_append]
  rw [writeStateAfter] at hlast
  cases hloop : serializeLoop m rows initialWriteState with
  | error e s => simpa only [hloop] using hlast
  | ok u s =>
      simp only [hloop, serializeLoop_singleton] at hlast hiff ⊢
      obtain ⟨s', hok, hrow⟩ | ⟨e, s', herror, hthrew⟩ :=
        encodeUrlParam_cases item.2 (m.value item.1) s
      · have hcounted : ¬ Uncounted m item := fun h => hiff.mp ⟨s', hok⟩ (hrefused h)
        simpa only [hok] using hlast.of_row hcounted hrow
      · simpa only [herror] using hlast.of_threw hthrew

theorem not_exact_concat {m : ParamMap} {rows : List ParamBindingItem} {item : ParamBindingItem}
    (hrows : ∀ front, front <+: rows → Exact (writeStateAfter m front))
    (huncounted : Uncounted m item) (hrefused : ¬ Refused m (rows ++ [item])) :
    ¬ Exact (writeStateAfter m (rows ++ [item])) := by
  have hlast := hrows rows List.prefix_rfl
  obtain ⟨s', hs'⟩ := (serializeLoop_ok_iff m (rows ++ [item]) fun front item' h =>
    hrows front (prefix_of_concat_concat h)).mpr hrefused
  rw [writeStateAfter, hs']
  rw [serializeLoop_append] at hs'
  rw [writeStateAfter] at hlast
  cases hloop : serializeLoop m rows initialWriteState with
  | error e s =>
      rw [hloop] at hs'
      cases hs'
  | ok u s =>
      simp only [hloop, serializeLoop_singleton] at hlast hs'
      obtain ⟨s₁, hok, hrow⟩ | ⟨e, s₁, herror, -⟩ := encodeUrlParam_cases item.2 (m.value item.1) s
      · rw [hok] at hs'
        cases hs'
        exact not_exact_of_uncounted hlast huncounted hrow
      · rw [herror] at hs'
        cases hs'

/-- The accounting of the serialiser is exact throughout if and only if each row
that would not be counted is kept from being written by a refused row. -/
theorem accounted_iff (table : List ParamBindingItem) (m : ParamMap) :
    Accounted table m ↔
      ∀ rows item, rows ++ [item] <+: table → Uncounted m item → Refused m (rows ++ [item]) := by
  refine ⟨?_, ?_⟩
  · intro haccounted rows item hfront huncounted
    by_contra hrefused
    apply not_exact_concat (fun front h => ?_) huncounted hrefused (haccounted _ hfront)
    exact haccounted front (h.trans (prefix_of_concat hfront))
  · intro hrefused
    -- Every row needs the accounting at all points before it, so these are carried along.
    suffices hall : ∀ rows, rows <+: table → ∀ front, front <+: rows →
        Exact (writeStateAfter m front) from fun rows hrows => hall rows hrows rows List.prefix_rfl
    intro rows
    induction rows using List.reverseRecOn with
    | nil =>
        intro _ front hfront
        rw [List.prefix_nil.mp hfront]
        exact exact_initial
    | append_singleton rows item ih =>
        intro hrows front hfront
        have hbefore := ih (prefix_of_concat hrows)
        cases List.prefix_concat_iff.mp hfront with
        | inl heq => exact heq ▸ exact_concat hbefore (hrefused rows item hrows)
        | inr hfront => exact hbefore front hfront

/-- The empty map already breaks the accounting in the fifth row, and a referer
of 2027 bytes makes the loop write 17 bytes behind the buffer without throwing. -/
theorem not_accounted_empty :
    ¬ Accounted (paramBindingTable sampleKeys) ∅ ∧
      ∃ s, serializeLoop (refererOfLength sampleKeys 2027) (paramBindingTable sampleKeys)
        initialWriteState = .ok () s ∧ s.written.length = bufSize + 17 := by
  refine ⟨?_, ?_⟩
  · intro haccounted
    have hfifth := haccounted ((paramBindingTable sampleKeys).take 5) (List.take_prefix _ _)
    rw [Exact] at hfifth
    revert hfifth
    decide
  · obtain ⟨s, hs⟩ := serializeLoop_of_roomAll _ _ initialWriteState refererOverrun_room
    refine ⟨s, hs, ?_⟩
    rw [(serializeLoop_ok _ _ hs).1, initialWriteState, List.nil_append, length_recordBytes,
      refererOverrun_recordSize]
    rfl

def PresetSafe (lib : Base64Lib) (stray : Stray) (table : List ParamBindingItem)
    (m : ParamMap) : Prop :=
  ∃ out mh, urlParamSerialize table m = .ok (out, mh) ∧
    ∀ write ∈ urlEncodeWrites stray 0 (lib.encode out), write.1 < presetBufSize

theorem presetSafe_of_serialize {lib : Base64Lib} {stray : Stray} {table : List ParamBindingItem}
    {m : ParamMap} {out mh : Bytes} (h : urlParamSerialize table m = .ok (out, mh)) :
    PresetSafe lib stray table m ↔
      escapedSize stray (lib.encode (recordBytes table m)) < presetBufSize := by
  obtain ⟨rfl, -, -⟩ := urlParamSerialize_ok h
  rw [← urlEncodeWrites_lt_iff]
  refine ⟨?_, fun hwrites => ⟨_, _, h, hwrites⟩⟩
  rintro ⟨out, mh, hserialize, hwrites⟩
  rw [h] at hserialize
  cases hserialize
  exact hwrites

theorem le_escapedSize (stray : Stray) (text : Bytes) : text.length ≤ escapedSize stray text :=
  Nat.le_add_right _ _

/-- The buffer of `cipherParam` is large enough if and only if the Base64 text,
with two more characters for each one that is escaped, is shorter than it. -/
theorem presetSafe_iff (lib : Base64Lib)
    (expands : ∀ input, 4 * ((input.length + 2) / 3) ≤ (lib.encode input).length)
    (stray : Stray) (table : List ParamBindingItem) (m : ParamMap)
    (hthrow : ∀ e, urlParamSerialize table m ≠ .error (.exception e)) :
    PresetSafe lib stray table m ↔
      escapedSize stray (lib.encode (recordBytes table m)) < presetBufSize := by
  refine ⟨?_, ?_⟩
  · intro hsafe
    have hproduced := hsafe
    obtain ⟨out, mh, hserialize, -⟩ := hproduced
    exact (presetSafe_of_serialize hserialize).mp hsafe
  · intro hshort
    have hfits : recordSize table m ≤ bufSize := by
      have hexpands := expands (recordBytes table m)
      have hle := le_escapedSize stray (lib.encode (recordBytes table m))
      rw [length_recordBytes] at hexpands
      simp only [presetBufSize, bufSize] at hshort ⊢
      omega
    exact (presetSafe_of_serialize (urlParamSerialize_of_fits hthrow hfits)).mpr hshort

theorem presetSafe_sample :
    PresetSafe cryptoBase64 blankStray (paramBindingTable sampleKeys) sampleMap := by
  apply (presetSafe_iff cryptoBase64 Base64.length_encode_ge blankStray
    (paramBindingTable sampleKeys) sampleMap sampleMap_serializes).mpr
  decide

/-- A referer of 1600 bytes is accepted by the serialiser, and its Base64 text
alone is longer than `presetBuf`. -/
theorem not_presetSafe_referer :
    (∃ r, urlParamSerialize (paramBindingTable sampleKeys) (refererOfLength sampleKeys 1600) =
      .ok r) ∧
    ∀ stray, ¬ PresetSafe cryptoBase64 stray (paramBindingTable sampleKeys)
      (refererOfLength sampleKeys 1600) := by
  have hsize : recordSize (paramBindingTable sampleKeys) (refererOfLength sampleKeys 1600) = 1638 := by
    decide +kernel
  have hserialize := urlParamSerialize_of_room (show recordSize (paramBindingTable sampleKeys)
    (refererOfLength sampleKeys 1600) + 10 ≤ bufSize by rw [hsize]; decide)
  refine ⟨⟨_, hserialize⟩, ?_⟩
  intro stray
  rw [presetSafe_of_serialize hserialize]
  have hexpands := Base64.length_encode_ge
    (recordBytes (paramBindingTable sampleKeys) (refererOfLength sampleKeys 1600))
  have hle := le_escapedSize stray (cryptoBase64.encode
    (recordBytes (paramBindingTable sampleKeys) (refererOfLength sampleKeys 1600)))
  rw [length_recordBytes, hsize] at hexpands
  simp only [cryptoBase64, presetBufSize] at hle ⊢
  omega

end AdServer.Url
