import AdServer.Url.SerializeRecord

/-!
Reading back what was serialised. The map that is read holds the stored texts;
it is the original one exactly when every stored text is the original text. For
canonical positive integers it always is. For a string it is as long as the
length fits an `int`: from `2 ^ 31` bytes on, `writeStringToBuf` sees another
size and keeps at most a front of the string.
-/
namespace AdServer.Url

def boundEntry (table : List ParamBindingItem) (m : ParamMap) (key : Bytes) : Option Bytes :=
  if key ∈ table.map Prod.fst then (m.lookup key).filter (· ≠ []) else none

/-- The map holds the entries of `m` under the keys of the table that are not
empty, and nothing else. -/
def HoldsEntries (table : List ParamBindingItem) (m p : ParamMap) : Prop :=
  ∀ key, p.lookup key = boundEntry table m key

/-- Serialising, then reading into an empty map, gives the table's entries back. -/
def RoundTrips (table : List ParamBindingItem) (m : ParamMap) : Prop :=
  ∃ out mh, urlParamSerialize table m = .ok (out, mh) ∧
    ∃ vc p, urlParamDeserialize table out ∅ = .ok vc p ∧ HoldsEntries table m p

def CanonicalInts (table : List ParamBindingItem) (m : ParamMap) : Prop :=
  ∀ item ∈ table, item.2 = .int →
    m.lookup item.1 = none ∨ ∃ n, 0 < n ∧ n < 2 ^ 63 ∧ m.lookup item.1 = some (decimal n)

def ShortStrings (table : List ParamBindingItem) (m : ParamMap) : Prop :=
  ∀ item ∈ table, item.2 = .string → (m.value item.1).length < 2 ^ 31

theorem lookup_insertField (m : ParamMap) (field : Bytes × FieldValue) (key : Bytes) :
    (insertField m field).lookup key =
      (m.lookup key).or
        (if field.1 = key ∧ field.2.text ≠ [] then some field.2.text else none) := by
  unfold insertField
  by_cases htext : field.2.text = []
  · simp [htext]
  · rw [if_neg htext, ParamMap.lookup_insertNew]
    by_cases hkey : key = field.1
    · subst hkey
      cases Finmap.lookup field.1 m <;> simp [htext]
    · simp [hkey, Ne.symm hkey]

theorem lookup_foldl_insertField (fs : List (Bytes × FieldValue)) (m : ParamMap) (key : Bytes) :
    (fs.foldl insertField m).lookup key =
      (m.lookup key).or (fs.findSome? fun field =>
        if field.1 = key ∧ field.2.text ≠ [] then some field.2.text else none) := by
  induction fs generalizing m with
  | nil => simp
  | cons field fs ih =>
      rw [List.foldl_cons, ih, lookup_insertField, List.findSome?_cons, Option.or_assoc]
      congr 1
      split <;> simp_all

theorem findSome?_field {fs : List (Bytes × FieldValue)} (hnodup : (fs.map Prod.fst).Nodup)
    {field : Bytes × FieldValue} (hfield : field ∈ fs) :
    (fs.findSome? fun f => if f.1 = field.1 ∧ f.2.text ≠ [] then some f.2.text else none) =
      if field.2.text ≠ [] then some field.2.text else none := by
  induction fs with
  | nil => cases hfield
  | cons head fs ih =>
      rw [List.map_cons, List.nodup_cons] at hnodup
      rw [List.findSome?_cons]
      cases List.mem_cons.mp hfield with
      | inl heq =>
          subst heq
          have hrest : (fs.findSome? fun f =>
              if f.1 = field.1 ∧ f.2.text ≠ [] then some f.2.text else none) = none := by
            rw [List.findSome?_eq_none_iff]
            intro f hf
            have hne : f.1 ≠ field.1 := fun h => hnodup.1 (h ▸ List.mem_map_of_mem hf)
            simp [hne]
          by_cases htext : field.2.text = [] <;> simp [htext, hrest]
      | inr hmem =>
          have hne : head.1 ≠ field.1 := fun h => hnodup.1 (h ▸ List.mem_map_of_mem hmem)
          simpa [hne] using ih hnodup.2 hmem

theorem findSome?_field_none {fs : List (Bytes × FieldValue)} {key : Bytes}
    (hkey : key ∉ fs.map Prod.fst) :
    (fs.findSome? fun f => if f.1 = key ∧ f.2.text ≠ [] then some f.2.text else none) = none := by
  rw [List.findSome?_eq_none_iff]
  intro f hf
  have hne : f.1 ≠ key := fun h => hkey (h ▸ List.mem_map_of_mem hf)
  simp [hne]

def storedRecord (table : List ParamBindingItem) (m : ParamMap) : List (Bytes × FieldValue) :=
  table.map fun item => (item.1, stored item.2 (m.value item.1))

theorem storedRecord_keys (table : List ParamBindingItem) (m : ParamMap) :
    (storedRecord table m).map Prod.fst = table.map Prod.fst := by
  simp [storedRecord]

theorem storedRecord_values (table : List ParamBindingItem) (m : ParamMap) :
    (storedRecord table m).map Prod.snd = storedFields table m := by
  simp [storedRecord, storedFields]

theorem lookup_storedRecord {table : List ParamBindingItem} (m : ParamMap)
    (hnodup : (table.map Prod.fst).Nodup) {item : ParamBindingItem} (hitem : item ∈ table) :
    ((storedRecord table m).foldl insertField ∅).lookup item.1 =
      if (stored item.2 (m.value item.1)).text ≠ [] then
        some (stored item.2 (m.value item.1)).text else none := by
  have hfield : (item.1, stored item.2 (m.value item.1)) ∈ storedRecord table m :=
    List.mem_map_of_mem hitem
  rw [lookup_foldl_insertField, Finmap.lookup_empty, Option.none_or,
    findSome?_field ((storedRecord_keys table m).symm ▸ hnodup) hfield]

theorem lookup_storedRecord_none {table : List ParamBindingItem} (m : ParamMap) {key : Bytes}
    (hkey : key ∉ table.map Prod.fst) :
    ((storedRecord table m).foldl insertField ∅).lookup key = none := by
  rw [lookup_foldl_insertField, Finmap.lookup_empty, Option.none_or,
    findSome?_field_none ((storedRecord_keys table m).symm ▸ hkey)]

theorem boundEntry_of_mem {table : List ParamBindingItem} (m : ParamMap) {key : Bytes}
    (hkey : key ∈ table.map Prod.fst) :
    boundEntry table m key = if m.value key ≠ [] then some (m.value key) else none := by
  rw [boundEntry, if_pos hkey, ParamMap.value]
  cases m.lookup key with
  | none => rfl
  | some v => by_cases hv : v = [] <;> simp [hv]

theorem boundEntry_of_notMem {table : List ParamBindingItem} (m : ParamMap) {key : Bytes}
    (hkey : key ∉ table.map Prod.fst) : boundEntry table m key = none :=
  if_neg hkey

/-- The map read from a record holds the entries of `m` exactly when every row
stored the text it was given. -/
theorem holdsEntries_iff (table : List ParamBindingItem) (m : ParamMap)
    (hnodup : (table.map Prod.fst).Nodup) :
    HoldsEntries table m ((storedRecord table m).foldl insertField ∅) ↔
      ∀ item ∈ table, (stored item.2 (m.value item.1)).text = m.value item.1 := by
  refine ⟨?_, ?_⟩
  · intro hholds item hitem
    have hkey := hholds item.1
    rw [lookup_storedRecord m hnodup hitem, boundEntry_of_mem m (List.mem_map_of_mem hitem)] at hkey
    by_cases hvalue : m.value item.1 = []
    · by_contra hne
      simp [hvalue] at hkey hne
      exact hne hkey
    · by_cases htext : (stored item.2 (m.value item.1)).text = []
      · simp [hvalue, htext] at hkey
      · simpa [hvalue, htext] using hkey
  · intro htext key
    by_cases hkey : key ∈ table.map Prod.fst
    · obtain ⟨item, hitem, rfl⟩ := List.mem_map.mp hkey
      rw [lookup_storedRecord m hnodup hitem, boundEntry_of_mem m hkey, htext item hitem]
    · rw [lookup_storedRecord_none m hkey, boundEntry_of_notMem m hkey]

theorem stored_string_text_iff (value : Bytes) :
    (stored .string value).text = value ↔ value.length < 2 ^ 31 := by
  have hlt := toInt32_lt value.length
  simp only [stored, FieldValue.text, List.take_eq_self_iff]
  refine ⟨fun h => by omega, fun h => ?_⟩
  rw [toInt32_of_lt h]
  omega

theorem stored_int_text_absent : (stored .int []).text = [] := by
  simp [stored, FieldValue.text, paramNumber]

theorem stored_int_text_decimal {n : Nat} (hpos : 0 < n) (hn : n < 2 ^ 63) :
    (stored .int (decimal n)).text = decimal n := by
  have hnumber : paramNumber (decimal n) = n := by
    simp [paramNumber, decimal_ne_nil, stringToInt_decimal hn]
  have hmax : max (n : Int) 0 = n := by omega
  have hne : (n : Int) ≠ 0 := by omega
  simp only [stored, FieldValue.text, hnumber, hmax, hne, if_false, intToString_natCast]

theorem stored_text_iff (table : List ParamBindingItem) (m : ParamMap)
    (hint : CanonicalInts table m) :
    (∀ item ∈ table, (stored item.2 (m.value item.1)).text = m.value item.1) ↔
      ShortStrings table m := by
  refine ⟨fun h item hitem htype => ?_, fun h item hitem => ?_⟩
  · have htext := h item hitem
    rw [htype] at htext
    exact (stored_string_text_iff _).mp htext
  · cases htype : item.2 with
    | string => exact (stored_string_text_iff _).mpr (h item hitem htype)
    | int =>
        obtain hnone | ⟨n, hpos, hn, hsome⟩ := hint item hitem htype
        · simp [ParamMap.value, hnone, stored_int_text_absent]
        · simp [ParamMap.value, hsome, stored_int_text_decimal hpos hn]

theorem decodeRecord_recordBytes {table : List ParamBindingItem} {m : ParamMap}
    (hfits : recordSize table m ≤ bufSize) :
    decodeRecord table (recordBytes table m) = .ok (storedRecord table m) := by
  apply decodeRecord_encode
  · exact fun item _ => stored_type item.2 _
  · exact fun item _ => stored_storable item.2 _
  · have hlen := length_recordBytes table m
    simp only [recordBytes] at hlen
    rw [hlen]
    simp only [bufSize] at hfits
    omega

theorem deserialize_recordBytes {table : List ParamBindingItem} {m : ParamMap}
    (hfits : recordSize table m ≤ bufSize) (p : ParamMap) :
    urlParamDeserialize table (recordBytes table m) p =
      .ok (checkValue (storedFields table m)) ((storedRecord table m).foldl insertField p) := by
  rw [urlParamDeserialize_ok (decodeRecord_recordBytes hfits), storedRecord_values]

theorem roundTrips_iff (table : List ParamBindingItem) (m : ParamMap)
    (hnodup : (table.map Prod.fst).Nodup) (hint : CanonicalInts table m)
    (hthrow : ∀ e, urlParamSerialize table m ≠ .error (.exception e)) :
    RoundTrips table m ↔ ShortStrings table m ∧ recordSize table m ≤ bufSize := by
  rw [← stored_text_iff table m hint, ← holdsEntries_iff table m hnodup]
  refine ⟨?_, ?_⟩
  · rintro ⟨out, mh, hserialize, vc, p, hdeserialize, hholds⟩
    obtain ⟨rfl, -, hfits⟩ := urlParamSerialize_ok hserialize
    rw [deserialize_recordBytes hfits] at hdeserialize
    cases hdeserialize
    exact ⟨hholds, hfits⟩
  · rintro ⟨hholds, hfits⟩
    exact ⟨_, _, urlParamSerialize_of_fits hthrow hfits, _, _, deserialize_recordBytes hfits ∅, hholds⟩

/-- A map without exception comes back as it was if and only if no string has
`2 ^ 31` bytes or more and the record fits the buffer. The latter does not follow
from the missing exception, since zeros are not counted by `writeIntToBuf`. -/
theorem urlParam_roundTrips_iff (keys : UrlConst → Bytes) (distinct : Function.Injective keys)
    (m : ParamMap) (hint : CanonicalInts (paramBindingTable keys) m)
    (hthrow : ∀ e, urlParamSerialize (paramBindingTable keys) m ≠ .error (.exception e)) :
    RoundTrips (paramBindingTable keys) m ↔
      ShortStrings (paramBindingTable keys) m ∧
        recordSize (paramBindingTable keys) m ≤ bufSize :=
  roundTrips_iff _ m (paramBindingTable_nodup keys distinct) hint hthrow

def sampleMap : ParamMap :=
  Finmap.insert (sampleKeys .adownerId) (decimal 300)
    (Finmap.singleton (sampleKeys .referer) (bytes "http"))

theorem sampleMap_canonicalInts : CanonicalInts (paramBindingTable sampleKeys) sampleMap := by
  have hrows : ∀ item ∈ paramBindingTable sampleKeys, item.2 = .int →
      sampleMap.lookup item.1 = none ∨ sampleMap.lookup item.1 = some (decimal 300) := by
    decide
  intro item hitem htype
  cases hrows item hitem htype with
  | inl hnone => exact .inl hnone
  | inr hsome => exact .inr ⟨300, by decide, by decide, hsome⟩

theorem sampleMap_recordSize : recordSize (paramBindingTable sampleKeys) sampleMap = 42 := by
  decide

theorem sampleMap_serializes (e : URLException) :
    urlParamSerialize (paramBindingTable sampleKeys) sampleMap ≠ .error (.exception e) := by
  rw [urlParamSerialize_of_room (by rw [sampleMap_recordSize]; decide)]
  nofun

theorem sampleMap_shortStrings : ShortStrings (paramBindingTable sampleKeys) sampleMap := by
  rw [ShortStrings]
  decide

theorem urlParam_roundTrips_sample : RoundTrips (paramBindingTable sampleKeys) sampleMap := by
  apply (urlParam_roundTrips_iff sampleKeys sampleKeys_injective sampleMap
    sampleMap_canonicalInts sampleMap_serializes).mpr
  exact ⟨sampleMap_shortStrings, by rw [sampleMap_recordSize]; decide⟩

def refererOfLength (keys : UrlConst → Bytes) (n : Nat) : ParamMap :=
  Finmap.singleton (keys .referer) (List.replicate n 0)

variable {keys : UrlConst → Bytes}

theorem refererOfLength_rows (distinct : Function.Injective keys) (n : Nat)
    {item : ParamBindingItem} (hitem : item ∈ paramBindingTable keys) :
    item = (keys .referer, .string) ∧
        (refererOfLength keys n).lookup item.1 = some (List.replicate n 0) ∨
      (refererOfLength keys n).lookup item.1 = none := by
  have hrows : ∀ row ∈ paramBindingRows, row.1 = .referer → row.2 = .string := by decide
  obtain ⟨row, hrow, rfl⟩ := List.mem_map.mp hitem
  by_cases hreferer : row.1 = .referer
  · left
    rw [hreferer, hrows row hrow hreferer]
    exact ⟨rfl, Finmap.lookup_singleton_eq⟩
  · right
    apply Finmap.lookup_eq_none.mpr
    rw [refererOfLength, Finmap.mem_singleton]
    exact fun h => hreferer (distinct h)

theorem refererOfLength_canonicalInts (distinct : Function.Injective keys) (n : Nat) :
    CanonicalInts (paramBindingTable keys) (refererOfLength keys n) := by
  intro item hitem htype
  cases refererOfLength_rows distinct n hitem with
  | inl h => simp [h.1] at htype
  | inr hnone => exact .inl hnone

theorem recordBytes_longReferer (distinct : Function.Injective keys) :
    recordBytes (paramBindingTable keys) (refererOfLength keys (2 ^ 31)) =
      recordBytes (paramBindingTable keys) ∅ := by
  have hsize : ¬ 0 < toInt32 (2 ^ 31) := by decide
  apply List.flatMap_congr
  intro item hitem
  cases refererOfLength_rows distinct (2 ^ 31) hitem with
  | inl h =>
      rw [ParamMap.value, h.2, h.1, Option.getD_some,
        encode_stored_string_nonpos (by rwa [List.length_replicate])]
      rfl
  | inr hnone => rw [ParamMap.value, hnone]; rfl

theorem recordSize_longReferer (distinct : Function.Injective keys) :
    recordSize (paramBindingTable keys) (refererOfLength keys (2 ^ 31)) =
      recordSize (paramBindingTable keys) ∅ := by
  rw [← length_recordBytes, recordBytes_longReferer distinct, length_recordBytes]

theorem not_shortStrings_longReferer :
    ¬ ShortStrings (paramBindingTable keys) (refererOfLength keys (2 ^ 31)) := by
  intro h
  have hlen := h (keys .referer, .string) (by simp [paramBindingTable, paramBindingRows]) rfl
  simp only [ParamMap.value, refererOfLength, Finmap.lookup_singleton_eq, Option.getD_some,
    List.length_replicate] at hlen
  omega

theorem recordSize_empty : recordSize (paramBindingTable sampleKeys) ∅ = 37 := by
  decide

theorem refererOverrun_room :
    RoomAll (refererOfLength sampleKeys 2027) (paramBindingTable sampleKeys) bufSize := by
  decide +kernel

theorem refererOverrun_recordSize :
    recordSize (paramBindingTable sampleKeys) (refererOfLength sampleKeys 2027) = 2065 := by
  decide +kernel

/-- A referer of `2 ^ 31` bytes is serialised without an exception and is lost;
with one of 2027 bytes the serialiser writes behind its buffer. -/
theorem urlParam_not_roundTrips :
    (CanonicalInts (paramBindingTable sampleKeys) (refererOfLength sampleKeys (2 ^ 31)) ∧
      (∃ r, urlParamSerialize (paramBindingTable sampleKeys) (refererOfLength sampleKeys (2 ^ 31)) =
        .ok r) ∧
      ¬ RoundTrips (paramBindingTable sampleKeys) (refererOfLength sampleKeys (2 ^ 31))) ∧
    (CanonicalInts (paramBindingTable sampleKeys) (refererOfLength sampleKeys 2027) ∧
      urlParamSerialize (paramBindingTable sampleKeys) (refererOfLength sampleKeys 2027) =
        .error .overrun ∧
      ¬ RoundTrips (paramBindingTable sampleKeys) (refererOfLength sampleKeys 2027)) := by
  have hcanonical := refererOfLength_canonicalInts sampleKeys_injective
  have hnodup := paramBindingTable_nodup sampleKeys sampleKeys_injective
  obtain ⟨r, hlong⟩ : ∃ r, urlParamSerialize (paramBindingTable sampleKeys)
      (refererOfLength sampleKeys (2 ^ 31)) = .ok r := by
    refine ⟨_, urlParamSerialize_of_room ?_⟩
    rw [recordSize_longReferer sampleKeys_injective, recordSize_empty]
    decide
  have hoverrun := urlParamSerialize_overrun refererOverrun_room
    (by rw [refererOverrun_recordSize]; decide)
  refine ⟨⟨hcanonical _, ⟨r, hlong⟩, ?_⟩, hcanonical _, hoverrun, ?_⟩
  · rw [roundTrips_iff _ _ hnodup (hcanonical _) (fun e => by rw [hlong]; nofun)]
    exact fun h => not_shortStrings_longReferer h.1
  · rintro ⟨out, mh, hok, -⟩
    rw [hoverrun] at hok
    cases hok

end AdServer.Url
