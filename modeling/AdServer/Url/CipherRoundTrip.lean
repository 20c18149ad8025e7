import AdServer.Url.CipherText

/-!
The ciphered text read back by `processParamDataWithRetry`, as it was produced or
percent-encoded once more. Both ways lead to the plain text, so the first attempt
decides, and the entries are the original ones exactly when the serialiser kept
all strings.
-/
namespace AdServer.Url

/-- The entries that should come back: the check value under `_mh_`, the entries
of `m` under the keys of the table that are not empty, and the macros. -/
def CarriesBack (table : List ParamBindingItem) (m macros : ParamMap) (p : ParamMap) : Prop :=
  ∀ key, p.lookup key =
    if key = macroHolder then some (hexText (checkValue (offeredFields table m)))
    else (boundEntry table m key).or (macros.lookup key)

theorem lostXor_of_nonneg {table : List ParamBindingItem} {m : ParamMap}
    (hint : ∀ item ∈ table, item.2 = .int → 0 ≤ paramNumber (m.value item.1))
    (hshort : ShortStrings table m) : lostXor table m = 0#64 := by
  have hrow : ∀ item ∈ table, lostWeight item.2 (m.value item.1) = 0#64 := by
    intro item hitem
    cases htype : item.2 with
    | string =>
        have hlen := toInt32_of_lt (hshort item hitem htype)
        simp only [lostWeight, hlen, Int.toNat_natCast, BitVec.xor_self]
    | int =>
        have hnumber := hint item hitem htype
        rw [lostWeight, if_neg (by omega)]
  rw [lostXor, List.map_congr_left hrow]
  induction table with
  | nil => rfl
  | cons item table ih =>
      rw [List.map_cons, List.foldr_cons, BitVec.zero_xor]
      exact ih (fun x hx => hint x (List.mem_cons_of_mem item hx))
        (fun x hx => hshort x (List.mem_cons_of_mem item hx))
        (fun x hx => hrow x (List.mem_cons_of_mem item hx))

theorem lostXor_of_shortStrings {table : List ParamBindingItem} {m : ParamMap}
    (hint : CanonicalInts table m) (hshort : ShortStrings table m) : lostXor table m = 0#64 := by
  refine lostXor_of_nonneg ?_ hshort
  intro item hitem htype
  rcases hint item hitem htype with hnone | ⟨n, -, hn, hsome⟩
  · simp [ParamMap.value, hnone, paramNumber]
  · simp [ParamMap.value, hsome, paramNumber, decimal_ne_nil, stringToInt_decimal hn]

section
variable {table : List ParamBindingItem} {m c : ParamMap} {order : List (Bytes × Bytes)}
  (hnodup : (table.map Prod.fst).Nodup) (hkeys : macroHolder ∉ table.map Prod.fst)
  (hint : CanonicalInts table m) (hnames : ∀ name ∈ c, m.value name = [])
  (horder : ParamMap.Traversal
    (Finmap.insert macroHolder (hexText (checkValue (offeredFields table m))) c) order)

include hnodup hkeys hint horder in
theorem readBack_carriesBack (hshort : ShortStrings table m) :
    CarriesBack table m c (readBack table m order) := by
  intro key
  rw [readBack, if_pos (lostXor_of_shortStrings hint hshort), lookup_insertEntries horder]
  by_cases hholder : key = macroHolder
  · subst hholder
    rw [lookup_storedRecord_none m hkeys, if_pos rfl, Option.none_or, Finmap.lookup_insert]
  · rw [if_neg hholder, Finmap.lookup_insert_of_ne c hholder]
    by_cases hkey : key ∈ table.map Prod.fst
    · obtain ⟨item, hitem, rfl⟩ := List.mem_map.mp hkey
      rw [lookup_storedRecord m hnodup hitem, boundEntry_of_mem m hkey,
        (stored_text_iff table m hint).mpr hshort item hitem]
    · rw [lookup_storedRecord_none m hkey, boundEntry_of_notMem m hkey]

include hnodup hkeys hnames horder in
theorem shortStrings_of_carriesBack (hback : CarriesBack table m c (readBack table m order)) :
    ShortStrings table m := by
  intro item hitem htype
  by_contra hlong
  have hkey : item.1 ∈ table.map Prod.fst := List.mem_map_of_mem hitem
  have hne : item.1 ≠ macroHolder := fun h => hkeys (h ▸ hkey)
  have hvalue : m.value item.1 ≠ [] := by
    intro hempty
    simp [hempty] at hlong
  have hentry : c.lookup item.1 = none :=
    Finmap.lookup_eq_none.mpr fun hmem => hvalue (hnames _ hmem)
  have htext : (stored item.2 (m.value item.1)).text ≠ m.value item.1 := by
    rw [htype]
    exact fun h => hlong ((stored_string_text_iff _).mp h)
  have hlookup := hback item.1
  rw [if_neg hne, boundEntry_of_mem m hkey, if_pos hvalue, Option.some_or, readBack] at hlookup
  split at hlookup
  · rw [lookup_insertEntries horder, Finmap.lookup_insert_of_ne c hne, hentry, Option.or_none,
      lookup_storedRecord m hnodup hitem] at hlookup
    split at hlookup
    · exact htext (Option.some.inj hlookup)
    · cases hlookup
  · rw [Finmap.lookup_empty] at hlookup
    cases hlookup

end

theorem macroHolder_notMem (keys : UrlConst → Bytes) (hkeys : ∀ k, keys k ≠ macroHolder) :
    macroHolder ∉ (paramBindingTable keys).map Prod.fst := by
  intro hmem
  obtain ⟨item, hitem, hholder⟩ := List.mem_map.mp hmem
  obtain ⟨k, hk⟩ := mem_paramBindingTable_key keys hitem
  exact hkeys k (hk ▸ hholder)

theorem processParamDataWithRetry_first {lib : Base64Lib} {strays : Nat → Stray}
    {table : List ParamBindingItem} {data : Bytes} {m p : ParamMap} (hlen : data.length < 2048)
    (h : processParamData lib (strays 0) (strays 1) table data true m = (true, p)) :
    processParamDataWithRetry lib strays table data true m = p := by
  rw [processParamDataWithRetry, if_neg (by omega), h]
  rfl

section
variable {lib : Base64Lib} {stray : Stray} {table : List ParamBindingItem} {m macros : ParamMap}
  {order : List (Bytes × Bytes)} (lawful : lib.Lawful) (hmacros : AllChars MacroChar macros)
  (horder : macros.Traversal order)

include hmacros horder in
theorem percent_notMem_macros : ∀ entry ∈ order, byte '%' ∉ entry.1 ∧ byte '%' ∉ entry.2 := by
  intro entry hentry
  have hchars := hmacros.of_mem horder hentry
  exact ⟨fun h => (hchars.1 _ h).2.1 rfl, fun h => (hchars.2 _ h).2.1 rfl⟩

include lawful hmacros horder in
theorem urlDecode_f_cipherText_tail (stray' : Stray) (input : Bytes) {tail : Bytes}
    (htail : byte '%' ∉ tail) :
    urlDecode_f stray' (cipherText stray (lib.encode input) order ++ tail) =
      plainText (lib.encode input) order ++ tail := by
  refine urlDecode_f_cipherText _ _ ?_ ?_ htail
  · exact fun c hc => (base64Char_of (lawful.alphabet input c hc)).1.1
  · exact percent_notMem_macros hmacros horder

include lawful hmacros horder in
theorem urlDecode_f_cipherText_lawful (stray' : Stray) (input : Bytes) :
    urlDecode_f stray' (cipherText stray (lib.encode input) order) =
      plainText (lib.encode input) order := by
  have htail : urlDecode_f stray' (cipherText stray (lib.encode input) order ++ []) = _ :=
    urlDecode_f_cipherText_tail lawful hmacros horder stray' input List.not_mem_nil
  simpa only [List.append_nil] using htail

include lawful hmacros horder in
theorem percent_notMem_plainText_lawful (input : Bytes) :
    byte '%' ∉ plainText (lib.encode input) order := by
  apply percent_notMem_plainText
  · exact fun h => (base64Char_of (lawful.alphabet input _ h)).1.2.1 rfl
  · exact percent_notMem_macros hmacros horder

include lawful hmacros horder in
theorem safeText_cipherText (stray₁ stray₂ stray' : Stray) (input : Bytes) {data : Bytes}
    (hdata : data = cipherText stray (lib.encode input) order ∨
      data = urlEncode_f stray' (cipherText stray (lib.encode input) order)) :
    safeText stray₁ stray₂ data = plainText (lib.encode input) order := by
  cases hdata with
  | inl hsame =>
      rw [hsame]
      exact safeText_once (urlDecode_f_cipherText_lawful lawful hmacros horder stray₁ input)
        (percent_notMem_plainText_lawful lawful hmacros horder input)
  | inr hencoded =>
      rw [hencoded]
      refine safeText_twice (urlDecode_f_urlEncode_f stray' stray₁ _ ?_)
        (urlDecode_f_cipherText_lawful lawful hmacros horder stray₂ input)
      refine cipherText_chars (P := fun c => c < 128) (forall_mem_of_all (by decide))
        (forall_mem_of_all (by decide)) ?_ ?_
      · exact fun x hx => escape_ascii stray (base64Char_of (lawful.alphabet input x hx)).1.1
      · intro entry hentry
        have hchars := hmacros.of_mem horder hentry
        exact ⟨fun c hc => (hchars.1 c hc).1, fun c hc => (hchars.2 c hc).1⟩

end

/-- What is read from a text that decodes to the plain one, with a text behind it that has no syntax
of the reader in it. -/
theorem processParamDataWithRetry_of_safeText {lib : Base64Lib} (lawful : lib.Lawful)
    {table : List ParamBindingItem} (hkeys : macroHolder ∉ table.map Prod.fst)
    {stray : Stray} (strays : Nat → Stray) {order : List (Bytes × Bytes)}
    {helper helper' : URLHelper} {d data tail : Bytes}
    (hmacros : AllChars MacroChar helper.macroParamMap)
    (hcipher : cipherParam lib stray table order helper = .ok (helper', d))
    (horder : helper'.macroParamMap.Traversal order)
    (hpipe : byte '|' ∉ tail) (hlen : data.length < 2048)
    (hsafe : ∀ macros, AllChars MacroChar macros → macros.Traversal order →
      d = cipherText stray (lib.encode (recordBytes table helper.paramMap)) order →
      safeText (strays 0) (strays 1) data =
        plainText (lib.encode (recordBytes table helper.paramMap)) order ++ tail) :
    processParamDataWithRetry lib strays table data true ∅ =
      readBack table helper.paramMap order := by
  obtain ⟨hfits, hmap, rfl⟩ := cipherParam_ok hcipher
  rw [hmap] at horder
  have hall := hmacros.insert_holder (fun c h => h.1)
    (checkValue (offeredFields table helper.paramMap))
  apply processParamDataWithRetry_first hlen
  exact processParamData_plainText lawful hkeys hfits horder (Finmap.lookup_insert _) hall hpipe
    (hsafe _ hall horder rfl)

theorem processParamDataWithRetry_cipherParam {lib : Base64Lib} (lawful : lib.Lawful)
    {table : List ParamBindingItem} (hkeys : macroHolder ∉ table.map Prod.fst)
    {stray : Stray} (stray' : Stray) (strays : Nat → Stray) {order : List (Bytes × Bytes)}
    {helper helper' : URLHelper} {d d' : Bytes}
    (hmacros : AllChars MacroChar helper.macroParamMap)
    (hcipher : cipherParam lib stray table order helper = .ok (helper', d))
    (horder : helper'.macroParamMap.Traversal order)
    (hdata : d' = d ∨ d' = urlEncode_f stray' d) (hlen : d'.length < 2048) :
    processParamDataWithRetry lib strays table d' true ∅ =
      readBack table helper.paramMap order := by
  refine processParamDataWithRetry_of_safeText lawful hkeys strays hmacros hcipher horder
    List.not_mem_nil hlen ?_
  rintro macros hall htraversal rfl
  rw [List.append_nil]
  exact safeText_cipherText lawful hall htraversal (strays 0) (strays 1) stray' _ hdata

/-- The same with a text behind the ciphered one that has no syntax of the reader in it. -/
theorem processParamDataWithRetry_tail {lib : Base64Lib} (lawful : lib.Lawful)
    {table : List ParamBindingItem} (hkeys : macroHolder ∉ table.map Prod.fst)
    {stray : Stray} (strays : Nat → Stray) {order : List (Bytes × Bytes)}
    {helper helper' : URLHelper} {d tail : Bytes}
    (hmacros : AllChars MacroChar helper.macroParamMap)
    (hcipher : cipherParam lib stray table order helper = .ok (helper', d))
    (horder : helper'.macroParamMap.Traversal order) (hpercent : byte '%' ∉ tail)
    (hpipe : byte '|' ∉ tail) (hlen : (d ++ tail).length < 2048) :
    processParamDataWithRetry lib strays table (d ++ tail) true ∅ =
      readBack table helper.paramMap order := by
  refine processParamDataWithRetry_of_safeText lawful hkeys strays hmacros hcipher horder
    hpipe hlen ?_
  rintro macros hall htraversal rfl
  refine safeText_once (urlDecode_f_cipherText_tail lawful hall htraversal (strays 0) _ hpercent) ?_
  rw [List.mem_append, not_or]
  exact ⟨percent_notMem_plainText_lawful lawful hall htraversal _, hpercent⟩

/-- A ciphered text shorter than 2048 bytes, encoded once more or not, carries
the map and the macros back if and only if no string has `2 ^ 31` bytes or more. -/
theorem cipherParam_carriesBack_iff (lib : Base64Lib) (lawful : lib.Lawful)
    (keys : UrlConst → Bytes) (distinct : Function.Injective keys)
    (notHolder : ∀ k, keys k ≠ macroHolder) (stray stray' : Stray) (strays : Nat → Stray)
    (order : List (Bytes × Bytes)) (helper helper' : URLHelper) (d d' : Bytes)
    (hint : CanonicalInts (paramBindingTable keys) helper.paramMap)
    (hmacros : AllChars MacroChar helper.macroParamMap)
    (hnames : ∀ name ∈ helper.macroParamMap, helper.paramMap.value name = [])
    (hcipher : cipherParam lib stray (paramBindingTable keys) order helper = .ok (helper', d))
    (horder : helper'.macroParamMap.Traversal order)
    (hdata : d' = d ∨ d' = urlEncode_f stray' d) (hlen : d'.length < 2048) :
    CarriesBack (paramBindingTable keys) helper.paramMap helper.macroParamMap
        (processParamDataWithRetry lib strays (paramBindingTable keys) d' true ∅) ↔
      ShortStrings (paramBindingTable keys) helper.paramMap := by
  have hnodup := paramBindingTable_nodup keys distinct
  have hkeys := macroHolder_notMem keys notHolder
  have hmap := (cipherParam_ok hcipher).2.1
  rw [processParamDataWithRetry_cipherParam lawful hkeys stray' strays hmacros hcipher horder hdata
    hlen]
  rw [hmap] at horder
  exact ⟨shortStrings_of_carriesBack hnodup hkeys hnames horder,
    readBack_carriesBack hnodup hkeys hint horder⟩

theorem cipherParam_of_room (lib : Base64Lib) (stray : Stray) {table : List ParamBindingItem}
    {helper : URLHelper} (order : List (Bytes × Bytes))
    (hsize : recordSize table helper.paramMap + 10 ≤ bufSize)
    (hescaped : escapedSize stray (lib.encode (recordBytes table helper.paramMap)) < presetBufSize) :
    cipherParam lib stray table order helper =
      .ok ({ helper with
          macroParamMap := Finmap.insert macroHolder
            (hexText (checkValue (offeredFields table helper.paramMap))) helper.macroParamMap },
        cipherText stray (lib.encode (recordBytes table helper.paramMap)) order) := by
  rw [cipherParam, urlParamSerialize_of_room hsize]
  simp only
  rw [if_pos ((urlEncodeWrites_lt_iff stray _ _).mpr hescaped)]
  rfl

theorem ParamMap.Traversal.empty : ParamMap.Traversal ∅ [] :=
  ⟨List.nodup_nil, fun key value => by simp⟩

theorem ParamMap.Traversal.insert {m : ParamMap} {order : List (Bytes × Bytes)}
    (h : m.Traversal order) {key : Bytes} (hkey : key ∉ order.map Prod.fst) (value : Bytes) :
    ParamMap.Traversal (Finmap.insert key value m) ((key, value) :: order) := by
  refine ⟨List.nodup_cons.mpr ⟨hkey, h.1⟩, ?_⟩
  intro k v
  by_cases hk : k = key
  · subst hk
    have hnotMem : (k, v) ∉ order := fun hmem => hkey (List.mem_map_of_mem hmem)
    rw [List.mem_cons, Finmap.lookup_insert]
    simp only [hnotMem, or_false, Prod.mk.injEq, true_and, Option.some.injEq, eq_comm]
  · rw [List.mem_cons, Finmap.lookup_insert_of_ne m hk, ← h.2 k v]
    simp [hk]

theorem sampleKeys_ne_macroHolder (k : UrlConst) : sampleKeys k ≠ macroHolder := by
  intro h
  have hlen := congrArg List.length h
  have hholder : macroHolder.length = 4 := by decide
  simp [sampleKeys, hholder] at hlen

def sampleHelper : URLHelper where
  paramMap := sampleMap
  macroParamMap := Finmap.insert (bytes "x") (bytes "y") ∅
  protocolName := []
  host := []
  port := []
  path := []

def sampleOrder : List (Bytes × Bytes) :=
  [(macroHolder, hexText (checkValue (offeredFields (paramBindingTable sampleKeys) sampleMap))),
    (bytes "x", bytes "y")]

def sampleText : Bytes :=
  cipherText blankStray (cryptoBase64.encode (recordBytes (paramBindingTable sampleKeys) sampleMap))
    sampleOrder

theorem sampleHelper_lookup {name value : Bytes}
    (h : sampleHelper.macroParamMap.lookup name = some value) :
    name = bytes "x" ∧ value = bytes "y" := by
  by_cases hname : name = bytes "x"
  · subst hname
    rw [sampleHelper, Finmap.lookup_insert] at h
    exact ⟨rfl, (Option.some.inj h).symm⟩
  · rw [sampleHelper, Finmap.lookup_insert_of_ne _ hname, Finmap.lookup_empty] at h
    cases h

theorem sampleHelper_allChars {P : UInt8 → Prop} (h : ∀ c ∈ bytes "x" ++ bytes "y", P c) :
    AllChars P sampleHelper.macroParamMap := by
  intro name value hlookup
  obtain ⟨rfl, rfl⟩ := sampleHelper_lookup hlookup
  exact h

theorem cipherParam_sampleHelper :
    cipherParam cryptoBase64 blankStray (paramBindingTable sampleKeys) sampleOrder sampleHelper =
      .ok ({ sampleHelper with
          macroParamMap := Finmap.insert macroHolder
            (hexText (checkValue (offeredFields (paramBindingTable sampleKeys) sampleMap)))
            sampleHelper.macroParamMap }, sampleText) :=
  cipherParam_of_room cryptoBase64 blankStray sampleOrder (sampleMap_recordSize ▸ (by decide))
    (by decide)

theorem sampleOrder_traversal :
    ParamMap.Traversal (Finmap.insert macroHolder
      (hexText (checkValue (offeredFields (paramBindingTable sampleKeys) sampleMap)))
      sampleHelper.macroParamMap) sampleOrder :=
  (ParamMap.Traversal.empty.insert (by simp) (bytes "y")).insert (by decide) _

theorem cipherParam_carriesBack_sample :
    CarriesBack (paramBindingTable sampleKeys) sampleMap sampleHelper.macroParamMap
      (processParamDataWithRetry cryptoBase64 (fun _ => blankStray) (paramBindingTable sampleKeys)
        (cipherText blankStray
          (cryptoBase64.encode (recordBytes (paramBindingTable sampleKeys) sampleMap)) sampleOrder)
        true ∅) := by
  apply (cipherParam_carriesBack_iff cryptoBase64 cryptoBase64_lawful sampleKeys
    sampleKeys_injective sampleKeys_ne_macroHolder blankStray blankStray (fun _ => blankStray)
    sampleOrder sampleHelper _ _ _ sampleMap_canonicalInts
    (sampleHelper_allChars (forall_mem_of_all (by decide))) ?_ cipherParam_sampleHelper
    sampleOrder_traversal (.inl rfl) (by decide +kernel)).mpr
  · exact sampleMap_shortStrings
  · intro name hname
    obtain ⟨value, hvalue⟩ := Finmap.mem_iff.mp hname
    obtain ⟨rfl, -⟩ := sampleHelper_lookup hvalue
    decide

theorem length_hexText_le (vc : BitVec 64) : (hexText vc).length ≤ 16 :=
  Numeral.length_text_le 16 hexDigit (by omega) (by omega) (by have := vc.isLt; omega)

def bareHelper (m : ParamMap) : URLHelper where
  paramMap := m
  macroParamMap := ∅
  protocolName := []
  host := []
  port := []
  path := []

theorem bareHelper_allChars (P : UInt8 → Prop) (m : ParamMap) :
    AllChars P (bareHelper m).macroParamMap := by
  intro name value h
  cases h

def bareOrder (m : ParamMap) : List (Bytes × Bytes) :=
  [(macroHolder, hexText (checkValue (offeredFields (paramBindingTable sampleKeys) m)))]

def bareText (m : ParamMap) : Bytes :=
  cipherText blankStray (cryptoBase64.encode (recordBytes (paramBindingTable sampleKeys) m))
    (bareOrder m)

theorem bareOrder_traversal (m : ParamMap) :
    ParamMap.Traversal (Finmap.insert macroHolder
      (hexText (checkValue (offeredFields (paramBindingTable sampleKeys) m))) ∅) (bareOrder m) :=
  ParamMap.Traversal.empty.insert List.not_mem_nil _

theorem cipherParam_bareHelper {m : ParamMap}
    (hsize : recordSize (paramBindingTable sampleKeys) m + 10 ≤ bufSize)
    (hescaped : escapedSize blankStray
      (cryptoBase64.encode (recordBytes (paramBindingTable sampleKeys) m)) < presetBufSize) :
    cipherParam cryptoBase64 blankStray (paramBindingTable sampleKeys) (bareOrder m) (bareHelper m) =
      .ok ({ bareHelper m with
          macroParamMap := Finmap.insert macroHolder
            (hexText (checkValue (offeredFields (paramBindingTable sampleKeys) m))) ∅ },
        bareText m) :=
  cipherParam_of_room cryptoBase64 blankStray (bareOrder m) hsize hescaped

theorem length_bareText_le (m : ParamMap) :
    (bareText m).length ≤ escapedSize blankStray
      (cryptoBase64.encode (recordBytes (paramBindingTable sampleKeys) m)) + 33 := by
  have hmh := length_hexText_le (checkValue (offeredFields (paramBindingTable sampleKeys) m))
  have hholder : encodeHolder.length = 3 ∧ macroHolder.length = 4 ∧ (bytes "=").length = 1 ∧
    (bytes "%7c").length = 3 := by decide
  rw [bareText, bareOrder, cipherText, urlEncode_f_eq]
  simp only [List.length_append, length_flatMap_escape, macroText, List.flatMap_cons,
    List.flatMap_nil, List.length_nil, hholder]
  omega

theorem not_carriesBack_of_emptyRecord {m : ParamMap}
    (hbytes : recordBytes (paramBindingTable sampleKeys) m =
      recordBytes (paramBindingTable sampleKeys) ∅)
    (hlong : ¬ ShortStrings (paramBindingTable sampleKeys) m) :
    (∃ helper', cipherParam cryptoBase64 blankStray (paramBindingTable sampleKeys) (bareOrder m)
        (bareHelper m) = .ok (helper', bareText m) ∧
      helper'.macroParamMap.Traversal (bareOrder m)) ∧
    (bareText m).length < 2048 ∧
    ¬ CarriesBack (paramBindingTable sampleKeys) m ∅
      (processParamDataWithRetry cryptoBase64 (fun _ => blankStray) (paramBindingTable sampleKeys)
        (bareText m) true ∅) := by
  have hnodup := paramBindingTable_nodup sampleKeys sampleKeys_injective
  have hkeys := macroHolder_notMem sampleKeys sampleKeys_ne_macroHolder
  have hescaped : escapedSize blankStray
      (cryptoBase64.encode (recordBytes (paramBindingTable sampleKeys) ∅)) = 59 := by
    decide
  have hsize : recordSize (paramBindingTable sampleKeys) m + 10 ≤ bufSize := by
    rw [← length_recordBytes, hbytes, length_recordBytes, recordSize_empty]
    decide
  have hcipher := cipherParam_bareHelper hsize (by rw [hbytes, hescaped]; decide)
  have horder := bareOrder_traversal m
  have hlen : (bareText m).length < 2048 := by
    have hle := length_bareText_le m
    rw [hbytes, hescaped] at hle
    omega
  have hmacros := bareHelper_allChars MacroChar m
  refine ⟨⟨_, hcipher, horder⟩, hlen, ?_⟩
  rw [processParamDataWithRetry_cipherParam cryptoBase64_lawful hkeys blankStray _ hmacros hcipher
    horder (.inl rfl) hlen]
  intro hback
  apply hlong
  exact shortStrings_of_carriesBack hnodup hkeys
    (fun name hname => absurd hname Finmap.notMem_empty) horder hback

/-- The ciphered text of a referer of `2 ^ 31` bytes is short, and the referer
does not come back from it. -/
theorem cipherParam_not_carriesBack :
    let m := refererOfLength sampleKeys (2 ^ 31)
    CanonicalInts (paramBindingTable sampleKeys) m ∧
    (∃ helper', cipherParam cryptoBase64 blankStray (paramBindingTable sampleKeys) (bareOrder m)
        (bareHelper m) = .ok (helper', bareText m) ∧
      helper'.macroParamMap.Traversal (bareOrder m)) ∧
    (bareText m).length < 2048 ∧
    ¬ CarriesBack (paramBindingTable sampleKeys) m ∅
      (processParamDataWithRetry cryptoBase64 (fun _ => blankStray) (paramBindingTable sampleKeys)
        (bareText m) true ∅) :=
  ⟨refererOfLength_canonicalInts sampleKeys_injective _,
    not_carriesBack_of_emptyRecord (recordBytes_longReferer sampleKeys_injective)
      not_shortStrings_longReferer⟩

end AdServer.Url
