import AdServer.Url.CipherRoundTrip
import AdServer.Url.Replace

/-!
Ciphered text in which a medium has rewritten every `%` as `-`. The retry puts
the `%` back and reads the original text. It is made only if the first attempt
fails with an exception; a first attempt that reads some record out of the mangled
text and finds the check value wrong clears the map and counts as success. The
decoder skips `%` and `-` alike, so the first attempt meets the bytes that the
Base64 characters of the whole ciphered text stand for, and it fails exactly if
they end inside a number.
-/
namespace AdServer.Url

def mangle (d : Bytes) : Bytes := d.map fun c => if c = byte '%' then byte '-' else c

def PlainChar (c : UInt8) : Prop := MacroChar c ∧ c ≠ byte '-'

/-- Characters that do not end the value of `_q_`. -/
def QueryChar (c : UInt8) : Prop := c ≠ byte '&' ∧ c ≠ 0

instance (c : UInt8) : Decidable (QueryChar c) :=
  inferInstanceAs (Decidable (c ≠ byte '&' ∧ c ≠ 0))

/-- A decoder that only looks at the characters of the alphabet, and does not
give more bytes than it gets. -/
structure Base64Lib.Skipping (lib : Base64Lib) : Prop where
  skips : ∀ front c back, isBase64Char c = false →
    lib.decode (front ++ c :: back) = lib.decode (front ++ back)
  shortens : ∀ text payload, lib.decode text = some payload → payload.length ≤ text.length

/-- The bytes of one number: only the last one has no top bit. -/
def IsNumber (number : Bytes) : Prop :=
  ∃ high low, number = high ++ [low] ∧ (∀ c ∈ high, 0x7F < c) ∧ low ≤ 0x7F

/-- How many bytes behind its number belong to a field: as many as the number of a
string says, if there are so many, and none otherwise. -/
def taken (type : ParamType) (number rest : Bytes) : Nat :=
  match type with
  | .int => 0
  | .string =>
    let num := (BitVec.ofNat 64 (Base128.value number)).toInt
    if 0 < num ∧ num ≤ rest.length then num.toNat else 0

/-- Bytes that end inside the number of a field. -/
inductive BrokenOff : List ParamType → Bytes → Prop
  | cut {type : ParamType} {types : List ParamType} {rest : Bytes} (hne : rest ≠ [])
      (hrest : ∀ c ∈ rest, 0x7F < c) : BrokenOff (type :: types) rest
  | field {type : ParamType} {types : List ParamType} {number rest : Bytes}
      (hnumber : IsNumber number) (hrest : BrokenOff types (rest.drop (taken type number rest))) :
      BrokenOff (type :: types) (number ++ rest)

theorem percent_notMem_mangle (d : Bytes) : byte '%' ∉ mangle d := by
  have hne : byte '-' ≠ byte '%' := by decide
  intro hmem
  obtain ⟨c, -, hc⟩ := List.mem_map.mp hmem
  split at hc
  · exact hne hc
  · contradiction

theorem pipe_notMem_mangle {d : Bytes} (h : byte '|' ∉ d) : byte '|' ∉ mangle d := by
  have hne : byte '-' ≠ byte '|' := by decide
  intro hmem
  obtain ⟨c, hc, heq⟩ := List.mem_map.mp hmem
  split at heq
  · exact hne heq
  · exact h (heq ▸ hc)

/-! ### Putting the percent signs back -/

theorem map_replace_mangle {d : Bytes} (h : byte '-' ∉ d) :
    ((mangle d).map fun c => if c = byte '-' then byte '%' else c) = d := by
  rw [mangle, List.map_map]
  calc d.map _ = d.map id := by
        apply List.map_congr_left
        intro c hc
        have hne : c ≠ byte '-' := fun heq => h (heq ▸ hc)
        by_cases hpercent : c = byte '%' <;> simp [hpercent, hne]
    _ = d := List.map_id d

theorem pipe_infix_mangle {d : Bytes} (h : bytes "%7c" <:+: d) : bytes "-7c" <:+: mangle d := by
  have hmangled : bytes "-7c" = mangle (bytes "%7c") := by decide
  rw [hmangled]
  exact h.map _

theorem retryText_mangle (stray : Stray) {d : Bytes} (hdash : byte '-' ∉ d)
    (hpipe : bytes "%7c" <:+: d) : retryText stray (mangle d) = urlDecode_f stray d := by
  have hreplace := urlReplaceAll_singleton (show byte '-' ≠ byte '%' by decide) (mangle d)
  rw [map_replace_mangle hdash] at hreplace
  rw [retryText, if_pos (pipe_infix_mangle hpipe)]
  exact congrArg (urlDecode_f stray) (congrArg (Option.getD · (mangle d)) hreplace)

/-! ### Bytes that end inside a number -/

theorem IsNumber.ne_nil {number : Bytes} (h : IsNumber number) : number ≠ [] := by
  obtain ⟨high, low, rfl, -⟩ := h
  exact List.append_ne_nil_of_right_ne_nil _ (List.cons_ne_nil _ _)

/-- A text has a number at its front unless all of its bytes have their top bit. -/
theorem exists_isNumber {p : Bytes} (h : ¬∀ c ∈ p, 0x7F < c) :
    ∃ number rest, IsNumber number ∧ p = number ++ rest := by
  induction p with
  | nil => exact absurd (List.forall_mem_nil _) h
  | cons c p ih =>
      by_cases hc : 0x7F < c
      · obtain ⟨number, rest, ⟨high, low, rfl, hhigh, hlow⟩, rfl⟩ :=
          ih fun hall => h (List.forall_mem_cons.mpr ⟨hc, hall⟩)
        exact ⟨_, rest, ⟨c :: high, low, rfl, List.forall_mem_cons.mpr ⟨hc, hhigh⟩, hlow⟩, rfl⟩
      · exact ⟨[c], p, ⟨[], c, rfl, List.forall_mem_nil _, UInt8.not_lt.mp hc⟩, rfl⟩

theorem takeWhile_continues {high : Bytes} (h : ∀ c ∈ high, 0x7F < c) (rest : Bytes) :
    (high ++ rest).takeWhile Base128.continues =
      high ++ rest.takeWhile Base128.continues :=
  List.takeWhile_append_of_pos fun c hc => (continues_iff c).mpr (h c hc)

theorem numberDecode_cut {p : Bytes} (hlen : p.length < 2 ^ 31) (h : ∀ c ∈ p, 0x7F < c) :
    ∃ e, numberDecode p = .error e := by
  have hcount : countContinuation p.length p 0 = p.length := by
    have htake := takeWhile_continues h []
    rw [List.append_nil, List.takeWhile_nil, List.append_nil] at htake
    rw [countContinuation_eq _ _ _ (by omega), htake, Nat.zero_add]
  refine ⟨⟨"numberDecode:reach boundary"⟩, ?_⟩
  simp only [numberDecode, toInt32_of_lt hlen, hcount, Int.le_refl, if_true]

theorem numberDecode_number {number rest : Bytes} (h : IsNumber number)
    (hlen : (number ++ rest).length < 2 ^ 31) :
    numberDecode (number ++ rest) =
      .ok ((BitVec.ofNat 64 (Base128.value number)).toInt, rest) := by
  obtain ⟨high, low, rfl, hhigh, hlow⟩ := h
  have hstop : Base128.continues low = false := by
    rw [Bool.eq_false_iff, Ne, continues_iff]
    exact UInt8.not_lt.mpr hlow
  have hcount : countContinuation (high ++ [low] ++ rest).length (high ++ [low] ++ rest) 0 =
      high.length := by
    rw [countContinuation_eq _ _ _ (by omega), List.append_assoc, takeWhile_continues hhigh,
      List.singleton_append, List.takeWhile_cons_of_neg (by rw [hstop]; exact Bool.false_ne_true),
      List.append_nil, Nat.zero_add]
  have hroom : ¬((high ++ [low] ++ rest).length : Int) ≤ high.length := by
    simp only [List.length_append, List.length_singleton]
    omega
  have hnext : high.length + 1 = (high ++ [low]).length := by
    rw [List.length_append, List.length_singleton]
  simp only [numberDecode, toInt32_of_lt hlen, hcount, hroom, if_false, hnext, List.take_left',
    List.drop_left', numberDecodeSum_eq]

theorem decodeField_cut {p : Bytes} (hlen : p.length < 2 ^ 31) (h : ∀ c ∈ p, 0x7F < c)
    (type : ParamType) : ∃ e, decodeField type p = .error e := by
  obtain ⟨e, he⟩ := numberDecode_cut hlen h
  refine ⟨e, ?_⟩
  cases type with
  | int => simp only [decodeField, decodeUrlParamNum, he]
  | string => simp only [decodeField, decodeUrlParamStr, he]

theorem decodeField_number {number rest : Bytes} (h : IsNumber number)
    (hlen : (number ++ rest).length < 2 ^ 31) (type : ParamType) :
    ∃ f, decodeField type (number ++ rest) = .ok (f, rest.drop (taken type number rest)) := by
  have hnum := numberDecode_number h hlen
  cases type with
  | int => exact ⟨_, by simp only [decodeField, decodeUrlParamNum, hnum]; rfl⟩
  | string =>
      by_cases hroom : 0 < (BitVec.ofNat 64 (Base128.value number)).toInt ∧
          (BitVec.ofNat 64 (Base128.value number)).toInt ≤ rest.length
      · exact ⟨_, by simp only [decodeField, decodeUrlParamStr, hnum, taken, if_pos hroom]; rfl⟩
      · exact ⟨_, by simp only [decodeField, decodeUrlParamStr, hnum, taken, if_neg hroom]; rfl⟩

theorem not_brokenOff_nil (types : List ParamType) : ¬BrokenOff types [] := by
  intro h
  generalize hp : ([] : Bytes) = p at h
  cases h with
  | cut hne => exact hne hp.symm
  | field hnumber => exact hnumber.ne_nil (List.append_eq_nil_iff.mp hp.symm).1

theorem decodeRecord_cons {item : ParamBindingItem} {table : List ParamBindingItem} {p p' : Bytes}
    {f : FieldValue} (hne : p ≠ []) (h : decodeField item.2 p = .ok (f, p')) :
    (∃ e, decodeRecord (item :: table) p = .error e) ↔ ∃ e, decodeRecord table p' = .error e := by
  rw [decodeRecord, if_neg hne, h]
  dsimp only
  cases decodeRecord table p' with
  | error e => exact Iff.rfl
  | ok fs => simp

/-- A record cannot be read exactly if the bytes end inside a number. -/
theorem decodeRecord_error_iff (table : List ParamBindingItem) {p : Bytes}
    (hlen : p.length < 2 ^ 31) :
    (∃ e, decodeRecord table p = .error e) ↔ BrokenOff (table.map Prod.snd) p := by
  refine ⟨fun herror => ?_, fun hbroken => ?_⟩
  · induction table generalizing p with
    | nil =>
        obtain ⟨e, he⟩ := herror
        cases he
    | cons item table ih =>
        by_cases hp : p = []
        · subst hp
          rw [decodeRecord, if_pos rfl] at herror
          exact absurd (ih hlen herror) (not_brokenOff_nil _)
        · by_cases hcut : ∀ c ∈ p, 0x7F < c
          · exact .cut hp hcut
          · obtain ⟨number, rest, hnumber, rfl⟩ := exists_isNumber hcut
            obtain ⟨f, hf⟩ := decodeField_number hnumber hlen item.2
            refine .field hnumber (ih ?_ ((decodeRecord_cons hp hf).mp herror))
            rw [List.length_append] at hlen
            rw [List.length_drop]
            omega
  · generalize htypes : table.map Prod.snd = types at hbroken
    induction hbroken generalizing table with
    | @cut type types rest hne hrest =>
        obtain ⟨item, table, rfl, -, -⟩ := List.map_eq_cons_iff.mp htypes
        obtain ⟨e, he⟩ := decodeField_cut hlen hrest item.2
        exact ⟨e, by rw [decodeRecord, if_neg hne, he]⟩
    | @field type types number rest hnumber _ ih =>
        obtain ⟨item, table, rfl, rfl, htail⟩ := List.map_eq_cons_iff.mp htypes
        obtain ⟨f, hf⟩ := decodeField_number hnumber hlen item.2
        have hne : number ++ rest ≠ [] := List.append_ne_nil_of_left_ne_nil hnumber.ne_nil _
        refine (decodeRecord_cons hne hf).mpr (ih table ?_ htail)
        rw [List.length_append] at hlen
        rw [List.length_drop]
        omega

/-! ### The first attempt -/

/-- The rewriting is lost on the decoder. -/
theorem Base64Lib.Skipping.decode_mangle {lib : Base64Lib} (h : lib.Skipping) (text : Bytes) :
    lib.decode (mangle text) = lib.decode text := by
  suffices hfront : ∀ front, lib.decode (front ++ mangle text) = lib.decode (front ++ text) from
    hfront []
  induction text with
  | nil => exact fun _ => rfl
  | cons c text ih =>
      intro front
      rw [mangle, List.map_cons, ← mangle]
      split
      · rename_i hc
        rw [hc, h.skips _ _ _ (by decide), h.skips _ _ _ (by decide), ih]
      · have hnext := ih (front ++ [c])
        rwa [List.append_assoc, List.append_assoc, List.singleton_append] at hnext

theorem mangle_holder (text : Bytes) :
    mangle (encodeHolder ++ bytes "=" ++ text) = encodeHolder ++ bytes "=" ++ mangle text := by
  have hholder : mangle (encodeHolder ++ bytes "=") = encodeHolder ++ bytes "=" := by decide
  rw [mangle, List.map_append, ← mangle, ← mangle, hholder]

theorem queryChar_mangle {text : Bytes} (h : ∀ c ∈ text, QueryChar c) :
    ∀ c ∈ mangle text, QueryChar c := by
  have hdash : QueryChar (byte '-') := by decide
  intro c hc
  obtain ⟨x, hx, rfl⟩ := List.mem_map.mp hc
  split
  · exact hdash
  · exact h x hx

theorem safeText_mangle (stray₁ stray₂ : Stray) (d : Bytes) :
    safeText stray₁ stray₂ (mangle d) = mangle d :=
  safeText_once (urlDecode_f_plain stray₁ _ (percent_notMem_mangle d)) (percent_notMem_mangle d)

section
variable {lib : Base64Lib} {table : List ParamBindingItem} {d payload : Bytes}
  {fs : List (Bytes × FieldValue)}

/-- The first attempt decodes the whole text behind `_q_=`. -/
theorem attemptPayload_mangle (skipping : lib.Skipping) {text : Bytes}
    (hd : d = encodeHolder ++ bytes "=" ++ text) (hpipe : byte '|' ∉ d)
    (hquery : ∀ c ∈ text, QueryChar c) (stray₁ stray₂ : Stray) :
    attemptPayload lib stray₁ stray₂ (mangle d) = lib.decode (d.drop 4) := by
  have hchars := queryChar_mangle hquery
  have hdrop : (encodeHolder ++ bytes "=" ++ text).drop 4 = text := List.drop_left' (by decide)
  rw [attemptPayload, safeText_mangle, cipherQuery,
    List.splitOn_eq_singleton (pipe_notMem_mangle hpipe), List.headD_cons, hd, mangle_holder, hdrop,
    getParamv2_holder (fun h => (hchars _ h).2 rfl) (fun h => (hchars _ h).1 rfl), Option.bind_some,
    skipping.decode_mangle]

variable (hattempt : ∀ stray₁ stray₂,
  attemptPayload lib stray₁ stray₂ (mangle d) = lib.decode (d.drop 4))
include hattempt

/-- Nothing is split off the mangled text, so there is no check value to compare. -/
theorem processParamData_mangle_ok (hkeys : macroHolder ∉ table.map Prod.fst)
    (hpipe : byte '|' ∉ d) (hpayload : lib.decode (d.drop 4) = some payload)
    (hrecord : decodeRecord table payload = .ok fs) (stray₁ stray₂ : Stray) :
    processParamData lib stray₁ stray₂ table (mangle d) true ∅ = (true, ∅) := by
  have hnil : insertTokens [] (fs.foldl insertField ∅) = fs.foldl insertField ∅ := rfl
  have htokens : attemptTokens stray₁ stray₂ (mangle d) = [] := by
    rw [attemptTokens, safeText_mangle, List.splitOn_eq_singleton (pipe_notMem_mangle hpipe),
      List.tail_cons]
  have hnone : (fs.foldl insertField ∅).lookup macroHolder = none := by
    rw [lookup_foldl_insertField, Finmap.lookup_empty, Option.none_or]
    exact findSome?_field_none fun h => hkeys ((decodeRecord_keys hrecord).subset h)
  have hne : ([] : Bytes) ≠ hexText (checkValue (fs.map Prod.snd)) := (hexText_ne_nil _).symm
  rw [processParamData_ok ((hattempt stray₁ stray₂).trans hpayload) hrecord, htokens, hnil, verify,
    ParamMap.value, hnone, Option.getD_none, if_pos hne]

theorem processParamData_mangle_fails
    (h : ∀ payload, lib.decode (d.drop 4) = some payload →
      ∃ e, decodeRecord table payload = .error e) (stray₁ stray₂ : Stray) :
    processParamData lib stray₁ stray₂ table (mangle d) true ∅ = (false, ∅) := by
  cases hpayload : lib.decode (d.drop 4) with
  | none => exact processParamData_none ((hattempt stray₁ stray₂).trans hpayload)
  | some payload =>
      obtain ⟨e, hrecord⟩ := h payload hpayload
      exact processParamData_error ((hattempt stray₁ stray₂).trans hpayload) hrecord ∅

end

theorem length_mangle (d : Bytes) : (mangle d).length = d.length := List.length_map _

/-! ### Recovery -/

section
variable {lib : Base64Lib} {table : List ParamBindingItem} {stray : Stray}
  {order : List (Bytes × Bytes)} {helper helper' : URLHelper} {d : Bytes}
  (lawful : lib.Lawful) (skipping : lib.Skipping) (hkeys : macroHolder ∉ table.map Prod.fst)
  (hmacros : AllChars PlainChar helper.macroParamMap)
  (hquery : AllChars QueryChar helper.macroParamMap)
  (hcipher : cipherParam lib stray table order helper = .ok (helper', d))
  (horder : helper'.macroParamMap.Traversal order)

include lawful hmacros hquery hcipher horder in
theorem ciphered_chars : ∀ c ∈ d, (c ≠ byte '-' ∧ c ≠ byte '|') ∧ QueryChar c := by
  refine cipherParam_chars lawful (fun c h => ⟨⟨h.2.1, h.1.2.2⟩, h.2.2⟩) (by decide) ?_ hcipher
    horder
  intro name value h c hc
  obtain ⟨hchar, hdash⟩ := hmacros name value h c hc
  exact ⟨⟨hdash, hchar.2.2⟩, hquery name value h c hc⟩

include lawful hkeys hmacros hquery hcipher horder in
theorem processParamData_retry (stray₂ stray₃ stray₄ : Stray) :
    processParamData lib stray₃ stray₄ table (retryText stray₂ (mangle d)) true ∅ =
      (true, readBack table helper.paramMap order) := by
  have hchars := ciphered_chars lawful hmacros hquery hcipher horder
  obtain ⟨hfits, hmap, rfl⟩ := cipherParam_ok hcipher
  rw [hmap] at horder
  have hall : AllChars MacroChar helper.macroParamMap := fun name value h c hc =>
    (hmacros name value h c hc).1
  have hall' := hall.insert_holder (fun c h => h.1)
    (checkValue (offeredFields table helper.paramMap))
  have hpercent := percent_notMem_plainText_lawful lawful hall' horder
    (recordBytes table helper.paramMap)
  rw [retryText_mangle stray₂ (fun h => (hchars _ h).1.1 rfl) (pipe_infix_cipherText stray _),
    urlDecode_f_cipherText_lawful lawful hall' horder]
  apply processParamData_plainText lawful hkeys hfits horder (Finmap.lookup_insert _) hall'
    List.not_mem_nil
  rw [List.append_nil]
  exact safeText_once (urlDecode_f_plain stray₃ _ hpercent) hpercent

include hkeys hcipher horder in
theorem readBack_eq_empty_iff :
    readBack table helper.paramMap order = ∅ ↔ lostXor table helper.paramMap ≠ 0#64 := by
  have hmap := (cipherParam_ok hcipher).2.1
  refine ⟨?_, fun hlost => if_neg hlost⟩
  intro hempty hlost
  rw [readBack, if_pos hlost] at hempty
  have hlookup := lookup_readBack_holder (m := helper.paramMap) hkeys horder
  rw [hempty, hmap, Finmap.lookup_insert, Finmap.lookup_empty] at hlookup
  cases hlookup

include lawful skipping hmacros hquery hcipher horder in
theorem attemptPayload_cipherParam (stray₁ stray₂ : Stray) :
    attemptPayload lib stray₁ stray₂ (mangle d) = lib.decode (d.drop 4) := by
  have hchars := ciphered_chars lawful hmacros hquery hcipher horder
  obtain ⟨-, -, hd⟩ := cipherParam_ok hcipher
  exact attemptPayload_mangle skipping hd (fun h => (hchars _ h).1.2 rfl)
    (fun c hc => (hchars c (hd ▸ List.mem_append_right _ hc)).2) stray₁ stray₂

include lawful skipping hkeys hmacros hquery hcipher horder in
theorem mangled_cleared (hlen : d.length < 2048) {payload : Bytes} {fs : List (Bytes × FieldValue)}
    (hpayload : lib.decode (d.drop 4) = some payload) (hrecord : decodeRecord table payload = .ok fs)
    (strays : Nat → Stray) :
    processParamDataWithRetry lib strays table (mangle d) true ∅ = ∅ := by
  have hchars := ciphered_chars lawful hmacros hquery hcipher horder
  have hattempt := attemptPayload_cipherParam lawful skipping hmacros hquery hcipher horder
  apply processParamDataWithRetry_first ((length_mangle d).symm ▸ hlen)
  exact processParamData_mangle_ok hattempt hkeys (fun h => (hchars _ h).1.2 rfl) hpayload hrecord _ _

include lawful skipping hkeys hmacros hquery hcipher horder in
theorem mangled_recovered (hlen : d.length < 2048)
    (h : ∀ payload, lib.decode (d.drop 4) = some payload →
      ∃ e, decodeRecord table payload = .error e) (strays : Nat → Stray) :
    processParamDataWithRetry lib strays table (mangle d) true ∅ =
      readBack table helper.paramMap order := by
  have hattempt := attemptPayload_cipherParam lawful skipping hmacros hquery hcipher horder
  have hroom : ¬ 2048 ≤ (mangle d).length := by
    rw [length_mangle]
    omega
  rw [processParamDataWithRetry, if_neg hroom, processParamData_mangle_fails hattempt h]
  exact congrArg Prod.snd
    (processParamData_retry lawful hkeys hmacros hquery hcipher horder (strays 2) (strays 3)
      (strays 4))

end

theorem cryptoBase64_skipping : cryptoBase64.Skipping where
  skips front c back hc := by
    refine congrArg some (Base64.decode_skip ?_ front back)
    simp [isBase64Char, byte, UInt8.le_iff_toNat_le, ← UInt8.toNat_inj] at hc
    simp only [Base64.charDigit]
    repeat rw [if_neg (by omega)]
  shortens text payload h := by
    cases h
    exact Base64.length_decode_le text

end AdServer.Url
