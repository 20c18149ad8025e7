import AdServer.Billing.Deal

/-!
The win price that the exchange appends to the ciphered show URL. `commonLogic`
reads the query twice: `getParamv2` takes the price from the plain pairs, and the
deciphering reader passes over it because it stands behind the last `|`. The first
reader works on `data.c_str()`, so a NUL byte ends the query for it.
-/
namespace AdServer.Billing

open AdServer.Url

/-- The name of a parameter that neither reader takes for its own syntax. -/
structure PlainName (name : Bytes) : Prop where
  nonempty : name ≠ []
  plain : ∀ c ∈ name, urlEncodeEntry c = true
  notHolder : name ≠ encodeHolder

theorem urlEncodeEntry_ne {c : UInt8} (h : urlEncodeEntry c = true) :
    c ≠ 0 ∧ c ≠ byte ' ' ∧ c ≠ byte '=' ∧ c ≠ byte '&' ∧ c ≠ byte '%' ∧ c ≠ byte '|' := by
  simp [urlEncodeEntry, byte, UInt8.le_iff_toNat_le, ← UInt8.toNat_inj] at h ⊢
  omega

theorem PlainName.queryName {name : Bytes} (h : PlainName name) : QueryName (byte '&') name where
  nonempty := h.nonempty
  noSpace := fun hmem => (urlEncodeEntry_ne (h.plain _ hmem)).2.1 rfl
  noEquals := fun hmem => (urlEncodeEntry_ne (h.plain _ hmem)).2.2.1 rfl
  noSeperator := fun hmem => (urlEncodeEntry_ne (h.plain _ hmem)).2.2.2.1 rfl

/-- `&name=price`. -/
def pricePair (name price : Bytes) : Bytes := byte '&' :: (name ++ byte '=' :: price)

theorem notMem_pricePair {name price : Bytes} {c : UInt8} (hseperator : c ≠ byte '&')
    (hequals : c ≠ byte '=') (hname : c ∉ name) (hprice : c ∉ price) :
    c ∉ pricePair name price := by
  simp [pricePair, hseperator, hequals, hname, hprice]

theorem cString_pricePair {name price : Bytes} (hname : PlainName name) :
    cString (pricePair name price) = pricePair name (cString price) := by
  have hnul : (0 : UInt8) ∉ byte '&' :: (name ++ [byte '=']) := by
    rw [List.mem_cons, List.mem_append, List.mem_singleton]
    rintro (hmem | hmem | hmem)
    · exact absurd hmem (by decide)
    · exact (urlEncodeEntry_ne (hname.plain _ hmem)).1 rfl
    · exact absurd hmem (by decide)
  have happend := cString_append (byte '&' :: (name ++ [byte '='])) price
  rw [if_neg hnul] at happend
  simpa [pricePair] using happend

theorem holder_split (rest : Bytes) :
    encodeHolder ++ byte '=' :: rest = encodeHolder ++ [byte '='] ++ rest := by simp

theorem zero_mem_holder_iff (rest : Bytes) :
    (0 : UInt8) ∈ encodeHolder ++ byte '=' :: rest ↔ (0 : UInt8) ∈ rest := by
  have hholder : (0 : UInt8) ∉ encodeHolder ++ [byte '='] := by decide
  rw [holder_split, List.mem_append, or_iff_right hholder]

theorem cString_holder (rest : Bytes) :
    cString (encodeHolder ++ byte '=' :: rest) = encodeHolder ++ byte '=' :: cString rest := by
  have hholder : (0 : UInt8) ∉ encodeHolder ++ [byte '='] := by decide
  rw [holder_split, cString_append, if_neg hholder, ← holder_split]

section
variable {name body : Bytes} (hname : PlainName name) (hbody : byte '&' ∉ body) (price : Bytes)

include hname hbody

/-- A NUL byte in front of the price hides the price from the plain reader. -/
theorem getParamv2_pricePair_hidden (hnul : (0 : UInt8) ∈ body) :
    (getParamv2 ∅ (encodeHolder ++ byte '=' :: body ++ pricePair name price) (byte '&')).map
        (ParamMap.value · name) = some [] := by
  have hpair := getParamv2_pair ∅ queryName_encodeHolder (fun h => hbody (mem_of_mem_cString h))
    (fun h => zero_notMem_cString body ((zero_mem_holder_iff _).mp h))
  rw [← getParamv2_cString, cString_append, if_pos ((zero_mem_holder_iff body).mpr hnul),
    cString_holder, hpair]
  split
  · rfl
  · rw [Option.map_some, ParamMap.value, Finmap.lookup_insert_of_ne _ hname.notHolder,
      Finmap.lookup_empty, Option.getD_none]

theorem getParamv2_pricePair_seen (hprice : byte '&' ∉ price) (hnul : (0 : UInt8) ∉ body) :
    (getParamv2 ∅ (encodeHolder ++ byte '=' :: body ++ pricePair name price) (byte '&')).map
        (ParamMap.value · name) = some (cString price) := by
  have hzero : (0 : UInt8) ∉
      encodeHolder ++ byte '=' :: (body ++ pricePair name (cString price)) := by
    rw [zero_mem_holder_iff, List.mem_append, ← cString_pricePair hname]
    exact fun h => h.elim hnul (zero_notMem_cString _)
  obtain ⟨text, hpairs⟩ := getParamv2_pairs ∅ (by decide) queryName_encodeHolder hbody
    hname.queryName (fun h => hprice (mem_of_mem_cString h)) hzero
  rw [← getParamv2_cString, cString_append, if_neg fun h => hnul ((zero_mem_holder_iff body).mp h),
    cString_pricePair hname, List.append_assoc, List.cons_append]
  rw [pricePair, hpairs, Option.map_some]
  split
  · rename_i hempty
    rw [ParamMap.value, Finmap.lookup_insert_of_ne _ hname.notHolder, Finmap.lookup_empty,
      Option.getD_none, hempty]
  · rw [ParamMap.value, Finmap.lookup_insert, Option.getD_some]

end

section
variable {Rate : Type} (env : ServerEnv Rate) (lawful : env.base64.Lawful)
  (distinct : Function.Injective env.keys) (notHolder : ∀ k, env.keys k ≠ macroHolder)
  (hname : PlainName (env.keys .exchangePrice)) {stray : Stray} {order : List (Bytes × Bytes)}
  {helper helper' : URLHelper} {text : Bytes}
  (hplain : env.keys .exchangePrice ∉ helper.paramMap)
  (hpriceMacro : env.keys .exchangePrice ∉ helper.macroParamMap)
  (hmacros : AllChars (fun c => MacroChar c ∧ c ≠ byte '&') helper.macroParamMap)
  (hcipher : cipherParam env.base64 stray (paramBindingTable env.keys) order helper =
    .ok (helper', text))
  (horder : helper'.macroParamMap.Traversal order)

include lawful hmacros hcipher horder in
theorem seperator_notMem_cipherParam : byte '&' ∉ text := by
  have hall : AllChars (· ≠ byte '&') helper.macroParamMap := fun name value h c hc =>
    (hmacros name value h c hc).2
  intro hmem
  exact cipherParam_chars lawful (fun c h => h.2.2.1) (by decide) hall hcipher horder _ hmem rfl

include distinct notHolder hplain hpriceMacro hcipher horder in
theorem exchangePrice_notMem_readBack :
    env.keys .exchangePrice ∉ readBack (paramBindingTable env.keys) helper.paramMap order := by
  have hmap := (cipherParam_ok hcipher).2.1
  rw [hmap] at horder
  have hitem : (env.keys .exchangePrice, ParamType.string) ∈ paramBindingTable env.keys :=
    List.mem_map.mpr ⟨(.exchangePrice, .string), by decide, rfl⟩
  have hvalue : helper.paramMap.value (env.keys .exchangePrice) = [] := by
    rw [ParamMap.value, Finmap.lookup_eq_none.mpr hplain, Option.getD_none]
  rw [← Finmap.lookup_eq_none, readBack]
  split
  · rw [lookup_insertEntries horder, Finmap.lookup_insert_of_ne _ (notHolder .exchangePrice),
      Finmap.lookup_eq_none.mpr hpriceMacro, Option.or_none,
      lookup_storedRecord _ (paramBindingTable_nodup env.keys distinct) hitem, hvalue]
    rfl
  · exact Finmap.lookup_empty _

variable {price : Bytes} (hseperator : byte '&' ∉ price) (hpipe : byte '|' ∉ price)
  (hpercent : byte '%' ∉ price)
  (hlen : (text ++ pricePair (env.keys .exchangePrice) price).length < 2048)

include lawful notHolder hname hmacros hcipher horder hpipe hpercent hlen in
theorem processParamDataWithRetry_pricePair :
    processParamDataWithRetry env.base64 env.strays (paramBindingTable env.keys)
        (text ++ pricePair (env.keys .exchangePrice) price) true ∅ =
      readBack (paramBindingTable env.keys) helper.paramMap order ∧
    processParamDataWithRetry env.base64 env.strays (paramBindingTable env.keys) text true ∅ =
      readBack (paramBindingTable env.keys) helper.paramMap order := by
  have hkeys := macroHolder_notMem env.keys notHolder
  have hplainMacros : AllChars MacroChar helper.macroParamMap :=
    fun name value h c hc => (hmacros name value h c hc).1
  have hchars := fun c hc => urlEncodeEntry_ne (hname.plain c hc)
  refine ⟨?_, ?_⟩
  · exact processParamDataWithRetry_tail lawful hkeys env.strays hplainMacros hcipher horder
      (notMem_pricePair (by decide) (by decide) (fun h => (hchars _ h).2.2.2.2.1 rfl) hpercent)
      (notMem_pricePair (by decide) (by decide) (fun h => (hchars _ h).2.2.2.2.2 rfl) hpipe) hlen
  · rw [List.length_append] at hlen
    exact processParamDataWithRetry_cipherParam lawful hkeys stray env.strays hplainMacros hcipher
      horder (.inl rfl) (by omega)

include lawful distinct notHolder hname hplain hpriceMacro hmacros hcipher horder hseperator hpipe
  hpercent hlen in
/-- The parameters of the show query: the deciphered ones, and the price up to a NUL byte. -/
theorem queryParams_pricePair :
    queryParams env .SHOW (text ++ pricePair (env.keys .exchangePrice) price) =
      some (Finmap.insert (env.keys .exchangePrice)
        (if (0 : UInt8) ∈ text then [] else cString price)
        (processParamDataWithRetry env.base64 env.strays (paramBindingTable env.keys) text true
          ∅)) := by
  obtain ⟨hwhole, halone⟩ := processParamDataWithRetry_pricePair env lawful notHolder hname hmacros
    hcipher horder hpipe hpercent hlen
  have hfresh := exchangePrice_notMem_readBack env distinct notHolder hplain hpriceMacro hcipher
    horder
  have htextSeperator := seperator_notMem_cipherParam env lawful hmacros hcipher horder
  obtain ⟨c, rest, htext, hc⟩ : ∃ c rest,
      text = encodeHolder ++ bytes "=" ++ c :: rest ∧ c ≠ 0 := by
    obtain ⟨-, -, rfl⟩ := cipherParam_ok hcipher
    exact cipherText_head lawful stray _ order
  obtain ⟨raw, hraw, hholder⟩ := getParamv2_encodeHolder hc
    (rest ++ pricePair (env.keys .exchangePrice) price)
  rw [← List.cons_append, ← List.append_assoc, ← htext] at hraw
  have hvalue : raw.value (env.keys .exchangePrice) =
      if (0 : UInt8) ∈ text then [] else cString price := by
    rw [holder_append] at htext
    have hbody : byte '&' ∉ c :: rest := fun h =>
      htextSeperator (htext ▸ List.mem_append_right _ (List.mem_cons_of_mem _ h))
    rw [htext] at hraw
    simp only [htext, zero_mem_holder_iff]
    split
    · rename_i hnul
      have hhidden := getParamv2_pricePair_hidden hname hbody price hnul
      rw [hraw, Option.map_some] at hhidden
      exact Option.some.inj hhidden
    · rename_i hnul
      have hseen := getParamv2_pricePair_seen hname hbody price hseperator hnul
      rw [hraw, Option.map_some] at hseen
      exact Option.some.inj hseen
  simp only [queryParams, hraw, Option.map_some, hholder, if_true, hwhole, halone, hfresh,
    not_false_eq_true, and_true, hvalue]

end

theorem zero_mem_pricePair_iff {name price : Bytes} (hname : PlainName name) :
    (0 : UInt8) ∈ pricePair name price ↔ (0 : UInt8) ∈ price := by
  have hzero : (0 : UInt8) ∉ name := fun h => (urlEncodeEntry_ne (hname.plain _ h)).1 rfl
  simp [pricePair, hzero, show (0 : UInt8) ≠ byte '&' by decide,
    show (0 : UInt8) ≠ byte '=' by decide]

/-- The show query has the deciphered parameters and the price behind them if and
only if the query has no NUL byte. -/
theorem winPrice_iff {Rate : Type} (env : ServerEnv Rate) (lawful : env.base64.Lawful)
    (distinct : Function.Injective env.keys) (notHolder : ∀ k, env.keys k ≠ macroHolder)
    (hname : PlainName (env.keys .exchangePrice)) (stray : Stray) (order : List (Bytes × Bytes))
    (helper helper' : URLHelper) (text w : Bytes)
    (hplain : env.keys .exchangePrice ∉ helper.paramMap)
    (hpriceMacro : env.keys .exchangePrice ∉ helper.macroParamMap)
    (hmacros : AllChars (fun c => MacroChar c ∧ c ≠ byte '&') helper.macroParamMap)
    (hcipher : cipherParam env.base64 stray (paramBindingTable env.keys) order helper =
      .ok (helper', text))
    (horder : helper'.macroParamMap.Traversal order) (hne : w ≠ []) (hseperator : byte '&' ∉ w)
    (hpipe : byte '|' ∉ w) (hpercent : byte '%' ∉ w)
    (hlen : (text ++ pricePair (env.keys .exchangePrice) w).length < 2048) :
    queryParams env .SHOW (text ++ pricePair (env.keys .exchangePrice) w) =
        some (Finmap.insert (env.keys .exchangePrice) w
          (processParamDataWithRetry env.base64 env.strays (paramBindingTable env.keys) text true
            ∅)) ↔
      (0 : UInt8) ∉ text ++ pricePair (env.keys .exchangePrice) w := by
  have hinsert : ∀ (value value' : Bytes) (m : ParamMap),
      some (Finmap.insert (env.keys .exchangePrice) value m) =
        some (Finmap.insert (env.keys .exchangePrice) value' m) ↔ value = value' := by
    intro value value' m
    refine ⟨fun h => ?_, fun h => by rw [h]⟩
    have hlookup := congrArg (Finmap.lookup (env.keys .exchangePrice)) (Option.some.inj h)
    simpa only [Finmap.lookup_insert, Option.some.injEq] using hlookup
  rw [queryParams_pricePair env lawful distinct notHolder hname hplain hpriceMacro hmacros hcipher
    horder hseperator hpipe hpercent hlen, hinsert, List.mem_append, zero_mem_pricePair_iff hname]
  split
  · rename_i hnul
    simp [hnul, Ne.symm hne]
  · rename_i hnul
    rw [cString_eq_self_iff]
    simp [hnul]

theorem sampleName_plain : PlainName (sampleEnv.keys .exchangePrice) :=
  ⟨by decide, forall_mem_of_all (by decide), by decide⟩

theorem winPrice_sample :
    queryParams sampleEnv .SHOW (sampleText ++ pricePair (bytes "P") (bytes "12")) =
      some (Finmap.insert (bytes "P") (bytes "12")
        (processParamDataWithRetry cryptoBase64 (fun _ => blankStray) (paramBindingTable sampleKeys)
          sampleText true ∅)) :=
  (winPrice_iff sampleEnv cryptoBase64_lawful sampleKeys_injective sampleKeys_ne_macroHolder
    sampleName_plain blankStray sampleOrder sampleHelper _ sampleText (bytes "12")
    (by decide) (by decide) (sampleHelper_allChars (forall_mem_of_all (by decide)))
    cipherParam_sampleHelper sampleOrder_traversal (by decide) (by decide) (by decide) (by decide)
    (by decide +kernel)).mpr (by decide +kernel)

/-- A price of `1`, NUL, `2` behind a ciphered text without parameters. -/
theorem winPrice_cut :
    cipherParam cryptoBase64 blankStray (paramBindingTable sampleKeys) (bareOrder ∅)
        (bareHelper ∅) =
      .ok ({ bareHelper ∅ with
          macroParamMap := Finmap.insert macroHolder
            (hexText (checkValue (offeredFields (paramBindingTable sampleKeys) ∅))) ∅ },
        bareText ∅) ∧
    (bareText ∅ ++ pricePair (bytes "P") [49, 0, 50]).length < 2048 ∧
    queryParams sampleEnv .SHOW (bareText ∅ ++ pricePair (bytes "P") [49, 0, 50]) ≠
      some (Finmap.insert (bytes "P") [49, 0, 50]
        (processParamDataWithRetry cryptoBase64 (fun _ => blankStray) (paramBindingTable sampleKeys)
          (bareText ∅) true ∅)) := by
  have hlen : (bareText ∅ ++ pricePair (bytes "P") [49, 0, 50]).length < 2048 := by decide +kernel
  have hcipher := cipherParam_bareHelper (m := ∅) (by rw [recordSize_empty]; decide) (by decide)
  have hquery := queryParams_pricePair sampleEnv cryptoBase64_lawful sampleKeys_injective
    sampleKeys_ne_macroHolder sampleName_plain Finmap.notMem_empty Finmap.notMem_empty
    (bareHelper_allChars _ ∅) hcipher (bareOrder_traversal ∅) (by decide) (by decide)
    (by decide) hlen
  refine ⟨hcipher, hlen, ?_⟩
  intro h
  rw [show (bytes "P" : Bytes) = sampleEnv.keys .exchangePrice by decide] at h
  have hlookup := congrArg (Finmap.lookup (sampleEnv.keys .exchangePrice))
    (Option.some.inj (hquery.symm.trans h))
  rw [Finmap.lookup_insert, Finmap.lookup_insert] at hlookup
  exact absurd hlookup (by decide +kernel)

end AdServer.Billing
