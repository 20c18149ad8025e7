import AdServer.Billing.LogItem
import AdServer.Url.CipherRoundTrip

/-!
The deal id of a show URL on its way to the bill. The handlers add it as a text,
the binding table types it as a number, and `parseObjectToLogItem` asks only
whether a text has come back. It comes back as it was exactly when it is the
decimal text of a positive number, the record's check value survives, and the
lengths stay within the two limits of the reader.
-/
namespace AdServer.Billing

open AdServer.Url

section
variable {Rate : Type} (env : ServerEnv Rate)

/-- The request is recognised as a deal, its map holds the deal id, and unless the
advertiser pays per click the impression is billed at the fixed price. -/
def DealSurvives (task : QueryTask) (dealId : Bytes) : Prop :=
  ∃ m log, commonLogic env task = some (m, log) ∧ isDeal env m = true ∧
    m.lookup (env.keys .dealId) = some dealId ∧
    ∀ price, decodeAdxExchangePrice env.billing env.ids log.adInfo.adxid
        (m.value (env.keys .exchangePrice)) = some price →
      ¬ SettledPerClick env.types log.adInfo.priceType →
      log.adInfo.bill.bidPrice = if offerPriceOf env m = 0 then price else offerPriceOf env m

theorem isDeal_of_lookup {env : ServerEnv Rate} {m : ParamMap} {dealId : Bytes}
    (h : m.lookup (env.keys .dealId) = some dealId) (hne : dealId ≠ []) : isDeal env m = true := by
  have hmem : env.keys .dealId ∈ m := Finmap.mem_iff.mpr ⟨dealId, h⟩
  simp [isDeal, hmem, ParamMap.value, h, hne]

/-! ### The bill of a deal -/

theorem calcPrice_deal_bidPrice {types : PriceTypeConst → Int} {priceType : Int}
    (lib : BillingLib Rate) (ids : AdxConst → Int) (hclick : ¬ SettledPerClick types priceType)
    (adx decodePrice offerPrice : Int) (feeRate : Rate) (feeRateDetail : Bytes) (bill : Bill Rate)
    (adplaceBuyType : Int) :
    (calcPrice lib ids types adx true decodePrice offerPrice feeRate feeRateDetail bill .SHOW
        priceType adplaceBuyType).bidPrice =
      if offerPrice = 0 then decodePrice else offerPrice := by
  simp only [calcPrice, hclick, if_false, fixPrice, true_or, decide_true, if_true, settledOffer,
    true_and]

theorem parseDevice_adxid (m : ParamMap) (log : LogItem Rate) :
    (parseDevice env m log).adInfo.adxid = log.adInfo.adxid := by
  simp only [parseDevice, addDevice, apply_onParam _ _ fun log : LogItem Rate => log.adInfo.adxid,
    elim_same]

theorem parseDevice_priceType (m : ParamMap) (log : LogItem Rate) :
    (parseDevice env m log).adInfo.priceType = log.adInfo.priceType := by
  simp only [parseDevice, addDevice,
    apply_onParam _ _ fun log : LogItem Rate => log.adInfo.priceType, elim_same]

theorem parseObjectToLogItem_adxid (m : ParamMap) (log : LogItem Rate) :
    (parseObjectToLogItem env m log).adInfo.adxid = (parseTarget env m log).adInfo.adxid := by
  simp only [parseObjectToLogItem]
  split
  · rename_i priced hprice
    rw [parseDevice_adxid]
    revert hprice
    rw [parsePrice]
    split
    · rw [Option.map_eq_some_iff]
      rintro ⟨decodePrice, -, rfl⟩
      rfl
    · rintro ⟨⟩
      rfl
  · rfl

theorem parseObjectToLogItem_deal {m : ParamMap} (log : LogItem Rate) {text : Bytes} {price : Int}
    (hdeal : isDeal env m = true) (htext : m.lookup (env.keys .exchangePrice) = some text)
    (hprice : decodeAdxExchangePrice env.billing env.ids (parseTarget env m log).adInfo.adxid text =
      some price) :
    parseObjectToLogItem env m log =
      parseDevice env m (priceRecord env m true price (parseTarget env m log)) := by
  simp only [parseObjectToLogItem, parsePrice, htext, hprice, Option.map_some, hdeal]

/-! ### The way of the deal id -/

theorem lookup_modifyParam_of_ne (m : ParamMap) (f : Bytes → Bytes) {key k : Bytes} (h : k ≠ key) :
    (modifyParam m key f).lookup k = m.lookup k := by
  unfold modifyParam
  cases m.lookup key with
  | none => rfl
  | some value => exact Finmap.lookup_insert_of_ne m h

theorem mem_modifyParam {m : ParamMap} (key : Bytes) (f : Bytes → Bytes) {k : Bytes} (h : k ∈ m) :
    k ∈ modifyParam m key f := by
  unfold modifyParam
  cases m.lookup key with
  | none => exact h
  | some value => exact Finmap.mem_insert.mpr (.inr h)

theorem lookup_filterParamMapSafe_dealId (distinct : Function.Injective env.keys)
    (hssp : env.sspPid ≠ env.keys .dealId) (phase : LogPhaseType) (m : ParamMap) :
    (filterParamMapSafe env phase m).lookup (env.keys .dealId) =
      (m.lookup (env.keys .dealId)).map (stringSafeInput env.urlLongInputParameter) := by
  have hcreative : env.keys .dealId ≠ env.keys .creativeId := fun h => by cases distinct h
  unfold filterParamMapSafe
  simp only
  split
  · rw [lookup_modifyParam_of_ne _ _ hssp.symm, lookup_modifyParam_of_ne _ _ hcreative,
      ParamMap.lookup_mapValues]
  · rw [ParamMap.lookup_mapValues]

theorem mem_filterParamMapSafe (phase : LogPhaseType) {m : ParamMap} {key : Bytes} (h : key ∈ m) :
    key ∈ filterParamMapSafe env phase m := by
  obtain ⟨value, hvalue⟩ := Finmap.mem_iff.mp h
  have hmem : key ∈ m.mapValues (stringSafeInput env.urlLongInputParameter) :=
    Finmap.mem_iff.mpr ⟨_, by rw [ParamMap.lookup_mapValues, hvalue]; rfl⟩
  unfold filterParamMapSafe
  simp only
  split
  · exact mem_modifyParam _ _ (mem_modifyParam _ _ hmem)
  · exact hmem

theorem stored_int_text_eq_iff {value : Bytes} (h : value ≠ []) :
    (stored .int value).text = value ↔ ∃ n, 0 < n ∧ n < 2 ^ 63 ∧ value = decimal n := by
  refine ⟨?_, ?_⟩
  · intro htext
    have hrange := paramNumber_range value
    simp only [stored, FieldValue.text] at htext
    split at htext
    · exact absurd htext.symm h
    · refine ⟨(max (paramNumber value) 0).toNat, by omega, by omega, ?_⟩
      rw [← intToString_natCast, Int.toNat_of_nonneg (le_max_right _ _)]
      exact htext.symm
  · rintro ⟨n, hpos, hn, rfl⟩
    exact stored_int_text_decimal hpos hn

theorem cipherText_head {lib : Base64Lib} (lawful : lib.Lawful) (stray : Stray) (input : Bytes)
    (order : List (Bytes × Bytes)) :
    ∃ c rest, cipherText stray (lib.encode input) order = encodeHolder ++ bytes "=" ++ c :: rest ∧
      c ≠ 0 := by
  have hpipe : bytes "%7c" = byte '%' :: bytes "7c" := by decide
  rw [cipherText, urlEncode_f_eq]
  cases hbase : lib.encode input with
  | nil =>
      cases order with
      | nil => exact ⟨byte '%', _, rfl, by decide⟩
      | cons entry order =>
          exact ⟨byte '%', _, by rw [macroText, List.flatMap_cons, hpipe]; rfl, by decide⟩
  | cons b base =>
      have hb := base64Char_of (lawful.alphabet input b (by simp [hbase]))
      rw [List.flatMap_cons, escape]
      split
      · exact ⟨b, _, rfl, hb.2.1⟩
      · exact ⟨byte '%', _, rfl, by decide⟩

end

section
variable {Rate : Type} (env : ServerEnv Rate) (lawful : env.base64.Lawful)
  (distinct : Function.Injective env.keys) (notHolder : ∀ k, env.keys k ≠ macroHolder)
  (hssp : env.sspPid ≠ env.keys .dealId) {stray : Stray} {order : List (Bytes × Bytes)}
  {helper helper' : URLHelper} {text : Bytes}
  (hmacros : AllChars MacroChar helper.macroParamMap)
  (hdealPlain : env.keys .dealId ∉ helper.macroParamMap)
  (hcipher : cipherParam env.base64 stray (paramBindingTable env.keys) order helper =
    .ok (helper', text))
  (horder : helper'.macroParamMap.Traversal order)

include lawful hcipher in
theorem getParamv2_cipherParam :
    ∃ raw, getParamv2 ∅ text (byte '&') = some raw ∧ encodeHolder ∈ raw := by
  obtain ⟨-, -, rfl⟩ := cipherParam_ok hcipher
  obtain ⟨c, rest, htext, hc⟩ := cipherText_head lawful stray
    (recordBytes (paramBindingTable env.keys) helper.paramMap) order
  rw [htext]
  exact getParamv2_encodeHolder hc rest

include lawful hcipher in
theorem queryParams_click :
    queryParams env .CLICK text =
      some (processParamDataWithRetry env.base64 env.strays (paramBindingTable env.keys) text true
        ∅) := by
  obtain ⟨raw, hraw, hholder⟩ := getParamv2_cipherParam env lawful hcipher
  simp only [queryParams, hraw, Option.map_some, hholder, if_true, reduceCtorEq, and_false,
    if_false]

include lawful distinct hcipher in
/-- The parameters of a ciphered show query are the deciphered ones and a price. -/
theorem queryParams_show :
    ∃ m, queryParams env .SHOW text = some m ∧ env.keys .exchangePrice ∈ m ∧
      m.lookup (env.keys .dealId) =
        (processParamDataWithRetry env.base64 env.strays (paramBindingTable env.keys) text true
          ∅).lookup (env.keys .dealId) := by
  have hne : env.keys .dealId ≠ env.keys .exchangePrice := fun h => by cases distinct h
  obtain ⟨raw, hraw, hholder⟩ := getParamv2_cipherParam env lawful hcipher
  simp only [queryParams, hraw, Option.map_some, hholder, if_true, and_true]
  split
  · exact ⟨_, rfl, Finmap.mem_insert.mpr (.inl rfl), Finmap.lookup_insert_of_ne _ hne⟩
  · rename_i hmem
    exact ⟨_, rfl, not_not.mp hmem, rfl⟩

include lawful distinct notHolder hmacros hdealPlain hcipher horder in
theorem lookup_deciphered_dealId :
    (processParamDataWithRetry env.base64 env.strays (paramBindingTable env.keys) text true
        ∅).lookup (env.keys .dealId) =
      if text.length < 2048 ∧ lostXor (paramBindingTable env.keys) helper.paramMap = 0#64 ∧
          (stored .int (helper.paramMap.value (env.keys .dealId))).text ≠ [] then
        some (stored .int (helper.paramMap.value (env.keys .dealId))).text
      else none := by
  by_cases hlen : text.length < 2048
  · have hmap := (cipherParam_ok hcipher).2.1
    rw [processParamDataWithRetry_cipherParam lawful (macroHolder_notMem env.keys notHolder) stray
      env.strays hmacros hcipher horder (.inl rfl) hlen]
    rw [hmap] at horder
    have hitem : (env.keys .dealId, ParamType.int) ∈ paramBindingTable env.keys :=
      List.mem_map.mpr ⟨(.dealId, .int), by decide, rfl⟩
    rw [readBack]
    split
    · rename_i hlost
      rw [lookup_insertEntries horder, Finmap.lookup_insert_of_ne _ (notHolder .dealId),
        Finmap.lookup_eq_none.mpr hdealPlain, Option.or_none,
        lookup_storedRecord _ (paramBindingTable_nodup env.keys distinct) hitem]
      simp only [hlen, hlost, true_and]
    · rename_i hlost
      rw [Finmap.lookup_empty, if_neg fun h => hlost h.2.1]
  · rw [processParamDataWithRetry, if_pos (by omega), Finmap.lookup_empty, if_neg fun h => hlen h.1]

include lawful distinct hssp hcipher in
theorem dealSurvives_iff_lookup {task : QueryTask} (hphase : task.currentPhase = .SHOW)
    (hdata : task.data = text) {dealId : Bytes} (hne : dealId ≠ []) :
    DealSurvives env task dealId ↔
      ((processParamDataWithRetry env.base64 env.strays (paramBindingTable env.keys) text true
        ∅).lookup (env.keys .dealId)).map (stringSafeInput env.urlLongInputParameter) =
        some dealId := by
  obtain ⟨m, hquery, hprice, hdeal⟩ := queryParams_show env lawful distinct hcipher
  have hlookup := lookup_filterParamMapSafe_dealId env distinct hssp .SHOW m
  rw [hdeal] at hlookup
  rw [← hlookup]
  obtain ⟨log, hcommon, hadInfo⟩ := commonLogic_of_params env m hphase (hdata ▸ hquery)
  refine ⟨?_, ?_⟩
  · rintro ⟨m', log', hcommon', -, hfound, -⟩
    rw [hcommon] at hcommon'
    cases hcommon'
    exact hfound
  · intro hfound
    have hisDeal := isDeal_of_lookup hfound hne
    obtain ⟨priceText, htext⟩ := Finmap.mem_iff.mp (mem_filterParamMapSafe env .SHOW hprice)
    refine ⟨_, log, hcommon, hisDeal, hfound, ?_⟩
    have hlogType : (task.freshLog Rate).logType = .SHOW := hphase
    rw [hadInfo]
    intro price hdecode hclick
    simp only [ParamMap.value, htext, Option.getD_some, parseObjectToLogItem_adxid] at hdecode
    simp only [parseObjectToLogItem_deal env _ hisDeal htext hdecode, parseDevice_bill,
      parseDevice_priceType, priceRecord, parseTarget_logType, hlogType] at hclick ⊢
    exact calcPrice_deal_bidPrice env.billing env.ids hclick _ _ _ _ _ _ _

end

/-- A cut number cannot be the text it was read from. -/
theorem stored_int_text_take {value : Bytes} {limit : Nat} (hne : value ≠ [])
    (h : (stored .int value).text.take limit = value) : (stored .int value).text = value := by
  obtain ⟨n, hn⟩ : ∃ n : Nat, max (paramNumber value) 0 = n :=
    ⟨(max (paramNumber value) 0).toNat, by omega⟩
  have htext : (stored .int value).text = if n = 0 then [] else decimal n := by
    simp only [stored, FieldValue.text, hn, Int.natCast_eq_zero, intToString_natCast]
  rw [htext] at h ⊢
  split at h
  · rw [List.take_nil] at h
    exact absurd h.symm hne
  · rename_i hpos
    rw [if_neg hpos]
    by_contra hcut
    have hlen : value.length < (decimal n).length := by
      rw [← h, List.length_take]
      have hlimit : ¬ (decimal n).length ≤ limit := fun hle =>
        hcut (by rw [← h, List.take_of_length_le hle])
      omega
    have hdigits : ∀ x ∈ value, isDigit x = true := fun x hx =>
      isDigit_of_mem_decimal (List.mem_of_mem_take (h ▸ hx))
    have hread := Numeral.read_lt 10 digitValue fun d hd => digitValue_lt (hdigits d hd)
    have hnumber : paramNumber value = n := by omega
    rw [paramNumber, if_neg hne, stringToInt, stol_digits hne hdigits, checkLong] at hnumber
    split at hnumber
    · have hle := length_decimal_le (List.length_pos_iff.mpr hne) (Int.ofNat.inj hnumber ▸ hread)
      omega
    · simp at hnumber
      omega

def sampleEnv : ServerEnv Unit where
  keys := sampleKeys
  sspPid := bytes "pid"
  sspAdxPid := bytes "adxpid"
  urlLongInputParameter := 1024
  ids := sampleIds
  types := sampleTypes
  billing := blankLib
  base64 := cryptoBase64
  strays := fun _ => blankStray
  landingStray := blankStray
  extractAreaInfo := fun _ => {}
  userCookieLogic := fun _ => []

def dealParams (dealId : Bytes) : ParamMap :=
  Finmap.insert (sampleKeys .exchangePrice) (bytes "1500")
    (Finmap.insert (sampleKeys .dealId) dealId ∅)

/-- The show request for the ciphered URL of a deal id and a price. -/
def dealTask (dealId : Bytes) : QueryTask where
  currentPhase := .SHOW
  expectedReqStatus := 200
  reqMethod := 0
  timeStamp := 0
  userAgent := []
  referer := []
  userIp := []
  data := bareText (dealParams dealId)

theorem lookup_dealParams (dealId : Bytes) :
    (dealParams dealId).lookup (sampleKeys .dealId) = some dealId := by
  have hne : sampleKeys .dealId ≠ sampleKeys .exchangePrice := by decide
  rw [dealParams, Finmap.lookup_insert_of_ne _ hne, Finmap.lookup_insert]

theorem sampleEnv_sspPid : sampleEnv.sspPid ≠ sampleEnv.keys .dealId := by decide

end AdServer.Billing
