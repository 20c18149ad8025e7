import AdServer.Billing.Deal
import AdServer.Url.Lossless

/-!
A show on the own media (SSP): `HandleShowQueryTask::customLogic` selects the ad
itself, writes the show record and builds the click URL in `buildResponseForSsp`.
The two halves of the bill meet only through the parameters of that URL. Media
bought per click is paid in the click record, all other media in the show record;
the advertiser pays in the click record exactly when it settles per click.

The ad selection is a library; every answer it can give is considered. Of the
answer and of the JSON of the creative only what these functions read is kept.
-/
namespace AdServer.Billing

open AdServer.Url

abbrev CInt := { n : Int // -2 ^ 31 ≤ n ∧ n < 2 ^ 31 }

structure Solution where
  sId : Int
  advId : Int
  priceType : CInt

structure Material where
  p1 : Bytes
  p9 : Bytes

structure Banner where
  bId : Int
  primitive : Bool
  /-- `none` if the JSON cannot be read or `mtls` is not an array. -/
  mtls : Option Material

structure ADPlace where
  pId : Int
  adxPId : Bytes
  adxId : CInt
  mId : Int
  cId : Int
  priceType : CInt
  basePrice : CInt

structure SelectResult (Rate : Type) where
  solution : Solution
  banner : Banner
  adplace : ADPlace
  feePrice : CInt
  ppid : CInt
  orderId : Int
  bidPrice : CInt
  /-- `costRateDetails.getDetailStr(1.0)` -/
  detailStr : Bytes
  /-- `std::to_string(costRateDetails.spend)` -/
  spend : Bytes
  /-- `1.0 + costRateDetails.getFinalFeeRate()` -/
  finalRate : Rate

def encodePrice (price : Int) : Bytes := intToString price

section
variable {Rate : Type} (env : ServerEnv Rate)

/-- The parameters that `buildResponseForSsp` adds to the click URL, in order. -/
def sspClickEntries (r : SelectResult Rate) (landing address referer impId : Bytes) :
    List (UrlConst × Bytes) :=
  ([(.adplaceId, intToString r.adplace.pId), (.mttyadplaceId, intToString r.adplace.pId),
    (.adxId, intToString r.adplace.adxId), (.exposeId, impId),
    (.adownerId, intToString (wrapInt32 r.solution.advId)), (.execId, intToString r.solution.sId),
    (.productpackageId, intToString r.ppid), (.priceType, intToString r.solution.priceType),
    (.bidPrice, encodePrice r.feePrice), (.creativeId, intToString (wrapInt32 r.banner.bId)),
    (.referer, referer), (.clickId, bytes "000"), (.areaId, address),
    (.siteId, intToString r.adplace.mId), (.orderId, intToString r.orderId)] :
      List (UrlConst × Bytes)) ++
  (if r.adplace.priceType = env.types .rrtbCpc then
    [(.adplaceBuyType, intToString (env.types .rrtbCpc)),
      (.exchangePrice, intToString (wrapInt32 (r.adplace.basePrice * 100)))]
  else []) ++
  (if SettledPerClick env.types r.solution.priceType then
    [(.feeRateStrs, r.detailStr), (.feeRate, r.spend)]
  else []) ++
  [(.landingUrl, landing)]

/-- `mtls[0].get("p9", "")` of a primitive banner, `mtls[0].get("p1", "")` of the others. -/
def landingText (primitive : Bool) (material : Material) : Bytes :=
  if primitive then material.p9 else material.p1

/-- The parameters of the click URL. The JSON library can throw, and the code of the landing URL
can be larger than `landingPageBuffer`. -/
def buildResponseForSsp (r : SelectResult Rate) (stray : Stray) (address referer impId : Bytes) :
    Except Fault ParamMap :=
  match r.banner.mtls with
  | none => .error .exception
  | some material =>
    let landingUrl := landingText r.banner.primitive material
    if CodeFits stray landingUrl then
      .ok (paramsOf env.keys
        (sspClickEntries env r (urlEncode_f stray (passed landingUrl)) address referer impId))
    else .error .outside

/-- The record after an ad was selected. -/
def sspShowLog (r : SelectResult Rate) (geo : GeoInfo) (impId : Bytes) (log : LogItem Rate) :
    LogItem Rate :=
  let bidPrice : Int := if SettledPerClick env.types r.solution.priceType then 0 else r.feePrice
  { log with
    geoInfo := geo
    adInfo := { log.adInfo with
      bannerId := r.banner.bId
      advId := r.solution.advId
      adxid := r.adplace.adxId
      pid := intToString r.adplace.pId
      adxpid := r.adplace.adxPId
      sid := r.solution.sId
      mid := r.adplace.mId
      cid := r.adplace.cId
      priceType := r.solution.priceType
      ppid := r.ppid
      orderId := r.orderId
      bidEcpmPrice := r.bidPrice
      bidBasePrice := r.adplace.basePrice
      impId := impId
      bill :=
        { bidPrice := bidPrice
          cost :=
            if BoughtPerShow env.types r.adplace.priceType then wrapInt32 (r.adplace.basePrice * 100)
            else if r.adplace.priceType = env.types .rrtbCpc then 0
            else log.adInfo.bill.cost
          feeRateDetail :=
            if SettledPerClick env.types r.solution.priceType then log.adInfo.bill.feeRateDetail
            else env.billing.costdetailVec r.detailStr (env.billing.div bidPrice r.finalRate) } } }

/-- What `customLogic` of a show on the own media ends with. `showLog` is passed to
`doLog` as it stands; the record that is left for the caller is the other one. -/
inductive SspOutcome (Rate : Type)
  | pidEmpty
  | selectFailed (log : LogItem Rate)
  | shown (showLog : LogItem Rate) (clickParams : ParamMap) (log : LogItem Rate)

/-- The SSP branch of `HandleShowQueryTask::customLogic`. `search` is the answer of the ad selection,
`mobile` the kind of the device. -/
def customLogicSsp (search : Bool × SelectResult Rate) (mobile : Bool) (stray : Stray)
    (geo : GeoInfo) (address referer impId : Bytes) (m : ParamMap) (log : LogItem Rate) :
    Except Fault (SspOutcome Rate) :=
  let queryPid := m.value env.sspPid
  let isAdxPid : Bool := queryPid = [] ∨ queryPid = bytes "0"
  let r := search.2
  if isAdxPid ∧ m.value env.sspAdxPid = [] then .ok .pidEmpty
  else if ¬ isAdxPid ∧ stoi queryPid = none then .error .exception
  else if search.1 then
    (buildResponseForSsp env r stray address referer impId).map fun clickParams =>
      let showLog := sspShowLog env r geo impId log
      .shown showLog clickParams { showLog with logType := .BID }
  else
    .ok (.selectFailed
      { log with
        logType := .BID
        adInfo.adxid := if mobile then env.ids .sspMobile else env.ids .sspPc
        adInfo.pid := intToString r.adplace.pId
        adInfo.adxpid := r.adplace.adxPId
        reqStatus := 500 })

/-- The query decoded to the parameters that were ciphered and not empty; numbers
that are zero may be missing. -/
def Decoded (keys : UrlConst → Bytes) (sent received : ParamMap) : Prop :=
  ∀ item ∈ paramBindingTable keys,
    received.lookup item.1 = (sent.lookup item.1).filter (· ≠ []) ∨
    item.2 = .int ∧ stringToInt (sent.value item.1) = 0 ∧ received.lookup item.1 = none

/-- Media cost and advertiser spend stand in one of the two bills each. -/
def BilledOnce (r : SelectResult Rate) (showBill clickBill : Bill Rate) : Prop :=
  (if r.adplace.priceType = env.types .rrtbCpc then
    showBill.cost = 0 ∧ clickBill.cost = r.adplace.basePrice * 100 * 1000
  else showBill.cost = r.adplace.basePrice * 100 ∧ clickBill.cost = 0) ∧
  (if SettledPerClick env.types r.solution.priceType then
    showBill.bidPrice = 0 ∧ clickBill.bidPrice = r.feePrice * 1000
  else showBill.bidPrice = r.feePrice ∧ clickBill.bidPrice = 0)

end

/-! ### The program's own text decodes -/

/-- Every number of the map is absent, empty or a decimal text. -/
def DecimalInts (table : List ParamBindingItem) (m : ParamMap) : Prop :=
  ∀ item ∈ table, item.2 = .int →
    m.value item.1 = [] ∨ m.value item.1 = decimal (stringToInt (m.value item.1)).toNat

section
variable {value : Bytes} (h : value = [] ∨ value = decimal (stringToInt value).toNat)
include h

theorem paramNumber_nonneg_of_decimal : 0 ≤ paramNumber value := by
  have hrange := stringToInt_range value
  obtain hempty | hdecimal := h
  · rw [paramNumber, if_pos hempty]
  · rw [paramNumber, if_neg (hdecimal ▸ decimal_ne_nil _), hdecimal, stringToInt_decimal (by omega)]
    omega

/-- A decimal text is stored as it is, but zero is not stored. -/
theorem stored_int_text_of_decimal :
    (stored .int value).text = value ∨
      stringToInt value = 0 ∧ (stored .int value).text = [] := by
  have hrange := stringToInt_range value
  have hnonneg := paramNumber_nonneg_of_decimal h
  obtain hempty | hdecimal := h
  · left
    rw [hempty, stored_int_text_absent]
  · rw [paramNumber, if_neg (hdecimal ▸ decimal_ne_nil _)] at hnonneg
    by_cases hzero : stringToInt value = 0
    · right
      rw [hzero] at hdecimal
      refine ⟨hzero, ?_⟩
      rw [hdecimal]
      decide
    · left
      have htext := stored_int_text_decimal (n := (stringToInt value).toNat) (by omega) (by omega)
      rwa [← hdecimal] at htext

end

theorem filter_lookup (m : ParamMap) (key : Bytes) :
    (m.lookup key).filter (· ≠ []) = if m.value key ≠ [] then some (m.value key) else none := by
  rw [ParamMap.value]
  cases m.lookup key with
  | none => rfl
  | some v => by_cases hv : v = [] <;> simp [hv]

theorem decoded_cipherParam {lib : Base64Lib} (lawful : lib.Lawful) {keys : UrlConst → Bytes}
    (distinct : Function.Injective keys) (notHolder : ∀ k, keys k ≠ macroHolder) {stray : Stray}
    (strays : Nat → Stray) {order : List (Bytes × Bytes)} {helper helper' : URLHelper} {text : Bytes}
    (hmacros : helper.macroParamMap = ∅)
    (hcipher : cipherParam lib stray (paramBindingTable keys) order helper = .ok (helper', text))
    (horder : helper'.macroParamMap.Traversal order) (hlen : text.length < 2048)
    (hint : DecimalInts (paramBindingTable keys) helper.paramMap)
    (hshort : ShortStrings (paramBindingTable keys) helper.paramMap) :
    Decoded keys helper.paramMap
      (processParamDataWithRetry lib strays (paramBindingTable keys) text true ∅) := by
  have hmap := (cipherParam_ok hcipher).2.1
  have hchars : AllChars MacroChar helper.macroParamMap := by
    rw [hmacros]
    intro name value h
    cases h
  rw [processParamDataWithRetry_cipherParam lawful (macroHolder_notMem keys notHolder) stray strays
    hchars hcipher horder (.inl rfl) hlen]
  rw [hmap, hmacros] at horder
  have hnumber : ∀ item ∈ paramBindingTable keys, item.2 = .int →
      0 ≤ paramNumber (helper.paramMap.value item.1) := fun item hitem htype =>
    paramNumber_nonneg_of_decimal (hint item hitem htype)
  intro item hitem
  have hkey : item.1 ≠ macroHolder := by
    obtain ⟨k, hk⟩ := mem_paramBindingTable_key keys hitem
    exact hk ▸ notHolder k
  rw [readBack, if_pos (lostXor_of_nonneg hnumber hshort), lookup_insertEntries horder,
    Finmap.lookup_insert_of_ne _ hkey, Finmap.lookup_empty, Option.or_none,
    lookup_storedRecord _ (paramBindingTable_nodup keys distinct) hitem, filter_lookup]
  cases htype : item.2 with
  | string =>
      left
      rw [(stored_string_text_iff _).mpr (hshort item hitem htype)]
  | int =>
      obtain htext | ⟨hzero, htext⟩ := stored_int_text_of_decimal (hint item hitem htype)
      · left
        rw [htext]
      · right
        rw [htext]
        exact ⟨rfl, hzero, rfl⟩

/-! ### The parameters that arrive -/

section
variable {Rate : Type} {env : ServerEnv Rate} (distinct : Function.Injective env.keys)
  {entries : List (UrlConst × Bytes)} {received : ParamMap}
  (hdecode : Decoded env.keys (paramsOf env.keys entries) received)

include distinct hdecode in
theorem lookup_received {k : UrlConst} {type : ParamType} (hrow : (k, type) ∈ paramBindingRows) :
    received.lookup (env.keys k) = (lastAdded k entries).filter (· ≠ []) ∨
    type = .int ∧ stringToInt ((lastAdded k entries).getD []) = 0 ∧
      received.lookup (env.keys k) = none := by
  have hitem := hdecode (env.keys k, type) (List.mem_map.mpr ⟨(k, type), hrow, rfl⟩)
  simpa only [ParamMap.value, lookup_paramsOf env.keys distinct] using hitem

theorem lookup_filterParamMapSafe_click (env : ServerEnv Rate) (m : ParamMap) (key : Bytes) :
    (filterParamMapSafe env .CLICK m).lookup key =
      (m.lookup key).map (stringSafeInput env.urlLongInputParameter) := by
  simp only [filterParamMapSafe, reduceCtorEq, if_false, ParamMap.lookup_mapValues]

include distinct hdecode in
theorem lookup_click_none {k : UrlConst} {type : ParamType} (hrow : (k, type) ∈ paramBindingRows)
    (hadded : lastAdded k entries = none) :
    (filterParamMapSafe env .CLICK received).lookup (env.keys k) = none := by
  rw [lookup_filterParamMapSafe_click]
  rcases lookup_received distinct hdecode hrow with hfound | ⟨-, -, hnone⟩
  · rw [hfound, hadded]
    rfl
  · rw [hnone]
    rfl

include distinct hdecode in
/-- A number that was sent arrives as its text, or is zero and missing. -/
theorem lookup_click_number (hlimit : 11 ≤ env.urlLongInputParameter) {k : UrlConst}
    {type : ParamType} (hrow : (k, type) ∈ paramBindingRows) {n : Int}
    (hn : -2 ^ 31 ≤ n ∧ n < 2 ^ 31) (hadded : lastAdded k entries = some (intToString n)) :
    (filterParamMapSafe env .CLICK received).lookup (env.keys k) = some (intToString n) ∨
    type = .int ∧ n = 0 ∧ (filterParamMapSafe env .CLICK received).lookup (env.keys k) = none := by
  have hlen := length_intToString_le hn
  rw [lookup_filterParamMapSafe_click]
  rcases lookup_received distinct hdecode hrow with hfound | ⟨htype, hzero, hnone⟩
  · left
    rw [hfound, hadded, Option.filter_some, if_pos (by simpa using intToString_ne_nil n),
      Option.map_some, stringSafeInput, List.take_of_length_le (by omega)]
  · right
    rw [hadded, Option.getD_some, stringToInt_intToString (by omega)] at hzero
    exact ⟨htype, hzero, by rw [hnone]; rfl⟩

end

section
variable {Rate : Type} {env : ServerEnv Rate} {r : SelectResult Rate}
  {landing address referer impId : Bytes} {received : ParamMap}
  (distinct : Function.Injective env.keys) (hlimit : 11 ≤ env.urlLongInputParameter)
  (hdecode : Decoded env.keys
    (paramsOf env.keys (sspClickEntries env r landing address referer impId)) received)

include distinct hlimit hdecode in
/-- A reader of a number gets the number, if its default is what it makes of zero. -/
theorem elim_click_number {β : Type} {k : UrlConst} {type : ParamType}
    (hrow : (k, type) ∈ paramBindingRows) {n : Int} (hn : -2 ^ 31 ≤ n ∧ n < 2 ^ 31)
    (hadded : lastAdded k (sspClickEntries env r landing address referer impId) =
      some (intToString n))
    (read : Bytes → β) (default : β) (hdefault : n = 0 → default = read (intToString n)) :
    ((filterParamMapSafe env .CLICK received).lookup (env.keys k)).elim default read =
      read (intToString n) := by
  rcases lookup_click_number distinct hdecode hlimit hrow hn hadded with hfound | ⟨-, hzero, hnone⟩
  · rw [hfound, Option.elim_some]
  · rw [hnone, Option.elim_none, hdefault hzero]

theorem wrapInt32_stringToInt {n : Int} (hn : -2 ^ 31 ≤ n ∧ n < 2 ^ 31) :
    wrapInt32 (stringToInt (intToString n)) = n := by
  rw [stringToInt_intToString (by omega), wrapInt32_eq_self_iff.mpr hn]

include distinct hlimit hdecode in
theorem click_adxid (log : LogItem Rate) (hlog : log.adInfo.adxid = 0) :
    (parseTarget env (filterParamMapSafe env .CLICK received) log).adInfo.adxid =
      r.adplace.adxId := by
  have hn := r.adplace.adxId.2
  rw [parseTarget_adxid, elim_click_number distinct hlimit hdecode
    (by decide : (UrlConst.adxId, ParamType.int) ∈ paramBindingRows) hn]
  · exact wrapInt32_stringToInt hn
  · unfold sspClickEntries
    split <;> split <;> rfl
  · intro hzero
    rw [wrapInt32_stringToInt hn, hlog, hzero]

include distinct hlimit hdecode in
theorem click_priceType :
    priceTypeOf env (filterParamMapSafe env .CLICK received) = r.solution.priceType := by
  have hn := r.solution.priceType.2
  rw [priceTypeOf, elim_click_number distinct hlimit hdecode
    (by decide : (UrlConst.priceType, ParamType.int) ∈ paramBindingRows) hn]
  · exact wrapInt32_stringToInt hn
  · unfold sspClickEntries
    split <;> split <;> rfl
  · intro hzero
    rw [wrapInt32_stringToInt hn, hzero]

theorem decodeOfferPrice_encodePrice {n : Int} (hnonneg : 0 ≤ n) (hn : n < 2 ^ 31) :
    decodeOfferPrice (encodePrice n) = n := by
  rw [decodeOfferPrice, encodePrice, stoi_intToString (by omega)]
  exact if_neg (by omega)

include distinct hlimit hdecode in
theorem click_offerPrice (hfee : 0 ≤ (r.feePrice : Int)) :
    offerPriceOf env (filterParamMapSafe env .CLICK received) = r.feePrice := by
  have hn := r.feePrice.2
  have hread : decodeOfferPrice (intToString r.feePrice) = r.feePrice :=
    decodeOfferPrice_encodePrice hfee hn.2
  rw [offerPriceOf, elim_click_number distinct hlimit hdecode
    (by decide : (UrlConst.bidPrice, ParamType.int) ∈ paramBindingRows) hn]
  · exact hread
  · unfold sspClickEntries
    split <;> split <;> rfl
  · intro hzero
    rw [hread, hzero]

include distinct hdecode in
theorem click_not_deal : isDeal env (filterParamMapSafe env .CLICK received) = false := by
  have hnone := lookup_click_none distinct hdecode
    (by decide : (UrlConst.dealId, ParamType.int) ∈ paramBindingRows) (by
      unfold sspClickEntries
      split <;> split <;> rfl)
  simp [isDeal, Finmap.lookup_eq_none.mp hnone]

include distinct hlimit hdecode in
theorem click_bought_perClick (hbuy : r.adplace.priceType = env.types .rrtbCpc)
    (hpos : 0 < env.types .rrtbCpc) :
    adplaceBuyTypeOf env (filterParamMapSafe env .CLICK received) = env.types .rrtbCpc ∧
    (filterParamMapSafe env .CLICK received).lookup (env.keys .exchangePrice) =
      some (intToString (wrapInt32 (r.adplace.basePrice * 100))) := by
  have hn : -2 ^ 31 ≤ env.types .rrtbCpc ∧ env.types .rrtbCpc < 2 ^ 31 :=
    hbuy ▸ r.adplace.priceType.2
  refine ⟨?_, ?_⟩
  · rw [adplaceBuyTypeOf, elim_click_number distinct hlimit hdecode
      (by decide : (UrlConst.adplaceBuyType, ParamType.int) ∈ paramBindingRows) hn]
    · rw [stoi_intToString hn, Option.getD_some]
    · rw [sspClickEntries, if_pos hbuy]
      split <;> rfl
    · intro hzero
      omega
  · refine (lookup_click_number distinct hdecode hlimit
      (by decide : (UrlConst.exchangePrice, ParamType.string) ∈ paramBindingRows)
      (wrapInt32_range _) ?_).resolve_right fun h => by cases h.1
    rw [sspClickEntries, if_pos hbuy]
    split <;> rfl

include distinct hdecode in
theorem click_not_bought_perClick (hbuy : r.adplace.priceType ≠ env.types .rrtbCpc) :
    adplaceBuyTypeOf env (filterParamMapSafe env .CLICK received) = env.types .rrtbCpm ∧
    (filterParamMapSafe env .CLICK received).lookup (env.keys .exchangePrice) = none := by
  refine ⟨?_, ?_⟩
  · rw [adplaceBuyTypeOf, lookup_click_none distinct hdecode
      (by decide : (UrlConst.adplaceBuyType, ParamType.int) ∈ paramBindingRows) (by
        rw [sspClickEntries, if_neg hbuy]
        split <;> rfl), Option.elim_none]
  · exact lookup_click_none distinct hdecode
      (by decide : (UrlConst.exchangePrice, ParamType.string) ∈ paramBindingRows) (by
        rw [sspClickEntries, if_neg hbuy]
        split <;> rfl)

end

/-! ### The bill of the click -/

theorem decodeAdxExchangePrice_ssp {Rate : Type} (lib : BillingLib Rate) {ids : AdxConst → Int}
    (hids : Function.Injective ids) {adx : Int} (hadx : adx = ids .sspPc ∨ adx = ids .sspMobile)
    {n : Int} (hn : -2 ^ 31 ≤ n ∧ n < 2 ^ 31) :
    decodeAdxExchangePrice lib ids adx (intToString n) = some n := by
  rw [decodeAdxExchangePrice, if_neg (intToString_ne_nil n)]
  rcases hadx with rfl | rfl <;>
    simp only [AdxConst.label_of ids hids, stoi_intToString hn, Option.getD_some]

theorem not_fixPrice_ssp {ids : AdxConst → Int} (hids : Function.Injective ids) {adx : Int}
    (hadx : adx = ids .sspPc ∨ adx = ids .sspMobile) : fixPrice ids adx false = false := by
  rcases hadx with rfl | rfl <;> simp [fixPrice, hids.eq_iff]

theorem not_boughtPerShow_cpc {types : PriceTypeConst → Int} (htypes : Function.Injective types)
    (hpos : 0 < types .rrtbCpc) : ¬ BoughtPerShow types (types .rrtbCpc) := by
  rintro (hzero | hcpm)
  · omega
  · cases htypes hcpm

/-- The price and the buy type that reach `calcPrice` in the click. -/
def clickCharge {Rate : Type} (env : ServerEnv Rate) (r : SelectResult Rate) : Int × Int :=
  if r.adplace.priceType = env.types .rrtbCpc then
    (wrapInt32 (r.adplace.basePrice * 100), env.types .rrtbCpc)
  else (0, env.types .rrtbCpm)

theorem click_bill {Rate : Type} {env : ServerEnv Rate} (distinct : Function.Injective env.keys)
    (hids : Function.Injective env.ids) (hpos : 0 < env.types .rrtbCpc)
    (hlimit : 11 ≤ env.urlLongInputParameter) {r : SelectResult Rate}
    (hfee : 0 ≤ (r.feePrice : Int))
    (hadx : r.adplace.adxId = env.ids .sspPc ∨ r.adplace.adxId = env.ids .sspMobile)
    {landing address referer impId : Bytes} {received : ParamMap}
    (hdecode : Decoded env.keys
      (paramsOf env.keys (sspClickEntries env r landing address referer impId)) received)
    {log : LogItem Rate} (hfresh : log.adInfo = {}) (hphase : log.logType = .CLICK) :
    ∃ feeRate feeRateDetail,
      (parseObjectToLogItem env (filterParamMapSafe env .CLICK received) log).adInfo.bill =
        calcPrice env.billing env.ids env.types r.adplace.adxId false (clickCharge env r).1
          r.feePrice feeRate feeRateDetail {} .CLICK r.solution.priceType (clickCharge env r).2 := by
  have hadxid := click_adxid distinct hlimit hdecode log (by rw [hfresh])
  have hdeal := click_not_deal distinct hdecode
  have hprice := click_priceType distinct hlimit hdecode
  have hoffer := click_offerPrice distinct hlimit hdecode hfee
  have hparse : parsePrice env (filterParamMapSafe env .CLICK received)
        (parseTarget env (filterParamMapSafe env .CLICK received) log) =
      some (priceRecord env (filterParamMapSafe env .CLICK received) false (clickCharge env r).1
        (parseTarget env (filterParamMapSafe env .CLICK received) log)) ∧
      adplaceBuyTypeOf env (filterParamMapSafe env .CLICK received) = (clickCharge env r).2 := by
    by_cases hbuy : r.adplace.priceType = env.types .rrtbCpc
    · obtain ⟨hbuyType, htext⟩ := click_bought_perClick distinct hlimit hdecode hbuy hpos
      simp only [clickCharge, hbuy, if_true, parsePrice, htext, hadxid, hdeal, hbuyType,
        decodeAdxExchangePrice_ssp env.billing hids hadx (wrapInt32_range _), Option.map_some,
        and_self]
    · obtain ⟨hbuyType, htext⟩ := click_not_bought_perClick distinct hdecode hbuy
      simp only [clickCharge, hbuy, if_false, parsePrice, htext, hbuyType, and_self]
  refine ⟨feeRateOf env (filterParamMapSafe env .CLICK received),
    (filterParamMapSafe env .CLICK received).value (env.keys .feeRateStrs), ?_⟩
  simp only [parseObjectToLogItem, hparse.1, parseDevice_bill, priceRecord, hadxid, hoffer,
    parseTarget_bill, parseTarget_logType, parseTarget_priceType, hprice, hparse.2, hfresh, hphase]

theorem buildResponseForSsp_ok {Rate : Type} {env : ServerEnv Rate} {r : SelectResult Rate}
    {stray : Stray} {address referer impId : Bytes} {clickParams : ParamMap}
    (h : buildResponseForSsp env r stray address referer impId = .ok clickParams) :
    ∃ landing, clickParams =
      paramsOf env.keys (sspClickEntries env r landing address referer impId) := by
  unfold buildResponseForSsp at h
  cases hmtls : r.banner.mtls with
  | none =>
      rw [hmtls] at h
      cases h
  | some material =>
      simp only [hmtls] at h
      split at h
      · cases h
        exact ⟨_, rfl⟩
      · cases h

theorem customLogicSsp_shown {Rate : Type} {env : ServerEnv Rate} {search : Bool × SelectResult Rate}
    {mobile : Bool} {stray : Stray} {geo : GeoInfo} {address referer impId : Bytes} {m : ParamMap}
    {log showLog bidLog : LogItem Rate} {clickParams : ParamMap}
    (h : customLogicSsp env search mobile stray geo address referer impId m log =
      .ok (.shown showLog clickParams bidLog)) :
    showLog = sspShowLog env search.2 geo impId log ∧
    ∃ landing, clickParams =
      paramsOf env.keys (sspClickEntries env search.2 landing address referer impId) := by
  unfold customLogicSsp at h
  simp only at h
  split at h
  · cases h
  · split at h
    · cases h
    · split at h
      · cases hbuild : buildResponseForSsp env search.2 stray address referer impId with
        | error fault =>
            rw [hbuild] at h
            cases h
        | ok built =>
            rw [hbuild] at h
            cases h
            exact ⟨rfl, buildResponseForSsp_ok hbuild⟩
      · cases h

/-- Whatever ad is selected for media bought per impression or per click, the cost
of the media and the spend of the advertiser are each written to exactly one of
the show record and the click record. -/
theorem ssp_billedOnce {Rate : Type} (env : ServerEnv Rate) (distinct : Function.Injective env.keys)
    (hids : Function.Injective env.ids) (htypes : Function.Injective env.types)
    (hpos : ∀ t, 0 < env.types t) (hlimit : 11 ≤ env.urlLongInputParameter)
    (search : Bool × SelectResult Rate)
    (hbase : 0 ≤ (search.2.adplace.basePrice : Int) ∧
      (search.2.adplace.basePrice : Int) * 100 * 1000 < 2 ^ 31)
    (hfee : 0 ≤ (search.2.feePrice : Int) ∧ (search.2.feePrice : Int) * 1000 < 2 ^ 31)
    (hbuy : (search.2.adplace.priceType : Int) = 0 ∨
      search.2.adplace.priceType = env.types .rrtbCpm ∨
      search.2.adplace.priceType = env.types .rrtbCpc)
    (hadx : search.2.adplace.adxId = env.ids .sspPc ∨
      search.2.adplace.adxId = env.ids .sspMobile)
    (mobile : Bool) (stray : Stray) (geo : GeoInfo) (address referer impId : Bytes) (m : ParamMap)
    (log showLog bidLog : LogItem Rate) (clickParams received : ParamMap)
    (hshow : customLogicSsp env search mobile stray geo address referer impId m log =
      .ok (.shown showLog clickParams bidLog))
    (task : QueryTask) (hphase : task.currentPhase = .CLICK)
    (hquery : queryParams env .CLICK task.data = some received)
    (hdecode : Decoded env.keys clickParams received) :
    ∃ m' clickLog, commonLogic env task = some (m', clickLog) ∧
      BilledOnce env search.2 showLog.adInfo.bill clickLog.adInfo.bill := by
  obtain ⟨rfl, landing, rfl⟩ := customLogicSsp_shown hshow
  obtain ⟨clickLog, hcommon, hadInfo⟩ := commonLogic_of_params env received hphase hquery
  refine ⟨_, clickLog, hcommon, ?_⟩
  obtain ⟨feeRate, feeRateDetail, hbill⟩ := click_bill distinct hids (hpos .rrtbCpc) hlimit hfee.1
    hadx hdecode (rfl : (task.freshLog Rate).adInfo = {}) hphase
  simp only [BilledOnce, hadInfo, hbill, calcPrice_click_cost, calcPrice_click_bidPrice, sspShowLog,
    settledOffer, not_fixPrice_ssp hids hadx, Bool.false_eq_true, false_and, if_false]
  have hcpc := not_boughtPerShow_cpc htypes (hpos .rrtbCpc)
  have hcpm : BoughtPerShow env.types (env.types .rrtbCpm) := .inr rfl
  have hhundred : wrapInt32 (search.2.adplace.basePrice * 100) = search.2.adplace.basePrice * 100 :=
    wrapInt32_eq_self_iff.mpr (by omega)
  refine ⟨?_, ?_⟩
  · split
    · rename_i hperClick
      simp only [clickCharge, hperClick, hcpc, if_true, if_false, true_and, hhundred]
      exact wrapInt32_eq_self_iff.mpr (by omega)
    · rename_i hperShow
      have hbought : BoughtPerShow env.types search.2.adplace.priceType := by
        rcases hbuy with hzero | hshow | hperClick
        · exact .inl hzero
        · exact .inr hshow
        · exact absurd hperClick hperShow
      simp only [clickCharge, hperShow, hbought, hcpm, if_true, if_false, hhundred, true_and]
      decide
  · split
    · exact ⟨rfl, wrapInt32_eq_self_iff.mpr (by omega)⟩
    · exact ⟨rfl, rfl⟩

/-- Media bought per click at 3, sold per click at 250. -/
def sampleSelect : SelectResult Unit where
  solution := { sId := 11, advId := 12, priceType := ⟨sampleTypes .rrtbCpc, by decide⟩ }
  banner := { bId := 13, primitive := false, mtls := some ⟨bytes "u", []⟩ }
  adplace :=
    { pId := 14
      adxPId := bytes "a"
      adxId := ⟨sampleIds .sspPc, by decide⟩
      mId := 15
      cId := 16
      priceType := ⟨sampleTypes .rrtbCpc, by decide⟩
      basePrice := ⟨3, by decide⟩ }
  feePrice := ⟨250, by decide⟩
  ppid := ⟨0, by decide⟩
  orderId := 17
  bidPrice := ⟨0, by decide⟩
  detailStr := []
  spend := bytes "1.000000"
  finalRate := ()

def sampleClickParams : ParamMap :=
  paramsOf sampleKeys (sspClickEntries sampleEnv sampleSelect (bytes "u") (bytes "0086-0-0") []
    (bytes "1"))

def sampleClickTask : QueryTask where
  currentPhase := .CLICK
  expectedReqStatus := 302
  reqMethod := 0
  timeStamp := 0
  userAgent := []
  referer := []
  userIp := []
  data := bareText sampleClickParams

theorem ssp_billedOnce_sample :
    ∃ m' clickLog, commonLogic sampleEnv sampleClickTask = some (m', clickLog) ∧
      BilledOnce sampleEnv sampleSelect
        (sspShowLog sampleEnv sampleSelect {} (bytes "1") {}).adInfo.bill clickLog.adInfo.bill := by
  have hescaped : escapedSize blankStray (cryptoBase64.encode
      (recordBytes (paramBindingTable sampleKeys) sampleClickParams)) < 1000 := by
    decide +kernel
  have hlen := length_bareText_le sampleClickParams
  have hcipher := cipherParam_bareHelper (m := sampleClickParams) (by decide)
    (hescaped.trans (by decide))
  refine ssp_billedOnce sampleEnv sampleKeys_injective sampleIds_injective
    sampleTypes_injective sampleTypes_pos (by decide)
    (true, sampleSelect) (by decide) (by decide) (by decide) (by decide) false blankStray {}
    (bytes "0086-0-0") [] (bytes "1") (Finmap.insert (bytes "pid") (bytes "5") ∅) {} _ _
    sampleClickParams _ rfl sampleClickTask rfl
    (queryParams_click sampleEnv cryptoBase64_lawful hcipher)
    (decoded_cipherParam cryptoBase64_lawful sampleKeys_injective sampleKeys_ne_macroHolder _ rfl
      hcipher (bareOrder_traversal _) (by omega) ?_ ?_)
  · unfold DecimalInts
    decide
  · unfold ShortStrings
    decide

end AdServer.Billing
