import AdServer.Billing.Price
import AdServer.Url.Cipher

/-!
From the query of a show or click request to its log record: the decoding and
length filter of `commonLogic`, and `parseObjectToLogItem`. The record has the
fields these functions write.

What the code takes from elsewhere is gathered in `ServerEnv`: the texts and
numbers of `mtty/constants.h`, the libraries, the memory that percent decoding
meets, and the user id found by `userCookieLogic`.
-/
namespace AdServer.Billing

open AdServer.Url

structure GeoInfo where
  country : Int := 0
  province : Int := 0
  city : Int := 0
  deriving DecidableEq, Repr

structure AdInfo (Rate : Type) where
  areaId : Bytes := []
  advId : Int := 0
  cpid : Int := 0
  sid : Int := 0
  bannerId : Int := 0
  clickId : Bytes := []
  adxid : Int := 0
  mid : Int := 0
  cid : Int := 0
  pid : Bytes := []
  impId : Bytes := []
  landingUrl : Bytes := []
  adxpid : Bytes := []
  priceType : Int := 0
  ppid : Int := 0
  orderId : Int := 0
  bidBasePrice : Int := 0
  bidEcpmPrice : Int := 0
  bill : Bill Rate := {}

structure LogItem (Rate : Type) where
  timeStamp : Int := 0
  logType : LogPhaseType := .BID
  reqStatus : Int := 0
  reqMethod : Int := 0
  proxy : Bytes := []
  referer : Bytes := []
  userId : Bytes := []
  userAgent : Bytes := []
  geoInfo : GeoInfo := {}
  adInfo : AdInfo Rate := {}
  clickx : Int := 0
  clicky : Int := 0
  deviceID : Bytes := []

structure ServerEnv (Rate : Type) where
  keys : UrlConst → Bytes
  sspPid : Bytes
  sspAdxPid : Bytes
  urlLongInputParameter : Nat
  ids : AdxConst → Int
  types : PriceTypeConst → Int
  billing : BillingLib Rate
  base64 : Base64Lib
  strays : Nat → Stray
  landingStray : Stray
  extractAreaInfo : Bytes → GeoInfo
  userCookieLogic : ParamMap → Bytes

section
variable {Rate : Type} (env : ServerEnv Rate)

/-- `if ((iter = paramMap.find(key)) != paramMap.end()) set(iter->second)`. -/
def onParam (m : ParamMap) (key : Bytes) (set : Bytes → LogItem Rate → LogItem Rate)
    (log : LogItem Rate) : LogItem Rate :=
  (m.lookup key).elim log fun value => set value log

def priceTypeOf (m : ParamMap) : Int :=
  (m.lookup (env.keys .priceType)).elim 0 fun text => wrapInt32 (stringToInt text)

/-- `parseObjectToLogItem` up to the order id. -/
def parseTarget (m : ParamMap) (log : LogItem Rate) : LogItem Rate :=
  log
  |> onParam m (env.keys .landingUrl) (fun url log =>
      { log with adInfo.landingUrl := cString (urlDecode_f env.landingStray url) })
  |> onParam m (env.keys .referer) (fun f log => { log with referer := f })
  |> onParam m (env.keys .adplaceId) (fun s log =>
      { log with adInfo.pid := bytes "0", adInfo.adxpid := s })
  |> onParam m (env.keys .mttyadplaceId) (fun s log => { log with adInfo.pid := s })
  |> onParam m (env.keys .exposeId) (fun r log => { log with adInfo.impId := r })
  |> onParam m (env.keys .siteId) (fun mid log => { log with adInfo.mid := stringToInt mid })
  |> onParam m (env.keys .adownerId) (fun d log =>
      { log with adInfo.advId := stringToInt d, adInfo.cpid := stringToInt d })
  |> onParam m (env.keys .execId) (fun e log => { log with adInfo.sid := stringToInt e })
  |> onParam m (env.keys .creativeId) (fun c log =>
      { log with adInfo.bannerId := stringToInt c })
  |> onParam m (env.keys .adxId) (fun x log =>
      { log with adInfo.adxid := wrapInt32 (stringToInt x) })
  |> onParam m (env.keys .clickId) (fun h log => { log with adInfo.clickId := h })
  |> onParam m (env.keys .areaId) (fun a log =>
      { log with adInfo.areaId := a, geoInfo := env.extractAreaInfo (cString a) })
  |> onParam m (env.keys .clickX) (fun sx log => { log with clickx := wrapInt32 (stringToInt sx) })
  |> onParam m (env.keys .clickY) (fun sy log => { log with clicky := wrapInt32 (stringToInt sy) })
  |> (fun log => { log with adInfo.priceType := priceTypeOf env m })
  |> onParam m (env.keys .orderId) (fun orderId log =>
      { log with adInfo.orderId := stringToInt orderId })

def isDeal (m : ParamMap) : Bool :=
  env.keys .dealId ∈ m ∧ m.value (env.keys .dealId) ≠ []

def feeRateOf (m : ParamMap) : Rate :=
  (m.lookup (env.keys .feeRate)).elim env.billing.one fun text =>
    let feeRate := (env.billing.stod text).getD env.billing.zero
    if env.billing.le feeRate env.billing.one then env.billing.one else feeRate

def offerPriceOf (m : ParamMap) : Int := (m.lookup (env.keys .bidPrice)).elim 0 decodeOfferPrice

def adplaceBuyTypeOf (m : ParamMap) : Int :=
  (m.lookup (env.keys .adplaceBuyType)).elim (env.types .rrtbCpm) fun text => (stoi text).getD 0

def priceRecord (m : ParamMap) (isDeal : Bool) (decodePrice : Int) (log : LogItem Rate) :
    LogItem Rate :=
  { log with
    adInfo.bill := calcPrice env.billing env.ids env.types log.adInfo.adxid isDeal decodePrice
      (offerPriceOf env m) (feeRateOf env m) (m.value (env.keys .feeRateStrs)) log.adInfo.bill
      log.logType log.adInfo.priceType (adplaceBuyTypeOf env m) }

/-- The prices; `none` is the exception of the exchange price. -/
def parsePrice (m : ParamMap) (log : LogItem Rate) : Option (LogItem Rate) :=
  match m.lookup (env.keys .exchangePrice) with
  | some price =>
      (decodeAdxExchangePrice env.billing env.ids log.adInfo.adxid price).map fun decodePrice =>
        priceRecord env m (isDeal env m) decodePrice log
  | none => some (priceRecord env m false 0 log)

def addDevice (name : String) (deviceId : Bytes) (log : LogItem Rate) : LogItem Rate :=
  { log with deviceID := log.deviceID ++ (bytes name ++ deviceId ++ bytes ",") }

def parseDevice (m : ParamMap) (log : LogItem Rate) : LogItem Rate :=
  log
  |> onParam m (env.keys .productpackageId) (fun ppid log =>
      { log with adInfo.ppid := wrapInt32 (stringToInt ppid) })
  |> onParam m (env.keys .deviceIdfa) (addDevice "idfa:")
  |> onParam m (env.keys .deviceImei) (addDevice "imei:")
  |> onParam m (env.keys .deviceAndoroidid) (addDevice "androidid:")
  |> onParam m (env.keys .deviceMac) (addDevice "mac:")

def parseObjectToLogItem (m : ParamMap) (log : LogItem Rate) : LogItem Rate :=
  let target := parseTarget env m log
  match parsePrice env m target with
  | some priced => parseDevice env m priced
  | none => { target with reqStatus := 500 }

def stringSafeInput (len : Nat) (input : Bytes) : Bytes := input.take len

def stringSafeNumber (input : Bytes) : Bytes :=
  if (cString input).all isDigit then input else bytes "0"

/-- `paramMap[key] = f(paramMap[key])` if the key is there. -/
def modifyParam (m : ParamMap) (key : Bytes) (f : Bytes → Bytes) : ParamMap :=
  (m.lookup key).elim m fun value => Finmap.insert key (f value) m

/-- `filterParamMapSafe`; the show request also checks two numbers. -/
def filterParamMapSafe (phase : LogPhaseType) (m : ParamMap) : ParamMap :=
  let m := m.mapValues (stringSafeInput env.urlLongInputParameter)
  if phase = .SHOW then
    modifyParam (modifyParam m (env.keys .creativeId) stringSafeNumber) env.sspPid
      stringSafeNumber
  else m

/-- The parameters of a query, deciphered if it holds `_q_`; `none` is an exception. -/
def queryParams (phase : LogPhaseType) (data : Bytes) : Option ParamMap :=
  (getParamv2 ∅ data (byte '&')).map fun m =>
    if encodeHolder ∈ m then
      let newParamMap := processParamDataWithRetry env.base64 env.strays
        (paramBindingTable env.keys) data true ∅
      if env.keys .exchangePrice ∉ newParamMap ∧ phase = .SHOW then
        Finmap.insert (env.keys .exchangePrice) (m.value (env.keys .exchangePrice)) newParamMap
      else newParamMap
    else m

structure QueryTask where
  currentPhase : LogPhaseType
  expectedReqStatus : Int
  reqMethod : Int
  timeStamp : Int
  userAgent : Bytes
  referer : Bytes
  userIp : Bytes
  data : Bytes

def QueryTask.freshLog (task : QueryTask) (Rate : Type) : LogItem Rate where
  userAgent := task.userAgent
  logType := task.currentPhase
  reqMethod := task.reqMethod
  reqStatus := task.expectedReqStatus
  timeStamp := task.timeStamp
  referer := task.referer

def countedUserIp (adxId : Int) (ip : Bytes) (m : ParamMap) : Bytes :=
  match AdxConst.label env.ids adxId with
  | some .tencentGdt | some .gdtMobile => (m.lookup (env.keys .ip)).getD ip
  | _ => ip

/-- `commonLogic` of a request that is not a POST, on a fresh record. -/
def commonLogic (task : QueryTask) : Option (ParamMap × LogItem Rate) :=
  (queryParams env task.currentPhase task.data).map fun m =>
    let m := filterParamMapSafe env task.currentPhase m
    let log := parseObjectToLogItem env m (task.freshLog Rate)
    (m, { log with
      userId := env.userCookieLogic m
      proxy := countedUserIp env log.adInfo.adxid task.userIp m })

end

section
variable {Rate : Type} (env : ServerEnv Rate) (m : ParamMap) (log : LogItem Rate)

/-- The ad part of the record is what `parseObjectToLogItem` made of the query. -/
theorem commonLogic_of_params {task : QueryTask} {phase : LogPhaseType}
    (hphase : task.currentPhase = phase) (h : queryParams env phase task.data = some m) :
    ∃ log, commonLogic env task = some (filterParamMapSafe env phase m, log) ∧
      log.adInfo = (parseObjectToLogItem env (filterParamMapSafe env phase m)
        (task.freshLog Rate)).adInfo := by
  subst hphase
  rw [commonLogic, h]
  exact ⟨_, rfl, rfl⟩

theorem elim_same {α β : Type} (o : Option α) (b : β) : (o.elim b fun _ => b) = b := by
  cases o <;> rfl

theorem apply_onParam {γ : Type} (field : LogItem Rate → γ) (key : Bytes)
    (set : Bytes → LogItem Rate → LogItem Rate) :
    field (onParam m key set log) = (m.lookup key).elim (field log) fun v => field (set v log) := by
  unfold onParam
  cases m.lookup key <;> rfl

theorem parseTarget_adxid :
    (parseTarget env m log).adInfo.adxid =
      (m.lookup (env.keys .adxId)).elim log.adInfo.adxid fun x => wrapInt32 (stringToInt x) := by
  simp only [parseTarget, apply_onParam _ _ fun log : LogItem Rate => log.adInfo.adxid, elim_same]

theorem parseTarget_priceType :
    (parseTarget env m log).adInfo.priceType = priceTypeOf env m := by
  simp only [parseTarget, apply_onParam _ _ fun log : LogItem Rate => log.adInfo.priceType,
    elim_same]

theorem parseTarget_bill : (parseTarget env m log).adInfo.bill = log.adInfo.bill := by
  simp only [parseTarget, apply_onParam _ _ fun log : LogItem Rate => log.adInfo.bill, elim_same]

theorem parseTarget_logType : (parseTarget env m log).logType = log.logType := by
  simp only [parseTarget, apply_onParam _ _ fun log : LogItem Rate => log.logType, elim_same]

theorem parseDevice_bill : (parseDevice env m log).adInfo.bill = log.adInfo.bill := by
  simp only [parseDevice, addDevice, apply_onParam _ _ fun log : LogItem Rate => log.adInfo.bill,
    elim_same]

end

end AdServer.Billing
