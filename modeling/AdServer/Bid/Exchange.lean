import AdServer.Bid.Handler

/-!
The bidding handlers of the exchanges that map cookies or device ids. A request has
the fields that decide which keys are bound, whether the mapping is queried and
which slots reach the callback; a text that is missing is empty. The Kupai and 2345
handlers do not use the mapping. A malformed request or banner makes a handler
throw, which cuts the sequence of its steps short.
-/
namespace AdServer.Bid

open Url

def toUpper (text : Bytes) : Bytes := text.map fun c => if 97 ≤ c ∧ c ≤ 122 then c - 32 else c

def contains (text : Bytes) (part : String) : Bool := decide (bytes part <:+: text)

/-- `strcasecmp(text.data(), word) == 0`. -/
def equalsIgnoreCase (text : Bytes) (word : String) : Bool :=
  toUpper (cString text) = toUpper (bytes word)

/-- `getMobileTypeFromUA(ua) != SOLUTION_DEVICE_OTHER`. -/
def isMobileUA (ua : Bytes) : Bool :=
  contains ua "iPad" || contains ua "iPhone " || contains ua "Android"

def md5Encode (env : BidEnv) (input : Bytes) : Bytes := if input = [] then [] else env.md5 input

def DeviceIds.map (f : Bytes → Bytes) (ids : DeviceIds) : DeviceIds :=
  { idfa := f ids.idfa, imei := f ids.imei, androidId := f ids.androidId, mac := f ids.mac }

/-- Keys made from the ids of a condition, which are hashed one by one. -/
def hashedKeys (env : BidEnv) (condition : DeviceIds) (appAdxId : Int) (appUserId : Bytes) :
    KeySource :=
  .mobile (condition.map (md5Encode env)) condition appAdxId appUserId

def dealText (deals : List Bytes) : Bytes :=
  if deals = [] then [] else byte ',' :: deals.flatMap fun d => d ++ [byte ',']

/-- `if (!queryCondition.dealId.empty() && finalSolution.dDealId != "0")`. -/
def conditionDeal (condition : AdSelectCondition) (result : SelectResult) : List HandlerStep :=
  if condition.dealId ≠ [] ∧ result.dDealId ≠ bytes "0" then [.addDeal result.dDealId true] else []

structure TanxMobile where
  isApp : Bool
  idfa : Option Bytes := none
  imei : Option Bytes := none
  androidId : Option Bytes := none
  mac : Option Bytes := none

structure TanxRequest where
  isPing : Bool := false
  adzinfoSize : Nat
  viewTypes : List Int := []
  mobile : Option TanxMobile := none
  tid : Bytes := []

def tanxCookieMappingUrl : Bytes := bytes "http://cms.tanx.com/t.gif?tanx_nid=113168313&tanx_cm"

def TanxRequest.isNative (r : TanxRequest) : Bool := r.viewTypes.any fun v => 104 ≤ v ∧ v ≤ 111

def TanxRequest.isVideo (r : TanxRequest) : Bool :=
  r.viewTypes.any fun v => v ∈ [11, 12, 15, 106, 107]

def TanxMobile.ids (env : BidEnv) (mobile : TanxMobile) : DeviceIds :=
  let decode (id : Option Bytes) : Bytes := (id.map fun id => toUpper (env.tanxDeviceId id)).getD []
  { idfa := decode mobile.idfa, imei := decode mobile.imei, androidId := decode mobile.androidId
    mac := decode mobile.mac }

def TanxRequest.filter (env : BidEnv) (r : TanxRequest) : FilterPlan :=
  if r.isPing ∨ r.adzinfoSize = 0 then {}
  else
    let bannerType : BannerType := if r.isVideo then .video else .other
    match r.mobile with
    | some mobile =>
      let keys : KeySource :=
        if mobile.isApp then hashedKeys env (mobile.ids env) (env.ids .tanxMobile) r.tid
        else .cookie (env.ids .tanxMobile) r.tid
      { keys := some keys
        queries := true
        conditions :=
          [{ adxid := env.ids .tanxMobile
             flowType := .mobile
             bannerType := if mobile.isApp ∧ r.isNative ∧ ¬r.isVideo then .primitive
               else bannerType }] }
    | none =>
      { keys := some (.cookie (env.ids .tanx) r.tid)
        queries := true
        conditions := [{ adxid := env.ids .tanx, flowType := .pc, bannerType := bannerType }] }

def tanxBuild (env : BidEnv) (condition : AdSelectCondition) (result : SelectResult) :
    List HandlerStep :=
  let redo := HandlerStep.redoMapping (env.ids .tanx) tanxCookieMappingUrl
  if condition.flowType = .mobile ∧ result.bannerType = .primitive then
    [redo false, .clickPara, .showPara]
  else if result.bannerType = .video then [redo false, .clickPara, .showPara]
  else if condition.flowType = .pc then [redo true, .showPara]
  else [redo false, .clickPara, .showPara]

structure JuxiaoMaxMobile where
  isApp : Bool
  ids : DeviceIds

structure JuxiaoMaxRequest where
  adslotSize : Nat
  hasNative : Bool := false
  deals : List Bytes := []
  mobile : Option JuxiaoMaxMobile := none
  mvUserId : Bytes := []

def maxCookieMappingUrl : Bytes := bytes "http://cm.mediav.com/s?mvdid=134"

def JuxiaoMaxRequest.filter (env : BidEnv) (r : JuxiaoMaxRequest) : FilterPlan :=
  if r.adslotSize = 0 then {}
  else
    let bannerType : BannerType := if r.hasNative then .primitive else .other
    match r.mobile with
    | some mobile =>
      let keys : KeySource :=
        if mobile.isApp then
          hashedKeys env (mobile.ids.map toUpper) (env.ids .max360Mobile) r.mvUserId
        else .cookie (env.ids .max360Mobile) r.mvUserId
      { keys := some keys
        queries := true
        conditions :=
          [{ adxid := env.ids .max360Mobile, flowType := .mobile, bannerType := bannerType
             dealId := dealText r.deals }] }
    | none =>
      { keys := some (.cookie (env.ids .max360Pc) r.mvUserId)
        queries := true
        conditions :=
          [{ adxid := env.ids .max360Pc, flowType := .pc, bannerType := bannerType
             dealId := dealText r.deals }] }

def juxiaoMaxBuild (env : BidEnv) (condition : AdSelectCondition) (result : SelectResult) :
    List HandlerStep :=
  let redo := HandlerStep.redoMapping (env.ids .max360Pc) maxCookieMappingUrl
  if result.bannerType = .primitive then
    [redo false, .clickPara, .showPara] ++ conditionDeal condition result
  else if condition.flowType = .pc then [redo true, .showPara]
  else [redo false, .clickPara, .showPara]

/-- `for_advertising_id(0)` and `id(0)` are pairs of a type and an id. -/
structure BaiduMobile where
  hasApp : Bool
  advertisingId : Option (Int × Bytes) := none
  mobileId : Option (Int × Bytes) := none

structure BaiduSlot where
  allowedNonNativead : Bool

structure BaiduRequest where
  isPing : Bool := false
  isTest : Bool := false
  adslots : List BaiduSlot
  mobile : Option BaiduMobile := none
  userAgent : Bytes := []
  baiduUserId : Bytes := []

def baiduCookieMappingUrl : Bytes := bytes "http://cm.pos.baidu.com/pixel"

/-- `getIDFA_AND` and `getMAC_IMEI`, followed by the conversions to upper case. -/
def BaiduMobile.ids (mobile : BaiduMobile) : DeviceIds :=
  let pick (id : Option (Int × Bytes)) (type : Int) : Bytes :=
    match id with
    | some (t, text) => if t = type then toUpper text else []
    | none => []
  { androidId := pick mobile.advertisingId 4, idfa := pick mobile.advertisingId 5
    imei := pick mobile.mobileId 1, mac := pick mobile.mobileId 2 }

def BaiduRequest.flowType (r : BaiduRequest) : FlowType :=
  if r.mobile.isSome ∨ isMobileUA r.userAgent then .mobile else .pc

def BaiduRequest.keys (env : BidEnv) (r : BaiduRequest) : KeySource :=
  match r.mobile with
  | some mobile =>
    if mobile.hasApp then hashedKeys env mobile.ids 0 []
    else .cookie (env.ids .baiduMobile) r.baiduUserId
  | none =>
    if isMobileUA r.userAgent then .cookie (env.ids .baiduMobile) r.baiduUserId
    else .cookie (env.ids .baidu) r.baiduUserId

/-- Every slot takes the flow type and the exchange of the first one. -/
def BaiduRequest.condition (env : BidEnv) (r : BaiduRequest) (slot : BaiduSlot) :
    AdSelectCondition :=
  { adxid := env.ids (if r.flowType = .mobile then .baiduMobile else .baidu)
    flowType := r.flowType
    bannerType :=
      if !slot.allowedNonNativead || r.mobile.any fun mobile => mobile.hasApp then .primitive
      else .other }

def BaiduRequest.filter (env : BidEnv) (r : BaiduRequest) : FilterPlan :=
  if r.isPing ∨ r.isTest ∨ r.adslots = [] then {}
  else
    { keys := some (r.keys env)
      queries := true
      conditions := r.adslots.map (r.condition env) }

def baiduBuild (env : BidEnv) (condition : AdSelectCondition) (_ : SelectResult) :
    List HandlerStep :=
  let redo := HandlerStep.redoMapping (env.ids .baidu) baiduCookieMappingUrl
  if condition.bannerType = .primitive then [redo false, .clickPara, .showPara]
  else if condition.flowType = .pc then [redo true, .clickPara, .showPara]
  else [redo false, .clickPara, .clickPara, .showPara]

inductive AdObject
  | banner | video
  | native (assets : Nat)
  deriving DecidableEq, Repr

def AdObject.isNative : AdObject → Bool
  | .native _ => true
  | _ => false

structure YoukuImp where
  ad : AdObject
  deals : List Bytes := []

/-- A native impression without assets is left by `continue`. -/
def YoukuImp.skipped (imp : YoukuImp) : Bool := imp.ad = .native 0

structure YoukuDevice where
  devicetype : Int := 2
  ua : Bytes := []
  ids : DeviceIds := {}

structure YoukuRequest where
  imps : List YoukuImp
  device : Option YoukuDevice := none
  hasApp : Bool := false
  userId : Bytes := []

def youkuCookieMappingUrl : Bytes := bytes "http://c.yes.youku.com?dspid=11214"

/-- The flow type that `fromYoukuDevTypeOsType` gives. -/
def YoukuDevice.flowType (device : YoukuDevice) : FlowType :=
  if device.devicetype = 0 ∨ device.devicetype = 1 then .mobile
  else if device.devicetype = 2 then .pc
  else if isMobileUA device.ua then .mobile
  else .unset

def YoukuRequest.flowType (r : YoukuRequest) : FlowType :=
  (r.device.map YoukuDevice.flowType).getD .unset

def YoukuRequest.keys (env : BidEnv) (r : YoukuRequest) : KeySource :=
  match r.device with
  | some device =>
    if device.flowType = .mobile then
      if r.hasApp then
        hashedKeys env (device.ids.map toUpper) (env.ids .youkuMobile) r.userId
      else .cookie (env.ids .youkuMobile) r.userId
    else .cookie (env.ids .youku) r.userId
  | none => .cookie (env.ids .youku) r.userId

/-- A skipped impression keeps the condition it has at the `continue`; the others take
the flow type and the exchange of the first one. -/
def youkuCondition (env : BidEnv) (first : FlowType) (imp : YoukuImp) : AdSelectCondition :=
  if imp.skipped then { adxid := env.ids .youku, bannerType := .primitive }
  else
    { adxid := env.ids (if first = .mobile then .youkuMobile else .youku)
      flowType := first
      bannerType := if imp.ad.isNative then .primitive else .other
      dealId := dealText imp.deals }

def YoukuRequest.filter (env : BidEnv) (r : YoukuRequest) : FilterPlan :=
  match r.imps with
  | [] => {}
  | first :: _ =>
    let flow := if first.skipped then .unset else r.flowType
    { keys := if first.skipped then none else some (r.keys env)
      queries := !first.skipped
      dealFlags := (r.imps.filter fun imp => !imp.skipped).map fun imp => !imp.deals.isEmpty
      conditions := r.imps.map (youkuCondition env flow) }

def youkuBuild (env : BidEnv) (_ : AdSelectCondition) (result : SelectResult) :
    List HandlerStep :=
  [.redoMapping (env.ids .youku) youkuCookieMappingUrl true, .showPara, .markDeal result.dDealId,
    .clickPara]

structure NexImp where
  allowstyles : Nat
  deals : List Bytes := []

/-- An impression without styles is left by `continue`. -/
def NexImp.skipped (imp : NexImp) : Bool := imp.allowstyles = 0

structure NexDevice where
  os : Bytes := []
  idfa : Bytes := []
  imei : Bytes := []
  mac : Bytes := []

structure NexRequest where
  imps : List NexImp
  device : Option NexDevice := none
  userId : Bytes := []

/-- The flow type that `fromNexDevTypeOsType` gives. -/
def NexDevice.flowType (device : NexDevice) : FlowType :=
  if equalsIgnoreCase device.os "Android" || equalsIgnoreCase device.os "ios" then .mobile else .pc

def nexAdx (flow : FlowType) : AdxConst := if flow = .mobile then .nexMobile else .nexPc

def NexDevice.keys (env : BidEnv) (userId : Bytes) (device : NexDevice) : KeySource :=
  hashedKeys env
    { idfa := toUpper device.idfa, imei := toUpper device.imei, mac := toUpper device.mac }
    (env.ids (nexAdx device.flowType)) userId

def nexCondition (env : BidEnv) (first : FlowType) (imp : NexImp) : AdSelectCondition :=
  if imp.skipped then { adxid := env.ids .nexPc }
  else { adxid := env.ids (nexAdx first), flowType := first, dealId := dealText imp.deals }

def NexRequest.filter (env : BidEnv) (r : NexRequest) : FilterPlan :=
  match r.imps with
  | [] => {}
  | first :: _ =>
    let device := if first.skipped then none else r.device
    let flow := (device.map NexDevice.flowType).getD .unset
    { keys := device.map (NexDevice.keys env r.userId)
      queries := device.isSome
      dealFlags := (r.imps.filter fun imp => !imp.skipped).map fun imp => !imp.deals.isEmpty
      conditions := r.imps.map (nexCondition env flow) }

def nexBuild (_ : BidEnv) (condition : AdSelectCondition) (result : SelectResult) :
    List HandlerStep :=
  [.showPara, .markDeal result.dDealId, .clickPara, .redoMapping condition.adxid [] false]

inductive GdtDeviceType
  | pc | mobile | pad | other
  deriving DecidableEq, Repr

structure GdtDevice where
  deviceType : GdtDeviceType
  isIOS : Bool := false
  id : Bytes

def GdtDevice.isMobile (device : GdtDevice) : Bool :=
  device.deviceType = .mobile ∨ device.deviceType = .pad

def GdtDevice.ids (device : GdtDevice) : DeviceIds :=
  match device.deviceType with
  | .pc => { mac := toUpper device.id }
  | .other => {}
  | .mobile | .pad =>
    if device.isIOS then { idfa := toUpper device.id } else { imei := toUpper device.id }

/-- `sizes` counts the sizes of the known creative specs, and `adplaceFlow` is the flow
type of the last of them. -/
structure GdtRequest where
  isPing : Bool := false
  isTest : Bool := false
  sizes : Nat
  adplaceFlow : FlowType := .unset
  device : Option GdtDevice := none
  userId : Bytes := []

def GdtDevice.keys (env : BidEnv) (userId : Bytes) (device : GdtDevice) : KeySource :=
  .mobile device.ids device.ids
    (env.ids (if device.isMobile then .gdtMobile else .tencentGdt)) userId

def GdtRequest.filter (env : BidEnv) (r : GdtRequest) : FilterPlan :=
  if r.isPing ∨ r.isTest ∨ r.sizes = 0 then {}
  else
    let flow := if r.device.any GdtDevice.isMobile then .mobile else r.adplaceFlow
    { keys := r.device.map (GdtDevice.keys env r.userId)
      queries := r.device.isSome
      conditions :=
        [{ adxid := env.ids (if flow = .mobile then .gdtMobile else .tencentGdt)
           flowType := flow }] }

def gdtBuild (env : BidEnv) (condition : AdSelectCondition) (_ : SelectResult) :
    List HandlerStep :=
  [.redoMapping (env.ids .gdtMobile) [] false, .showPara, .clickPara,
    .redoMapping condition.adxid [] false]

structure GuangyinRequest where
  isTest : Bool := false
  impSize : Nat
  isMobile : Bool
  idfa : Bytes := []
  imei : Bytes := []
  androidId : Bytes := []
  userId : Bytes := []

def GuangyinRequest.filter (env : BidEnv) (r : GuangyinRequest) : FilterPlan :=
  if r.isTest ∨ r.impSize = 0 then {}
  else if r.isMobile then
    let condition : DeviceIds :=
      { idfa := toUpper r.idfa, imei := toUpper r.imei, androidId := toUpper r.androidId }
    { keys := some (hashedKeys env condition (env.ids .guangyinMobile) r.userId)
      queries := true
      conditions := [{ adxid := env.ids .guangyinMobile, flowType := .mobile }] }
  else { conditions := [{ adxid := env.ids .guangyin, flowType := .pc }] }

def guangyinBuild (_ : BidEnv) (condition : AdSelectCondition) (result : SelectResult) :
    List HandlerStep :=
  .showPara :: (if result.bannerType = .html then [] else [.clickPara]) ++
    [.redoMapping condition.adxid [] false]

structure SohuDevice where
  type : Bytes
  ids : DeviceIds := {}

structure SohuRequest where
  isTest : Bool := false
  impressionSize : Nat
  device : Option SohuDevice := none
  suid : Bytes := []
  isVideo : Bool := false
  isPreferredDeals : Bool := false
  campaignid : Bytes := []

def sohuCookieMappingUrl : Bytes := bytes "http://t.go.sohu.com/cm.gif?ver=1&mid=10123"

def SohuRequest.keys (env : BidEnv) (r : SohuRequest) : KeySource :=
  match r.device with
  | some device =>
    if equalsIgnoreCase device.type "Mobile" then
      hashedKeys env (device.ids.map toUpper) (env.ids .sohuMobile) r.suid
    else if equalsIgnoreCase device.type "Wap" then .cookie (env.ids .sohuMobile) r.suid
    else .cookie (env.ids .sohuPc) r.suid
  | none => .cookie (env.ids .sohuPc) r.suid

def SohuRequest.flowType (r : SohuRequest) : FlowType :=
  match r.device with
  | some device =>
    if equalsIgnoreCase device.type "Mobile" || equalsIgnoreCase device.type "Wap" then .mobile
    else .pc
  | none => .unset

def SohuRequest.filter (env : BidEnv) (r : SohuRequest) : FilterPlan :=
  if r.isTest ∨ r.impressionSize = 0 then {}
  else
    { keys := some (r.keys env)
      queries := true
      conditions :=
        [{ adxid := env.ids (if r.flowType = .mobile then .sohuMobile else .sohuPc)
           flowType := r.flowType
           bannerType := if r.isVideo then .video else .other
           dealId := if r.isPreferredDeals then dealText [r.campaignid] else [] }] }

def SohuRequest.build (r : SohuRequest) (_ : BidEnv) (condition : AdSelectCondition)
    (_ : SelectResult) : List HandlerStep :=
  [.showPara, .clickPara] ++
    (if condition.dealId ≠ [] then [.addDeal r.campaignid false] else []) ++
    [.redoMapping condition.adxid sohuCookieMappingUrl false]

structure InmobiDevice where
  devicetype : Int := 1
  idfa : Bytes := []
  didmd5 : Bytes := []
  dpidmd5 : Bytes := []

structure InmobiImp where
  ad : AdObject
  deals : List Bytes := []

/-- Only the first impression is read. -/
structure InmobiRequest where
  imp : Option InmobiImp
  device : Option InmobiDevice := none
  userId : Bytes := []

/-- The exchange sends digests of the two Android ids, which are not hashed again. -/
def InmobiDevice.keys (env : BidEnv) (userId : Bytes) (device : InmobiDevice) : KeySource :=
  let condition : DeviceIds :=
    { idfa := toUpper device.idfa, imei := toUpper device.didmd5
      androidId := toUpper device.dpidmd5 }
  .mobile { condition with idfa := md5Encode env condition.idfa } condition (env.ids .inmobi) userId

def InmobiRequest.filter (env : BidEnv) (r : InmobiRequest) : FilterPlan :=
  match r.imp with
  | none => {}
  | some imp =>
    if imp.ad = .native 0 then {}
    else
      { keys := r.device.map (InmobiDevice.keys env r.userId)
        queries := r.device.isSome
        conditions :=
          [{ adxid := env.ids .inmobi
             flowType :=
               (r.device.map fun device =>
                 if device.devicetype = 2 then .pc else .mobile).getD .unset
             bannerType :=
               if imp.ad.isNative then .primitive else if imp.ad = .video then .video else .other
             dealId := dealText imp.deals }] }

def inmobiBuild (_ : BidEnv) (condition : AdSelectCondition) (result : SelectResult) :
    List HandlerStep :=
  -- the banner of an ordinary creative is a snippet with a show URL of its own
  let creative : HandlerStep :=
    if result.bannerType = .video ∨ result.bannerType = .primitive then .clickPara else .showPara
  .showPara :: conditionDeal condition result ++
    [creative, .redoMapping condition.adxid [] false]

structure LiebaoDevice where
  dpidmd5 : Bytes := []
  imei : Bytes := []

/-- `sizes` counts the sizes of the native assets. -/
structure LiebaoImp where
  sizes : Nat
  deals : List Bytes := []

structure LiebaoRequest where
  isTest : Bool := false
  imps : List LiebaoImp
  device : Option LiebaoDevice := none

def LiebaoDevice.keys (env : BidEnv) (device : LiebaoDevice) : KeySource :=
  hashedKeys env
    { idfa := toUpper device.dpidmd5, imei := toUpper device.imei
      androidId := toUpper device.dpidmd5 } 0 []

/-- An impression without sizes makes `filter` return after the first one's query. -/
def LiebaoRequest.filter (env : BidEnv) (r : LiebaoRequest) : FilterPlan :=
  if r.isTest ∨ r.imps = [] then {}
  else
    { keys := r.device.map (LiebaoDevice.keys env)
      queries := r.device.isSome
      conditions :=
        if r.imps.any fun imp => imp.sizes = 0 then []
        else
          r.imps.map fun imp =>
            { adxid := env.ids .liebaoMobile, flowType := .mobile, bannerType := .primitive
              dealId := dealText imp.deals } }

def liebaoBuild (_ : BidEnv) (condition : AdSelectCondition) (result : SelectResult) :
    List HandlerStep :=
  .showPara :: conditionDeal condition result ++
    (if result.bannerType = .primitive then [.clickPara] else []) ++
    [.redoMapping condition.adxid [] false]

structure NetEaseDevice where
  idfa : Bytes := []
  imei : Bytes := []
  mac : Bytes := []

/-- `sizes` counts the sizes of the known styles. -/
structure NetEaseRequest where
  isTest : Bool := false
  sizes : Nat
  device : Option NetEaseDevice := none

def NetEaseDevice.keys (env : BidEnv) (device : NetEaseDevice) : KeySource :=
  hashedKeys env
    { idfa := toUpper device.idfa, imei := toUpper device.imei, mac := toUpper device.mac } 0 []

def NetEaseRequest.filter (env : BidEnv) (r : NetEaseRequest) : FilterPlan :=
  if r.isTest then {}
  else
    { keys := r.device.map (NetEaseDevice.keys env)
      queries := r.device.isSome
      conditions :=
        if r.sizes = 0 then [] else [{ adxid := env.ids .neteaseMobile, flowType := .mobile }] }

def netEaseBuild (_ : BidEnv) (condition : AdSelectCondition) (_ : SelectResult) :
    List HandlerStep :=
  [.showPara, .clickPara, .redoMapping condition.adxid [] false]

structure YidianRequest where
  tagid : Int
  os : Bytes := []
  ifa : Bytes := []
  imeiplain : Bytes := []
  dealId : Bytes := []

/-- `GetDevice` and `GetAdFlag`. -/
def YidianRequest.ids (r : YidianRequest) : DeviceIds :=
  if toUpper r.os = bytes "IOS" then { idfa := toUpper r.ifa }
  else if toUpper r.os = bytes "ANDROID" then { imei := toUpper r.imeiplain }
  else {}

/-- The keys are bound before the ad type is known, the mapping is queried after. -/
def YidianRequest.filter (env : BidEnv) (r : YidianRequest) : FilterPlan :=
  let keys := some (hashedKeys env r.ids 0 [])
  if 0 ≤ r.tagid ∧ r.tagid ≤ 2 then
    { keys := keys
      queries := true
      conditions :=
        [{ adxid := env.ids .yidian, flowType := .mobile
           bannerType := if r.tagid = 0 then .other else .primitive
           dealId := if r.dealId = [] then [] else dealText [r.dealId] }] }
  else { keys := keys }

/-- A native creative of an unknown type returns before any URL is built. -/
def yidianBuild (_ : BidEnv) (condition : AdSelectCondition) (result : SelectResult) :
    List HandlerStep :=
  if result.bannerType = .primitive ∧ ¬(1 ≤ result.nativeType ∧ result.nativeType ≤ 5) then []
  else [.clickPara, .showPara, .redoMapping condition.adxid [] false]

inductive Exchange
  | tanx | juxiaoMax | baidu | youku | gdt | sohu | guangyin | inmobi | liebao | nex | netEase
  | yidian
  deriving DecidableEq, Repr

inductive BidRequest
  | tanx (r : TanxRequest)
  | juxiaoMax (r : JuxiaoMaxRequest)
  | baidu (r : BaiduRequest)
  | youku (r : YoukuRequest)
  | gdt (r : GdtRequest)
  | sohu (r : SohuRequest)
  | guangyin (r : GuangyinRequest)
  | inmobi (r : InmobiRequest)
  | liebao (r : LiebaoRequest)
  | nex (r : NexRequest)
  | netEase (r : NetEaseRequest)
  | yidian (r : YidianRequest)

def BidRequest.exchange : BidRequest → Exchange
  | .tanx _ => .tanx
  | .juxiaoMax _ => .juxiaoMax
  | .baidu _ => .baidu
  | .youku _ => .youku
  | .gdt _ => .gdt
  | .sohu _ => .sohu
  | .guangyin _ => .guangyin
  | .inmobi _ => .inmobi
  | .liebao _ => .liebao
  | .nex _ => .nex
  | .netEase _ => .netEase
  | .yidian _ => .yidian

def BidRequest.filter (env : BidEnv) : BidRequest → FilterPlan
  | .tanx r => r.filter env
  | .juxiaoMax r => r.filter env
  | .baidu r => r.filter env
  | .youku r => r.filter env
  | .gdt r => r.filter env
  | .sohu r => r.filter env
  | .guangyin r => r.filter env
  | .inmobi r => r.filter env
  | .liebao r => r.filter env
  | .nex r => r.filter env
  | .netEase r => r.filter env
  | .yidian r => r.filter env

def BidRequest.buildBidResult (env : BidEnv) :
    BidRequest → AdSelectCondition → SelectResult → List HandlerStep
  | .tanx _ => tanxBuild env
  | .juxiaoMax _ => juxiaoMaxBuild env
  | .baidu _ => baiduBuild env
  | .youku _ => youkuBuild env
  | .gdt _ => gdtBuild env
  | .sohu r => r.build env
  | .guangyin _ => guangyinBuild env
  | .inmobi _ => inmobiBuild env
  | .liebao _ => liebaoBuild env
  | .nex _ => nexBuild env
  | .netEase _ => netEaseBuild env
  | .yidian _ => yidianBuild env

end AdServer.Bid
