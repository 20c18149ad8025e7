import AdServer.Bid.Exchange
import AdServer.Bid.IdSeq
import AdServer.Billing.LogItem
import AdServer.Library.Mealy

/-!
The log records of the slots of one bid request. `HandleBidQueryTask::customLogic`
has one record for all slots: each round of its loop lets the handler overwrite it
and logs it. A slot without a bid resets the ad part of the record, but it appends
to the content types and leaves the place, and a slot without keywords leaves those
that are there.

The records have the fields that the loop writes. The device ids and the fee rate of
`BiddingFlowExtraInfo` go into URLs only.
-/
namespace AdServer.Bid

open Url Billing

structure LogAdInfo where
  areaId : Bytes := []
  advId : Int := 0
  cpid : Int := 0
  sid : Int := 0
  bannerId : Int := 0
  adxid : Int := 0
  mid : Int := 0
  cid : Int := 0
  pid : Bytes := []
  impId : Bytes := []
  cost : Int := 0
  adxpid : Bytes := []
  adxuid : Bytes := []
  offerPrice : Int := 0
  bidSize : Bytes := []
  priceType : Int := 0
  ppid : Int := 0
  orderId : Int := 0
  bidBasePrice : Int := 0
  bidEcpmPrice : Int := 0
  deriving DecidableEq, Repr

structure DeviceInfo where
  deviceType : Int := 0
  flowType : FlowType := .unset
  netWork : Int := 0
  os : Int := 0
  deviceID : Bytes := []
  make : Bytes := []
  deriving DecidableEq, Repr

structure BiddingFlowExtraInfo where
  mediaType : Int := 0
  dealIds : List Bytes := []
  contentType : List Int := []
  devInfo : DeviceInfo := {}
  deriving DecidableEq, Repr

structure BidLog where
  reqStatus : Int := 0
  proxy : Bytes := []
  referer : Bytes := []
  userId : Bytes := []
  userAgent : Bytes := []
  geoInfo : GeoInfo := {}
  deviceInfo : Bytes := []
  adInfo : LogAdInfo := {}
  dealIds : List Bytes := []
  keyWords : Bytes := []
  mediaType : Int := 0
  contentTypes : List Int := []
  device : DeviceInfo := {}
  deriving DecidableEq, Repr

structure LogCondition extends AdSelectCondition where
  adxpid : Bytes := []
  basePrice : Int := 0
  mttyPid : Int := 0
  mttyContentType : Int := 0
  keywords : List Bytes := []
  mediaType : Int := 0
  mobileDevice : Int := 0
  mobileNetwork : Int := 0
  pcOS : Int := 0
  deviceMaker : Bytes := []
  mobileModel : Bytes := []
  ip : Bytes := []
  width : Int := 0
  height : Int := 0

/-- The parts of `MT::common::SelectResult` that are logged. A search that fails may
have found the place of the ad. -/
structure SlotResult where
  pId : Int := 0
  cId : Int := 0
  mId : Int := 0
  sId : Int := 0
  advId : Int := 0
  priceType : Int := 0
  dDealId : Bytes := []
  bId : Int := 0
  width : Int := 0
  height : Int := 0
  ppid : Int := 0
  orderId : Int := 0
  feePrice : Int := 0
  bidPrice : Int := 0

/-- A slot: its condition, the outcome of the search, and the user of the mapping, the
clock and the random digit at the time it is handled. -/
structure LogSlot where
  condition : LogCondition
  searchOK : Bool
  result : SlotResult := {}
  userId : Bytes := []
  time : Int := 0
  randomId : Bytes := []

structure LogEnv where
  ids : AdxConst → Int
  uniqueIdSeq : BitVec 64
  getAreaCodeStrByIp : Bytes → Bytes
  extractAreaInfo : Bytes → GeoInfo

inductive LogHandler
  | exchange (e : Exchange)
  | kupai
  | adx2345
  deriving DecidableEq, Repr

structure SpecificLog where
  setsUserAgent : Bool := true
  setsReferer : Bool := true
  takesRequestIp : Bool := false
  mobileAdx : Option AdxConst := none
  cost : Option Int := none

def LogHandler.specificLog : LogHandler → SpecificLog
  | .exchange .tanx => { takesRequestIp := true, mobileAdx := some .tanxMobile }
  | .exchange .juxiaoMax => { takesRequestIp := true, mobileAdx := some .max360Mobile }
  | .exchange .sohu => { mobileAdx := some .sohuMobile }
  | .exchange .liebao => { setsReferer := false, cost := some 1500 }
  | .exchange .netEase => { setsUserAgent := false, setsReferer := false, cost := some 1500 }
  | .exchange .gdt | .exchange .yidian => { setsUserAgent := false, setsReferer := false }
  | .kupai | .adx2345 => { setsReferer := false }
  | .exchange .baidu | .exchange .youku | .exchange .guangyin | .exchange .inmobi
  | .exchange .nex => {}

/-- What the logs take from the request: the user passed to `fillAdInfo`, the texts of
`fillSpecificLog`, and the device if the handler finds one to log. -/
structure RequestLog where
  adxUser : Bytes := []
  userAgent : Bytes := []
  ip : Bytes := []
  referer : Bytes := []
  device : Option Bytes := none

structure SlotState where
  adInfo : LogAdInfo := {}
  adFlowExtraInfo : BiddingFlowExtraInfo := {}
  log : BidLog := {}

def makeBidSize (width height : Int) : Bytes := intToString width ++ bytes "x" ++ intToString height

def buildFlowExtraInfo (c : LogCondition) (info : BiddingFlowExtraInfo) : BiddingFlowExtraInfo :=
  { info with
    devInfo :=
      { deviceType := c.mobileDevice
        flowType := c.flowType
        netWork := c.mobileNetwork
        os := c.pcOS
        deviceID := []
        make := if c.deviceMaker = [] then c.mobileModel else c.deviceMaker }
    contentType := [c.mttyContentType]
    mediaType := c.mediaType
    dealIds := if c.dealId = [] then [] else [c.dealId] }

section
variable (env : LogEnv) (handler : LogHandler) (request : RequestLog)

/-- The deal ids of `fillAdInfo`. The device id it percent-encodes is empty. -/
def selectedDeal (slot : LogSlot) (info : BiddingFlowExtraInfo) : BiddingFlowExtraInfo :=
  if slot.condition.dealId ≠ [] ∧ slot.result.dDealId ≠ bytes "0" then
    { info with dealIds := [slot.result.dDealId] }
  else info

def fillAdInfo (slot : LogSlot) (s : SlotState) : SlotState :=
  { s with
    adInfo := { s.adInfo with
      pid := intToString slot.result.pId
      adxpid := slot.condition.adxpid
      sid := slot.result.sId
      advId := slot.result.advId
      adxid := slot.condition.adxid
      adxuid := request.adxUser
      bannerId := slot.result.bId
      cid := slot.result.cId
      mid := slot.result.mId
      cpid := slot.result.advId
      bidSize := makeBidSize slot.result.width slot.result.height
      priceType := slot.result.priceType
      ppid := slot.result.ppid
      orderId := slot.result.orderId
      offerPrice := slot.result.feePrice
      bidEcpmPrice := slot.result.bidPrice
      bidBasePrice := slot.condition.basePrice
      areaId := env.getAreaCodeStrByIp (cString slot.condition.ip)
      impId := impId env.uniqueIdSeq slot.randomId slot.time }
    adFlowExtraInfo := selectedDeal slot (buildFlowExtraInfo slot.condition s.adFlowExtraInfo) }

/-- The exchange id that `fillSpecificLog` leaves in the handler and in the record. -/
def specificAdxid (isAccepted : Bool) (adxid : Int) : Int :=
  if isAccepted ∧ request.device.isSome then
    (handler.specificLog.mobileAdx.map env.ids).getD adxid
  else adxid

def fillSpecificLog (c : LogCondition) (isAccepted : Bool) (log : BidLog) : BidLog :=
  let spec := handler.specificLog
  { log with
    userAgent := if spec.setsUserAgent then request.userAgent else log.userAgent
    proxy := if spec.takesRequestIp then request.ip else c.ip
    referer := if spec.setsReferer then request.referer else log.referer
    deviceInfo := if isAccepted then request.device.getD log.deviceInfo else log.deviceInfo
    adInfo := { log.adInfo with
      adxid := specificAdxid env handler request isAccepted log.adInfo.adxid
      cost := if isAccepted then spec.cost.getD log.adInfo.cost else log.adInfo.cost } }

def keywordText (keywords : List Bytes) : Bytes := keywords.flatMap fun k => k ++ [byte ',']

/-- The part of `fillLogItem` in front of its second test of `isAccepted`. -/
def fillCommon (slot : LogSlot) (info : BiddingFlowExtraInfo) (log : BidLog) : BidLog :=
  { log with
    reqStatus := 200
    adInfo := { log.adInfo with
      adxid := slot.condition.adxid
      adxpid := slot.condition.adxpid
      bidBasePrice := slot.condition.basePrice }
    userId := if slot.userId = [] then log.userId else slot.userId
    contentTypes :=
      if slot.condition.mttyContentType ≠ 0 then
        log.contentTypes ++ [slot.condition.mttyContentType]
      else log.contentTypes
    keyWords :=
      if slot.condition.keywords = [] then log.keyWords else keywordText slot.condition.keywords
    device := info.devInfo
    dealIds := info.dealIds }

def fillAccepted (adInfo : LogAdInfo) (info : BiddingFlowExtraInfo) (log : BidLog) : BidLog :=
  { log with
    adInfo := { log.adInfo with
      sid := adInfo.sid
      advId := adInfo.advId
      pid := adInfo.pid
      adxpid := adInfo.adxpid
      adxuid := adInfo.adxuid
      bannerId := adInfo.bannerId
      cid := adInfo.cid
      mid := adInfo.mid
      cpid := adInfo.cpid
      offerPrice := adInfo.offerPrice
      areaId := adInfo.areaId
      priceType := adInfo.priceType
      ppid := adInfo.ppid
      bidSize := adInfo.bidSize
      orderId := adInfo.orderId
      bidEcpmPrice := adInfo.bidEcpmPrice
      impId := adInfo.impId }
    geoInfo := env.extractAreaInfo (cString adInfo.areaId)
    dealIds := info.dealIds
    contentTypes := info.contentType
    mediaType := info.mediaType }

def fillRejected (c : LogCondition) (log : BidLog) : BidLog :=
  { log with
    adInfo := { log.adInfo with
      pid := intToString c.mttyPid
      adxpid := c.adxpid
      adxid := c.adxid
      bidSize := makeBidSize c.width c.height } }

def fillLogItem (slot : LogSlot) (isAccepted : Bool) (s : SlotState) : SlotState :=
  if isAccepted then
    { s with
      adInfo.adxid := specificAdxid env handler request true s.adInfo.adxid
      log := fillSpecificLog env handler request slot.condition true
        (fillAccepted env s.adInfo s.adFlowExtraInfo (fillCommon slot s.adFlowExtraInfo s.log)) }
  else
    let info := buildFlowExtraInfo slot.condition s.adFlowExtraInfo
    { s with
      adFlowExtraInfo := info
      log := fillSpecificLog env handler request slot.condition false
        (fillRejected slot.condition (fillCommon slot info { s.log with adInfo := {} })) }

/-- One round of the loop in `customLogic`, and the record it logs. -/
def slotStep (s : SlotState) (slot : LogSlot) : SlotState × List BidLog :=
  let next :=
    if slot.searchOK then
      let built := fillAdInfo env request slot s
      fillLogItem env handler request slot true
        { built with log.adInfo.mid := slot.result.mId }
    else
      fillLogItem env handler request { slot with condition.mttyPid := slot.result.pId } false
        { s with log.adInfo.mid := slot.result.mId }
  (next, [next.log])

/-- The state in which `customLogic` finds the handler and the record of a request. -/
def requestStart (adInfo : LogAdInfo) (info : BiddingFlowExtraInfo)
    (userAgent referer userIp : Bytes) : SlotState where
  adInfo := adInfo
  adFlowExtraInfo := info
  log := { reqStatus := 200, proxy := userIp, referer := referer, userAgent := userAgent }

def slotLogs (s : SlotState) (slots : List LogSlot) : List BidLog :=
  (Mealy.run (slotStep env handler request) s slots).2

def BidLog.slotPart (log : BidLog) : List Int × Bytes × GeoInfo × LogAdInfo :=
  (log.contentTypes, log.keyWords, log.geoInfo, log.adInfo)

end

/-! ### One slot -/

section
variable {env : LogEnv} {handler : LogHandler} {request : RequestLog} (s : SlotState)
  (slot : LogSlot)

theorem slotStep_contentTypes :
    (slotStep env handler request s slot).1.log.contentTypes =
      if slot.searchOK then [slot.condition.mttyContentType]
      else if slot.condition.mttyContentType ≠ 0 then
        s.log.contentTypes ++ [slot.condition.mttyContentType]
      else s.log.contentTypes := by
  unfold slotStep
  cases slot.searchOK with
  | true =>
      simp only [fillLogItem, if_true, fillSpecificLog, fillAccepted, fillAdInfo, selectedDeal,
        buildFlowExtraInfo]
      split <;> rfl
  | false => rfl

theorem slotStep_keyWords :
    (slotStep env handler request s slot).1.log.keyWords =
      if slot.condition.keywords = [] then s.log.keyWords
      else keywordText slot.condition.keywords := by
  unfold slotStep
  cases slot.searchOK <;> rfl

theorem slotStep_geoInfo :
    (slotStep env handler request s slot).1.log.geoInfo =
      if slot.searchOK then
        env.extractAreaInfo (cString (env.getAreaCodeStrByIp (cString slot.condition.ip)))
      else s.log.geoInfo := by
  unfold slotStep
  cases slot.searchOK <;> rfl

theorem slotStep_cost :
    (slotStep env handler request s slot).1.log.adInfo.cost =
      if slot.searchOK then handler.specificLog.cost.getD s.log.adInfo.cost else 0 := by
  unfold slotStep
  cases slot.searchOK <;> rfl

theorem slotStep_adInfo_congr {s s' : SlotState}
    (h : handler.specificLog.cost.getD s.log.adInfo.cost =
      handler.specificLog.cost.getD s'.log.adInfo.cost) :
    (slotStep env handler request s slot).1.log.adInfo =
      (slotStep env handler request s' slot).1.log.adInfo := by
  unfold slotStep
  cases slot.searchOK with
  | true =>
      simp only [fillLogItem, if_true, fillSpecificLog, fillAccepted, fillCommon, fillAdInfo, h]
  | false => rfl

theorem keywordText_ne_nil {keywords : List Bytes} (h : keywords ≠ []) :
    keywordText keywords ≠ [] := by
  obtain ⟨k, rest, rfl⟩ := List.exists_cons_of_ne_nil h
  simp [keywordText]

/-! ### What earlier slots leave in the record -/

def Untouched (s : SlotState) : Prop := s.log.contentTypes = [] ∧ s.log.geoInfo = {}

theorem slotStep_untouched_iff :
    Untouched (slotStep env handler request s slot).1 ↔
      (slot.searchOK = false ∧ slot.condition.mttyContentType = 0) ∧ Untouched s := by
  unfold Untouched
  rw [slotStep_contentTypes, slotStep_geoInfo]
  cases slot.searchOK with
  | true => simp
  | false =>
      by_cases hcontent : slot.condition.mttyContentType = 0 <;> simp [hcontent]

theorem slotStep_keyWords_iff :
    (slotStep env handler request s slot).1.log.keyWords = [] ↔
      slot.condition.keywords = [] ∧ s.log.keyWords = [] := by
  rw [slotStep_keyWords]
  split
  · rename_i hempty
    simp [hempty]
  · rename_i hkeywords
    simp [hkeywords, keywordText_ne_nil hkeywords]

/-- The cost in the record is one that an accepted slot of this handler would keep. -/
def CostKept (handler : LogHandler) (s : SlotState) : Prop :=
  handler.specificLog.cost.getD s.log.adInfo.cost = handler.specificLog.cost.getD 0

theorem slotStep_costKept (h : CostKept handler s) :
    CostKept handler (slotStep env handler request s slot).1 := by
  unfold CostKept at h ⊢
  rw [slotStep_cost]
  split
  · rw [h]
    cases handler.specificLog.cost <;> rfl
  · rfl

/-- The slot part of a record is that of the slot alone exactly if what earlier slots left
is overwritten or empty. -/
theorem slotPart_eq_iff {s start : SlotState} (hcost : CostKept handler s)
    (hstart : start.log.adInfo.cost = 0) (huntouched : Untouched start)
    (hkeyWords : start.log.keyWords = []) :
    (slotStep env handler request s slot).1.log.slotPart =
        (slotStep env handler request start slot).1.log.slotPart ↔
      (slot.searchOK = false → Untouched s) ∧
        (slot.condition.keywords = [] → s.log.keyWords = []) := by
  have hadInfo : (slotStep env handler request s slot).1.log.adInfo =
      (slotStep env handler request start slot).1.log.adInfo := by
    apply slotStep_adInfo_congr
    rw [hstart]
    exact hcost
  simp only [BidLog.slotPart, Prod.mk.injEq, hadInfo, and_true, slotStep_contentTypes,
    slotStep_keyWords, slotStep_geoInfo, huntouched.1, huntouched.2, hkeyWords, Untouched]
  cases slot.searchOK with
  | true => by_cases hempty : slot.condition.keywords = [] <;> simp [hempty]
  | false =>
      by_cases hempty : slot.condition.keywords = [] <;>
        by_cases hcontent : slot.condition.mttyContentType = 0 <;> simp [hempty, hcontent] <;> tauto

end

/-! ### All slots of a request -/

/-- An earlier slot leaves nothing in the record that the later one does not overwrite. -/
def LeavesAlone (earlier later : LogSlot) : Prop :=
  (later.searchOK = false →
    earlier.searchOK = false ∧ earlier.condition.mttyContentType = 0) ∧
  (later.condition.keywords = [] → earlier.condition.keywords = [])

section
variable (env : LogEnv) (handler : LogHandler) (request : RequestLog) {start : SlotState}
  (hcost : start.log.adInfo.cost = 0) (huntouched : Untouched start)
  (hkeyWords : start.log.keyWords = [])

include hcost huntouched hkeyWords

theorem run_slotPart_iff (slots : List LogSlot) (slot : LogSlot) :
    (slotStep env handler request (Mealy.run (slotStep env handler request) start slots).1
        slot).1.log.slotPart =
        (slotStep env handler request start slot).1.log.slotPart ↔
      ∀ earlier ∈ slots, LeavesAlone earlier slot := by
  have hkept : CostKept handler (Mealy.run (slotStep env handler request) start slots).1 :=
    Mealy.run_invariant _ (CostKept handler) (fun s a _ h => slotStep_costKept s a h)
      (by rw [CostKept, hcost])
  have hrunUntouched := Mealy.run_iff (slotStep env handler request) Untouched _
    slotStep_untouched_iff start slots
  have hrunKeyWords := Mealy.run_iff (slotStep env handler request) (fun s => s.log.keyWords = [])
    _ slotStep_keyWords_iff start slots
  rw [slotPart_eq_iff slot hkept hcost huntouched hkeyWords, hrunUntouched, hrunKeyWords]
  simp only [huntouched, hkeyWords, and_true, LeavesAlone]
  refine ⟨?_, ?_⟩
  · rintro ⟨hplace, hwords⟩ earlier hearlier
    exact ⟨fun hrejected => hplace hrejected earlier hearlier,
      fun hempty => hwords hempty earlier hearlier⟩
  · intro hall
    exact ⟨fun hrejected earlier hearlier => (hall earlier hearlier).1 hrejected,
      fun hempty earlier hearlier => (hall earlier hearlier).2 hempty⟩

theorem slotLogs_iff (slots : List LogSlot) :
    (slotLogs env handler request start slots).map BidLog.slotPart =
        (slots.flatMap fun slot => slotLogs env handler request start [slot]).map
          BidLog.slotPart ↔
      slots.Pairwise LeavesAlone := by
  induction slots using List.reverseRecOn with
  | nil => simp [slotLogs]
  | append_singleton slots slot ih =>
      have hlast := run_slotPart_iff env handler request hcost huntouched hkeyWords slots slot
      have hlogs : slotLogs env handler request start (slots ++ [slot]) =
          slotLogs env handler request start slots ++
            [(slotStep env handler request
              (Mealy.run (slotStep env handler request) start slots).1 slot).1.log] := by
        rw [slotLogs, Mealy.run_append]
        rfl
      have halone : slotLogs env handler request start [slot] =
          [(slotStep env handler request start slot).1.log] := rfl
      rw [hlogs, List.flatMap_append, List.flatMap_singleton, halone, List.map_append,
        List.map_append, List.pairwise_append, ← ih]
      simp only [List.map_singleton, List.pairwise_singleton, true_and, List.mem_singleton,
        forall_eq]
      rw [← hlast]
      refine ⟨?_, ?_⟩
      · intro h
        obtain ⟨hfront, hend⟩ := List.append_inj' h rfl
        exact ⟨hfront, List.singleton_inj.mp hend⟩
      · rintro ⟨hfront, hend⟩
        rw [hfront, hend]

end

/-- The records of the slots of a request are those of each slot alone if and only if no
slot leaves something behind for a later one. -/
theorem slotLogs_apart_iff (env : LogEnv) (handler : LogHandler) (request : RequestLog)
    (adInfo : LogAdInfo) (info : BiddingFlowExtraInfo) (userAgent referer userIp : Bytes)
    (slots : List LogSlot) :
    let start := requestStart adInfo info userAgent referer userIp
    (slotLogs env handler request start slots).map BidLog.slotPart =
        (slots.flatMap fun slot => slotLogs env handler request start [slot]).map
          BidLog.slotPart ↔
      slots.Pairwise LeavesAlone :=
  slotLogs_iff env handler request rfl ⟨rfl, rfl⟩ rfl slots

def sampleLogEnv : LogEnv where
  ids := sampleIds
  uniqueIdSeq := 1
  getAreaCodeStrByIp := fun _ => bytes "1-2-3"
  extractAreaInfo := fun _ => { country := 1, province := 2, city := 3 }

/-- A Youku request with a slot that is sold and one that is not. The record of the second
has the content type and the place of the first. -/
theorem slotLogs_mixed :
    let start := requestStart {} {} [] [] []
    let slots : List LogSlot :=
      [{ condition := { adxid := sampleIds .youku, mttyContentType := 5 }, searchOK := true },
        { condition := { adxid := sampleIds .youku }, searchOK := false }]
    (slotLogs sampleLogEnv (.exchange .youku) {} start slots).map BidLog.slotPart ≠
      (slots.flatMap fun slot => slotLogs sampleLogEnv (.exchange .youku) {} start [slot]).map
        BidLog.slotPart := by
  decide +kernel

end AdServer.Bid
