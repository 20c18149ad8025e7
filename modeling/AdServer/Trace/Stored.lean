import AdServer.Trace.Source
import AdServer.Library.BoundedRecord

/-!
A click's way through the store. `SourceRecord` is written to a record with room for 16
bins and read back by the trace handler, which copies it into its log. The constructor
sets 17 bins; the one without room is the last, and `getStr` reads a missing bin as the
empty text.
-/
namespace AdServer.Trace

open Url Billing BoundedRecord

inductive BinValue where
  | int64 (n : Int)
  | str (text : Bytes)
  deriving DecidableEq, Repr

abbrev AsRecord := Record Bytes BinValue

/-! ### Writing -/

section
variable {Rate : Type} (keys : UrlConst → Bytes)

/-- The calls of `as_record_set_int64` and `as_record_set_str`. -/
def sourceBins (m : ParamMap) (log : LogItem Rate) : List (Bytes × BinValue) :=
  let param (k : UrlConst) : BinValue := .str (cString (m.value (keys k)))
  [(bytes "latest_time", .int64 log.timeStamp), (bytes "adv_id", param .adownerId),
    (bytes "sid", param .execId), (bytes "adx_id", param .adxId),
    (bytes "mt_uid", .str (cString log.userId)), (bytes "pid", param .mttyadplaceId),
    (bytes "adxpid", param .adplaceId), (bytes "request_id", param .exposeId),
    (bytes "create_id", param .creativeId), (bytes "geo_id", param .areaId),
    (bytes "referer_url", param .referer), (bytes "bid_price", param .bidPrice),
    (bytes "ppid", param .productpackageId), (bytes "oid", param .orderId),
    (bytes "pricetype", param .priceType), (bytes "mid", param .siteId),
    (bytes "impid", param .exposeId)]

/-- The record that `SourceRecord::SourceRecord` builds. -/
def asRecord (m : ParamMap) (log : LogItem Rate) : AsRecord :=
  (sourceBins keys m log).foldl Record.set (Record.new 16)

end

def SourceRecord.bins (r : SourceRecord) : List (Bytes × BinValue) :=
  (bytes "latest_time", .int64 r.latestTime) :: r.texts.map fun bin => (bin.1, .str bin.2)

/-- What the store holds of a click are the bins of its record. -/
theorem bins_sourceRecord {Rate : Type} (keys : UrlConst → Bytes) (m : ParamMap)
    (log : LogItem Rate) : (sourceRecord keys m log).bins = (asRecord keys m log).bins := by
  have hnodup : ((sourceBins keys m log).map Prod.fst).Nodup := by
    have hnames : (sourceBins keys m log).map Prod.fst =
        ["latest_time", "adv_id", "sid", "adx_id", "mt_uid", "pid", "adxpid", "request_id",
          "create_id", "geo_id", "referer_url", "bid_price", "ppid", "oid", "pricetype", "mid",
          "impid"].map bytes := rfl
    rw [hnames]
    decide
  rw [asRecord, foldl_set 16 _ hnodup]
  rfl

/-! ### Reading -/

/-- The members of a `SourceRecord` that has been read. -/
structure SourceFields where
  time : Int := 0
  advId : Bytes := []
  sid : Bytes := []
  adxId : Bytes := []
  mtUid : Bytes := []
  pid : Bytes := []
  adxPid : Bytes := []
  requestId : Bytes := []
  createId : Bytes := []
  geoId : Bytes := []
  refererUrl : Bytes := []
  bidPrice : Bytes := []
  ppId : Bytes := []
  oId : Bytes := []
  priceType : Bytes := []
  mId : Bytes := []
  impId : Bytes := []
  deriving DecidableEq, Repr

def getBin (bins : List (Bytes × BinValue)) (name : Bytes) : Option BinValue :=
  (bins.find? fun bin => bin.1 = name).map Prod.snd

def getInt64 (bins : List (Bytes × BinValue)) (name : Bytes) (fallback : Int) : Int :=
  match getBin bins name with
  | some (.int64 n) => n
  | _ => fallback

def getStr (bins : List (Bytes × BinValue)) (name : Bytes) : Bytes :=
  match getBin bins name with
  | some (.str text) => text
  | _ => []

/-- `SourceRecord::record`. -/
def readRecord (bins : List (Bytes × BinValue)) : SourceFields where
  time := getInt64 bins (bytes "latest_time") (-1)
  advId := getStr bins (bytes "adv_id")
  sid := getStr bins (bytes "sid")
  adxId := getStr bins (bytes "adx_id")
  mtUid := getStr bins (bytes "mt_uid")
  pid := getStr bins (bytes "pid")
  adxPid := getStr bins (bytes "adxpid")
  requestId := getStr bins (bytes "request_id")
  createId := getStr bins (bytes "create_id")
  geoId := getStr bins (bytes "geo_id")
  refererUrl := getStr bins (bytes "referer_url")
  bidPrice := getStr bins (bytes "bid_price")
  ppId := getStr bins (bytes "ppid")
  oId := getStr bins (bytes "oid")
  priceType := getStr bins (bytes "pricetype")
  mId := getStr bins (bytes "mid")
  impId := getStr bins (bytes "impid")

/-- The source record that `HandleTraceTask::customLogic` works with. -/
def traceRecord (sourceId : Bytes) (s : TraceState) : SourceFields :=
  if sourceId = [] then {}
  else (s.sources (cString sourceId)).elim {} fun r => readRecord r.bins

structure TraceInfo where
  version : Bytes := []
  deviceType : Bytes := []
  sourceid : Bytes := []
  tags : List Bytes := []
  deriving DecidableEq, Repr

structure TraceLog (Rate : Type) extends LogItem Rate where
  traceInfo : TraceInfo := {}

def tagNames : List Bytes :=
  ["t1", "t2", "t3", "t4", "t5", "t6", "t7", "t8", "t9", "t10"].map bytes

section
variable {Rate : Type}

/-- `safeconvert(stoi, text)`. -/
def safeStoi (text : Bytes) : Int := (stoi text).getD 0

def fillLog (extractAreaInfo : Bytes → GeoInfo) (m : ParamMap) (r : SourceFields)
    (version device sourceId : Bytes) (log : TraceLog Rate) : TraceLog Rate :=
  let log := { log with
    traceInfo :=
      { version := version, deviceType := device, sourceid := sourceId
        tags := tagNames.map m.value } }
  if r.time ≠ 0 then
    { log with
      adInfo := { log.adInfo with
        advId := safeStoi r.advId
        adxpid := r.adxPid
        pid := r.pid
        areaId := r.geoId
        bannerId := safeStoi r.createId
        sid := safeStoi r.sid
        bill := { log.adInfo.bill with bidPrice := safeStoi r.bidPrice }
        adxid := safeStoi r.adxId
        ppid := safeStoi r.ppId
        orderId := safeStoi r.oId
        priceType := safeStoi r.priceType
        mid := safeStoi r.mId
        impId := r.impId }
      geoInfo := extractAreaInfo (cString r.geoId) }
  else log

end

/-! ### There and back -/

section
variable {Rate : Type} (keys : UrlConst → Bytes)

structure IsClick (m : ParamMap) (log : LogItem Rate) (r : SourceFields) : Prop where
  time : r.time = log.timeStamp
  advId : r.advId = m.value (keys .adownerId)
  sid : r.sid = m.value (keys .execId)
  adxId : r.adxId = m.value (keys .adxId)
  mtUid : r.mtUid = log.userId
  pid : r.pid = m.value (keys .mttyadplaceId)
  adxPid : r.adxPid = m.value (keys .adplaceId)
  createId : r.createId = m.value (keys .creativeId)
  geoId : r.geoId = m.value (keys .areaId)
  bidPrice : r.bidPrice = m.value (keys .bidPrice)
  ppId : r.ppId = m.value (keys .productpackageId)
  oId : r.oId = m.value (keys .orderId)
  priceType : r.priceType = m.value (keys .priceType)
  mId : r.mId = m.value (keys .siteId)
  impId : r.impId = m.value (keys .exposeId)

/-- The click is read back, and every trace log that it is copied into has its impression
id. -/
def Survives (extractAreaInfo : Bytes → GeoInfo) (m : ParamMap) (log : LogItem Rate)
    (r : SourceFields) : Prop :=
  IsClick keys m log r ∧
    ∀ params version device sourceId (traceLog : TraceLog Rate),
      (fillLog extractAreaInfo params r version device sourceId traceLog).adInfo.impId =
        m.value (keys .exposeId)

theorem readRecord_sourceRecord (m : ParamMap) (log : LogItem Rate) :
    readRecord (sourceRecord keys m log).bins =
      { time := log.timeStamp
        advId := cString (m.value (keys .adownerId))
        sid := cString (m.value (keys .execId))
        adxId := cString (m.value (keys .adxId))
        mtUid := cString log.userId
        pid := cString (m.value (keys .mttyadplaceId))
        adxPid := cString (m.value (keys .adplaceId))
        requestId := cString (m.value (keys .exposeId))
        createId := cString (m.value (keys .creativeId))
        geoId := cString (m.value (keys .areaId))
        refererUrl := cString (m.value (keys .referer))
        bidPrice := cString (m.value (keys .bidPrice))
        ppId := cString (m.value (keys .productpackageId))
        oId := cString (m.value (keys .orderId))
        priceType := cString (m.value (keys .priceType))
        mId := cString (m.value (keys .siteId))
        impId := [] } := rfl

variable {keys}

theorem traceRecord_recordSource {failures : WriteFailures} {m : ParamMap} {log : LogItem Rate}
    {s : TraceState} {val : Nat} (hissued : issued keys failures m log s = some val)
    (hsource : failures.source = false) :
    traceRecord (sourceIdText val) (recordSource keys failures m log s).1 =
      readRecord (sourceRecord keys (withSourceId m val) log).bins := by
  rw [recordSource_of_issued hissued, traceRecord, if_neg (sourceIdText_ne_nil val)]
  simp only [recorded, hsource, Bool.false_eq_true, if_false, cString_sourceIdText,
    Function.update_self, Option.elim_some]

theorem notMem_value_withSourceId {m : ParamMap}
    (hnul : ∀ key value, m.lookup key = some value → (0 : UInt8) ∉ value) (val : Nat)
    (key : Bytes) : (0 : UInt8) ∉ (withSourceId m val).value key := by
  rw [ParamMap.value, withSourceId]
  by_cases hkey : key = bytes "source_id"
  · rw [hkey, Finmap.lookup_insert, Option.getD_some]
    exact fun hmem => (mem_sourceIdText hmem).1 rfl
  · rw [Finmap.lookup_insert_of_ne _ hkey]
    cases hlookup : m.lookup key with
    | none => exact List.not_mem_nil
    | some value => exact hnul key value hlookup

theorem value_withSourceId_eq_nil_iff {m : ParamMap} {val : Nat} {key : Bytes} :
    (withSourceId m val).value key = [] ↔ key ≠ bytes "source_id" ∧ m.value key = [] := by
  rw [ParamMap.value, withSourceId]
  by_cases hkey : key = bytes "source_id"
  · rw [hkey, Finmap.lookup_insert, Option.getD_some]
    exact iff_of_false (sourceIdText_ne_nil val) fun h => h.1 rfl
  · rw [Finmap.lookup_insert_of_ne _ hkey]
    exact ⟨fun h => ⟨hkey, h⟩, fun h => h.2⟩

/-- A record that is read back is that of its click up to the impression id, which is
missing, and a user that has a NUL. -/
theorem isClick_readRecord_iff {m : ParamMap} (hnul : ∀ key, (0 : UInt8) ∉ m.value key)
    (log : LogItem Rate) :
    IsClick keys m log (readRecord (sourceRecord keys m log).bins) ↔
      m.value (keys .exposeId) = [] ∧ (0 : UInt8) ∉ log.userId := by
  have hparam : ∀ k, cString (m.value (keys k)) = m.value (keys k) := fun k =>
    cString_of_notMem (hnul (keys k))
  rw [readRecord_sourceRecord]
  refine ⟨?_, ?_⟩
  · intro h
    have huser : cString log.userId = log.userId := h.mtUid
    refine ⟨h.impId.symm, ?_⟩
    rw [← huser]
    exact zero_notMem_cString _
  · rintro ⟨hexpose, huser⟩
    exact
      { time := rfl
        advId := hparam _
        sid := hparam _
        adxId := hparam _
        mtUid := cString_of_notMem huser
        pid := hparam _
        adxPid := hparam _
        createId := hparam _
        geoId := hparam _
        bidPrice := hparam _
        ppId := hparam _
        oId := hparam _
        priceType := hparam _
        mId := hparam _
        impId := hexpose.symm }

theorem fillLog_impId (extractAreaInfo : Bytes → GeoInfo) (m : ParamMap) (r : SourceFields)
    (version device sourceId : Bytes) (log : TraceLog Rate) :
    (fillLog extractAreaInfo m r version device sourceId log).adInfo.impId =
      if r.time ≠ 0 then r.impId else log.adInfo.impId := by
  unfold fillLog
  split <;> rfl

end

/-- A click that is recorded is read back unchanged, its impression id included, if and
only if it has no impression id, its user has no NUL and its time is not zero. -/
theorem click_survives_iff {Rate : Type} (keys : UrlConst → Bytes)
    (extractAreaInfo : Bytes → GeoInfo) (m : ParamMap)
    (hnul : ∀ key value, m.lookup key = some value → (0 : UInt8) ∉ value) (log : LogItem Rate)
    (s : TraceState) (val : Nat) (hissued : issued keys {} m log s = some val) :
    let click := recordSource keys {} m log s
    Survives keys extractAreaInfo click.2 log (traceRecord (sourceIdText val) click.1) ↔
      (keys .exposeId ≠ bytes "source_id" ∧ m.value (keys .exposeId) = []) ∧
        (0 : UInt8) ∉ log.userId ∧ log.timeStamp ≠ 0 := by
  have hmap : (recordSource keys {} m log s).2 = withSourceId m val := by
    rw [recordSource_of_issued hissued]
  have hclick : IsClick keys (withSourceId m val) log
      (readRecord (sourceRecord keys (withSourceId m val) log).bins) ↔ _ :=
    isClick_readRecord_iff (notMem_value_withSourceId hnul val) log
  simp only [hmap, traceRecord_recordSource hissued rfl, Survives, hclick, fillLog_impId]
  have htime : (readRecord (sourceRecord keys (withSourceId m val) log).bins).time =
    log.timeStamp := rfl
  have himp : (readRecord (sourceRecord keys (withSourceId m val) log).bins).impId = [] := rfl
  rw [htime, himp, ← value_withSourceId_eq_nil_iff]
  refine ⟨?_, ?_⟩
  · rintro ⟨⟨hexpose, huser⟩, hlogs⟩
    refine ⟨hexpose, huser, ?_⟩
    intro hzero
    have hlog := hlogs ∅ [] [] [] { adInfo.impId := bytes "i" }
    rw [if_neg (not_not.mpr hzero), hexpose] at hlog
    have hne : bytes "i" ≠ [] := by decide
    exact hne hlog
  · rintro ⟨hexpose, huser, hnonzero⟩
    refine ⟨⟨hexpose, huser⟩, ?_⟩
    intro _ _ _ _ _
    rw [if_pos hnonzero, hexpose]

theorem click_survives_sample :
    let log : LogItem Unit := { clickLog with timeStamp := 1470000000 }
    let click := recordSource sampleKeys {} clickParams log (seededStore 1).toTraceState
    Survives sampleKeys (fun _ => {}) click.2 log (traceRecord (sourceIdText 1) click.1) := by
  refine (click_survives_iff sampleKeys (fun _ => {}) clickParams ?_ _ _ 1 (by decide)).mpr
    (by decide)
  intro key value hlookup
  rw [clickParams] at hlookup
  by_cases hkey : key = sampleKeys .adownerId
  · rw [hkey, Finmap.lookup_insert] at hlookup
    cases hlookup
    decide
  · rw [Finmap.lookup_insert_of_ne _ hkey] at hlookup
    cases hlookup

/-- A click with an impression id: the trace log has none. -/
theorem click_loses_impId :
    let log : LogItem Unit := { clickLog with timeStamp := 1470000000 }
    let m : ParamMap := Finmap.insert (sampleKeys .exposeId) (bytes "14700000001") clickParams
    let click := recordSource sampleKeys {} m log (seededStore 1).toTraceState
    click.2.value (sampleKeys .exposeId) = bytes "14700000001" ∧
      (fillLog (fun _ => {}) ∅ (traceRecord (sourceIdText 1) click.1) [] [] (sourceIdText 1)
        ({} : TraceLog Unit)).adInfo.impId = [] := by
  decide +kernel

end AdServer.Trace
