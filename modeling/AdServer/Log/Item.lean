import AdServer.Billing.Price
import AdServer.Library.StreamCodec

/-!
The log record and its binary form. `codec_traits` of each type writes the fields one behind the
other and reads them in the same order, so a record can be read from the bytes that are written
for it, and from no shorter ones. How the Avro library writes a number, a text or an array is a
parameter, of which only the laws of its codecs are known.
-/
namespace AdServer.Log

open StreamCodec Billing

structure GeoInfo where
  latitude : Bytes := []
  longitude : Bytes := []
  country : BitVec 32 := 0
  province : BitVec 32 := 0
  city : BitVec 32 := 0
  district : BitVec 32 := 0
  street : BitVec 32 := 0
  deriving DecidableEq

structure AdInfo where
  areaId : Bytes := []
  advId : BitVec 64 := 0
  cpid : BitVec 64 := 0
  sid : BitVec 64 := 0
  bannerId : BitVec 64 := 0
  clickId : Bytes := []
  adxid : BitVec 32 := 0
  mid : BitVec 64 := 0
  cid : BitVec 64 := 0
  pid : Bytes := []
  impId : Bytes := []
  landingUrl : Bytes := []
  cost : BitVec 32 := 0
  bidPrice : BitVec 32 := 0
  adxpid : Bytes := []
  adxuid : Bytes := []
  offerPrice : BitVec 32 := 0
  bidSize : Bytes := []
  priceType : BitVec 32 := 0
  ppid : BitVec 32 := 0
  orderId : BitVec 64 := 0
  bidBasePrice : BitVec 32 := 0
  bidEcpmPrice : BitVec 32 := 0
  feeRateDetail : List UInt64 := []
  deriving DecidableEq

structure IPInfo where
  ipv4 : BitVec 32 := 0
  ipv6 : List (BitVec 32) := []
  proxy : Bytes := []
  deriving DecidableEq

structure UserInfo where
  age : BitVec 32 := 0
  sex : BitVec 32 := 0
  interest : BitVec 32 := 0
  deriving DecidableEq

structure TraceInfo where
  version : Bytes := []
  deviceType : Bytes := []
  sourceid : Bytes := []
  tag1 : Bytes := []
  tag2 : Bytes := []
  tag3 : Bytes := []
  tag4 : Bytes := []
  tag5 : Bytes := []
  tag6 : Bytes := []
  tag7 : Bytes := []
  tag8 : Bytes := []
  tag9 : Bytes := []
  tag10 : Bytes := []
  deriving DecidableEq

structure DeviceInfo where
  flowType : BitVec 32 := 0
  deviceType : BitVec 32 := 0
  netWork : BitVec 32 := 0
  os : BitVec 32 := 0
  deviceID : Bytes := []
  make : Bytes := []
  deriving DecidableEq

structure LogItem where
  timeStamp : BitVec 64 := 0
  logType : LogPhaseType := .BID
  reqStatus : BitVec 32 := 0
  reqMethod : BitVec 32 := 0
  ipInfo : IPInfo := {}
  referer : Bytes := []
  host : Bytes := []
  path : Bytes := []
  userId : Bytes := []
  userAgent : Bytes := []
  userInfo : UserInfo := {}
  geoInfo : GeoInfo := {}
  pageInfo : Bytes := []
  jsInfo : Bytes := []
  deviceInfo : Bytes := []
  traceId : BitVec 32 := 0
  adInfo : AdInfo := {}
  clickx : BitVec 32 := 0
  clicky : BitVec 32 := 0
  traceInfo : TraceInfo := {}
  dealIds : List Bytes := []
  keyWords : Bytes := []
  mediaType : BitVec 32 := 0
  contentTypes : List (BitVec 32) := []
  device : DeviceInfo := {}
  flowRef : BitVec 32 := 0
  deriving DecidableEq

/-- The codecs of the Avro library. -/
structure AvroLib where
  int : Codec UInt8 (BitVec 32)
  long : Codec UInt8 (BitVec 64)
  double : Codec UInt8 UInt64
  string : Codec UInt8 Bytes
  /-- `encodeEnum` and `decodeEnum` -/
  enum : Codec UInt8 Nat
  /-- `codec_traits` of a vector, by that of its items -/
  array : {α : Type} → Codec UInt8 α → Codec UInt8 (List α)

/-- Lengths are read as signed 32-bit numbers. -/
def avroLimit : Nat := 2 ^ 31

/-- What the records need of the library. -/
structure AvroLib.Lawful (lib : AvroLib) : Prop where
  int : lib.int.Lawful avroLimit
  long : lib.long.Lawful avroLimit
  double : lib.double.Lawful avroLimit
  string : lib.string.Lawful avroLimit
  enum_reads : ∀ index < avroLimit,
    Reads avroLimit lib.enum.read (lib.enum.write index) index
  enum_goesOn : Extends lib.enum.read
  enum_occupies : ∀ index, lib.enum.write index ≠ []
  array : ∀ {α : Type} {item : Codec UInt8 α}, item.Lawful avroLimit →
    (lib.array item).Lawful avroLimit

section Codecs

variable (lib : AvroLib)

def GeoInfo.codec : Codec UInt8 GeoInfo where
  write v := List.flatten [lib.string.write v.latitude, lib.string.write v.longitude,
    lib.int.write v.country, lib.int.write v.province, lib.int.write v.city,
    lib.int.write v.district, lib.int.write v.street]
  read := do
    let latitude ← lib.string.read
    let longitude ← lib.string.read
    let country ← lib.int.read
    let province ← lib.int.read
    let city ← lib.int.read
    let district ← lib.int.read
    let street ← lib.int.read
    return { latitude, longitude, country, province, city, district, street }

def AdInfo.codec : Codec UInt8 AdInfo where
  write v := List.flatten [lib.string.write v.areaId, lib.long.write v.advId, lib.long.write v.cpid,
    lib.long.write v.sid, lib.long.write v.bannerId, lib.string.write v.clickId,
    lib.int.write v.adxid, lib.long.write v.mid, lib.long.write v.cid, lib.string.write v.pid,
    lib.string.write v.impId, lib.string.write v.landingUrl, lib.int.write v.cost,
    lib.int.write v.bidPrice, lib.string.write v.adxpid, lib.string.write v.adxuid,
    lib.int.write v.offerPrice, lib.string.write v.bidSize, lib.int.write v.priceType,
    lib.int.write v.ppid, lib.long.write v.orderId, lib.int.write v.bidBasePrice,
    lib.int.write v.bidEcpmPrice, (lib.array lib.double).write v.feeRateDetail]
  read := do
    let areaId ← lib.string.read
    let advId ← lib.long.read
    let cpid ← lib.long.read
    let sid ← lib.long.read
    let bannerId ← lib.long.read
    let clickId ← lib.string.read
    let adxid ← lib.int.read
    let mid ← lib.long.read
    let cid ← lib.long.read
    let pid ← lib.string.read
    let impId ← lib.string.read
    let landingUrl ← lib.string.read
    let cost ← lib.int.read
    let bidPrice ← lib.int.read
    let adxpid ← lib.string.read
    let adxuid ← lib.string.read
    let offerPrice ← lib.int.read
    let bidSize ← lib.string.read
    let priceType ← lib.int.read
    let ppid ← lib.int.read
    let orderId ← lib.long.read
    let bidBasePrice ← lib.int.read
    let bidEcpmPrice ← lib.int.read
    let feeRateDetail ← (lib.array lib.double).read
    return {
      areaId, advId, cpid, sid, bannerId, clickId, adxid, mid, cid, pid, impId, landingUrl, cost,
      bidPrice, adxpid, adxuid, offerPrice, bidSize, priceType, ppid, orderId, bidBasePrice,
      bidEcpmPrice, feeRateDetail }

def IPInfo.codec : Codec UInt8 IPInfo where
  write v := List.flatten [lib.int.write v.ipv4, (lib.array lib.int).write v.ipv6,
    lib.string.write v.proxy]
  read := do
    let ipv4 ← lib.int.read
    let ipv6 ← (lib.array lib.int).read
    let proxy ← lib.string.read
    return { ipv4, ipv6, proxy }

def UserInfo.codec : Codec UInt8 UserInfo where
  write v := List.flatten [lib.int.write v.age, lib.int.write v.sex, lib.int.write v.interest]
  read := do
    let age ← lib.int.read
    let sex ← lib.int.read
    let interest ← lib.int.read
    return { age, sex, interest }

def TraceInfo.codec : Codec UInt8 TraceInfo where
  write v := List.flatten [lib.string.write v.version, lib.string.write v.deviceType,
    lib.string.write v.sourceid, lib.string.write v.tag1, lib.string.write v.tag2,
    lib.string.write v.tag3, lib.string.write v.tag4, lib.string.write v.tag5,
    lib.string.write v.tag6, lib.string.write v.tag7, lib.string.write v.tag8,
    lib.string.write v.tag9, lib.string.write v.tag10]
  read := do
    let version ← lib.string.read
    let deviceType ← lib.string.read
    let sourceid ← lib.string.read
    let tag1 ← lib.string.read
    let tag2 ← lib.string.read
    let tag3 ← lib.string.read
    let tag4 ← lib.string.read
    let tag5 ← lib.string.read
    let tag6 ← lib.string.read
    let tag7 ← lib.string.read
    let tag8 ← lib.string.read
    let tag9 ← lib.string.read
    let tag10 ← lib.string.read
    return {
      version, deviceType, sourceid, tag1, tag2, tag3, tag4, tag5, tag6, tag7, tag8, tag9, tag10 }

def DeviceInfo.codec : Codec UInt8 DeviceInfo where
  write v := List.flatten [lib.int.write v.flowType, lib.int.write v.deviceType,
    lib.int.write v.netWork, lib.int.write v.os, lib.string.write v.deviceID,
    lib.string.write v.make]
  read := do
    let flowType ← lib.int.read
    let deviceType ← lib.int.read
    let netWork ← lib.int.read
    let os ← lib.int.read
    let deviceID ← lib.string.read
    let make ← lib.string.read
    return { flowType, deviceType, netWork, os, deviceID, make }

/-- The phases are written by their numbers, and a number of no phase is refused. -/
def phases : List LogPhaseType := [.BID, .SHOW, .VIEW, .CLICK, .TRACK, .MAPPING]

def LogPhaseType.codec : Codec UInt8 LogPhaseType where
  write v := lib.enum.write (phases.idxOf v)
  read := do
    let index ← lib.enum.read
    if index < phases.length then pure (phases.getD index .BID) else failure

def LogItem.codec : Codec UInt8 LogItem where
  write v := List.flatten [lib.long.write v.timeStamp, (LogPhaseType.codec lib).write v.logType,
    lib.int.write v.reqStatus, lib.int.write v.reqMethod, (IPInfo.codec lib).write v.ipInfo,
    lib.string.write v.referer, lib.string.write v.host, lib.string.write v.path,
    lib.string.write v.userId, lib.string.write v.userAgent, (UserInfo.codec lib).write v.userInfo,
    (GeoInfo.codec lib).write v.geoInfo, lib.string.write v.pageInfo, lib.string.write v.jsInfo,
    lib.string.write v.deviceInfo, lib.int.write v.traceId, (AdInfo.codec lib).write v.adInfo,
    lib.int.write v.clickx, lib.int.write v.clicky, (TraceInfo.codec lib).write v.traceInfo,
    (lib.array lib.string).write v.dealIds, lib.string.write v.keyWords, lib.int.write v.mediaType,
    (lib.array lib.int).write v.contentTypes, (DeviceInfo.codec lib).write v.device,
    lib.int.write v.flowRef]
  read := do
    let timeStamp ← lib.long.read
    let logType ← (LogPhaseType.codec lib).read
    let reqStatus ← lib.int.read
    let reqMethod ← lib.int.read
    let ipInfo ← (IPInfo.codec lib).read
    let referer ← lib.string.read
    let host ← lib.string.read
    let path ← lib.string.read
    let userId ← lib.string.read
    let userAgent ← lib.string.read
    let userInfo ← (UserInfo.codec lib).read
    let geoInfo ← (GeoInfo.codec lib).read
    let pageInfo ← lib.string.read
    let jsInfo ← lib.string.read
    let deviceInfo ← lib.string.read
    let traceId ← lib.int.read
    let adInfo ← (AdInfo.codec lib).read
    let clickx ← lib.int.read
    let clicky ← lib.int.read
    let traceInfo ← (TraceInfo.codec lib).read
    let dealIds ← (lib.array lib.string).read
    let keyWords ← lib.string.read
    let mediaType ← lib.int.read
    let contentTypes ← (lib.array lib.int).read
    let device ← (DeviceInfo.codec lib).read
    let flowRef ← lib.int.read
    return {
      timeStamp, logType, reqStatus, reqMethod, ipInfo, referer, host, path, userId, userAgent,
      userInfo, geoInfo, pageInfo, jsInfo, deviceInfo, traceId, adInfo, clickx, clicky, traceInfo,
      dealIds, keyWords, mediaType, contentTypes, device, flowRef }

end Codecs

section Laws

variable {lib : AvroLib}

theorem GeoInfo.codec_lawful (h : lib.Lawful) : (GeoInfo.codec lib).Lawful avroLimit := by
  obtain ⟨hint, -, -, hstring, -⟩ := h
  refine ⟨fun v => ?_, ?_, fun v => ?_⟩
  · repeat refine .field (Codec.Lawful.reads (by assumption) _) ?_
    exact .nil v
  · repeat refine (Codec.Lawful.goesOn (by assumption)).bind fun _ => ?_
    exact .pure _
  · exact List.append_ne_nil_of_left_ne_nil (hstring.occupies v.latitude) _

theorem AdInfo.codec_lawful (h : lib.Lawful) : (AdInfo.codec lib).Lawful avroLimit := by
  have hdoubles := h.array h.double
  obtain ⟨hint, hlong, -, hstring, -⟩ := h
  refine ⟨fun v => ?_, ?_, fun v => ?_⟩
  · repeat refine .field (Codec.Lawful.reads (by assumption) _) ?_
    exact .nil v
  · repeat refine (Codec.Lawful.goesOn (by assumption)).bind fun _ => ?_
    exact .pure _
  · exact List.append_ne_nil_of_left_ne_nil (hstring.occupies v.areaId) _

theorem IPInfo.codec_lawful (h : lib.Lawful) : (IPInfo.codec lib).Lawful avroLimit := by
  have hints := h.array h.int
  obtain ⟨hint, -, -, hstring, -⟩ := h
  refine ⟨fun v => ?_, ?_, fun v => ?_⟩
  · repeat refine .field (Codec.Lawful.reads (by assumption) _) ?_
    exact .nil v
  · repeat refine (Codec.Lawful.goesOn (by assumption)).bind fun _ => ?_
    exact .pure _
  · exact List.append_ne_nil_of_left_ne_nil (hint.occupies v.ipv4) _

theorem UserInfo.codec_lawful (h : lib.Lawful) : (UserInfo.codec lib).Lawful avroLimit := by
  obtain ⟨hint, -⟩ := h
  refine ⟨fun v => ?_, ?_, fun v => ?_⟩
  · repeat refine .field (Codec.Lawful.reads (by assumption) _) ?_
    exact .nil v
  · repeat refine (Codec.Lawful.goesOn (by assumption)).bind fun _ => ?_
    exact .pure _
  · exact List.append_ne_nil_of_left_ne_nil (hint.occupies v.age) _

theorem TraceInfo.codec_lawful (h : lib.Lawful) : (TraceInfo.codec lib).Lawful avroLimit := by
  obtain ⟨-, -, -, hstring, -⟩ := h
  refine ⟨fun v => ?_, ?_, fun v => ?_⟩
  · repeat refine .field (Codec.Lawful.reads (by assumption) _) ?_
    exact .nil v
  · repeat refine (Codec.Lawful.goesOn (by assumption)).bind fun _ => ?_
    exact .pure _
  · exact List.append_ne_nil_of_left_ne_nil (hstring.occupies v.version) _

theorem DeviceInfo.codec_lawful (h : lib.Lawful) : (DeviceInfo.codec lib).Lawful avroLimit := by
  obtain ⟨hint, -, -, hstring, -⟩ := h
  refine ⟨fun v => ?_, ?_, fun v => ?_⟩
  · repeat refine .field (Codec.Lawful.reads (by assumption) _) ?_
    exact .nil v
  · repeat refine (Codec.Lawful.goesOn (by assumption)).bind fun _ => ?_
    exact .pure _
  · exact List.append_ne_nil_of_left_ne_nil (hint.occupies v.flowType) _

theorem LogPhaseType.codec_lawful (h : lib.Lawful) : (LogPhaseType.codec lib).Lawful avroLimit where
  reads v := by
    have hread := (h.enum_reads (phases.idxOf v) (by cases v <;> decide)).check
      (p := fun index => index < phases.length) (f := fun index => phases.getD index .BID)
      (by cases v <;> decide)
    cases v <;> exact hread
  goesOn := h.enum_goesOn.bind fun _ => .ite (.pure _) .fail
  occupies _ := h.enum_occupies _

theorem LogItem.codec_lawful (h : lib.Lawful) : (LogItem.codec lib).Lawful avroLimit := by
  have hphase := LogPhaseType.codec_lawful h
  have hip := IPInfo.codec_lawful h
  have huser := UserInfo.codec_lawful h
  have hgeo := GeoInfo.codec_lawful h
  have had := AdInfo.codec_lawful h
  have htrace := TraceInfo.codec_lawful h
  have hdevice := DeviceInfo.codec_lawful h
  have hdeals := h.array h.string
  have htypes := h.array h.int
  obtain ⟨hint, hlong, -, hstring, -⟩ := h
  refine ⟨fun v => ?_, ?_, fun v => ?_⟩
  · repeat refine .field (Codec.Lawful.reads (by assumption) _) ?_
    exact .nil v
  · repeat refine (Codec.Lawful.goesOn (by assumption)).bind fun _ => ?_
    exact .pure _
  · exact List.append_ne_nil_of_left_ne_nil (hlong.occupies v.timeStamp) _

end Laws

section Objects

variable (lib : AvroLib)

def writeAvroObject (obj : LogItem) : Bytes := (LogItem.codec lib).write obj

/-- The object that is read, with every field of the former one overwritten; `none` if the decoder
throws. -/
def getAvroObject (bytes : Bytes) : Option LogItem :=
  ((LogItem.codec lib).read.run bytes).map Prod.fst

/-- `checkDataValid` of the collector. -/
def checkDataValid (data : Bytes) : Bool := (getAvroObject lib data).isSome

/-- `AvroObjectWriter::write` of a vector. -/
def AvroObjectWriter.write (v : List LogItem) : Bytes := v.flatMap (writeAvroObject lib)

/-- `AvroObjectReader::read`, with what is left in the buffer. -/
def AvroObjectReader.read : Reader UInt8 LogItem := (LogItem.codec lib).read

end Objects

variable {lib : AvroLib}

theorem getAvroObject_write_append (hlib : lib.Lawful) {item : LogItem}
    (hsize : (writeAvroObject lib item).length < 2 ^ 31) (more : Bytes) :
    getAvroObject lib (writeAvroObject lib item ++ more) = some item := by
  have hread := (LogItem.codec_lawful hlib).reads item hsize more
  rw [getAvroObject, writeAvroObject, hread]
  rfl

/-- A record that is cut off is not valid. -/
theorem checkDataValid_take (hlib : lib.Lawful) {item : LogItem}
    (hsize : (writeAvroObject lib item).length < 2 ^ 31) (k : Nat) :
    checkDataValid lib ((writeAvroObject lib item).take k) =
      decide ((writeAvroObject lib item).length ≤ k) := by
  have hlaw := LogItem.codec_lawful hlib
  by_cases hk : (writeAvroObject lib item).length ≤ k
  · have hread := getAvroObject_write_append hlib hsize []
    rw [List.append_nil] at hread
    rw [decide_eq_true hk, List.take_of_length_le hk, checkDataValid, hread]
    rfl
  · have hcut := hlaw.goesOn.run_take_eq_none (hlaw.reads item) hsize (Nat.lt_of_not_le hk)
    rw [decide_eq_false hk, checkDataValid, getAvroObject, writeAvroObject, hcut]
    rfl

/-- Records that are written one behind the other are read again one by one. A record that is cut
off anywhere is refused. -/
theorem avroObjects_read_back (hlib : lib.Lawful) (items : List LogItem)
    (hsize : (AvroObjectWriter.write lib items).length < 2 ^ 31) (rest : Bytes) :
    (replicate (AvroObjectReader.read lib) items.length).run
        (AvroObjectWriter.write lib items ++ rest) = some (items, rest) ∧
      ∀ item ∈ items, ∀ k < (writeAvroObject lib item).length,
        getAvroObject lib ((writeAvroObject lib item).take k) = none := by
  refine ⟨Reads.replicate (LogItem.codec_lawful hlib).reads items hsize rest, ?_⟩
  intro item hitem k hk
  have hle : (writeAvroObject lib item).length ≤ (AvroObjectWriter.write lib items).length := by
    rw [AvroObjectWriter.write, List.flatMap_def]
    exact (List.sublist_flatten_of_mem (List.mem_map_of_mem hitem)).length_le
  have hcut := checkDataValid_take hlib (Nat.lt_of_le_of_lt hle hsize) k
  rw [decide_eq_false (Nat.not_le.mpr hk)] at hcut
  exact Option.isSome_eq_false_iff.mp hcut |> Option.isNone_iff_eq_none.mp

/-- Numbers in all their bytes, and the number of its items in front of a text or an array. -/
def plainAvro : AvroLib where
  int := (fixedWidth 4).via BitVec.toNat (BitVec.ofNat 32)
  long := (fixedWidth 8).via BitVec.toNat (BitVec.ofNat 64)
  double := (fixedWidth 8).via UInt64.toNat UInt64.ofNat
  string := .counted (fixedWidth 4) ((fixedWidth 1).via UInt8.toNat UInt8.ofNat)
  enum := fixedWidth 4
  array := .counted (fixedWidth 4)

theorem plainAvro_lawful : plainAvro.Lawful := by
  have hcount : ∀ n < avroLimit, Reads avroLimit (fixedWidth 4).read ((fixedWidth 4).write n) n :=
    fun n hn => reads_fixedWidth (Nat.lt_of_lt_of_le hn (by decide))
  have hcounted : ∀ {α : Type} {item : Codec UInt8 α}, item.Lawful avroLimit →
      (Codec.counted (fixedWidth 4) item).Lawful avroLimit := fun h =>
    h.counted hcount (extends_fixedWidth 4) (fixedWidth_ne_nil (by decide))
  refine ⟨?_, ?_, ?_, hcounted ?_, hcount, extends_fixedWidth 4, fixedWidth_ne_nil (by decide),
    hcounted⟩
  · exact .via_fixedWidth (by decide) BitVec.isLt fun _ => by simp
  · exact .via_fixedWidth (by decide) BitVec.isLt fun _ => by simp
  · exact .via_fixedWidth (by decide) UInt64.toNat_lt fun _ => UInt64.ofNat_toNat
  · exact .via_fixedWidth (by decide) UInt8.toNat_lt fun _ => UInt8.ofNat_toNat

theorem avroObjects_read_back_two :
    (AvroObjectWriter.write plainAvro
        [{}, { timeStamp := -5, dealIds := [bytes "ab", []] }]).length < 2 ^ 31 ∧
      (replicate (AvroObjectReader.read plainAvro) 2).run (AvroObjectWriter.write plainAvro
          [{}, { timeStamp := -5, dealIds := [bytes "ab", []] }] ++ [7]) =
        some ([{}, { timeStamp := -5, dealIds := [bytes "ab", []] }], [7]) :=
  ⟨by decide +kernel, (avroObjects_read_back plainAvro_lawful
    [{}, { timeStamp := -5, dealIds := [bytes "ab", []] }] (by decide +kernel) [7]).1⟩

end AdServer.Log
