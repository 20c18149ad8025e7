import AdServer.Bid.Exchange

/-!
Whom the slots of a bid request are searched for. The handlers whose exchanges send
several slots fill their select conditions in one loop: the first round reads the
device and the user of the request, the other rounds copy fields of
`queryConditions[0]`. Youku and Nex leave a round by `continue` in front of that; its
condition is passed to the callback all the same, and the rounds after it copy from
the first one even where it was left so.

The fields are those that `makeRequest` sends about the viewer. What the conversion
functions of a handler make of the device comes as a reading, and the user is the one
that `queryCookieMapping` finds, empty where there is none.
-/
namespace AdServer.Bid

structure Audience where
  adxid : Int := 0
  flowType : FlowType := .unset
  mobileDevice : Int := 0
  mobileNetwork : Int := 0
  mobileNetWorkProvider : Int := 0
  ip : Bytes := []
  pcOS : Int := 0
  pcBrowserStr : Bytes := []
  mtUserId : Bytes := []
  geo : Rat × Rat := (0, 0)
  deviceBrand : Int := 0
  deriving DecidableEq

structure DeviceReading where
  flowType : FlowType := .unset
  mobileDevice : Int := 0
  mobileNetwork : Int := 0
  mobileNetWorkProvider : Int := 0
  ip : Bytes := []
  pcOS : Int := 0
  pcBrowserStr : Bytes := []
  geo : Rat × Rat := (0, 0)
  deviceBrand : Int := 0

/-- Baidu always has the user agent to read. -/
inductive SlotsRequest
  | baidu (isPing isTest : Bool) (slots : Nat) (ip : Bytes) (device : DeviceReading) (user : Bytes)
  | youku (imps : List YoukuImp) (device : Option DeviceReading) (user : Bytes)
  | nex (imps : List NexImp) (device : Option DeviceReading) (user : Bytes)
  | liebao (isTest : Bool) (imps : List LiebaoImp) (device : Option DeviceReading) (user : Bytes)
  | adx2345 (slots : Nat) (device : Option DeviceReading)

namespace SlotsRequest

/-- For each slot whether its round is left by `continue`. -/
def skips : SlotsRequest → List Bool
  | .youku imps .. => imps.map YoukuImp.skipped
  | .nex imps .. => imps.map NexImp.skipped
  | .liebao _ imps .. => imps.map fun _ => false
  | .baidu _ _ slots .. | .adx2345 slots _ => List.replicate slots false

/-- Whether `filter` returns in front of the callback. Liebao returns from its loop at an
impression without sizes. -/
def returns : SlotsRequest → Bool
  | .baidu isPing isTest .. => isPing || isTest
  | .youku imps .. => imps.isEmpty
  | .nex imps .. => imps.isEmpty
  | .liebao isTest imps .. => isTest || imps.isEmpty || imps.any fun imp => imp.sizes = 0
  | .adx2345 slots _ => slots = 0

section
variable (ids : AdxConst → Int)

/-- The condition of a round in front of its test for the first slot. -/
def start : SlotsRequest → Audience
  | .baidu _ _ _ ip .. => { adxid := ids .baidu, ip := ip }
  | .youku .. => { adxid := ids .youku }
  | .nex .. => { adxid := ids .nexPc }
  | .liebao .. => { adxid := ids .liebaoMobile, flowType := .mobile }
  | .adx2345 .. => { adxid := ids .adx2345Pc }

/-- The exchange becomes the mobile one where the device is mobile. -/
def mobileAdx (mobile : AdxConst) (device : DeviceReading) (adxid : Int) : Int :=
  if device.flowType = .mobile then ids mobile else adxid

def readBaidu (device : DeviceReading) (user : Bytes) (a : Audience) : Audience :=
  { a with
    geo := device.geo
    mobileDevice := device.mobileDevice
    mobileNetWorkProvider := device.mobileNetWorkProvider
    adxid := mobileAdx ids .baiduMobile device a.adxid
    flowType := device.flowType
    mobileNetwork := device.mobileNetwork
    pcOS := device.pcOS
    mtUserId := user }

def readYouku (device : Option DeviceReading) (user : Bytes) (a : Audience) : Audience :=
  match device with
  | some device =>
    { a with
      ip := device.ip
      mobileNetWorkProvider := device.mobileNetWorkProvider
      flowType := device.flowType
      mobileDevice := device.mobileDevice
      pcOS := device.pcOS
      pcBrowserStr := device.pcBrowserStr
      deviceBrand := device.deviceBrand
      adxid := mobileAdx ids .youkuMobile device a.adxid
      mobileNetwork := device.mobileNetwork
      mtUserId := user }
  | none => { a with mtUserId := user }

/-- Without a device the mapping is not queried. -/
def readNex (device : Option DeviceReading) (user : Bytes) (a : Audience) : Audience :=
  match device with
  | some device =>
    { a with
      ip := device.ip
      flowType := device.flowType
      mobileDevice := device.mobileDevice
      pcOS := device.pcOS
      pcBrowserStr := device.pcBrowserStr
      deviceBrand := device.deviceBrand
      adxid := mobileAdx ids .nexMobile device a.adxid
      mobileNetWorkProvider := device.mobileNetWorkProvider
      mobileNetwork := device.mobileNetwork
      mtUserId := user }
  | none => a

def readLiebao (device : Option DeviceReading) (user : Bytes) (a : Audience) : Audience :=
  match device with
  | some device =>
    { a with
      mobileDevice := device.mobileDevice
      pcOS := device.pcOS
      mobileNetwork := device.mobileNetwork
      ip := device.ip
      mtUserId := user }
  | none => a

def readAdx2345 (device : Option DeviceReading) (a : Audience) : Audience :=
  match device with
  | some device =>
    { a with
      ip := device.ip
      flowType := device.flowType
      mobileDevice := device.mobileDevice
      pcOS := device.pcOS
      pcBrowserStr := device.pcBrowserStr
      deviceBrand := device.deviceBrand
      adxid := mobileAdx ids .adx2345Mobile device a.adxid }
  | none => a

/-- The condition of a first round that reads the request. -/
def viewer (r : SlotsRequest) : Audience :=
  match r with
  | .baidu _ _ _ _ device user => readBaidu ids device user (r.start ids)
  | .youku _ device user => readYouku ids device user (r.start ids)
  | .nex _ device user => readNex ids device user (r.start ids)
  | .liebao _ _ device user => readLiebao device user (r.start ids)
  | .adx2345 _ device => readAdx2345 ids device (r.start ids)

end

/-- The other rounds copy from `queryConditions[0]`. -/
def follow (first own : Audience) : SlotsRequest → Audience
  | .baidu .. =>
    { own with
      pcOS := first.pcOS
      flowType := first.flowType
      mobileDevice := first.mobileDevice
      adxid := first.adxid
      mobileNetwork := first.mobileNetwork
      geo := first.geo }
  | .youku .. =>
    { own with
      mtUserId := first.mtUserId
      ip := first.ip
      flowType := first.flowType
      mobileDevice := first.mobileDevice
      pcOS := first.pcOS
      pcBrowserStr := first.pcBrowserStr
      mobileNetwork := first.mobileNetwork
      adxid := first.adxid
      deviceBrand := first.deviceBrand }
  | .nex .. =>
    { own with
      mtUserId := first.mtUserId
      ip := first.ip
      flowType := first.flowType
      mobileDevice := first.mobileDevice
      pcOS := first.pcOS
      pcBrowserStr := first.pcBrowserStr
      mobileNetwork := first.mobileNetwork
      adxid := first.adxid
      deviceBrand := first.deviceBrand
      mobileNetWorkProvider := first.mobileNetWorkProvider }
  | .liebao .. =>
    { own with
      mtUserId := first.mtUserId
      ip := first.ip
      flowType := first.flowType
      mobileDevice := first.mobileDevice
      pcOS := first.pcOS
      pcBrowserStr := first.pcBrowserStr
      mobileNetwork := first.mobileNetwork
      adxid := first.adxid }
  | .adx2345 .. =>
    { own with
      ip := first.ip
      flowType := first.flowType
      mobileDevice := first.mobileDevice
      pcOS := first.pcOS
      pcBrowserStr := first.pcBrowserStr
      adxid := first.adxid
      deviceBrand := first.deviceBrand }

section
variable (ids : AdxConst → Int) (r : SlotsRequest)

def round (filled : List Audience) (skipped : Bool) : Audience :=
  if skipped then r.start ids
  else
    match filled.head? with
    | none => r.viewer ids
    | some first => r.follow first (r.start ids)

def fillAudiences : List Bool → List Audience → List Audience
  | [], filled => filled
  | skipped :: slots, filled => fillAudiences slots (filled ++ [r.round ids filled skipped])

/-- What `filter` passes to the callback. -/
def offered : Option (List Audience) :=
  if r.returns then none else some (r.fillAudiences ids r.skips [])

end

/-- What a round that copies does not take over is empty: the network provider for Youku, and
with it the user for Baidu. -/
def carriesOver (a : Audience) : SlotsRequest → Prop
  | .baidu .. => a.mobileNetWorkProvider = 0 ∧ a.mtUserId = []
  | .youku .. => a.mobileNetWorkProvider = 0
  | .nex .. | .liebao .. | .adx2345 .. => True

variable {ids : AdxConst → Int} {r : SlotsRequest}

theorem follow_viewer_iff :
    r.follow (r.viewer ids) (r.start ids) = r.viewer ids ↔ r.carriesOver (r.viewer ids) := by
  cases r with
  | baidu isPing isTest slots ip device user =>
      simp [follow, viewer, readBaidu, start, carriesOver, eq_comm]
  | youku imps device user =>
      cases device <;> simp [follow, viewer, readYouku, start, carriesOver, eq_comm]
  | nex imps device user => cases device <;> simp [follow, viewer, readNex, start, carriesOver]
  | liebao isTest imps device user =>
      cases device <;> simp [follow, viewer, readLiebao, start, carriesOver]
  | adx2345 slots device =>
      cases device <;> simp [follow, viewer, readAdx2345, start, carriesOver]

theorem follow_start : r.follow (r.start ids) (r.start ids) = r.start ids := by
  cases r <;> rfl

theorem fillAudiences_cons (slots : List Bool) (first : Audience) (filled : List Audience) :
    r.fillAudiences ids slots (first :: filled) =
      first :: filled ++ slots.map (r.round ids [first]) := by
  induction slots generalizing filled with
  | nil => simp only [fillAudiences, List.map_nil, List.append_nil]
  | cons skipped slots ih =>
      have hround : r.round ids (first :: filled) skipped = r.round ids [first] skipped := rfl
      rw [fillAudiences, List.cons_append, ih, hround, List.map_cons]
      simp only [List.cons_append, List.append_assoc, List.nil_append]

theorem fillAudiences_nil_cons (skipped : Bool) (slots : List Bool) :
    r.fillAudiences ids (skipped :: slots) [] =
      r.round ids [] skipped :: slots.map (r.round ids [r.round ids [] skipped]) := by
  rw [fillAudiences, List.nil_append, fillAudiences_cons, List.singleton_append]

theorem round_nil_eq_viewer_iff {skipped : Bool} (hviewer : r.viewer ids ≠ r.start ids) :
    r.round ids [] skipped = r.viewer ids ↔ skipped = false := by
  cases skipped with
  | true => simpa [round] using hviewer.symm
  | false => simp [round]

theorem round_cons_eq_viewer_iff {skipped firstSkipped : Bool}
    (hviewer : r.viewer ids ≠ r.start ids) :
    r.round ids [r.round ids [] firstSkipped] skipped = r.viewer ids ↔
      skipped = false ∧ firstSkipped = false ∧ r.carriesOver (r.viewer ids) := by
  cases skipped with
  | true => simpa [round] using hviewer.symm
  | false =>
      cases firstSkipped with
      | true => simpa [round, follow_start] using hviewer.symm
      | false => simp [round, follow_viewer_iff]

theorem round_eq_start (hviewer : r.viewer ids = r.start ids) (skipped firstSkipped : Bool) :
    r.round ids [] skipped = r.start ids ∧
      r.round ids [r.round ids [] firstSkipped] skipped = r.start ids := by
  cases skipped <;> cases firstSkipped <;> simp [round, hviewer, follow_start]

theorem offered_eq {audiences : List Audience} (h : r.offered ids = some audiences) :
    audiences = r.fillAudiences ids r.skips [] := by
  unfold offered at h
  split at h
  · cases h
  · exact (Option.some.inj h).symm

/-- The exchanges and the flow types are those of the conditions of `YoukuRequest.filter`. -/
theorem offered_youku {env : BidEnv} {request : YoukuRequest} {device : Option DeviceReading}
    {user : Bytes} {audiences : List Audience}
    (hflow : device.map DeviceReading.flowType = request.device.map YoukuDevice.flowType)
    (h : (youku request.imps device user).offered env.ids = some audiences) :
    audiences.map (fun a => (a.adxid, a.flowType)) =
      (request.filter env).conditions.map fun c => (c.adxid, c.flowType) := by
  rw [offered_eq h]
  cases himps : request.imps with
  | nil => simp [skips, fillAudiences, YoukuRequest.filter, himps]
  | cons first imps =>
      have hrequest : request.flowType = (device.map DeviceReading.flowType).getD .unset := by
        rw [hflow]
        rfl
      rw [skips, List.map_cons, fillAudiences_nil_cons]
      cases hfirst : first.skipped <;> cases device <;>
        simp [YoukuRequest.filter, himps, hfirst, round, viewer, readYouku, start, follow,
          youkuCondition, hrequest, mobileAdx] <;> grind

theorem offered_nex {env : BidEnv} {request : NexRequest} {device : Option DeviceReading}
    {user : Bytes} {audiences : List Audience}
    (hflow : device.map DeviceReading.flowType = request.device.map NexDevice.flowType)
    (h : (nex request.imps device user).offered env.ids = some audiences) :
    audiences.map (fun a => (a.adxid, a.flowType)) =
      (request.filter env).conditions.map fun c => (c.adxid, c.flowType) := by
  rw [offered_eq h]
  cases himps : request.imps with
  | nil => simp [skips, fillAudiences, NexRequest.filter, himps]
  | cons first imps =>
      rw [skips, List.map_cons, fillAudiences_nil_cons]
      cases hfirst : first.skipped <;> cases device <;>
        simp [NexRequest.filter, himps, hfirst, round, viewer, readNex, start, follow,
          nexCondition, nexAdx, ← hflow, mobileAdx] <;> grind

/-- A slot is searched for the viewer of its request exactly if its round and the first one
read the request, and it is the first slot or nothing the rounds drop is known of them; or
if nothing is known of the viewer at all. -/
theorem slot_searched_for_viewer_iff {audiences : List Audience}
    (h : r.offered ids = some audiences) (k : Nat) (audience : Audience)
    (hk : audiences[k]? = some audience) :
    audience = r.viewer ids ↔
      r.viewer ids = r.start ids ∨
        r.skips[k]? = some false ∧ r.skips[0]? = some false ∧
          (k = 0 ∨ r.carriesOver (r.viewer ids)) := by
  rw [offered_eq h] at hk
  cases hskips : r.skips with
  | nil =>
      rw [hskips, fillAudiences, List.getElem?_nil] at hk
      cases hk
  | cons firstSkipped slots =>
      rw [hskips, fillAudiences_nil_cons] at hk
      by_cases hviewer : r.viewer ids = r.start ids
      · simp only [hviewer, true_or, iff_true]
        cases k with
        | zero =>
            rw [List.getElem?_cons_zero, Option.some.injEq] at hk
            rw [← hk, (round_eq_start hviewer firstSkipped firstSkipped).1]
        | succ k =>
            rw [List.getElem?_cons_succ, List.getElem?_map, Option.map_eq_some_iff] at hk
            obtain ⟨skipped, -, rfl⟩ := hk
            exact (round_eq_start hviewer skipped firstSkipped).2
      · simp only [hviewer, false_or]
        cases k with
        | zero =>
            rw [List.getElem?_cons_zero, Option.some.injEq] at hk
            rw [← hk, round_nil_eq_viewer_iff hviewer]
            simp
        | succ k =>
            rw [List.getElem?_cons_succ, List.getElem?_map, Option.map_eq_some_iff] at hk
            obtain ⟨skipped, hskipped, rfl⟩ := hk
            rw [round_cons_eq_viewer_iff hviewer]
            simp [hskipped]

/-- Two banners for a phone whose network provider is known. -/
def twoBanners : SlotsRequest :=
  .youku [⟨.banner, []⟩, ⟨.banner, []⟩]
    (some { flowType := .mobile, mobileNetWorkProvider := 1 }) []

theorem slot_searched_for_viewer_iff_banners :
    ∃ first second, twoBanners.offered (fun _ => 1) = some [first, second] ∧
      first = twoBanners.viewer (fun _ => 1) ∧ second ≠ twoBanners.viewer (fun _ => 1) := by
  obtain ⟨first, second, hoffered⟩ : ∃ first second,
      twoBanners.offered (fun _ => 1) = some [first, second] := ⟨_, _, rfl⟩
  refine ⟨first, second, hoffered, ?_, ?_⟩
  · exact (slot_searched_for_viewer_iff hoffered 0 first rfl).mpr (.inr ⟨rfl, rfl, .inl rfl⟩)
  · intro hsecond
    rcases (slot_searched_for_viewer_iff hoffered 1 second rfl).mp hsecond with h | h
    · exact absurd (congrArg Audience.mobileNetWorkProvider h) (by decide)
    · have hcarried : (1 : Int) = 0 := h.2.2.resolve_left (by decide)
      cases hcarried

end SlotsRequest

end AdServer.Bid
