import AdServer.Mapping.Store
import AdServer.Bid.Session
import AdServer.Billing.LogItem

/-!
The mapping endpoint and the bidding handlers meet in the store. A handler looks a
web user up under a key made of its exchange id and the exchange's user id. The
browser is sent to `HandleMappingQueryTask` with the exchange id of the mapping URL,
which stores the user under a key made from that id and the user agent.
-/
namespace AdServer.Mapping

open Url Bid Billing

/-! ### The endpoint -/

def getAdxMappingKey (ids : AdxConst → Int) (adxId : Int) : Bytes :=
  match AdxConst.label ids adxId with
  | some .tanx | some .tanxMobile => bytes "tanx_tid"
  | some .youku | some .youkuMobile => bytes "mzid"
  | some .sohuPc | some .sohuMobile => bytes "suid"
  | some .max360Pc | some .max360Mobile => bytes "mvuid"
  | some .baidu | some .baiduMobile => bytes "baidu_user_id"
  | _ => []

def checkAdxId (ids : AdxConst → Int) (userAgent : Bytes) (adxId : Int) : Int :=
  if contains userAgent "Mobile" then
    match AdxConst.label ids adxId with
    | some .tanx => ids .tanxMobile
    | some .youku => ids .youkuMobile
    | some .sohuPc => ids .sohuMobile
    | some .max360Pc => ids .max360Mobile
    | _ => adxId
  else adxId

def isAdxUidValid (ids : AdxConst → Int) (adxId : Int) (uid : Bytes) : Bool :=
  if adxId = ids .max360Pc ∨ adxId = ids .max360Mobile then uid ≠ bytes "E0" else true

def pixelResponse : HttpResponse where
  status := 302
  message := bytes "OK"
  headers :=
    [(bytes "Location", bytes "http://mtty-cdn.mtty.com/1x1.gif"),
      (bytes "Pragma", bytes "no-cache"),
      (bytes "Cache-Control", bytes "no-cache,no-store;must-revalidate"),
      (bytes "P3p", bytes
        "CP=\"CURa ADMa DEVa PSAo PSDo OUR BUS UNI PUR INT DEM STA PRE COM NAV OTC NOI DSP COR\"")]
  body := bytes "m"

structure MappingOutcome where
  store : MappingStore
  needLog : Bool
  response : HttpResponse

/-- `HandleMappingQueryTask::customLogic`; `none` is a write behind `char buf[1024]`,
which `urlDecode_f` clears for the text and a terminator. -/
def customLogic {Rate : Type} (ids : AdxConst → Int) (stray : Stray) (userAgent : Bytes)
    (m : ParamMap) (log : LogItem Rate) (store : MappingStore) : Option MappingOutcome :=
  let adxId := checkAdxId ids userAgent log.adInfo.adxid
  let adxUid := m.value (getAdxMappingKey ids adxId)
  if adxUid ≠ [] ∧ isAdxUidValid ids adxId adxUid then
    if adxUid.length < 1024 then
      some
        { store := store.put
            (updateMappingAdxUid log.userId adxId (urlDecode_f stray adxUid) mappingTtl)
          needLog := false
          response := pixelResponse }
    else none
  else some { store := store, needLog := false, response := pixelResponse }

/-! ### The web users of a bid request -/

/-- Whether a request that is handled comes from a mobile browser, and the exchange's id
of the user; `none` for an app. -/
def tanxWebUser (r : TanxRequest) : Option (Bool × Bytes) :=
  if r.isPing ∨ r.adzinfoSize = 0 then none
  else
    match r.mobile with
    | some mobile => if mobile.isApp then none else some (true, r.tid)
    | none => some (false, r.tid)

def juxiaoMaxWebUser (r : JuxiaoMaxRequest) : Option (Bool × Bytes) :=
  if r.adslotSize = 0 then none
  else
    match r.mobile with
    | some mobile => if mobile.isApp then none else some (true, r.mvUserId)
    | none => some (false, r.mvUserId)

def baiduWebUser (r : BaiduRequest) : Option (Bool × Bytes) :=
  if r.isPing ∨ r.isTest ∨ r.adslots = [] then none
  else
    match r.mobile with
    | some mobile => if mobile.hasApp then none else some (true, r.baiduUserId)
    | none => some (isMobileUA r.userAgent, r.baiduUserId)

def youkuWebUser (r : YoukuRequest) : Option (Bool × Bytes) :=
  match r.imps with
  | [] => none
  | first :: _ =>
    if first.skipped then none
    else if r.flowType = .mobile then if r.hasApp then none else some (true, r.userId)
    else some (false, r.userId)

def webUser : BidRequest → Option (Bool × Bytes)
  | .tanx r => tanxWebUser r
  | .juxiaoMax r => juxiaoMaxWebUser r
  | .baidu r => baiduWebUser r
  | .youku r => youkuWebUser r
  | _ => none

/-- The exchange ids of the handlers that map cookies, for PC and mobile browsers. -/
def webAdx : Exchange → Bool → Option AdxConst
  | .tanx, mobileWeb => some (if mobileWeb then .tanxMobile else .tanx)
  | .juxiaoMax, mobileWeb => some (if mobileWeb then .max360Mobile else .max360Pc)
  | .baidu, mobileWeb => some (if mobileWeb then .baiduMobile else .baidu)
  | .youku, mobileWeb => some (if mobileWeb then .youkuMobile else .youku)
  | _, _ => none

/-- The set and key under which `filter` looks the user of a request up. -/
def lookupKey (env : BidEnv) (request : BidRequest) : Option (Bytes × Bytes) :=
  (request.filter env).keys.map fun source => asKey source.query.key source.query.value

def LooksUp (adxId : Int) (v : Bytes) (plan : FilterPlan) : Prop :=
  plan.keys = some (.cookie adxId v) ∧ plan.queries = true

section
variable (env : BidEnv) {mobileWeb : Bool} {v : Bytes}

theorem tanx_looksUp {r : TanxRequest} (h : tanxWebUser r = some (mobileWeb, v)) :
    LooksUp (env.ids (if mobileWeb then .tanxMobile else .tanx)) v (r.filter env) := by
  obtain ⟨isPing, adzinfoSize, viewTypes, mobile, tid⟩ := r
  simp only [tanxWebUser] at h
  split at h
  · cases h
  · rename_i hreach
    rw [TanxRequest.filter, if_neg hreach]
    cases mobile with
    | none =>
        cases h
        exact ⟨rfl, rfl⟩
    | some mobile =>
        simp only [Option.ite_none_left_eq_some] at h
        obtain ⟨hweb, h⟩ := h
        cases h
        exact ⟨congrArg some (if_neg hweb), rfl⟩

theorem juxiaoMax_looksUp {r : JuxiaoMaxRequest} (h : juxiaoMaxWebUser r = some (mobileWeb, v)) :
    LooksUp (env.ids (if mobileWeb then .max360Mobile else .max360Pc)) v (r.filter env) := by
  obtain ⟨adslotSize, hasNative, deals, mobile, mvUserId⟩ := r
  simp only [juxiaoMaxWebUser] at h
  split at h
  · cases h
  · rename_i hreach
    rw [JuxiaoMaxRequest.filter, if_neg hreach]
    cases mobile with
    | none =>
        cases h
        exact ⟨rfl, rfl⟩
    | some mobile =>
        simp only [Option.ite_none_left_eq_some] at h
        obtain ⟨hweb, h⟩ := h
        cases h
        exact ⟨congrArg some (if_neg hweb), rfl⟩

theorem baidu_looksUp {r : BaiduRequest} (h : baiduWebUser r = some (mobileWeb, v)) :
    LooksUp (env.ids (if mobileWeb then .baiduMobile else .baidu)) v (r.filter env) := by
  obtain ⟨isPing, isTest, adslots, mobile, userAgent, baiduUserId⟩ := r
  simp only [baiduWebUser] at h
  split at h
  · cases h
  · rename_i hreach
    rw [BaiduRequest.filter, if_neg hreach]
    refine ⟨congrArg some ?_, rfl⟩
    cases mobile with
    | none =>
        cases h
        exact (apply_ite (fun c => KeySource.cookie (env.ids c) v) _ _ _).symm
    | some mobile =>
        simp only [Option.ite_none_left_eq_some] at h
        obtain ⟨hweb, h⟩ := h
        cases h
        exact if_neg hweb

theorem youku_keys (r : YoukuRequest) (happ : r.flowType = .mobile → r.hasApp = false) :
    r.keys env =
      .cookie (env.ids (if r.flowType = .mobile then .youkuMobile else .youku)) r.userId := by
  obtain ⟨imps, device, hasApp, userId⟩ := r
  cases device with
  | none => rfl
  | some device =>
      by_cases hflow : device.flowType = .mobile
      · have hweb : hasApp = false := happ hflow
        simp [YoukuRequest.keys, YoukuRequest.flowType, hflow, hweb]
      · simp [YoukuRequest.keys, YoukuRequest.flowType, hflow]

theorem youku_looksUp {r : YoukuRequest} (h : youkuWebUser r = some (mobileWeb, v)) :
    LooksUp (env.ids (if mobileWeb then .youkuMobile else .youku)) v (r.filter env) := by
  obtain ⟨imps, device, hasApp, userId⟩ := r
  cases imps with
  | nil => cases h
  | cons first rest =>
      simp only [youkuWebUser, Option.ite_none_left_eq_some] at h
      obtain ⟨hreach, h⟩ := h
      rw [Bool.not_eq_true] at hreach
      have hkeys := youku_keys env ⟨first :: rest, device, hasApp, userId⟩
      simp only [YoukuRequest.filter, LooksUp, hreach, Bool.false_eq_true, if_false, Bool.not_false,
        and_true, Option.some.injEq]
      split at h
      · rename_i hflow
        rw [Option.ite_none_left_eq_some, Bool.not_eq_true] at h
        obtain ⟨hweb, h⟩ := h
        cases h
        rw [hkeys fun _ => hweb, if_pos hflow, if_pos rfl]
      · rename_i hflow
        cases h
        rw [hkeys fun hmobile => absurd hmobile hflow, if_neg hflow, if_neg Bool.false_ne_true]

theorem looksUp_of_webUser {request : BidRequest} (h : webUser request = some (mobileWeb, v)) :
    ∃ c, webAdx request.exchange mobileWeb = some c ∧
      LooksUp (env.ids c) v (request.filter env) := by
  cases request with
  | tanx r => exact ⟨_, rfl, tanx_looksUp env h⟩
  | juxiaoMax r => exact ⟨_, rfl, juxiaoMax_looksUp env h⟩
  | baidu r => exact ⟨_, rfl, baidu_looksUp env h⟩
  | youku r => exact ⟨_, rfl, youku_looksUp env h⟩
  | _ => cases h

theorem redoMapping_webAdx {request : BidRequest} {condition : AdSelectCondition}
    {result : SelectResult} {adxId : Int} {url : Bytes} {placed : Bool}
    (h : webUser request = some (mobileWeb, v))
    (hredo : .redoMapping adxId url placed ∈ request.buildBidResult env condition result) :
    ∃ c, webAdx request.exchange false = some c ∧ adxId = env.ids c := by
  cases request with
  | tanx r =>
      refine ⟨.tanx, rfl, ?_⟩
      simp only [BidRequest.buildBidResult, tanxBuild] at hredo
      repeat' split at hredo
      all_goals simp at hredo; exact hredo.1
  | juxiaoMax r =>
      refine ⟨.max360Pc, rfl, ?_⟩
      simp only [BidRequest.buildBidResult, juxiaoMaxBuild, conditionDeal] at hredo
      repeat' split at hredo
      all_goals simp at hredo; exact hredo.1
  | baidu r =>
      refine ⟨.baidu, rfl, ?_⟩
      simp only [BidRequest.buildBidResult, baiduBuild] at hredo
      repeat' split at hredo
      all_goals simp at hredo; exact hredo.1
  | youku r =>
      refine ⟨.youku, rfl, ?_⟩
      simp [BidRequest.buildBidResult, youkuBuild] at hredo
      exact hredo.1
  | _ => cases h

variable {env}

theorem enter_userId (enabled : env.disabledCookieMapping = false) {adxId : Int}
    {plan : FilterPlan} (h : LooksUp adxId v plan) (hv : v ≠ []) (store : MappingStore)
    (s : BidState) :
    (plan.enter env store.answers s).cmInfo.userMapping.userId =
      ((store (asKey (MtUserMapping.adxUidKey adxId) v)).map MappingRecord.userId).getD [] := by
  have hnull : (KeySource.cookie adxId v).query.isNull = false := by
    simp [KeySource.query, KeySource.bind, cookieMappingKeyPC, CookieMappingQueryKeyValue.rebind,
      CookieMappingQueryKeyValue.isNull, hv, MtUserMapping.adxUidKey_ne_nil]
  simp only [FilterPlan.enter, h.1, h.2, if_true, enabled]
  rw [(queryCookieMapping_enabled _ _).1, (bind_query _ _ _).1,
    CookieMappingQueryKeyValue.foundUser, hnull, if_neg Bool.false_ne_true]
  simp only [MappingStore.answers, asKey, cString_cString]
  simp only [KeySource.query, KeySource.bind, cookieMappingKeyPC, CookieMappingQueryKeyValue.rebind]
  split
  · rename_i hrecord
    rw [hrecord]
    rfl
  · rename_i hrecord
    rw [hrecord]
    rfl

end

/-! ### The keys of the endpoint -/

section
variable {ids : AdxConst → Int} (distinct : Function.Injective ids)

theorem label_eq_some {adxId : Int} {c : AdxConst} (h : AdxConst.label ids adxId = some c) :
    adxId = ids c := by
  have hid := List.find?_some h
  exact (of_decide_eq_true hid).symm

def mobileAdx : AdxConst → AdxConst
  | .tanx => .tanxMobile
  | .youku => .youkuMobile
  | .sohuPc => .sohuMobile
  | .max360Pc => .max360Mobile
  | c => c

theorem checkAdxId_cases (ids : AdxConst → Int) (userAgent : Bytes) (adxId : Int) :
    checkAdxId ids userAgent adxId = adxId ∨
      ∃ c, adxId = ids c ∧ checkAdxId ids userAgent adxId = ids (mobileAdx c) := by
  rw [checkAdxId]
  split
  · split
    · rename_i hlabel
      exact .inr ⟨.tanx, label_eq_some hlabel, rfl⟩
    · rename_i hlabel
      exact .inr ⟨.youku, label_eq_some hlabel, rfl⟩
    · rename_i hlabel
      exact .inr ⟨.sohuPc, label_eq_some hlabel, rfl⟩
    · rename_i hlabel
      exact .inr ⟨.max360Pc, label_eq_some hlabel, rfl⟩
    · exact .inl rfl
  · exact .inl rfl

include distinct

theorem getAdxMappingKey_checkAdxId (userAgent : Bytes) (adxId : Int) :
    getAdxMappingKey ids (checkAdxId ids userAgent adxId) = getAdxMappingKey ids adxId := by
  rcases checkAdxId_cases ids userAgent adxId with hsame | ⟨c, rfl, hmobile⟩
  · rw [hsame]
  · rw [hmobile, getAdxMappingKey, getAdxMappingKey, AdxConst.label_of ids distinct,
      AdxConst.label_of ids distinct]
    cases c <;> rfl

theorem isAdxUidValid_checkAdxId (userAgent : Bytes) (adxId : Int) (uid : Bytes) :
    isAdxUidValid ids (checkAdxId ids userAgent adxId) uid = isAdxUidValid ids adxId uid := by
  rcases checkAdxId_cases ids userAgent adxId with hsame | ⟨c, rfl, hmobile⟩
  · rw [hsame]
  · simp only [hmobile, isAdxUidValid, distinct.eq_iff]
    cases c <;> rfl

/-- The endpoint stores under the exchange id of the browser, except for Baidu, whose
mobile id it does not know. -/
theorem checkAdxId_webAdx {e : Exchange} {pc c : AdxConst} {userAgent : Bytes}
    (hpc : webAdx e false = some pc) (hc : webAdx e (contains userAgent "Mobile") = some c) :
    checkAdxId ids userAgent (ids pc) = ids (if e = .baidu then .baidu else c) := by
  rw [checkAdxId]
  cases hagent : contains userAgent "Mobile" with
  | false =>
      rw [hagent] at hc
      cases hpc.symm.trans hc
      cases e <;> cases hpc <;> rfl
  | true =>
      rw [hagent] at hc
      cases e <;> cases hpc <;> cases hc <;> simp [AdxConst.label_of ids distinct]

end

/-! ### The encoded user id -/

section
variable {v : Bytes} (hascii : ∀ c ∈ v, c < 128) (stray : Stray)

include hascii

theorem eq_of_urlEncode_f_eq {text : Bytes} (htext : urlDecode_f stray text = text)
    (h : urlEncode_f stray v = text) : v = text := by
  rw [← htext, ← h, urlDecode_f_urlEncode_f stray stray v hascii]

theorem isAdxUidValid_urlEncode_f {ids : AdxConst → Int} {adxId : Int}
    (h : isAdxUidValid ids adxId v = true) :
    isAdxUidValid ids adxId (urlEncode_f stray v) = true := by
  rw [isAdxUidValid] at h ⊢
  split
  · rename_i hmax
    rw [if_pos hmax] at h
    simp only [ne_eq, decide_eq_true_eq] at h ⊢
    exact fun heq => h (eq_of_urlEncode_f_eq hascii stray rfl heq)
  · rfl

end

theorem length_urlEncode_f_le (stray : Stray) (v : Bytes) :
    (urlEncode_f stray v).length ≤ 3 * v.length := by
  have hcount := v.countP_le_length (p := fun c => !encodeEntryAt stray c)
  rw [urlEncode_f_eq, length_flatMap_escape, escapedSize]
  omega

/-! ### Closing the loop -/

/-- The endpoint stored the user under the key at which the request was looked up, and
under no other, and the next request of the same browser kind finds the user. -/
def ClosesLoop (env : BidEnv) (request : BidRequest) (u : Bytes) (before : MappingStore)
    (outcome : Option MappingOutcome) : Prop :=
  ∃ after key, outcome = some after ∧ lookupKey env request = some key ∧
    (∃ r, after.store key = some r ∧ r.userId = u) ∧
    (∀ other, other ≠ key → after.store other = before other) ∧
    ∀ next s, next.exchange = request.exchange → webUser next = webUser request →
      ((next.filter env).enter env after.store.answers s).cmInfo.userMapping.userId = u

section
variable {Rate : Type} {env : BidEnv} (distinct : Function.Injective env.ids) {stray' : Stray}
  {v : Bytes} {log : LogItem Rate} {m : ParamMap} (hv : v ≠ []) (hlen : v.length ≤ 300)
  (hascii : ∀ c ∈ v, c < 128) (hvalid : isAdxUidValid env.ids log.adInfo.adxid v = true)
  (hparam : m.lookup (getAdxMappingKey env.ids log.adInfo.adxid) = some (urlEncode_f stray' v))

include distinct hv hlen hascii hvalid hparam in
theorem customLogic_web (stray : Stray) (userAgent : Bytes) (store : MappingStore) :
    customLogic env.ids stray userAgent m log store =
      some { store := store.put (updateMappingAdxUid log.userId
              (checkAdxId env.ids userAgent log.adInfo.adxid) v mappingTtl)
             needLog := false
             response := pixelResponse } := by
  have hne : urlEncode_f stray' v ≠ [] := fun h =>
    hv (eq_of_urlEncode_f_eq hascii stray' rfl h)
  have hsize := length_urlEncode_f_le stray' v
  have hvalue : m.value (getAdxMappingKey env.ids
      (checkAdxId env.ids userAgent log.adInfo.adxid)) = urlEncode_f stray' v := by
    rw [getAdxMappingKey_checkAdxId distinct, ParamMap.value, hparam, Option.getD_some]
  simp only [customLogic, hvalue]
  rw [if_pos ⟨hne, by
      rw [isAdxUidValid_checkAdxId distinct]
      exact isAdxUidValid_urlEncode_f hascii stray' hvalid⟩,
    if_pos (by omega), urlDecode_f_urlEncode_f stray' stray v hascii]

end

theorem asKey_adxUidKey_injective {adxId adxId' : Int} {v : Bytes}
    (h : asKey (MtUserMapping.adxUidKey adxId) v = asKey (MtUserMapping.adxUidKey adxId') v) :
    adxId = adxId' := by
  have hset := (Prod.mk.inj h).1
  rw [MtUserMapping.cString_adxUidKey, MtUserMapping.cString_adxUidKey] at hset
  exact intToString_injective (List.append_cancel_left hset)

theorem put_adxUid_userId (store : MappingStore) {userId : Bytes} (hne : userId ≠ [])
    (hnul : (0 : UInt8) ∉ userId) (adxId : Int) (v : Bytes) (ttl : Int) :
    ∃ r, store.put (updateMappingAdxUid userId adxId v ttl)
        (asKey (MtUserMapping.adxUidKey adxId) v) = some r ∧ r.userId = userId := by
  refine ⟨_, put_self store (updateMappingAdxUid userId adxId v ttl), ?_⟩
  have hkey : ¬ (cString (MtUserMapping.adxUidKey adxId) = MappingRecord.userIdBin ∧ v ≠ []) := by
    rw [MtUserMapping.cString_adxUidKey]
    rintro ⟨heq, -⟩
    have hhead := congrArg (List.take 3) heq
    rw [MtUserMapping.take_adxUidKey] at hhead
    exact absurd hhead (by decide)
  exact (value_record_of_not_key hkey _).trans
    ((if_neg hne).trans (cString_of_notMem hnul))

/-- What is stored under another exchange id is not found. -/
theorem not_closesLoop {env : BidEnv} {request : BidRequest} {u v : Bytes} {adxId adxId' : Int}
    {outcome : Option MappingOutcome} (hne : adxId ≠ adxId')
    (hkey : lookupKey env request = some (asKey (MtUserMapping.adxUidKey adxId) v))
    (houtcome : outcome = some
      { store := MappingStore.empty.put (updateMappingAdxUid u adxId' v mappingTtl)
        needLog := false
        response := pixelResponse }) :
    ¬ ClosesLoop env request u MappingStore.empty outcome := by
  rintro ⟨after, key, hafter, hkey', ⟨r, hr, -⟩, -⟩
  cases hkey.symm.trans hkey'
  cases houtcome.symm.trans hafter
  have hother : asKey (MtUserMapping.adxUidKey adxId) v ≠
      asKey (MtUserMapping.adxUidKey adxId') v := fun h => hne (asKey_adxUidKey_injective h)
  have hmissing := put_of_ne MappingStore.empty
    (p := updateMappingAdxUid u adxId' v mappingTtl) hother
  cases hmissing.symm.trans hr

/-- A web user that the endpoint maps is found by the next request, for every store, if
and only if it did not come from a mobile browser over Baidu. -/
theorem closesLoop_iff {Rate : Type} (env : BidEnv) (distinct : Function.Injective env.ids)
    (enabled : env.disabledCookieMapping = false) (stray stray' : Stray) (request : BidRequest)
    (mobileWeb : Bool) (v : Bytes) (hweb : webUser request = some (mobileWeb, v)) (hv : v ≠ [])
    (hlen : v.length ≤ 300) (hascii : ∀ c ∈ v, c < 128) (condition : AdSelectCondition)
    (result : SelectResult) (url : Bytes) (placed : Bool) (userAgent : Bytes) (m : ParamMap)
    (log : LogItem Rate)
    (hredo : .redoMapping log.adInfo.adxid url placed ∈
      request.buildBidResult env condition result)
    (hparam : m.lookup (getAdxMappingKey env.ids log.adInfo.adxid) = some (urlEncode_f stray' v))
    (hvalid : isAdxUidValid env.ids log.adInfo.adxid v = true) (huser : log.userId ≠ [])
    (hnul : (0 : UInt8) ∉ log.userId) (hagent : contains userAgent "Mobile" = mobileWeb) :
    (∀ store, ClosesLoop env request log.userId store
        (customLogic env.ids stray userAgent m log store)) ↔
      ¬ (request.exchange = .baidu ∧ mobileWeb = true) := by
  obtain ⟨c, hc, hlooks⟩ := looksUp_of_webUser env hweb
  obtain ⟨pc, hpc, hadx⟩ := redoMapping_webAdx env hweb hredo
  have hkey : lookupKey env request = some (asKey (MtUserMapping.adxUidKey (env.ids c)) v) := by
    rw [lookupKey, hlooks.1]
    rfl
  have hstored : checkAdxId env.ids userAgent log.adInfo.adxid =
      env.ids (if request.exchange = .baidu then .baidu else c) := by
    rw [hadx]
    exact checkAdxId_webAdx distinct hpc (hagent ▸ hc)
  have hdone := customLogic_web distinct hv hlen hascii hvalid hparam stray userAgent
  rw [hstored] at hdone
  refine ⟨?_, ?_⟩
  · rintro hloop ⟨hbaidu, rfl⟩
    rw [hbaidu] at hc
    cases hc
    have hne : env.ids .baiduMobile ≠ env.ids .baidu := fun h => by cases distinct h
    refine not_closesLoop hne hkey ?_ (hloop MappingStore.empty)
    rw [hdone, if_pos hbaidu]
  · intro hclosed store
    have hsame : (if request.exchange = .baidu then .baidu else c) = c := by
      split
      · rename_i hbaidu
        have hpcWeb : mobileWeb = false := by simpa [hbaidu] using hclosed
        rw [hbaidu, hpcWeb] at hc
        exact Option.some.inj hc
      · rfl
    rw [hsame] at hdone
    obtain ⟨r, hr, hru⟩ := put_adxUid_userId store huser hnul (env.ids c) v mappingTtl
    refine ⟨_, _, hdone store, hkey, ⟨r, hr, hru⟩, fun other hother => put_of_ne store hother, ?_⟩
    intro next s hexchange hnext
    obtain ⟨c', hc', hlooks'⟩ := looksUp_of_webUser env (hnext.trans hweb)
    rw [hexchange] at hc'
    cases hc.symm.trans hc'
    rw [enter_userId enabled hlooks' hv]
    simpa only [hr, Option.map_some, Option.getD_some] using hru

/-- A PC that opens a page over Tanx, whose id at the exchange is `b`. -/
def tanxPc : BidRequest := .tanx { adzinfoSize := 1, tid := bytes "b" }

def mappingLog (adxId : Int) : LogItem Unit :=
  { userId := bytes "u", adInfo.adxid := adxId }

theorem sampleUid_ascii : ∀ c ∈ bytes "b", c < 128 := by
  intro c hc
  cases List.mem_singleton.mp hc
  decide

theorem closesLoop_sample :
    ClosesLoop sampleBidEnv tanxPc (bytes "u") MappingStore.empty
      (customLogic sampleIds blankStray [] (Finmap.insert (bytes "tanx_tid") (bytes "b") ∅)
        (mappingLog (sampleIds .tanx)) MappingStore.empty) :=
  (closesLoop_iff sampleBidEnv sampleIds_injective rfl blankStray blankStray tanxPc false
    (bytes "b") rfl (by decide) (by decide) sampleUid_ascii
    { adxid := sampleIds .tanx, flowType := .pc } { bannerType := .other, dDealId := bytes "0" }
    tanxCookieMappingUrl true [] (Finmap.insert (bytes "tanx_tid") (bytes "b") ∅)
    (mappingLog (sampleIds .tanx)) (by decide) (by decide) (by decide) (by decide) (by decide)
    (by decide)).mpr (by decide) MappingStore.empty

/-- A phone that opens a page over Baidu, whose id at the exchange is `b`. -/
def baiduPhone : BidRequest :=
  .baidu { adslots := [⟨true⟩], userAgent := bytes "Android", baiduUserId := bytes "b" }

/-- The user of the phone is stored where no request looks. -/
theorem baiduPhone_lost :
    webUser baiduPhone = some (true, bytes "b") ∧
    ¬ ClosesLoop sampleBidEnv baiduPhone (bytes "u") MappingStore.empty
      (customLogic sampleIds blankStray (bytes "Mobile")
        (Finmap.insert (bytes "baidu_user_id") (bytes "b") ∅)
        (mappingLog (sampleIds .baidu)) MappingStore.empty) := by
  have hparam : (Finmap.insert (bytes "baidu_user_id") (bytes "b") ∅ : ParamMap).lookup
      (getAdxMappingKey sampleIds (sampleIds .baidu)) =
        some (urlEncode_f blankStray (bytes "b")) := by
    decide
  have hvalid : isAdxUidValid sampleBidEnv.ids (mappingLog (sampleIds .baidu)).adInfo.adxid
      (bytes "b") = true := by decide
  have hdone := customLogic_web sampleIds_injective (by decide) (by decide) sampleUid_ascii hvalid
    hparam blankStray (bytes "Mobile") MappingStore.empty
  have hne : sampleIds .baiduMobile ≠ sampleIds .baidu := by decide
  exact ⟨by decide, not_closesLoop hne rfl hdone⟩

end AdServer.Mapping
