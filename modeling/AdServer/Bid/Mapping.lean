import AdServer.Constants
import AdServer.Url.Query
import AdServer.Library.Mealy

/-!
Cookie mapping as a bidding handler does it: `queryCookieMapping` looks the user of
a request up in the mapping store, `redoCookieMapping` names a new user where there
is none, and `getShowPara` and `getClickPara` put the user into the URLs. The
handler keeps all of this in its member `cmInfo` from one request to the next.
-/
namespace AdServer.Bid

open Url

/-- `MT::User::UserID`, by the text of an id. `generate n` is the text of the id that
is made when `n` have been made before: a random or configured number and the clock. -/
structure UserLib where
  isValid : Bytes → Bool
  cipher : Bytes → Bytes
  generate : Nat → Bytes

structure MtUserMapping where
  userId : Bytes := []
  cypherUserId : Bytes := []
  outerUserOriginId : Bytes := []
  deriving DecidableEq, Repr

namespace MtUserMapping

def adxUidKey (adxId : Int) : Bytes := bytes "adxuid_" ++ intToString adxId

def idfaKey : Bytes := bytes "idfa"

def imeiKey : Bytes := bytes "imei"

def androidIdKey : Bytes := bytes "androidId"

def macKey : Bytes := bytes "mac"

def isValid (m : MtUserMapping) : Bool := !m.userId.isEmpty

def cypherUid (users : UserLib) (m : MtUserMapping) : MtUserMapping × Bytes :=
  if m.cypherUserId = [] then
    if users.isValid m.userId then
      ({ m with cypherUserId := users.cipher m.userId }, users.cipher m.userId)
    else (m, [])
  else (m, m.cypherUserId)

end MtUserMapping

theorem MtUserMapping.adxUidKey_ne_nil (adxId : Int) : MtUserMapping.adxUidKey adxId ≠ [] :=
  List.append_ne_nil_of_left_ne_nil (by decide) _

theorem MtUserMapping.take_adxUidKey (adxId : Int) :
    (MtUserMapping.adxUidKey adxId).take 3 = bytes "adx" := by
  rw [MtUserMapping.adxUidKey]
  rfl

theorem MtUserMapping.cString_adxUidKey (adxId : Int) :
    cString (MtUserMapping.adxUidKey adxId) = MtUserMapping.adxUidKey adxId := by
  apply cString_of_notMem
  rw [MtUserMapping.adxUidKey, List.mem_append, not_or]
  exact ⟨by decide, zero_notMem_intToString adxId⟩

structure CookieMappingQueryKeyValue where
  key : Bytes := []
  value : Bytes := []
  deviceMappings : List (Bytes × Bytes × Bytes) := []
  isAdxCookie : Bool
  deriving DecidableEq, Repr

namespace CookieMappingQueryKeyValue

def rebind (kv : CookieMappingQueryKeyValue) (k v : Bytes) (adxCookie : Bool) :
    CookieMappingQueryKeyValue :=
  { kv with key := k, value := v, isAdxCookie := adxCookie }

def clearDeviceMapping (kv : CookieMappingQueryKeyValue) : CookieMappingQueryKeyValue :=
  { kv with key := [], value := [], deviceMappings := [] }

def isNull (kv : CookieMappingQueryKeyValue) : Bool := kv.key.isEmpty || kv.value.isEmpty

/-- `unordered_map::insert`, which keeps an entry that is there. The loops over the
map write to the store under different keys, so their order does not matter. -/
def insertMapping (mappings : List (Bytes × Bytes × Bytes)) (k v v2 : Bytes) :
    List (Bytes × Bytes × Bytes) :=
  if mappings.any fun entry => entry.1 = k then mappings else mappings ++ [(k, v, v2)]

def rebindDevice (kv : CookieMappingQueryKeyValue) (k v v2 : Bytes) :
    CookieMappingQueryKeyValue :=
  if k ≠ [] ∧ v ≠ [] then
    { key := if kv.isNull then k else kv.key
      value := if kv.isNull then v else kv.value
      deviceMappings := insertMapping kv.deviceMappings k v v2
      isAdxCookie := false }
  else { kv with isAdxCookie := false }

end CookieMappingQueryKeyValue

structure DeviceIds where
  idfa : Bytes := []
  imei : Bytes := []
  androidId : Bytes := []
  mac : Bytes := []
  deriving DecidableEq, Repr

def excludeIDFAs : List Bytes :=
  [bytes "9F89C84A559F573636A47FF8DAED0D33", bytes "00000000-0000-0000-0000-000000000000"]

def excludeIMEIs : List Bytes :=
  [bytes "5284047F4FFB4E04824A2FD1D1F0CD62", bytes "000000000000000",
    bytes "21371D265B5711B289344B479F583909", bytes "012345678912345", bytes "0",
    bytes "111111111111111"]

def excludeMACs : List Bytes :=
  [bytes "02:00:00:00:00:00", bytes "0F607264FC6318A92B9E13C65DB7CD3C", bytes "00:00:00:00:00:00",
    bytes "528C8E6CD4A3C6598999A0E9DF15AD32"]

def excludeAndroidIds : List Bytes := [bytes "9774d56d682e549c"]

/-- `filter...(raw) ? "" : id`. -/
def unlessExcluded (excluded : List Bytes) (raw id : Bytes) : Bytes :=
  if excluded.contains raw then [] else id

/-- What a handler hands to `cookieMappingKeyMobile`, or to `cookieMappingKeyPC` and
`cookieMappingKeyWap`. The condition holds the ids as the exchange sent them. -/
inductive KeySource
  | mobile (ids condition : DeviceIds) (appAdxId : Int) (appUserId : Bytes)
  | cookie (adxId : Int) (text : Bytes)
  deriving DecidableEq, Repr

open MtUserMapping CookieMappingQueryKeyValue in
def cookieMappingKeyMobile (ids condition : DeviceIds) (appAdxId : Int) (appUserId : Bytes)
    (kv : CookieMappingQueryKeyValue) : CookieMappingQueryKeyValue :=
  kv.clearDeviceMapping
    |>.rebindDevice idfaKey (unlessExcluded excludeIDFAs condition.idfa ids.idfa) condition.idfa
    |>.rebindDevice imeiKey (unlessExcluded excludeIMEIs condition.imei ids.imei) condition.imei
    |>.rebindDevice androidIdKey
      (unlessExcluded excludeAndroidIds condition.androidId ids.androidId) condition.androidId
    |>.rebindDevice macKey (unlessExcluded excludeMACs condition.mac ids.mac) condition.mac
    |>.rebindDevice (adxUidKey appAdxId) appUserId []

def cookieMappingKeyPC (adxId : Int) (cookie : Bytes) (kv : CookieMappingQueryKeyValue) :
    CookieMappingQueryKeyValue :=
  kv.rebind (MtUserMapping.adxUidKey adxId) cookie true

def KeySource.bind : KeySource → CookieMappingQueryKeyValue → CookieMappingQueryKeyValue
  | .mobile ids condition appAdxId appUserId =>
    cookieMappingKeyMobile ids condition appAdxId appUserId
  | .cookie adxId text => cookieMappingKeyPC adxId text

open MtUserMapping in
/-- The keys and values under which a user of this request may be found. -/
def KeySource.pairs : KeySource → List (Bytes × Bytes)
  | .mobile ids condition appAdxId appUserId =>
    [(idfaKey, unlessExcluded excludeIDFAs condition.idfa ids.idfa),
      (imeiKey, unlessExcluded excludeIMEIs condition.imei ids.imei),
      (androidIdKey, unlessExcluded excludeAndroidIds condition.androidId ids.androidId),
      (macKey, unlessExcluded excludeMACs condition.mac ids.mac),
      (adxUidKey appAdxId, appUserId)]
  | .cookie adxId text => [(adxUidKey adxId, text)]

structure BidCookieMappingInfo where
  queryKV : CookieMappingQueryKeyValue
  userMapping : MtUserMapping := {}
  needReMapping : Bool := false
  needTouchMapping : Bool := false
  needFixMapping : Bool := false
  deriving DecidableEq, Repr

/-- What the store answers to a lookup; a record that is not there has no user. -/
structure StoreAnswer where
  userId : Bytes := []
  outerUserOriginId : Bytes := []
  isTimeout : Bool := false
  deriving DecidableEq, Repr

/-- The mapping store during one request, by set and key. -/
abbrev CookieStore := Bytes → Bytes → StoreAnswer

def getUserMappingByKey (store : CookieStore) (k v : Bytes) (isDevice : Bool) :
    MtUserMapping × Bool :=
  let answer := store k (cString v)
  ({ userId := answer.userId
     outerUserOriginId := if isDevice then answer.outerUserOriginId else [] }, answer.isTimeout)

/-- The flags that `queryCookieMapping` sets after a lookup. -/
def lookedUp (queryKV : CookieMappingQueryKeyValue) (mapping : MtUserMapping)
    (isGetTimeout : Bool) : BidCookieMappingInfo :=
  if mapping.isValid then
    if !queryKV.isAdxCookie && mapping.outerUserOriginId.isEmpty then
      { queryKV := queryKV, userMapping := mapping, needFixMapping := true }
    else { queryKV := queryKV, userMapping := mapping, needTouchMapping := true }
  else { queryKV := queryKV, userMapping := mapping, needReMapping := !isGetTimeout }

def queryCookieMapping (disabledCookieMapping : Bool) (store : CookieStore)
    (cm : BidCookieMappingInfo) : BidCookieMappingInfo :=
  let kv := cm.queryKV
  if disabledCookieMapping then
    { cm with needReMapping := false, needTouchMapping := false, needFixMapping := false }
  -- without a key only an exchange that maps cookies gets a new user
  else if kv.isNull then { queryKV := kv, needReMapping := kv.isAdxCookie }
  else
    let (mapping, isGetTimeout) := getUserMappingByKey store kv.key kv.value (!kv.isAdxCookie)
    lookedUp kv mapping isGetTimeout

/-- The URL by which an exchange tells this server its id of a user. -/
structure MappingUrl where
  base : Bytes
  u : Bytes
  adxId : Int
  deriving DecidableEq, Repr

def MappingUrl.text (url : MappingUrl) : Bytes :=
  url.base ++ bytes "&u=" ++ url.u ++ bytes "&x=" ++ intToString url.adxId

/-- The effects of handling a request that carry a user or a deal. `dealid` is the deal id of the
bid and `urlDealId` the `URL_DEAL_ID` that its ciphered show URL carries. -/
inductive BidEvent
  | newUser (userId : Bytes)
  | update (userId key value originId : Bytes) (ttlDays : Nat)
  | touch (key value userId originId : Bytes) (ttlDays : Nat)
  | mappingUrl (url : MappingUrl)
  | showUrl (u : Bytes)
  | clickUrl (u : Bytes)
  | dealid (dealId : Bytes)
  | urlDealId (number : Int)
  | bidLog (userId : Bytes)
  deriving DecidableEq, Repr

/-- The state a bidding handler keeps, the log record of the request it is handling and
the number of users named so far. -/
structure BidState where
  cmInfo : BidCookieMappingInfo
  isDeal : Bool := false
  logUserId : Bytes := []
  generated : Nat := 0
  deriving DecidableEq, Repr

def isAdxKey (key : Bytes) : Bool := decide (bytes "adx" <:+: key)

def mappingDays (key : Bytes) : Nat := if isAdxKey key then 30 else 900

def updateMappings (cm : BidCookieMappingInfo) (userId : Bytes) : List BidEvent :=
  cm.queryKV.deviceMappings.map fun (k, v, origin) => .update userId k v origin (mappingDays k)

def touchMappings (cm : BidCookieMappingInfo) : List BidEvent :=
  if cm.queryKV.isAdxCookie then
    [.touch cm.queryKV.key cm.queryKV.value cm.userMapping.userId [] 30]
  else
    cm.queryKV.deviceMappings.map fun (k, v, origin) =>
      .touch k v cm.userMapping.userId (if isAdxKey k then [] else origin) (mappingDays k)

/-- The state after the call, its effects, and the URL it returns, if any. With a native
mapping URL it returns before `needReMapping` is cleared. -/
def redoCookieMapping (users : UserLib) (adxId : Int) (adxCookieMappingUrl : Bytes)
    (s : BidState) : BidState × List BidEvent × Option MappingUrl :=
  let cm := s.cmInfo
  if cm.needReMapping then
    let userId := users.generate s.generated
    let cipher := users.cipher userId
    let named : BidCookieMappingInfo :=
      { cm with userMapping.userId := userId, userMapping.cypherUserId := cipher }
    if cm.queryKV.isAdxCookie ∧ adxCookieMappingUrl ≠ [] then
      ({ s with cmInfo := named, generated := s.generated + 1 }, [.newUser userId],
        some ⟨adxCookieMappingUrl, cipher, adxId⟩)
    else
      ({ s with cmInfo := { named with needReMapping := false }, generated := s.generated + 1 },
        .newUser userId :: (if cm.queryKV.isAdxCookie then [] else updateMappings cm userId), none)
  else if cm.needTouchMapping then (s, touchMappings cm, none)
  else if cm.needFixMapping then (s, updateMappings cm cm.userMapping.userId, none)
  else (s, [], none)

def KeyFrom (pairs : List (Bytes × Bytes)) (kv : CookieMappingQueryKeyValue) : Prop :=
  kv.isNull = true ∨ (kv.key, kv.value) ∈ pairs

theorem KeyFrom.rebindDevice {pairs : List (Bytes × Bytes)} {kv : CookieMappingQueryKeyValue}
    (h : KeyFrom pairs kv) {k v : Bytes} (hmem : (k, v) ∈ pairs) (v2 : Bytes) :
    KeyFrom pairs (kv.rebindDevice k v v2) := by
  unfold CookieMappingQueryKeyValue.rebindDevice
  split
  · cases hnull : kv.isNull with
    | true => exact .inr hmem
    | false =>
        rcases h with h | h
        · rw [hnull] at h
          cases h
        · exact .inr h
  · exact h

theorem keyFrom_bind (source : KeySource) (kv : CookieMappingQueryKeyValue) :
    KeyFrom source.pairs (source.bind kv) := by
  cases source with
  | mobile ids condition appAdxId appUserId =>
      have hstart : KeyFrom (KeySource.mobile ids condition appAdxId appUserId).pairs
          kv.clearDeviceMapping := .inl rfl
      refine ((((hstart.rebindDevice ?_ _).rebindDevice ?_ _).rebindDevice ?_ _).rebindDevice ?_
        _).rebindDevice ?_ _
      all_goals simp only [KeySource.pairs, List.mem_cons, true_or, or_true]
  | cookie adxId text => exact .inr List.mem_cons_self

/-- What is looked up depends on the request alone. -/
theorem bind_lookup (source : KeySource) (kv kv' : CookieMappingQueryKeyValue) :
    (source.bind kv).key = (source.bind kv').key ∧
      (source.bind kv).value = (source.bind kv').value ∧
      (source.bind kv).isAdxCookie = (source.bind kv').isAdxCookie := by
  cases source with
  | mobile ids condition appAdxId appUserId =>
      have hfirst : ∀ k v v2, kv.clearDeviceMapping.rebindDevice k v v2 =
          kv'.clearDeviceMapping.rebindDevice k v v2 := by
        intro k v v2
        rfl
      simp only [KeySource.bind, cookieMappingKeyMobile, hfirst, and_self]
  | cookie adxId text => exact ⟨rfl, rfl, rfl⟩

namespace MtUserMapping

variable (users : UserLib) (m : MtUserMapping)

@[simp]
theorem cypherUid_userId : (m.cypherUid users).1.userId = m.userId := by
  unfold cypherUid
  split
  · split <;> rfl
  · rfl

@[simp]
theorem cypherUid_cypherUserId :
    (m.cypherUid users).1.cypherUserId = (m.cypherUid users).2 := by
  unfold cypherUid
  split
  · split
    · rfl
    · assumption
  · rfl

theorem cypherUid_of_cached (h : m.cypherUserId ≠ []) : m.cypherUid users = (m, m.cypherUserId) :=
  if_neg h

theorem cypherUid_again :
    ((m.cypherUid users).1.cypherUid users).2 = (m.cypherUid users).2 := by
  by_cases hempty : (m.cypherUid users).2 = []
  · unfold cypherUid at hempty ⊢
    split at hempty
    · split at hempty <;> simp_all
    · contradiction
  · rw [cypherUid_of_cached _ _ (by rwa [cypherUid_cypherUserId]), cypherUid_cypherUserId]

theorem cypherUid_of_cypher (h : m.cypherUserId = [] ∨ m.cypherUserId = users.cipher m.userId) :
    (m.cypherUid users).2 = [] ∨ (m.cypherUid users).2 = users.cipher m.userId := by
  unfold cypherUid
  split
  · split
    · exact .inr rfl
    · exact .inl rfl
  · exact h

theorem cypherUid_of_cipher (h : m.cypherUserId = users.cipher m.userId) :
    (m.cypherUid users).2 = users.cipher m.userId := by
  rw [← h]
  unfold cypherUid
  split
  · rename_i hempty
    rw [← h, hempty]
    split <;> rfl
  · rfl

end MtUserMapping

namespace CookieMappingQueryKeyValue

def foundUser (store : CookieStore) (kv : CookieMappingQueryKeyValue) : Bytes :=
  if kv.isNull then [] else (store kv.key (cString kv.value)).userId

/-- A user has to be named: the store has none under the key, or there is no key and the
exchange takes a cookie. -/
def unmapped (store : CookieStore) (kv : CookieMappingQueryKeyValue) : Bool :=
  if kv.isNull then kv.isAdxCookie
  else (kv.foundUser store).isEmpty && !(store kv.key (cString kv.value)).isTimeout

end CookieMappingQueryKeyValue

theorem lookedUp_spec (kv : CookieMappingQueryKeyValue) (mapping : MtUserMapping)
    (isGetTimeout : Bool) :
    (lookedUp kv mapping isGetTimeout).queryKV = kv ∧
      (lookedUp kv mapping isGetTimeout).userMapping = mapping ∧
      (lookedUp kv mapping isGetTimeout).needReMapping =
        (mapping.userId.isEmpty && !isGetTimeout) := by
  unfold lookedUp MtUserMapping.isValid
  cases mapping.userId.isEmpty with
  | true => exact ⟨rfl, rfl, rfl⟩
  | false =>
      rw [Bool.not_false, if_pos rfl]
      split <;> exact ⟨rfl, rfl, rfl⟩

theorem CookieMappingQueryKeyValue.unmapped_foundUser {store : CookieStore}
    {kv : CookieMappingQueryKeyValue} (h : kv.unmapped store = true) : kv.foundUser store = [] := by
  cases hnull : kv.isNull with
  | true => rw [foundUser, hnull, if_pos rfl]
  | false =>
      rw [unmapped, hnull, if_neg Bool.false_ne_true, Bool.and_eq_true] at h
      exact List.isEmpty_iff.mp h.1

/-- What a request looks up, whatever the handler looked up before. -/
def KeySource.query (source : KeySource) : CookieMappingQueryKeyValue :=
  source.bind { isAdxCookie := false }

theorem bind_query (source : KeySource) (store : CookieStore) (kv : CookieMappingQueryKeyValue) :
    (source.bind kv).foundUser store = source.query.foundUser store ∧
      (source.bind kv).unmapped store = source.query.unmapped store ∧
      (source.bind kv).isAdxCookie = source.query.isAdxCookie := by
  obtain ⟨hkey, hvalue, hcookie⟩ := bind_lookup source kv { isAdxCookie := false }
  have hnull : (source.bind kv).isNull = source.query.isNull := by
    simp only [CookieMappingQueryKeyValue.isNull, hkey, hvalue, KeySource.query]
  unfold CookieMappingQueryKeyValue.unmapped CookieMappingQueryKeyValue.foundUser
  rw [hnull, hkey, hvalue, hcookie]
  exact ⟨rfl, rfl, rfl⟩

@[simp]
theorem queryCookieMapping_queryKV (disabled : Bool) (store : CookieStore)
    (cm : BidCookieMappingInfo) :
    (queryCookieMapping disabled store cm).queryKV = cm.queryKV := by
  simp only [queryCookieMapping]
  split
  · rfl
  · split
    · rfl
    · exact (lookedUp_spec ..).1

theorem queryCookieMapping_enabled (store : CookieStore) (cm : BidCookieMappingInfo) :
    (queryCookieMapping false store cm).userMapping.userId = cm.queryKV.foundUser store ∧
      (queryCookieMapping false store cm).userMapping.cypherUserId = [] ∧
      (queryCookieMapping false store cm).needReMapping = cm.queryKV.unmapped store := by
  simp only [queryCookieMapping, Bool.false_eq_true, if_false,
    CookieMappingQueryKeyValue.foundUser, CookieMappingQueryKeyValue.unmapped]
  cases cm.queryKV.isNull with
  | true => exact ⟨rfl, rfl, rfl⟩
  | false =>
      obtain ⟨-, hmapping, hflag⟩ := lookedUp_spec cm.queryKV
        (getUserMappingByKey store cm.queryKV.key cm.queryKV.value (!cm.queryKV.isAdxCookie)).1
        (getUserMappingByKey store cm.queryKV.key cm.queryKV.value (!cm.queryKV.isAdxCookie)).2
      rw [if_neg Bool.false_ne_true, if_neg Bool.false_ne_true, if_neg Bool.false_ne_true, hmapping,
        hflag]
      exact ⟨rfl, rfl, rfl⟩

def BidEvent.isStoreWrite : BidEvent → Bool
  | .update .. | .touch .. => true
  | _ => false

theorem isStoreWrite_updateMappings (cm : BidCookieMappingInfo) (userId : Bytes) :
    ∀ event ∈ updateMappings cm userId, event.isStoreWrite = true := by
  intro event hevent
  obtain ⟨entry, -, rfl⟩ := List.mem_map.mp hevent
  rfl

theorem isStoreWrite_touchMappings (cm : BidCookieMappingInfo) :
    ∀ event ∈ touchMappings cm, event.isStoreWrite = true := by
  intro event hevent
  unfold touchMappings at hevent
  split at hevent
  · rw [List.mem_singleton] at hevent
    rw [hevent]
    rfl
  · obtain ⟨entry, -, rfl⟩ := List.mem_map.mp hevent
    rfl

/-- Where no user has to be named only the store is written to. -/
theorem redoCookieMapping_mapped (users : UserLib) (adxId : Int) (url : Bytes) {s : BidState}
    (h : s.cmInfo.needReMapping = false) :
    ∃ writes, redoCookieMapping users adxId url s = (s, writes, none) ∧
      ∀ event ∈ writes, event.isStoreWrite = true := by
  simp only [redoCookieMapping, h, Bool.false_eq_true, if_false]
  split
  · exact ⟨_, rfl, isStoreWrite_touchMappings _⟩
  · split
    · exact ⟨_, rfl, isStoreWrite_updateMappings _ _⟩
    · exact ⟨_, rfl, fun event hevent => nomatch hevent⟩

/-- The exchange maps the cookie itself by the URL that `redoCookieMapping` returns. -/
def BidState.nativeMapping (s : BidState) (url : Bytes) : Bool :=
  s.cmInfo.queryKV.isAdxCookie && !url.isEmpty

theorem BidState.nativeMapping_iff {s : BidState} {url : Bytes} :
    s.nativeMapping url = true ↔ s.cmInfo.queryKV.isAdxCookie = true ∧ url ≠ [] := by
  simp only [nativeMapping, Bool.and_eq_true, Bool.not_eq_true', List.isEmpty_eq_false_iff]

def BidState.named (users : UserLib) (url : Bytes) (s : BidState) : BidState :=
  { s with
    cmInfo :=
      { s.cmInfo with
        userMapping.userId := users.generate s.generated
        userMapping.cypherUserId := users.cipher (users.generate s.generated)
        needReMapping := s.nativeMapping url }
    generated := s.generated + 1 }

theorem redoCookieMapping_unmapped (users : UserLib) (adxId : Int) (url : Bytes) {s : BidState}
    (h : s.cmInfo.needReMapping = true) :
    ∃ writes, redoCookieMapping users adxId url s =
        (s.named users url, .newUser (users.generate s.generated) :: writes,
          if s.nativeMapping url then
            some ⟨url, users.cipher (users.generate s.generated), adxId⟩
          else none) ∧
      ∀ event ∈ writes, event.isStoreWrite = true := by
  simp only [redoCookieMapping, h, if_true, BidState.named, ← BidState.nativeMapping_iff]
  cases s.nativeMapping url with
  | true => exact ⟨[], rfl, fun event hevent => nomatch hevent⟩
  | false =>
      refine ⟨_, rfl, ?_⟩
      split
      · exact fun event hevent => nomatch hevent
      · exact isStoreWrite_updateMappings _ _

end AdServer.Bid
