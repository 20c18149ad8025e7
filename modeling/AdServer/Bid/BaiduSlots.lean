import AdServer.Bid.Session

/-!
The select conditions of a Baidu request with several slots. `filter` fills them in
one loop: the first takes the mobile fields and the user of the request, every
other one copies fields of the first. The ad block of the first slot is among the
fields that are copied, the user is not.
-/
namespace AdServer.Bid

open Url

structure BaiduAdSlot extends BaiduSlot where
  adBlockKey : BitVec 64
  minimumCpm : Option Int := none

/-- `mobile_app`: the bundle id where there is an app id, and the category. -/
structure BaiduApp where
  bundleId : Option Bytes := none
  category : Option Int := none

structure BaiduBidRequest where
  isPing : Bool := false
  isTest : Bool := false
  adslots : List BaiduAdSlot
  mobile : Option BaiduMobile := none
  app : BaiduApp := {}
  userAgent : Bytes := []
  baiduUserId : Bytes := []
  ip : Bytes := []
  siteCategory : Option Int := none

structure BaiduCondition extends AdSelectCondition where
  adxpid : Bytes
  ip : Bytes
  basePrice : Int
  mttyContentType : Int := 0
  deviceIds : DeviceIds := {}
  mtUserId : Bytes := []
  deriving DecidableEq, Repr

def queriedUserId (disabledCookieMapping : Bool) (store : CookieStore)
    (cm : BidCookieMappingInfo) : Bytes :=
  let found := (queryCookieMapping disabledCookieMapping store cm).userMapping
  if !disabledCookieMapping && found.isValid then found.userId else []

namespace BaiduBidRequest

def toRequest (r : BaiduBidRequest) : BaiduRequest where
  isPing := r.isPing
  isTest := r.isTest
  adslots := r.adslots.map BaiduAdSlot.toBaiduSlot
  mobile := r.mobile
  userAgent := r.userAgent
  baiduUserId := r.baiduUserId

section
variable (env : BidEnv) (getContentType : Int → Bytes → Int) (store : CookieStore)
  (r : BaiduBidRequest)

/-- What a round of the loop fills in from the slot; `long pid` is signed. -/
def slotCondition (slot : BaiduAdSlot) : BaiduCondition where
  adxid := env.ids .baidu
  bannerType := (r.toRequest.condition env slot.toBaiduSlot).bannerType
  adxpid := intToString slot.adBlockKey.toInt
  ip := r.ip
  basePrice := slot.minimumCpm.getD 0
  mttyContentType :=
    (r.siteCategory.map fun category =>
      getContentType (env.ids .baidu) (intToString category)).getD 0

/-- The first round goes on with the flow and the user of the request. -/
def flowCondition (cm : BidCookieMappingInfo) (slot : BaiduAdSlot) : BaiduCondition :=
  { r.slotCondition env getContentType slot with
    adxid := env.ids (if r.toRequest.flowType = .mobile then .baiduMobile else .baidu)
    flowType := r.toRequest.flowType
    mtUserId := queriedUserId env.disabledCookieMapping store
      { cm with queryKV := (r.toRequest.keys env).bind cm.queryKV } }

/-- In an app the place is the app's bundle, and the devices are known. -/
def appCondition (mobile : BaiduMobile) (condition : BaiduCondition) : BaiduCondition :=
  { condition with
    adxpid := r.app.bundleId.getD condition.adxpid
    mttyContentType :=
      (r.app.category.map fun category =>
        getContentType (env.ids .baiduMobile) (intToString category)).getD
          condition.mttyContentType
    deviceIds := mobile.ids }

def firstCondition (cm : BidCookieMappingInfo) (slot : BaiduAdSlot) : BaiduCondition :=
  match r.mobile with
  | some mobile =>
    if mobile.hasApp then
      r.appCondition env getContentType mobile (r.flowCondition env getContentType store cm slot)
    else r.flowCondition env getContentType store cm slot
  | none => r.flowCondition env getContentType store cm slot

end

end BaiduBidRequest

/-- The other rounds copy from `queryConditions[0]`. -/
def BaiduCondition.follow (first condition : BaiduCondition) : BaiduCondition :=
  { condition with
    deviceIds := { first.deviceIds with mac := condition.deviceIds.mac }
    flowType := first.flowType
    adxid := first.adxid
    adxpid := first.adxpid
    mttyContentType := first.mttyContentType }

namespace BaiduBidRequest

section
variable (env : BidEnv) (getContentType : Int → Bytes → Int) (store : CookieStore)
  (cm : BidCookieMappingInfo) (r : BaiduBidRequest)

def fillConditions : List BaiduAdSlot → List BaiduCondition → List BaiduCondition
  | [], filled => filled
  | slot :: slots, filled =>
    let condition :=
      match filled.head? with
      | none => r.firstCondition env getContentType store cm slot
      | some first => first.follow (r.slotCondition env getContentType slot)
    fillConditions slots (filled ++ [condition])

/-- The conditions that `filter` passes to the callback; `none` where it does not call. -/
def filter : Option (List BaiduCondition) :=
  if r.isPing || r.isTest then none
  else some (r.fillConditions env getContentType store cm r.adslots [])

theorem fillConditions_follow (slots : List BaiduAdSlot) (first : BaiduCondition)
    (filled : List BaiduCondition) :
    r.fillConditions env getContentType store cm slots (first :: filled) =
      first :: filled ++
        slots.map fun slot => first.follow (r.slotCondition env getContentType slot) := by
  induction slots generalizing filled with
  | nil => simp only [fillConditions, List.map_nil, List.append_nil]
  | cons slot slots ih =>
      rw [fillConditions, List.cons_append, ih, List.map_cons]
      simp only [List.head?_cons, List.cons_append, List.append_assoc, List.nil_append]

theorem fillConditions_cons (slot : BaiduAdSlot) (slots : List BaiduAdSlot) :
    r.fillConditions env getContentType store cm (slot :: slots) [] =
      let first := r.firstCondition env getContentType store cm slot
      first :: slots.map fun slot => first.follow (r.slotCondition env getContentType slot) := by
  rw [fillConditions, List.head?_nil, List.nil_append, fillConditions_follow]
  rfl

theorem firstCondition_toAdSelectCondition (slot : BaiduAdSlot) :
    (r.firstCondition env getContentType store cm slot).toAdSelectCondition =
      r.toRequest.condition env slot.toBaiduSlot := by
  unfold firstCondition
  split
  · split <;> rfl
  · rfl

theorem filter_toAdSelectCondition {conditions : List BaiduCondition}
    (h : r.filter env getContentType store cm = some conditions) :
    conditions.map BaiduCondition.toAdSelectCondition = (r.toRequest.filter env).conditions := by
  unfold filter at h
  split at h
  · cases h
  · rename_i hreach
    rw [Bool.or_eq_true, not_or] at hreach
    cases h
    have hping : ¬ r.toRequest.isPing = true := hreach.1
    have htest : ¬ r.toRequest.isTest = true := hreach.2
    cases hslots : r.adslots with
    | nil =>
        have hempty : r.toRequest.adslots = [] := congrArg (List.map _) hslots
        rw [BaiduRequest.filter, if_pos (.inr (.inr hempty))]
        rfl
    | cons slot slots =>
        have hmap : r.toRequest.adslots =
            slot.toBaiduSlot :: slots.map BaiduAdSlot.toBaiduSlot := congrArg (List.map _) hslots
        rw [BaiduRequest.filter, if_neg (by simp [hping, htest, hmap]), fillConditions_cons, hmap]
        simp only [List.map_cons, List.map_map, firstCondition_toAdSelectCondition]
        refine congrArg _ (List.map_congr_left ?_)
        intro other _
        have hfirst := firstCondition_toAdSelectCondition env getContentType store cm r slot
        simp only [Function.comp_apply, BaiduCondition.follow, hfirst]
        rfl

end

def foundUser (env : BidEnv) (store : CookieStore) (r : BaiduBidRequest) : Bytes :=
  if env.disabledCookieMapping then [] else (r.toRequest.keys env).query.foundUser store

/-- The condition has the slot's own ad block and floor, and the user. -/
def Owns (user : Bytes) (slot : BaiduAdSlot) (condition : BaiduCondition) : Prop :=
  condition.adxpid = decimal slot.adBlockKey.toNat ∧
    condition.basePrice = slot.minimumCpm.getD 0 ∧ condition.mtUserId = user

def SlotsOwn (env : BidEnv) (store : CookieStore) (r : BaiduBidRequest)
    (conditions : List BaiduCondition) : Prop :=
  ∀ (i : Nat) (slot : BaiduAdSlot), r.adslots[i]? = some slot →
    ∃ condition : BaiduCondition, conditions[i]? = some condition ∧
      Owns (r.foundUser env store) slot condition

section
variable (env : BidEnv) (getContentType : Int → Bytes → Int) (store : CookieStore)
  (cm : BidCookieMappingInfo) {r : BaiduBidRequest}

theorem queriedUserId_eq_foundUser (r : BaiduBidRequest) :
    queriedUserId env.disabledCookieMapping store
        { cm with queryKV := (r.toRequest.keys env).bind cm.queryKV } =
      r.foundUser env store := by
  unfold queriedUserId foundUser
  cases env.disabledCookieMapping with
  | true => rfl
  | false =>
      obtain ⟨huser, -, -⟩ := queryCookieMapping_enabled store
        { cm with queryKV := (r.toRequest.keys env).bind cm.queryKV }
      rw [(bind_query (r.toRequest.keys env) store cm.queryKV).1] at huser
      simp only [Bool.not_false, Bool.true_and, MtUserMapping.isValid, huser, Bool.false_eq_true,
        if_false]
      split
      · rfl
      · rename_i hempty
        rw [Bool.not_eq_true, Bool.not_eq_false', List.isEmpty_iff] at hempty
        exact hempty.symm

theorem firstCondition_own (hweb : ∀ mobile, r.mobile = some mobile → mobile.hasApp = false)
    (slot : BaiduAdSlot) :
    let first := r.firstCondition env getContentType store cm slot
    first.adxpid = intToString slot.adBlockKey.toInt ∧
      first.basePrice = slot.minimumCpm.getD 0 ∧ first.mtUserId = r.foundUser env store := by
  rw [← queriedUserId_eq_foundUser env store cm r]
  unfold firstCondition
  split
  · rename_i mobile hmobile
    simp only [hweb mobile hmobile, Bool.false_eq_true, if_false]
    exact ⟨rfl, rfl, rfl⟩
  · exact ⟨rfl, rfl, rfl⟩

end

theorem intToString_toInt_eq_iff (key key' : BitVec 64) :
    intToString key.toInt = decimal key'.toNat ↔ key.toNat < 2 ^ 63 ∧ key' = key := by
  rw [← intToString_natCast, intToString_injective.eq_iff, BitVec.toInt_eq_toNat_cond,
    ← BitVec.toNat_inj]
  have hlt := key.isLt
  have hlt' := key'.isLt
  split <;> omega

theorem forall_getElem?_cons_map_iff {α β : Type} (P : α → β → Prop) (a : α) (b : β) (l : List α)
    (f : α → β) :
    (∀ (i : Nat) x, (a :: l)[i]? = some x → ∃ y, (b :: l.map f)[i]? = some y ∧ P x y) ↔
      P a b ∧ ∀ x ∈ l, P x (f x) := by
  refine ⟨?_, ?_⟩
  · intro h
    refine ⟨?_, ?_⟩
    · obtain ⟨y, hy, hP⟩ := h 0 a rfl
      cases hy
      exact hP
    · intro x hx
      obtain ⟨i, hi⟩ := List.mem_iff_getElem?.mp hx
      obtain ⟨y, hy, hP⟩ := h (i + 1) x hi
      rw [List.getElem?_cons_succ, List.getElem?_map, hi] at hy
      cases hy
      exact hP
  · rintro ⟨hhead, htail⟩ i x hx
    cases i with
    | zero =>
        cases hx
        exact ⟨b, rfl, hhead⟩
    | succ i =>
        rw [List.getElem?_cons_succ] at hx
        refine ⟨f x, ?_, htail x (List.mem_of_getElem? hx)⟩
        rw [List.getElem?_cons_succ, List.getElem?_map, hx, Option.map_some]

section
variable (env : BidEnv) (getContentType : Int → Bytes → Int) (store : CookieStore)
  (cm : BidCookieMappingInfo) {r : BaiduBidRequest}
  (hweb : ∀ mobile, r.mobile = some mobile → mobile.hasApp = false)

include hweb

theorem firstCondition_owns_iff (slot : BaiduAdSlot) :
    Owns (r.foundUser env store) slot (r.firstCondition env getContentType store cm slot) ↔
      slot.adBlockKey.toNat < 2 ^ 63 := by
  obtain ⟨hpid, hprice, huser⟩ := firstCondition_own env getContentType store cm hweb slot
  rw [Owns, hpid, intToString_toInt_eq_iff]
  simp only [hprice, huser, and_true]

theorem follow_owns_iff (first slot : BaiduAdSlot) :
    Owns (r.foundUser env store) slot
        ((r.firstCondition env getContentType store cm first).follow
          (r.slotCondition env getContentType slot)) ↔
      (first.adBlockKey.toNat < 2 ^ 63 ∧ slot.adBlockKey = first.adBlockKey) ∧
        r.foundUser env store = [] := by
  obtain ⟨hpid, -, -⟩ := firstCondition_own env getContentType store cm hweb first
  have hfollow : ((r.firstCondition env getContentType store cm first).follow
      (r.slotCondition env getContentType slot)).adxpid =
        intToString first.adBlockKey.toInt := hpid
  rw [Owns, hfollow, intToString_toInt_eq_iff]
  exact and_congr_right fun _ => ⟨fun h => h.2.symm, fun h => ⟨rfl, h.symm⟩⟩

end

/-- Every slot of a request that is not from an app keeps its own identity exactly if all
slots have one ad block, its key is a positive `long`, and no user is lost. -/
theorem slotsOwn_iff (env : BidEnv) (getContentType : Int → Bytes → Int) (store : CookieStore)
    (cm : BidCookieMappingInfo) (r : BaiduBidRequest)
    (hweb : ∀ mobile, r.mobile = some mobile → mobile.hasApp = false)
    (conditions : List BaiduCondition)
    (hfilter : r.filter env getContentType store cm = some conditions) :
    r.SlotsOwn env store conditions ↔
      (∀ slot ∈ r.adslots, slot.adBlockKey.toNat < 2 ^ 63 ∧
        ∀ first, r.adslots.head? = some first → slot.adBlockKey = first.adBlockKey) ∧
      (r.adslots.length ≤ 1 ∨ r.foundUser env store = []) := by
  unfold filter at hfilter
  split at hfilter
  · cases hfilter
  · cases hfilter
    unfold SlotsOwn
    cases hslots : r.adslots with
    | nil => simp
    | cons first slots =>
        rw [fillConditions_cons]
        refine (forall_getElem?_cons_map_iff (Owns (r.foundUser env store)) _ _ _ _).trans ?_
        simp only [firstCondition_owns_iff env getContentType store cm hweb,
          follow_owns_iff env getContentType store cm hweb, List.head?_cons, Option.some.injEq,
          forall_eq', List.forall_mem_cons, and_true]
        refine ⟨?_, ?_⟩
        · rintro ⟨hlt, hlater⟩
          refine ⟨⟨hlt, ?_⟩, ?_⟩
          · intro slot hslot
            obtain ⟨⟨-, heq⟩, -⟩ := hlater slot hslot
            exact ⟨heq ▸ hlt, heq⟩
          · cases slots with
            | nil => exact .inl (le_refl 1)
            | cons second slots => exact .inr (hlater second List.mem_cons_self).2
        · rintro ⟨⟨hlt, hkeys⟩, hone⟩
          refine ⟨hlt, ?_⟩
          intro slot hslot
          have hmany : ¬ (first :: slots).length ≤ 1 := by
            have hpos := List.length_pos_of_mem hslot
            rw [List.length_cons]
            omega
          exact ⟨⟨hlt, (hkeys slot hslot).2⟩, hone.resolve_left hmany⟩

def sampleSlots (keys : List (BitVec 64)) : BaiduBidRequest where
  adslots := keys.map fun key => { allowedNonNativead := true, adBlockKey := key }
  baiduUserId := bytes "b"

def sampleContentType (_ : Int) (_ : Bytes) : Int := 0

theorem slotsOwn_sample :
    let r := sampleSlots [12]
    ∀ conditions, r.filter sampleBidEnv sampleContentType knownStore
        { queryKV := { isAdxCookie := true } } = some conditions →
      r.SlotsOwn sampleBidEnv knownStore conditions := by
  intro r conditions hfilter
  refine (slotsOwn_iff sampleBidEnv sampleContentType knownStore _ r (fun _ h => nomatch h)
    conditions hfilter).mpr ⟨?_, .inl (le_refl 1)⟩
  intro slot hslot
  cases List.mem_singleton.mp hslot
  refine ⟨by decide, ?_⟩
  intro first hfirst
  cases hfirst
  rfl

/-- The second slot goes by the ad block of the first, and without the user. -/
theorem slots_share_adxpid :
    let r := sampleSlots [12, 34]
    ∃ first second, r.filter sampleBidEnv sampleContentType knownStore
        { queryKV := { isAdxCookie := true } } = some [first, second] ∧
      first.mtUserId = bytes "abc" ∧ second.mtUserId = [] ∧ second.adxpid = bytes "12" ∧
      ¬ r.SlotsOwn sampleBidEnv knownStore [first, second] := by
  refine ⟨_, _, rfl, by decide, by decide, by decide, ?_⟩
  intro h
  obtain ⟨condition, hcondition, hpid, -, -⟩ := h 1 _ rfl
  cases hcondition
  revert hpid
  decide

end BaiduBidRequest

end AdServer.Bid
