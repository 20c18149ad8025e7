import AdServer.Bid.Mapping
import AdServer.Url.Serialize

/-!
A bidding handler as the sequence of calls it makes while it handles a request.
`filter` binds the lookup keys, queries the mapping, sets the deal flag and passes
one select condition for each slot to the callback; for each accepted slot the
callback lets `buildBidResult` name a user and write the URLs, and it logs every
slot. An exception ends the sequence early.
-/
namespace AdServer.Bid

/-- What the handlers take from outside: the exchange ids, `MT::User::UserID`, the MD5
digest, the device id cipher of Tanx and the configuration. -/
structure BidEnv where
  ids : AdxConst → Int
  users : UserLib
  md5 : Bytes → Bytes
  tanxDeviceId : Bytes → Bytes
  disabledCookieMapping : Bool := false

/-- `SOLUTION_FLOWTYPE_...`; a condition starts with none of them. -/
inductive FlowType
  | unset | pc | mobile
  deriving DecidableEq, Repr

inductive BannerType
  | other | html | primitive | video
  deriving DecidableEq, Repr

/-- The fields of `AdSelectCondition` that `buildBidResult` reads for the users and deals
of a bid. The ids of a device are those of its `KeySource`. -/
structure AdSelectCondition where
  adxid : Int
  flowType : FlowType := .unset
  bannerType : BannerType := .other
  dealId : Bytes := []
  deriving DecidableEq, Repr

/-- What `buildBidResult` reads of the ad select result: the type of the banner, `p2` of
its first material as a number, and the deal of the solution. -/
structure SelectResult where
  bannerType : BannerType
  nativeType : Int := 0
  dDealId : Bytes
  deriving DecidableEq, Repr

inductive HandlerStep
  | bindKeys (source : KeySource)
  | queryMapping
  | setDeal (flag : Bool)
  /-- `redoCookieMapping`; `placed` when the returned URL goes into the bid. -/
  | redoMapping (adxId : Int) (adxCookieMappingUrl : Bytes) (placed : Bool)
  | showPara
  | clickPara
  /-- `if (isDeal && finalSolution.dDealId != "0")`. -/
  | markDeal (dDealId : Bytes)
  /-- `inBid` where the bid gets the deal id too. -/
  | addDeal (dealId : Bytes) (inBid : Bool)
  | fillLog
  deriving DecidableEq, Repr

/-- The deal id of a bid and of its show URL. `URL_DEAL_ID` is a `PARAM_INT`, so the ciphered URL
carries it only as a positive number. -/
def dealEvents (inBid : Bool) (dealId : Bytes) : List BidEvent :=
  (if inBid then [.dealid dealId] else []) ++
    if 0 < Url.paramNumber dealId then [.urlDealId (Url.paramNumber dealId)] else []

def perform (env : BidEnv) (store : CookieStore) (s : BidState) :
    HandlerStep → BidState × List BidEvent
  | .bindKeys source => ({ s with cmInfo.queryKV := source.bind s.cmInfo.queryKV }, [])
  | .queryMapping =>
    ({ s with cmInfo := queryCookieMapping env.disabledCookieMapping store s.cmInfo }, [])
  | .setDeal flag => ({ s with isDeal := flag }, [])
  | .redoMapping adxId url placed =>
    let (t, effects, mapping) := redoCookieMapping env.users adxId url s
    (t, effects ++ if placed then (mapping.map BidEvent.mappingUrl).toList else [])
  | .showPara =>
    let (mapping, u) := s.cmInfo.userMapping.cypherUid env.users
    ({ s with cmInfo.userMapping := mapping }, [.showUrl u])
  -- unlike the show URL it reads the cache as it is
  | .clickPara => (s, [.clickUrl s.cmInfo.userMapping.cypherUserId])
  | .markDeal dDealId =>
    (s, if s.isDeal ∧ dDealId ≠ bytes "0" then dealEvents true dDealId else [])
  | .addDeal dealId inBid => (s, dealEvents inBid dealId)
  | .fillLog =>
    let userId := if s.cmInfo.userMapping.isValid then s.cmInfo.userMapping.userId else s.logUserId
    ({ s with logUserId := userId }, [.bidLog userId])

def BidEvent.isDeal : BidEvent → Bool
  | .dealid _ | .urlDealId _ => true
  | _ => false

theorem isDeal_of_mem_dealEvents {inBid : Bool} {dealId : Bytes} {event : BidEvent}
    (h : event ∈ dealEvents inBid dealId) : event.isDeal = true := by
  rcases List.mem_append.mp h with hbid | hurl
  · obtain ⟨-, hevent⟩ := List.mem_ite_nil_right.mp hbid
    rw [List.mem_singleton.mp hevent]
    rfl
  · obtain ⟨-, hevent⟩ := List.mem_ite_nil_right.mp hurl
    rw [List.mem_singleton.mp hevent]
    rfl

/-- What `filter` does with a request before its slots: the keys it binds, whether it
queries the mapping, the values it gives to `isDeal` one after the other, and the
conditions it passes to the callback, none where it returns without calling it. -/
structure FilterPlan where
  keys : Option KeySource := none
  queries : Bool := false
  dealFlags : List Bool := []
  conditions : List AdSelectCondition := []
  deriving DecidableEq, Repr

def FilterPlan.steps (plan : FilterPlan) : List HandlerStep :=
  plan.keys.toList.map .bindKeys ++ (if plan.queries then [.queryMapping] else []) ++
    plan.dealFlags.map .setDeal

/-- One round of the loop in `HandleBidQueryTask::customLogic`. -/
def slotSteps (build : AdSelectCondition → SelectResult → List HandlerStep)
    (condition : AdSelectCondition) : Option SelectResult → List HandlerStep
  | none => [.fillLog]
  | some result => build condition result ++ [.fillLog]

/-- A slot that the callback handles: its condition and what the search found for it. -/
abbrev BidSlot := AdSelectCondition × Option SelectResult

def bidSlots (conditions : List AdSelectCondition) (outcome : Nat → Option SelectResult) :
    List BidSlot :=
  conditions.mapIdx fun k condition => (condition, outcome k)

def callbackSteps (build : AdSelectCondition → SelectResult → List HandlerStep)
    (slots : List BidSlot) : List (List HandlerStep) :=
  slots.map fun slot => slotSteps build slot.1 slot.2

def FilterPlan.enter (env : BidEnv) (store : CookieStore) (plan : FilterPlan) (s : BidState) :
    BidState :=
  let bound : BidCookieMappingInfo :=
    match plan.keys with
    | some source => { s.cmInfo with queryKV := source.bind s.cmInfo.queryKV }
    | none => s.cmInfo
  { s with
    cmInfo :=
      if plan.queries then queryCookieMapping env.disabledCookieMapping store bound else bound
    isDeal := plan.dealFlags.getLast?.getD s.isDeal }

section

variable (env : BidEnv) (store : CookieStore)

theorem run_setDeal (s : BidState) (flags : List Bool) :
    Mealy.run (perform env store) s (flags.map .setDeal) =
      ({ s with isDeal := flags.getLast?.getD s.isDeal }, []) := by
  induction flags generalizing s with
  | nil => rfl
  | cons flag flags ih =>
      rw [List.map_cons, Mealy.run_cons, ih, List.getLast?_cons]
      rfl

theorem run_filterSteps (s : BidState) (plan : FilterPlan) :
    Mealy.run (perform env store) s plan.steps = (plan.enter env store s, []) := by
  obtain ⟨keys, queries, dealFlags, conditions⟩ := plan
  cases keys <;> cases queries <;>
    simp only [FilterPlan.steps, FilterPlan.enter, Mealy.run_append, Option.toList_none,
      Option.toList_some, List.map_nil, List.map_cons, Mealy.run_nil, Mealy.run_cons, perform,
      run_setDeal, Bool.false_eq_true, if_true, if_false, List.append_nil]

variable {s : BidState} (adxId : Int) (url : Bytes) (placed : Bool)

theorem perform_redo_mapped (h : s.cmInfo.needReMapping = false) :
    ∃ writes, perform env store s (.redoMapping adxId url placed) = (s, writes) ∧
      ∀ event ∈ writes, event.isStoreWrite = true := by
  obtain ⟨writes, hredo, hwrites⟩ := redoCookieMapping_mapped env.users adxId url h
  refine ⟨writes, ?_, hwrites⟩
  simp only [perform, hredo, Option.map_none, Option.toList_none, ite_self, List.append_nil]

theorem perform_redo_unmapped (h : s.cmInfo.needReMapping = true) :
    ∃ more, perform env store s (.redoMapping adxId url placed) =
        (s.named env.users url, .newUser (env.users.generate s.generated) :: more) ∧
      ∀ event ∈ more, event.isStoreWrite = true ∨ placed = true ∧
        event = .mappingUrl ⟨url, env.users.cipher (env.users.generate s.generated), adxId⟩ := by
  obtain ⟨writes, hredo, hwrites⟩ := redoCookieMapping_unmapped env.users adxId url h
  simp only [perform, hredo]
  refine ⟨_, rfl, ?_⟩
  intro event hevent
  rcases List.mem_append.mp hevent with hevent | hevent
  · exact .inl (hwrites event hevent)
  · refine .inr ?_
    split at hevent
    · rename_i hplaced
      split at hevent
      · exact ⟨hplaced, List.mem_singleton.mp hevent⟩
      · cases hevent
    · cases hevent

theorem perform_redo (s : BidState) :
    ∃ events, perform env store s (.redoMapping adxId url placed) =
        (if s.cmInfo.needReMapping then s.named env.users url else s, events) ∧
      ∀ event ∈ events, event.isStoreWrite = true ∨
        event = .newUser (env.users.generate s.generated) ∨
        event = .mappingUrl ⟨url, env.users.cipher (env.users.generate s.generated), adxId⟩ := by
  cases hflag : s.cmInfo.needReMapping with
  | false =>
      obtain ⟨writes, hperform, hwrites⟩ := perform_redo_mapped env store adxId url placed hflag
      exact ⟨writes, hperform, fun event hevent => .inl (hwrites event hevent)⟩
  | true =>
      obtain ⟨more, hperform, hmore⟩ := perform_redo_unmapped env store adxId url placed hflag
      refine ⟨_, hperform, ?_⟩
      intro event hevent
      rcases List.mem_cons.mp hevent with hnew | hevent
      · exact .inr (.inl hnew)
      · exact (hmore event hevent).imp_right fun hurl => .inr hurl.2

end

def HandlerStep.isSlotStep : HandlerStep → Bool
  | .bindKeys _ | .queryMapping | .setDeal _ => false
  | _ => true

theorem isSlotStep_filterSteps (plan : FilterPlan) :
    ∀ step ∈ plan.steps, step.isSlotStep = false := by
  intro step hstep
  simp only [FilterPlan.steps, List.mem_append, List.mem_map] at hstep
  rcases hstep with (⟨source, -, rfl⟩ | hquery) | ⟨flag, -, rfl⟩
  · rfl
  · split at hquery
    · rw [List.mem_singleton.mp hquery]
      rfl
    · cases hquery
  · rfl

theorem run_silent (env : BidEnv) (store : CookieStore) (s : BidState) {steps : List HandlerStep}
    (h : ∀ step ∈ steps, step.isSlotStep = false) :
    (Mealy.run (perform env store) s steps).2 = [] := by
  refine List.eq_nil_iff_forall_not_mem.mpr ?_
  refine (Mealy.run_guarantee (perform env store) (fun _ => True) (fun _ => True) (fun _ => False)
    ?_ trivial fun _ _ => trivial).2
  intro t step hstep _ _
  have hfilter := h step hstep
  cases step with
  | bindKeys _ | queryMapping | setDeal _ => exact ⟨trivial, fun _ ho => nomatch ho⟩
  | _ => cases hfilter

end AdServer.Bid
