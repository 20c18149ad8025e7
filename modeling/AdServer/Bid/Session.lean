import AdServer.Bid.Exchange
import AdServer.Library.Transition

/-!
The requests that one bidding handler object serves one after the other. A thread
keeps a handler for each exchange and uses it again for the next request, with the
mapping information that the last one left. A request whose `filter` queries the
mapping before it calls back shows only users of its own; some handlers call back
without a query.
-/
namespace AdServer.Bid

open Transition Url

/-- A request with the store's answers and the outcomes of the searches while it is
handled. `clock` counts the users named before, and an exception leaves the handler
after `cut` steps. -/
structure BidCall where
  request : BidRequest
  store : CookieStore
  outcome : Nat → Option SelectResult
  clock : Nat := 0
  cut : Option Nat := none

def BidCall.slots (env : BidEnv) (call : BidCall) : List BidSlot :=
  bidSlots (call.request.filter env).conditions call.outcome

def BidCall.slotSteps (env : BidEnv) (call : BidCall) : List (List HandlerStep) :=
  callbackSteps (call.request.buildBidResult env) (call.slots env)

def BidCall.allSteps (env : BidEnv) (call : BidCall) : List HandlerStep :=
  (call.request.filter env).steps ++ (call.slotSteps env).flatten

def BidCall.steps (env : BidEnv) (call : BidCall) : List HandlerStep :=
  match call.cut with
  | none => call.allSteps env
  | some n => (call.allSteps env).take n

/-- Every request is handled with a new log record. -/
def BidCall.start (call : BidCall) (s : BidState) : BidState :=
  { s with logUserId := [], generated := call.clock }

def handle (env : BidEnv) (s : BidState) (call : BidCall) : BidState × List BidEvent :=
  Mealy.run (perform env call.store) (call.start s) (call.steps env)

/-- A handler as it is constructed; `isAdxCookie` is not initialised. -/
def newHandler (isAdxCookie : Bool) : BidState := { cmInfo := { queryKV := { isAdxCookie } } }

abbrev CallOf (e : Exchange) := { call : BidCall // call.request.exchange = e }

def bidSystem (env : BidEnv) (e : Exchange) : System BidState (CallOf e) where
  init s := ∃ isAdxCookie, s = newHandler isAdxCookie
  step s call t := t = (handle env s call.1).1

/-- The calls of a handler from a state on, each with its events. -/
def session (env : BidEnv) {e : Exchange} :
    BidState → List (CallOf e) → List (CallOf e × List BidEvent)
  | _, [] => []
  | s, call :: calls =>
    (call, (handle env s call.1).2) :: session env (handle env s call.1).1 calls

def BidCall.keys (env : BidEnv) (call : BidCall) : List (Bytes × Bytes) :=
  ((call.request.filter env).keys.map KeySource.pairs).getD []

/-- No user, one that the store has under a key of the request, or one that was named
while the request was handled. -/
def OwnUser (env : BidEnv) (call : BidCall) (events : List BidEvent) (id : Bytes) : Prop :=
  id = [] ∨ (∃ kv ∈ call.keys env, (call.store kv.1 (cString kv.2)).userId = id) ∨
    .newUser id ∈ events

def BidEvent.Identifies (users : UserLib) (own : Bytes → Prop) : BidEvent → Prop
  | .showUrl u | .clickUrl u => ∃ id, own id ∧ (u = [] ∨ u = users.cipher id)
  | .bidLog userId => own userId
  | _ => True

/-- The URLs and the log records of a request identify only users of its own. -/
def OwnIdentity (env : BidEnv) (call : BidCall) (events : List BidEvent) : Prop :=
  ∀ event ∈ events, event.Identifies env.users (OwnUser env call events)

/-- The request queries the mapping if it gets as far as the callback: with Youku and Nex
the first impression is not skipped, with Nex, GDT, Inmobi, Liebao and NetEase there
is a device, with Guangyin it is a mobile one. -/
def Identified : BidRequest → Bool
  | .youku r => r.imps.head?.all fun imp => !imp.skipped
  | .nex r => r.imps.head?.all fun imp => !imp.skipped && r.device.isSome
  | .gdt r => r.isPing || r.isTest || r.sizes = 0 || r.device.isSome
  | .guangyin r => r.isTest || r.impSize = 0 || r.isMobile
  | .inmobi r => (r.imp.all fun imp => imp.ad = .native 0) || r.device.isSome
  | .liebao r =>
    r.isTest || r.imps.isEmpty || (r.imps.any fun imp => imp.sizes = 0) || r.device.isSome
  | .netEase r => r.isTest || r.sizes = 0 || r.device.isSome
  | _ => true

/-- A query comes after the keys are bound, and an identified request is queried or does
not reach the callback. -/
theorem filter_spec (env : BidEnv) (request : BidRequest) :
    ((request.filter env).queries = true → (request.filter env).keys.isSome = true) ∧
      (Identified request = true →
        (request.filter env).queries = true ∨ (request.filter env).conditions = []) := by
  cases request <;> simp only [BidRequest.filter, Identified]
  case tanx r => unfold TanxRequest.filter; split <;> [simp; (dsimp only; split <;> simp)]
  case juxiaoMax r => unfold JuxiaoMaxRequest.filter; split <;> [simp; (dsimp only; split <;> simp)]
  case baidu r => unfold BaiduRequest.filter; split <;> simp
  case youku r => unfold YoukuRequest.filter; split <;> simp_all
  case gdt r => unfold GdtRequest.filter; split <;> simp_all
  case sohu r => unfold SohuRequest.filter; split <;> simp
  case guangyin r => unfold GuangyinRequest.filter; split <;> [simp; (split <;> simp_all)]
  case inmobi r => unfold InmobiRequest.filter; split <;> [simp; (split <;> simp_all)]
  case liebao r => unfold LiebaoRequest.filter; split <;> simp_all [or_comm]
  case nex r => unfold NexRequest.filter; split <;> simp_all
  case netEase r => unfold NetEaseRequest.filter; split <;> simp_all [or_comm]
  case yidian r => unfold YidianRequest.filter; split <;> simp

theorem isSlotStep_buildBidResult (env : BidEnv) (request : BidRequest)
    (condition : AdSelectCondition) (result : SelectResult) :
    ∀ step ∈ request.buildBidResult env condition result, step.isSlotStep = true := by
  rw [← List.all_eq_true]
  cases request <;>
    simp only [BidRequest.buildBidResult, tanxBuild, juxiaoMaxBuild, baiduBuild, youkuBuild,
      gdtBuild, SohuRequest.build, guangyinBuild, inmobiBuild, liebaoBuild, nexBuild, netEaseBuild,
      yidianBuild, conditionDeal]
  all_goals repeat' split
  all_goals rfl

/-- The user in the mapping and in the log record has the property, and the cached text
is that user's. -/
structure Traced (env : BidEnv) (own : Bytes → Prop) (s : BidState) : Prop where
  user : own s.cmInfo.userMapping.userId
  cypher : s.cmInfo.userMapping.cypherUserId = [] ∨
    s.cmInfo.userMapping.cypherUserId = env.users.cipher s.cmInfo.userMapping.userId
  log : own s.logUserId

theorem identifies_of_isStoreWrite {users : UserLib} {own : Bytes → Prop} {event : BidEvent}
    (h : event.isStoreWrite = true) : event.Identifies users own := by
  cases event <;> trivial

theorem identifies_of_isDeal {users : UserLib} {own : Bytes → Prop} {event : BidEvent}
    (h : event.isDeal = true) : event.Identifies users own := by
  cases event <;> trivial

theorem Traced.step {env : BidEnv} {own : Bytes → Prop} {s : BidState} (h : Traced env own s)
    (store : CookieStore) {step : HandlerStep} (hstep : step.isSlotStep = true)
    (hnew : ∀ event ∈ (perform env store s step).2, ∀ id, event = .newUser id → own id) :
    Traced env own (perform env store s step).1 ∧
      ∀ event ∈ (perform env store s step).2, event.Identifies env.users own := by
  cases step with
  | bindKeys source => cases hstep
  | queryMapping => cases hstep
  | setDeal flag => cases hstep
  | redoMapping adxId url placed =>
      obtain ⟨events, hperform, hevents⟩ := perform_redo env store adxId url placed s
      refine ⟨?_, ?_⟩
      · cases hflag : s.cmInfo.needReMapping with
        | false =>
            rw [hperform, hflag]
            exact h
        | true =>
            obtain ⟨more, hnamed, -⟩ := perform_redo_unmapped env store adxId url placed hflag
            rw [hnamed] at hnew ⊢
            exact ⟨hnew _ List.mem_cons_self _ rfl, .inr rfl, h.log⟩
      · intro event hevent
        rw [hperform] at hevent
        rcases hevents event hevent with hwrite | rfl | rfl
        · exact identifies_of_isStoreWrite hwrite
        · trivial
        · trivial
  | showPara =>
      have hcypher := MtUserMapping.cypherUid_of_cypher env.users s.cmInfo.userMapping h.cypher
      refine ⟨⟨?_, ?_, h.log⟩, ?_⟩
      · simpa only [perform, MtUserMapping.cypherUid_userId] using h.user
      · simpa only [perform, MtUserMapping.cypherUid_userId,
          MtUserMapping.cypherUid_cypherUserId] using hcypher
      · intro event hevent
        rw [List.mem_singleton.mp hevent]
        exact ⟨_, h.user, hcypher⟩
  | clickPara =>
      refine ⟨h, ?_⟩
      intro event hevent
      rw [List.mem_singleton.mp hevent]
      exact ⟨_, h.user, h.cypher⟩
  | markDeal dDealId =>
      refine ⟨h, ?_⟩
      intro event hevent
      obtain ⟨-, hevent⟩ := List.mem_ite_nil_right.mp hevent
      exact identifies_of_isDeal (isDeal_of_mem_dealEvents hevent)
  | addDeal dealId inBid =>
      exact ⟨h, fun event hevent => identifies_of_isDeal (isDeal_of_mem_dealEvents hevent)⟩
  | fillLog =>
      have hlog : own (perform env store s .fillLog).1.logUserId := by
        simp only [perform]
        split
        · exact h.user
        · exact h.log
      refine ⟨⟨h.user, h.cypher, hlog⟩, ?_⟩
      intro event hevent
      rw [List.mem_singleton.mp hevent]
      exact hlog

theorem isSlotStep_slotSteps (env : BidEnv) (request : BidRequest) (condition : AdSelectCondition)
    (outcome : Option SelectResult) :
    ∀ step ∈ slotSteps (request.buildBidResult env) condition outcome, step.isSlotStep = true := by
  intro step hstep
  cases outcome with
  | none =>
      rw [List.mem_singleton.mp hstep]
      rfl
  | some result =>
      rcases List.mem_append.mp hstep with hstep | hstep
      · exact isSlotStep_buildBidResult env request condition result step hstep
      · rw [List.mem_singleton.mp hstep]
        rfl

theorem isSlotStep_callbackSteps (env : BidEnv) (request : BidRequest) (slots : List BidSlot) :
    ∀ step ∈ (callbackSteps (request.buildBidResult env) slots).flatten,
      step.isSlotStep = true := by
  intro step hstep
  obtain ⟨steps, hsteps, hstep⟩ := List.mem_flatten.mp hstep
  obtain ⟨⟨condition, outcome⟩, -, rfl⟩ := List.mem_map.mp hsteps
  exact isSlotStep_slotSteps env request condition outcome step hstep

/-- The state in which the callback handles the first slot. -/
def BidCall.enter (env : BidEnv) (call : BidCall) (s : BidState) : BidState :=
  (call.request.filter env).enter env call.store (call.start s)

def slotEvents (env : BidEnv) (s : BidState) (call : BidCall) : List (List BidEvent) :=
  Mealy.outputs (perform env call.store) (call.enter env s) (call.slotSteps env)

/-- An exception leaves a call in `filter`, without an event, or in the callback. -/
theorem handle_cases (env : BidEnv) (s : BidState) (call : BidCall) :
    (handle env s call).2 = [] ∨
      ∃ steps, (∀ step ∈ steps, step ∈ (call.slotSteps env).flatten) ∧
        handle env s call = Mealy.run (perform env call.store) (call.enter env s) steps := by
  have hfull : ∀ steps, Mealy.run (perform env call.store) (call.start s)
      ((call.request.filter env).steps ++ steps) =
        Mealy.run (perform env call.store) (call.enter env s) steps := by
    intro steps
    rw [Mealy.run_append, run_filterSteps, List.nil_append]
    rfl
  unfold handle BidCall.steps BidCall.allSteps
  cases call.cut with
  | none => exact .inr ⟨_, fun step hstep => hstep, hfull _⟩
  | some n =>
      simp only [List.take_append]
      by_cases hn : (call.request.filter env).steps.length ≤ n
      · rw [List.take_of_length_le hn, hfull]
        exact .inr ⟨_, fun step hstep => List.mem_of_mem_take hstep, rfl⟩
      · have hzero : n - (call.request.filter env).steps.length = 0 := by omega
        rw [hzero, List.take_zero, List.append_nil]
        refine .inl (run_silent env call.store _ ?_)
        exact fun step hstep => isSlotStep_filterSteps _ step (List.mem_of_mem_take hstep)

theorem enter_cmInfo {env : BidEnv} (s : BidState) {call : BidCall}
    (hqueries : (call.request.filter env).queries = true) :
    ∃ source, (call.request.filter env).keys = some source ∧
      (call.enter env s).cmInfo = queryCookieMapping env.disabledCookieMapping call.store
        { s.cmInfo with queryKV := source.bind s.cmInfo.queryKV } := by
  obtain ⟨source, hkeys⟩ := Option.isSome_iff_exists.mp ((filter_spec env call.request).1 hqueries)
  refine ⟨source, hkeys, ?_⟩
  simp only [BidCall.enter, FilterPlan.enter, hkeys, hqueries, if_true, BidCall.start]

theorem traced_enter {env : BidEnv} (henabled : env.disabledCookieMapping = false)
    (call : BidCall) (s : BidState) (events : List BidEvent)
    (hqueries : (call.request.filter env).queries = true) :
    Traced env (OwnUser env call events) (call.enter env s) := by
  obtain ⟨source, hkeys, hcm⟩ := enter_cmInfo s hqueries
  have hpairs : call.keys env = source.pairs := by
    simp only [BidCall.keys, hkeys, Option.map_some, Option.getD_some]
  rw [henabled] at hcm
  obtain ⟨huser, hcypher, -⟩ := queryCookieMapping_enabled call.store
    { s.cmInfo with queryKV := source.bind s.cmInfo.queryKV }
  refine ⟨?_, ?_, .inl rfl⟩
  · rw [hcm, huser, CookieMappingQueryKeyValue.foundUser]
    rcases keyFrom_bind source s.cmInfo.queryKV with hnull | hkey
    · rw [if_pos hnull]
      exact .inl rfl
    · split
      · exact .inl rfl
      · exact .inr (.inl ⟨_, hpairs ▸ hkey, rfl⟩)
  · rw [hcm]
    exact .inl hcypher

theorem ownIdentity_handle {env : BidEnv} (henabled : env.disabledCookieMapping = false)
    (s : BidState) {call : BidCall} (hid : Identified call.request = true) :
    OwnIdentity env call (handle env s call).2 := by
  rcases handle_cases env s call with hsilent | ⟨steps, hsteps, hrun⟩
  · rw [hsilent]
    exact fun event hevent => nomatch hevent
  rcases (filter_spec env call.request).2 hid with hqueries | hnone
  · -- the users named along the run are own by definition, and every step relies on that
    have htraced := traced_enter henabled call s (handle env s call).2 hqueries
    have hevents := (Mealy.run_guarantee (perform env call.store)
      (Traced env (OwnUser env call (handle env s call).2))
      (fun event => ∀ id, event = .newUser id → OwnUser env call (handle env s call).2 id)
      (fun event => event.Identifies env.users (OwnUser env call (handle env s call).2))
      (fun t step hstep ht hnew => ht.step call.store
        (isSlotStep_callbackSteps env _ _ step (hsteps step hstep)) hnew)
      htraced ?_).2
    · rwa [← hrun] at hevents
    · rintro event hevent id rfl
      exact .inr (.inr (hrun ▸ hevent))
  · -- no slot reaches the callback
    have hslots : call.slotSteps env = [] := by
      simp only [BidCall.slotSteps, BidCall.slots, hnone, bidSlots, List.mapIdx_nil, callbackSteps,
        List.map_nil]
    have hnil : steps = [] := by
      refine List.eq_nil_iff_forall_not_mem.mpr fun step hstep => ?_
      have hmem := hsteps step hstep
      rw [hslots] at hmem
      cases hmem
    rw [hrun, hnil]
    exact fun event hevent => nomatch hevent

/-- Along every session whose requests query the mapping before the callback no user
leaks into another request. -/
theorem session_ownIdentity (env : BidEnv) (henabled : env.disabledCookieMapping = false)
    {e : Exchange} (calls : List (CallOf e))
    (hid : ∀ call ∈ calls, Identified call.1.request = true) (s : BidState) :
    ∀ entry ∈ session env s calls, OwnIdentity env entry.1.1 entry.2 := by
  induction calls generalizing s with
  | nil => exact fun entry hentry => nomatch hentry
  | cons call calls ih =>
      intro entry hentry
      rcases List.mem_cons.mp hentry with rfl | hentry
      · exact ownIdentity_handle henabled s (hid call List.mem_cons_self)
      · exact ih (fun c hc => hid c (List.mem_cons_of_mem call hc)) _ entry hentry

/-- Exchange ids, users and digests that make the texts easy to read. -/
def sampleBidEnv : BidEnv where
  ids := sampleIds
  users :=
    { isValid := fun text => !text.isEmpty
      cipher := fun text => bytes "c-" ++ text
      generate := fun n => bytes "new" ++ List.replicate n (byte '+') }
  md5 := fun text => bytes "h-" ++ text
  tanxDeviceId := fun text => text

def acceptAll (_ : Nat) : Option SelectResult := some { bannerType := .other, dDealId := bytes "0" }

def knownStore : CookieStore := fun _ _ => { userId := bytes "abc" }

def gdtCall (device : Option GdtDevice) : CallOf .gdt :=
  ⟨{ request := .gdt { sizes := 1, device := device }, store := knownStore
     outcome := acceptAll }, rfl⟩

def gdtPhone : GdtDevice := { deviceType := .mobile, id := bytes "861234567890123" }

theorem session_ownIdentity_sample :
    let calls := [gdtCall (some gdtPhone), gdtCall (some gdtPhone)]
    (∀ call ∈ calls, Identified call.1.request = true) ∧
      ∀ entry ∈ session sampleBidEnv (newHandler false) calls,
        OwnIdentity sampleBidEnv entry.1.1 entry.2 := by
  have hid : ∀ call ∈ [gdtCall (some gdtPhone), gdtCall (some gdtPhone)],
      Identified call.1.request = true := by decide
  exact ⟨hid, session_ownIdentity sampleBidEnv rfl _ hid _⟩

/-- The second request has no device, and its bid is logged under the user of the first. -/
theorem session_leak :
    let calls := [gdtCall (some gdtPhone), gdtCall none]
    ¬∀ entry ∈ session sampleBidEnv (newHandler false) calls,
      OwnIdentity sampleBidEnv entry.1.1 entry.2 := by
  intro calls h
  have hsecond := h _ (List.mem_cons_of_mem _ List.mem_cons_self)
  have hown := hsecond (.bidLog (bytes "abc")) (by decide)
  rcases hown with hnone | ⟨kv, hkv, -⟩ | hnew
  · revert hnone
    decide
  · cases hkv
  · revert hnew
    decide

end AdServer.Bid
