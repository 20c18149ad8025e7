import AdServer.Bid.Session

/-!
The deal of a bid in the Youku and Nex handlers. `filter` has one flag `isDeal` for
all impressions and gives it a new value at each impression that is not skipped;
`buildBidResult` reads it when all of them are done.
-/
namespace AdServer.Bid

/-- What the loop over the impressions sees of one. -/
structure DealImp where
  skipped : Bool
  hasDeals : Bool
  deriving DecidableEq, Repr

def BidRequest.dealImps : BidRequest → List DealImp
  | .youku r => r.imps.map fun imp => ⟨imp.skipped, !imp.deals.isEmpty⟩
  | .nex r => r.imps.map fun imp => ⟨imp.skipped, !imp.deals.isEmpty⟩
  | _ => []

/-- The last impression that is not skipped decides; without one the flag of the request
before stays. -/
def lastDealFlag (imps : List DealImp) (old : Bool) : Bool :=
  ((imps.filter fun imp => !imp.skipped).map DealImp.hasDeals).getLast?.getD old

/-- Every accepted slot has the solution's deal in its bid, and some deal in its show URL, exactly
if its own impression has deals and the solution has one. -/
def DealPerSlot (env : BidEnv) (s : BidState) (call : BidCall) : Prop :=
  ∀ k imp result events, call.request.dealImps[k]? = some imp → call.outcome k = some result →
    (slotEvents env s call)[k]? = some events →
      (∀ dealId, .dealid dealId ∈ events ↔
        imp.hasDeals = true ∧ result.dDealId ≠ bytes "0" ∧ dealId = result.dDealId) ∧
      ((∃ number, .urlDealId number ∈ events) ↔
        imp.hasDeals = true ∧ result.dDealId ≠ bytes "0")

def HandlerStep.deals (isDeal : Bool) : HandlerStep → List BidEvent
  | .markDeal dDealId => if isDeal ∧ dDealId ≠ bytes "0" then dealEvents true dDealId else []
  | .addDeal dealId inBid => dealEvents inBid dealId
  | _ => []

theorem dealid_mem_dealEvents {dealId dDealId : Bytes} :
    .dealid dealId ∈ dealEvents true dDealId ↔ dealId = dDealId := by
  rw [dealEvents, if_pos rfl]
  split <;> simp

theorem exists_urlDealId_mem_dealEvents {dDealId : Bytes} :
    (∃ number, .urlDealId number ∈ dealEvents true dDealId) ↔ 0 < Url.paramNumber dDealId := by
  rw [dealEvents, if_pos rfl]
  split <;> simp_all

section

variable (env : BidEnv) (store : CookieStore) (s : BidState)

theorem perform_isDeal {step : HandlerStep} (hstep : step.isSlotStep = true) :
    (perform env store s step).1.isDeal = s.isDeal := by
  cases step with
  | bindKeys _ | queryMapping | setDeal _ => cases hstep
  | redoMapping adxId url placed =>
      obtain ⟨events, hperform, -⟩ := perform_redo env store adxId url placed s
      rw [hperform]
      split <;> rfl
  | _ => rfl

theorem deal_mem_perform {step : HandlerStep} (hstep : step.isSlotStep = true) {event : BidEvent}
    (hevent : event.isDeal = true) :
    event ∈ (perform env store s step).2 ↔ event ∈ step.deals s.isDeal := by
  cases step with
  | bindKeys _ | queryMapping | setDeal _ => cases hstep
  | markDeal _ | addDeal _ _ => exact Iff.rfl
  | redoMapping adxId url placed =>
      refine iff_of_false (fun hmem => ?_) List.not_mem_nil
      obtain ⟨events, hperform, hevents⟩ := perform_redo env store adxId url placed s
      rw [hperform] at hmem
      rcases hevents _ hmem with h | rfl | rfl
      · cases event <;> cases h <;> cases hevent
      · cases hevent
      · cases hevent
  | showPara | clickPara | fillLog =>
      refine iff_of_false (fun hmem => ?_) List.not_mem_nil
      rw [List.mem_singleton.mp hmem] at hevent
      cases hevent

theorem deal_mem_run {steps : List HandlerStep} (hsteps : ∀ step ∈ steps, step.isSlotStep = true)
    {event : BidEvent} (hevent : event.isDeal = true) :
    event ∈ (Mealy.run (perform env store) s steps).2 ↔
      ∃ step ∈ steps, event ∈ step.deals s.isDeal := by
  induction steps generalizing s with
  | nil => simp
  | cons step steps ih =>
      have hstep := hsteps step List.mem_cons_self
      rw [Mealy.run_cons, List.mem_append, deal_mem_perform env store s hstep hevent,
        ih _ fun other hother => hsteps other (List.mem_cons_of_mem step hother),
        perform_isDeal env store s hstep, List.exists_mem_cons_iff]

end

theorem filter_dealFlags (env : BidEnv) (request : BidRequest)
    (he : request.exchange = .youku ∨ request.exchange = .nex) :
    (request.filter env).dealFlags =
        (request.dealImps.filter fun imp => !imp.skipped).map DealImp.hasDeals ∧
      (request.filter env).conditions.length = request.dealImps.length := by
  cases request with
  | youku r =>
      simp only [BidRequest.filter, YoukuRequest.filter, BidRequest.dealImps, List.filter_map,
        List.map_map]
      split
      · rename_i hnil
        rw [hnil]
        exact ⟨rfl, rfl⟩
      · exact ⟨rfl, by simp⟩
  | nex r =>
      simp only [BidRequest.filter, NexRequest.filter, BidRequest.dealImps, List.filter_map,
        List.map_map]
      split
      · rename_i hnil
        rw [hnil]
        exact ⟨rfl, rfl⟩
      · exact ⟨rfl, by simp⟩
  | _ => simp [BidRequest.exchange] at he

theorem enter_isDeal (env : BidEnv) (s : BidState) (call : BidCall)
    (he : call.request.exchange = .youku ∨ call.request.exchange = .nex) :
    (call.enter env s).isDeal = lastDealFlag call.request.dealImps s.isDeal := by
  rw [lastDealFlag, ← (filter_dealFlags env call.request he).1]
  rfl

/-- No slot changes the flag that `filter` has left. -/
theorem isDeal_before_slot (env : BidEnv) (s : BidState) (call : BidCall)
    (he : call.request.exchange = .youku ∨ call.request.exchange = .nex) (k : Nat) :
    (Mealy.run (perform env call.store) (call.enter env s)
      ((call.slotSteps env).take k).flatten).1.isDeal =
        lastDealFlag call.request.dealImps s.isDeal := by
  rw [← enter_isDeal env s call he]
  refine Mealy.run_invariant (perform env call.store)
    (fun t => t.isDeal = (call.enter env s).isDeal) ?_ rfl
  intro t step hstep ht
  have hmem : step ∈ (call.slotSteps env).flatten := (List.take_sublist k _).flatten.subset hstep
  rw [perform_isDeal env call.store t (isSlotStep_callbackSteps env _ _ step hmem), ht]

theorem slotSteps_accepted (env : BidEnv) (call : BidCall) {k : Nat} {result : SelectResult}
    (hk : k < (call.request.filter env).conditions.length)
    (houtcome : call.outcome k = some result) :
    ∃ condition, (call.slotSteps env)[k]? =
      some (call.request.buildBidResult env condition result ++ [.fillLog]) := by
  refine ⟨(call.request.filter env).conditions[k], ?_⟩
  simp only [BidCall.slotSteps, callbackSteps, BidCall.slots, bidSlots, List.getElem?_map,
    List.getElem?_mapIdx, List.getElem?_eq_getElem hk, Option.map_some, houtcome, slotSteps]

theorem deal_mem_slotEvents (env : BidEnv) (s : BidState) (call : BidCall)
    (he : call.request.exchange = .youku ∨ call.request.exchange = .nex) {k : Nat} {imp : DealImp}
    (himp : call.request.dealImps[k]? = some imp) {result : SelectResult}
    (houtcome : call.outcome k = some result) :
    ∃ events, (slotEvents env s call)[k]? = some events ∧
      ∀ event : BidEvent, event.isDeal = true →
        (event ∈ events ↔ (lastDealFlag call.request.dealImps s.isDeal = true ∧
          result.dDealId ≠ bytes "0") ∧ event ∈ dealEvents true result.dDealId) := by
  have hk : k < (call.request.filter env).conditions.length := by
    rw [(filter_dealFlags env call.request he).2]
    exact (List.getElem?_eq_some_iff.mp himp).1
  obtain ⟨condition, hsteps⟩ := slotSteps_accepted env call hk houtcome
  refine ⟨_, by rw [slotEvents, Mealy.getElem?_outputs, hsteps, Option.map_some], ?_⟩
  intro event hevent
  have hslot : ∀ step ∈ call.request.buildBidResult env condition result ++ [.fillLog],
      step.isSlotStep = true := isSlotStep_slotSteps env call.request condition (some result)
  rw [deal_mem_run env call.store _ hslot hevent, isDeal_before_slot env s call he]
  cases hrequest : call.request with
  | youku r => simp [BidRequest.buildBidResult, youkuBuild, HandlerStep.deals]
  | nex r => simp [BidRequest.buildBidResult, nexBuild, HandlerStep.deals]
  | _ => simp [hrequest, BidRequest.exchange] at he

/-- The deal is attributed per slot if and only if every accepted impression whose
solution has a deal agrees with the last impression that is not skipped, and the deal of the
solution reads as a positive number where the impression has deals. -/
theorem dealPerSlot_iff (env : BidEnv) (s : BidState) (call : BidCall)
    (he : call.request.exchange = .youku ∨ call.request.exchange = .nex) :
    DealPerSlot env s call ↔
      ∀ k imp result, call.request.dealImps[k]? = some imp → call.outcome k = some result →
        result.dDealId ≠ bytes "0" →
          imp.hasDeals = lastDealFlag call.request.dealImps s.isDeal ∧
            (imp.hasDeals = true → 0 < Url.paramNumber result.dDealId) := by
  refine ⟨?_, ?_⟩
  · intro h k imp result himp houtcome hdeal
    obtain ⟨events, hevents, hmem⟩ := deal_mem_slotEvents env s call he himp houtcome
    obtain ⟨hbid, hurl⟩ := h k imp result events himp houtcome hevents
    have hboth := (hbid result.dDealId).symm.trans (hmem (.dealid result.dDealId) rfl)
    simp only [hdeal, ne_eq, not_false_eq_true, and_true, dealid_mem_dealEvents] at hboth
    refine ⟨Bool.eq_iff_iff.mpr hboth, fun hown => ?_⟩
    obtain ⟨number, hnumber⟩ := hurl.mpr ⟨hown, hdeal⟩
    exact exists_urlDealId_mem_dealEvents.mp ⟨number, ((hmem _ rfl).mp hnumber).2⟩
  · intro h k imp result events himp houtcome hevents
    obtain ⟨events', hevents', hmem⟩ := deal_mem_slotEvents env s call he himp houtcome
    rw [hevents] at hevents'
    cases hevents'
    have hbid : ∀ dealId, .dealid dealId ∈ events ↔ _ := fun dealId => hmem (.dealid dealId) rfl
    have hurl : ∀ number, .urlDealId number ∈ events ↔ _ := fun number =>
      hmem (.urlDealId number) rfl
    simp only [hbid, hurl, exists_and_left, dealid_mem_dealEvents, exists_urlDealId_mem_dealEvents]
    by_cases hdeal : result.dDealId = bytes "0"
    · simp [hdeal]
    · obtain ⟨hflag, hnumber⟩ := h k imp result himp houtcome hdeal
      rw [← hflag]
      exact ⟨fun dealId => and_assoc, and_iff_left_of_imp fun hown => hnumber hown.1⟩

/-- A Youku request with banner impressions, all won by solutions of the deal `77`. -/
def youkuDeals (deals : List (List Bytes)) : BidCall :=
  { request := .youku { imps := deals.map fun ids => { ad := .banner, deals := ids } }
    store := knownStore
    outcome := fun _ => some { bannerType := .other, dDealId := bytes "77" } }

theorem dealPerSlot_sample :
    DealPerSlot sampleBidEnv (newHandler true) (youkuDeals [[bytes "77"], [bytes "77"]]) := by
  refine (dealPerSlot_iff sampleBidEnv (newHandler true) _ (.inl rfl)).mpr ?_
  have hall : ∀ imp ∈ (youkuDeals [[bytes "77"], [bytes "77"]]).request.dealImps,
      imp.hasDeals = true := by decide
  intro k imp result himp houtcome _
  cases houtcome
  exact ⟨hall imp (List.mem_of_getElem? himp), fun _ => by decide⟩

/-- The second impression has no deals, so the bid for the first loses its deal. -/
theorem deal_lost :
    ¬DealPerSlot sampleBidEnv (newHandler true) (youkuDeals [[bytes "77"], []]) := by
  intro h
  have hfirst := ((h 0 ⟨false, true⟩ _ _ rfl rfl rfl).1 (bytes "77")).mpr (by decide)
  revert hfirst
  decide

end AdServer.Bid
