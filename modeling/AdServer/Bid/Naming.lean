import AdServer.Bid.Session

/-!
Naming a user while the slots of a request are handled. `redoCookieMapping` names one
where the mapping has none; the other steps of a slot leave the user as it is. Some
handlers call it before they write the URLs of a slot and some after.
-/
namespace AdServer.Bid

/-- The text that the next show URL carries. -/
def BidState.uid (env : BidEnv) (s : BidState) : Bytes :=
  (s.cmInfo.userMapping.cypherUid env.users).2

/-- The text of a user in a show URL or in a mapping URL. -/
def BidEvent.shown : BidEvent → Option Bytes
  | .showUrl u => some u
  | .mappingUrl url => some url.u
  | _ => none

def BidEvent.isNewUser : BidEvent → Bool
  | .newUser _ => true
  | _ => false

/-- No user is named, and no other one is shown. -/
def BidEvent.Shows (u : Bytes) (event : BidEvent) : Prop :=
  event.isNewUser = false ∧ ∀ v ∈ event.shown, v = u

/-- The user of the mapping is the same, and so is what `redoCookieMapping` would do. -/
structure SameUser (env : BidEnv) (s t : BidState) : Prop where
  flag : t.cmInfo.needReMapping = s.cmInfo.needReMapping
  key : t.cmInfo.queryKV = s.cmInfo.queryKV
  uid : t.uid env = s.uid env

theorem SameUser.refl (env : BidEnv) (s : BidState) : SameUser env s s := ⟨rfl, rfl, rfl⟩

theorem SameUser.trans {env : BidEnv} {s t v : BidState} (h : SameUser env s t)
    (h' : SameUser env t v) : SameUser env s v :=
  ⟨h'.flag.trans h.flag, h'.key.trans h.key, h'.uid.trans h.uid⟩

def HandlerStep.isQuiet : HandlerStep → Bool
  | .showPara | .clickPara | .markDeal _ | .addDeal _ _ | .fillLog => true
  | _ => false

theorem shows_of_isStoreWrite {u : Bytes} {event : BidEvent} (h : event.isStoreWrite = true) :
    event.Shows u := by
  cases event with
  | update | touch => exact ⟨rfl, fun v hv => nomatch hv⟩
  | _ => cases h

theorem shows_of_isDeal {u : Bytes} {event : BidEvent} (h : event.isDeal = true) :
    event.Shows u := by
  cases event with
  | dealid | urlDealId => exact ⟨rfl, fun v hv => nomatch hv⟩
  | _ => cases h

section

variable (env : BidEnv) (store : CookieStore) {s : BidState}

theorem perform_quiet {step : HandlerStep} (hstep : step.isQuiet = true) :
    SameUser env s (perform env store s step).1 ∧
      ∀ event ∈ (perform env store s step).2, event.Shows (s.uid env) := by
  cases step with
  | bindKeys _ | queryMapping | setDeal _ | redoMapping _ _ _ => cases hstep
  | showPara =>
      refine ⟨⟨rfl, rfl, MtUserMapping.cypherUid_again _ _⟩, ?_⟩
      intro event hevent
      rw [List.mem_singleton.mp hevent]
      exact ⟨rfl, fun v hv => (Option.some.inj hv).symm⟩
  | clickPara | fillLog =>
      refine ⟨⟨rfl, rfl, rfl⟩, ?_⟩
      intro event hevent
      rw [List.mem_singleton.mp hevent]
      exact ⟨rfl, fun v hv => nomatch hv⟩
  | markDeal dDealId =>
      refine ⟨⟨rfl, rfl, rfl⟩, ?_⟩
      intro event hevent
      obtain ⟨-, hevent⟩ := List.mem_ite_nil_right.mp hevent
      exact shows_of_isDeal (isDeal_of_mem_dealEvents hevent)
  | addDeal dealId inBid =>
      exact ⟨⟨rfl, rfl, rfl⟩, fun event hevent =>
        shows_of_isDeal (isDeal_of_mem_dealEvents hevent)⟩

theorem perform_mapped {step : HandlerStep} (hstep : step.isSlotStep = true)
    (hflag : s.cmInfo.needReMapping = false) :
    SameUser env s (perform env store s step).1 ∧
      ∀ event ∈ (perform env store s step).2, event.Shows (s.uid env) := by
  cases step with
  | redoMapping adxId url placed =>
      obtain ⟨writes, hperform, hwrites⟩ := perform_redo_mapped env store adxId url placed hflag
      rw [hperform]
      exact ⟨SameUser.refl env s, fun event hevent => shows_of_isStoreWrite (hwrites event hevent)⟩
  | bindKeys _ | queryMapping | setDeal _ => cases hstep
  | _ => exact perform_quiet env store rfl

/-- The steps of a run that name nobody: quiet ones, or any once the user is mapped. -/
def Unnaming (s : BidState) (steps : List HandlerStep) : Prop :=
  (∀ step ∈ steps, step.isQuiet = true) ∨
    s.cmInfo.needReMapping = false ∧ ∀ step ∈ steps, step.isSlotStep = true

theorem run_unnaming {steps : List HandlerStep} (h : Unnaming s steps) :
    SameUser env s (Mealy.run (perform env store) s steps).1 ∧
      ∀ event ∈ (Mealy.run (perform env store) s steps).2, event.Shows (s.uid env) := by
  refine Mealy.run_guarantee (perform env store) (SameUser env s) (fun _ => True)
    (fun event => event.Shows (s.uid env)) ?_ (SameUser.refl env s) fun _ _ => trivial
  intro t step hstep ht _
  -- either class of steps is closed under the run because the flag does not change
  have hone : SameUser env t (perform env store t step).1 ∧
      ∀ event ∈ (perform env store t step).2, event.Shows (t.uid env) := by
    rcases h with hquiet | ⟨hflag, hslot⟩
    · exact perform_quiet env store (hquiet step hstep)
    · exact perform_mapped env store (hslot step hstep) (ht.flag.trans hflag)
  rw [ht.uid] at hone
  exact ⟨ht.trans hone.1, hone.2⟩

theorem run_showUrl {steps : List HandlerStep} (h : Unnaming s steps)
    (hshow : .showPara ∈ steps) :
    .showUrl (s.uid env) ∈ (Mealy.run (perform env store) s steps).2 := by
  obtain ⟨before, rest, rfl⟩ := List.append_of_mem hshow
  have hbefore : Unnaming s before := by
    rcases h with hquiet | ⟨hflag, hslot⟩
    · exact .inl fun step hstep => hquiet step (List.mem_append_left _ hstep)
    · exact .inr ⟨hflag, fun step hstep => hslot step (List.mem_append_left _ hstep)⟩
  rw [Mealy.run_append, Mealy.run_cons, ← (run_unnaming env store hbefore).1.uid]
  exact List.mem_append_right _ (List.mem_append_left _ List.mem_cons_self)

theorem uid_named (url : Bytes) :
    (s.named env.users url).uid env = env.users.cipher (env.users.generate s.generated) :=
  MtUserMapping.cypherUid_of_cipher _ _ rfl

end

/-- The exchanges whose handlers write the URLs of a slot before they name a user. -/
def lateExchanges : List Exchange :=
  [.guangyin, .sohu, .inmobi, .liebao, .nex, .netEase, .yidian]

/-- The URL that the handler passes to `redoCookieMapping`. -/
def Exchange.nativeUrl : Exchange → Bytes
  | .tanx => tanxCookieMappingUrl
  | .juxiaoMax => maxCookieMappingUrl
  | .baidu => baiduCookieMappingUrl
  | .youku => youkuCookieMappingUrl
  | .sohu => sohuCookieMappingUrl
  | _ => []

/-- Whether `buildBidResult` gets as far as the URLs. -/
def BidRequest.builds : BidRequest → SelectResult → Bool
  | .yidian _, result =>
    result.bannerType ≠ .primitive ∨ (1 ≤ result.nativeType ∧ result.nativeType ≤ 5)
  | _, _ => true

def LateBuild (url : Bytes) (steps : List HandlerStep) : Prop :=
  ∃ urls adxId, steps = urls ++ [.redoMapping adxId url false] ∧
    (∀ step ∈ urls, step.isQuiet = true) ∧ .showPara ∈ urls

def EarlyBuild (url : Bytes) (steps : List HandlerStep) : Prop :=
  ∃ adxId placed rest, steps = .redoMapping adxId url placed :: rest ∧ .showPara ∈ rest ∧
    (url ≠ [] → ∀ step ∈ rest, step.isQuiet = true)

section

variable (env : BidEnv) (request : BidRequest) (condition : AdSelectCondition)
  (result : SelectResult)

theorem all_isQuiet_conditionDeal :
    (conditionDeal condition result).all HandlerStep.isQuiet = true := by
  unfold conditionDeal
  split <;> rfl

theorem build_unbuilt (h : request.builds result = false) :
    request.buildBidResult env condition result = [] := by
  cases request with
  | yidian r =>
      simp only [BidRequest.builds, decide_eq_false_iff_not, not_or, ne_eq, not_not] at h
      exact if_pos h
  | _ => cases h

theorem build_late (he : request.exchange ∈ lateExchanges) (h : request.builds result = true) :
    LateBuild request.exchange.nativeUrl (request.buildBidResult env condition result) := by
  have hurls : ∀ {adxId : Int} {url : Bytes} (urls : List HandlerStep),
      .showPara ∈ urls → urls.all HandlerStep.isQuiet = true →
        LateBuild url (urls ++ [.redoMapping adxId url false]) :=
    fun _ hshow hall => ⟨_, _, rfl, List.all_eq_true.mp hall, hshow⟩
  cases request with
  | guangyin r =>
      refine hurls _ List.mem_cons_self ?_
      split <;> rfl
  | sohu r =>
      refine hurls _ List.mem_cons_self ?_
      split <;> rfl
  | inmobi r =>
      simp only [BidRequest.buildBidResult, inmobiBuild]
      rw [List.append_cons]
      refine hurls _ List.mem_cons_self ?_
      rw [List.all_append, List.all_cons, all_isQuiet_conditionDeal]
      split <;> rfl
  | liebao r =>
      refine hurls _ List.mem_cons_self ?_
      rw [List.all_append, List.all_cons, all_isQuiet_conditionDeal]
      split <;> rfl
  | nex r => exact hurls [.showPara, .markDeal result.dDealId, .clickPara] List.mem_cons_self rfl
  | netEase r => exact hurls [.showPara, .clickPara] List.mem_cons_self rfl
  | yidian r =>
      simp only [BidRequest.builds, decide_eq_true_iff] at h
      have hnot : ¬(result.bannerType = .primitive ∧
          ¬(1 ≤ result.nativeType ∧ result.nativeType ≤ 5)) := by tauto
      simp only [BidRequest.buildBidResult, yidianBuild, if_neg hnot]
      exact hurls [.clickPara, .showPara] (List.mem_cons_of_mem _ List.mem_cons_self) rfl
  | _ => simp [lateExchanges, BidRequest.exchange] at he

theorem build_early (he : request.exchange ∉ lateExchanges) :
    EarlyBuild request.exchange.nativeUrl (request.buildBidResult env condition result) := by
  have hurls : ∀ {adxId : Int} {url : Bytes} {placed : Bool} {rest : List HandlerStep},
      .showPara ∈ rest → rest.all HandlerStep.isQuiet = true →
        EarlyBuild url (.redoMapping adxId url placed :: rest) :=
    fun hshow hall => ⟨_, _, _, rfl, hshow, fun _ => List.all_eq_true.mp hall⟩
  cases request with
  | tanx r =>
      simp only [BidRequest.buildBidResult, tanxBuild]
      split
      · exact hurls (by decide) rfl
      · split
        · exact hurls (by decide) rfl
        · split <;> exact hurls (by decide) rfl
  | juxiaoMax r =>
      simp only [BidRequest.buildBidResult, juxiaoMaxBuild]
      split
      · have hrest : (HandlerStep.clickPara :: .showPara :: conditionDeal condition result).all
            HandlerStep.isQuiet = true := by
          rw [List.all_cons, List.all_cons, all_isQuiet_conditionDeal]
          rfl
        exact hurls (List.mem_cons_of_mem _ List.mem_cons_self) hrest
      · split <;> exact hurls (by decide) rfl
  | baidu r =>
      simp only [BidRequest.buildBidResult, baiduBuild]
      split
      · exact hurls (by decide) rfl
      · split <;> exact hurls (by decide) rfl
  | youku r => exact hurls (by simp) rfl
  | gdt r => exact ⟨_, _, _, rfl, List.mem_cons_self, fun h => absurd rfl h⟩
  | _ => simp [lateExchanges, BidRequest.exchange] at he

end

def BidRequest.built (request : BidRequest) (slot : BidSlot) : Bool := slot.2.any request.builds

def runSlots (env : BidEnv) (store : CookieStore) (request : BidRequest) (s : BidState)
    (slots : List BidSlot) : BidState × List BidEvent :=
  Mealy.run (perform env store) s (callbackSteps (request.buildBidResult env) slots).flatten

section

variable (env : BidEnv) (store : CookieStore) (request : BidRequest) (s : BidState)

theorem runSlots_append (slots more : List BidSlot) :
    runSlots env store request s (slots ++ more) =
      ((runSlots env store request (runSlots env store request s slots).1 more).1,
        (runSlots env store request s slots).2 ++
          (runSlots env store request (runSlots env store request s slots).1 more).2) := by
  rw [runSlots, callbackSteps, List.map_append, List.flatten_append, Mealy.run_append]
  rfl

theorem runSlots_cons (slot : BidSlot) (slots : List BidSlot) :
    runSlots env store request s (slot :: slots) =
      ((runSlots env store request (runSlots env store request s [slot]).1 slots).1,
        (runSlots env store request s [slot]).2 ++
          (runSlots env store request (runSlots env store request s [slot]).1 slots).2) :=
  runSlots_append env store request s [slot] slots

theorem runSlots_unbuilt {slots : List BidSlot}
    (h : ∀ slot ∈ slots, ¬request.built slot = true) :
    SameUser env s (runSlots env store request s slots).1 ∧
      ∀ event ∈ (runSlots env store request s slots).2, ∃ userId, event = .bidLog userId := by
  have hsteps : ∀ step ∈ (callbackSteps (request.buildBidResult env) slots).flatten,
      step = .fillLog := by
    intro step hstep
    obtain ⟨steps, hmem, hstep⟩ := List.mem_flatten.mp hstep
    obtain ⟨⟨condition, outcome⟩, hslot, rfl⟩ := List.mem_map.mp hmem
    cases outcome with
    | none => exact List.mem_singleton.mp hstep
    | some result =>
        have hbuilds := Bool.eq_false_iff.mpr (h _ hslot)
        rw [slotSteps, build_unbuilt env request condition result hbuilds] at hstep
        exact List.mem_singleton.mp hstep
  refine ⟨(run_unnaming env store (.inl ?_)).1, ?_⟩
  · intro step hstep
    rw [hsteps step hstep]
    rfl
  · refine (Mealy.run_guarantee (perform env store) (fun _ => True) (fun _ => True) _ ?_ trivial
      fun _ _ => trivial).2
    intro t step hstep _ _
    refine ⟨trivial, ?_⟩
    rw [hsteps step hstep]
    intro event hevent
    exact ⟨_, List.mem_singleton.mp hevent⟩

theorem runSlots_mapped (hflag : s.cmInfo.needReMapping = false) (slots : List BidSlot) :
    ∀ event ∈ (runSlots env store request s slots).2, event.Shows (s.uid env) :=
  (run_unnaming env store (.inr ⟨hflag, isSlotStep_callbackSteps env request slots⟩)).2

variable {s} {slot : BidSlot}

theorem runSlots_built (hbuilt : request.built slot = true) :
    ∃ result, request.builds result = true ∧ runSlots env store request s [slot] =
      Mealy.run (perform env store) s
        (request.buildBidResult env slot.1 result ++ [.fillLog]) := by
  obtain ⟨condition, outcome⟩ := slot
  cases outcome with
  | none => cases hbuilt
  | some result =>
      refine ⟨result, hbuilt, ?_⟩
      rw [runSlots, callbackSteps, List.map_singleton, List.flatten_singleton]
      rfl

theorem runSlots_showUrl (he : request.exchange ∈ lateExchanges)
    (hbuilt : request.built slot = true) :
    .showUrl (s.uid env) ∈ (runSlots env store request s [slot]).2 := by
  obtain ⟨result, hbuilds, hrun⟩ := runSlots_built env store request (s := s) hbuilt
  obtain ⟨urls, adxId, hbuild, hquiet, hshow⟩ := build_late env request slot.1 result he hbuilds
  rw [hrun, hbuild, List.append_assoc, Mealy.run_append]
  exact List.mem_append_left _ (run_showUrl env store (.inl hquiet) hshow)

/-- A built slot of a handler that writes the URLs first: a user is named after them. -/
theorem runSlots_late (he : request.exchange ∈ lateExchanges)
    (hbuilt : request.built slot = true) (hflag : s.cmInfo.needReMapping = true) :
    ∃ n urlEvents more, (runSlots env store request s [slot]).2 =
        urlEvents ++ .newUser (env.users.generate n) :: more ∧
      (∀ event ∈ urlEvents, event.Shows (s.uid env)) ∧
      (∀ event ∈ more, event.isNewUser = false ∧ event.shown = none) ∧
      (runSlots env store request s [slot]).1.uid env =
        env.users.cipher (env.users.generate n) := by
  obtain ⟨result, hbuilds, hrun⟩ := runSlots_built env store request (s := s) hbuilt
  obtain ⟨urls, adxId, hbuild, hquiet, -⟩ := build_late env request slot.1 result he hbuilds
  have hurls : Unnaming s urls := .inl hquiet
  have hsame := (run_unnaming env store hurls).1
  obtain ⟨more, hredo, hmore⟩ := perform_redo_unmapped env store adxId request.exchange.nativeUrl
    false (hsame.flag.trans hflag)
  have hlog := perform_quiet env store (rfl : HandlerStep.fillLog.isQuiet = true)
    (s := ((Mealy.run (perform env store) s urls).1.named env.users request.exchange.nativeUrl))
  rw [hrun, hbuild, List.append_assoc, Mealy.run_append, List.singleton_append, Mealy.run_cons,
    hredo, Mealy.run_cons, Mealy.run_nil]
  refine ⟨_, _, _, rfl, (run_unnaming env store hurls).2, ?_, ?_⟩
  · intro event hevent
    rcases List.mem_append.mp hevent with hevent | hevent
    · rcases hmore event hevent with hwrite | ⟨hplaced, -⟩
      · cases event with
        | update | touch => exact ⟨rfl, rfl⟩
        | _ => cases hwrite
      · cases hplaced
    · rw [List.append_nil] at hevent
      rw [List.mem_singleton.mp hevent]
      exact ⟨rfl, rfl⟩
  · rw [hlog.1.uid]
    exact uid_named env _

/-- A built slot of a handler that names the user first: its URLs show that user. The
mapping stays open where the exchange maps the cookie itself. -/
theorem runSlots_early (he : request.exchange ∉ lateExchanges)
    (hbuilt : request.built slot = true) (hflag : s.cmInfo.needReMapping = true) :
    ∃ n more, (runSlots env store request s [slot]).2 =
        .newUser (env.users.generate n) :: more ∧
      (∀ event ∈ more, event.Shows (env.users.cipher (env.users.generate n))) ∧
      (runSlots env store request s [slot]).1.uid env =
        env.users.cipher (env.users.generate n) ∧
      (runSlots env store request s [slot]).1.cmInfo.needReMapping =
        s.nativeMapping request.exchange.nativeUrl := by
  obtain ⟨result, hbuilds, hrun⟩ := runSlots_built env store request (s := s) hbuilt
  obtain ⟨adxId, placed, rest, hbuild, -, hrest⟩ := build_early env request slot.1 result he
  obtain ⟨more, hredo, hmore⟩ := perform_redo_unmapped env store adxId request.exchange.nativeUrl
    placed hflag
  have hslot : ∀ step ∈ rest ++ [.fillLog], step.isSlotStep = true := by
    intro step hstep
    refine isSlotStep_slotSteps env request slot.1 (some result) step ?_
    rw [slotSteps, hbuild]
    exact List.mem_cons_of_mem _ hstep
  -- the flag is up only after a native URL, and then the rest of the build is quiet
  have hunnaming :
      Unnaming (s.named env.users request.exchange.nativeUrl) (rest ++ [.fillLog]) := by
    cases hnative : s.nativeMapping request.exchange.nativeUrl with
    | false => exact .inr ⟨hnative, hslot⟩
    | true =>
        refine .inl ?_
        intro step hstep
        rcases List.mem_append.mp hstep with hstep | hstep
        · exact hrest (BidState.nativeMapping_iff.mp hnative).2 step hstep
        · rw [List.mem_singleton.mp hstep]
          rfl
  have hsame := run_unnaming env store hunnaming
  rw [uid_named] at hsame
  rw [hrun, hbuild, List.cons_append, Mealy.run_cons, hredo]
  refine ⟨_, _, rfl, ?_, ?_, hsame.1.flag⟩
  · intro event hevent
    rcases List.mem_append.mp hevent with hevent | hevent
    · rcases hmore event hevent with hwrite | ⟨-, rfl⟩
      · exact shows_of_isStoreWrite hwrite
      · exact ⟨rfl, fun v hv => (Option.some.inj hv).symm⟩
    · exact hsame.2 event hevent
  · rw [hsame.1.uid, uid_named]

end

end AdServer.Bid
