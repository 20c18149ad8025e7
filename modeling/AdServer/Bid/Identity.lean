import AdServer.Bid.Naming

/-!
Who a response names. The handlers of the late exchanges write their URLs before a user
is named, so the URLs of the first bid do not carry the new user. A handler that lets
the exchange map the cookie names a user again for every bid.
-/
namespace AdServer.Bid

open Transition

/-- What is assumed of `MT::User::UserID`: the empty text is no id, and an id that was
made has a text. -/
structure UserLib.Lawful (users : UserLib) : Prop where
  empty : users.isValid [] = false
  generated : ∀ n, users.cipher (users.generate n) ≠ []

/-- A user has to be named when the first slot is handled: the request's own lookup finds
none, or the request looks nothing up and the one before has left it open. -/
def BidCall.needsUser (env : BidEnv) (s : BidState) (call : BidCall) : Bool :=
  match (call.request.filter env).keys with
  | some source =>
    if (call.request.filter env).queries then
      !env.disabledCookieMapping && source.query.unmapped call.store
    else s.cmInfo.needReMapping
  | none => s.cmInfo.needReMapping

def BidCall.takesCookie (env : BidEnv) (s : BidState) (call : BidCall) : Bool :=
  match (call.request.filter env).keys with
  | some source => source.query.isAdxCookie
  | none => s.cmInfo.queryKV.isAdxCookie

theorem queryCookieMapping_flag (disabled : Bool) (store : CookieStore)
    (cm : BidCookieMappingInfo) :
    (queryCookieMapping disabled store cm).needReMapping =
      (!disabled && cm.queryKV.unmapped store) := by
  cases disabled with
  | false => exact (queryCookieMapping_enabled store cm).2.2
  | true => rfl

section

variable (env : BidEnv) (s : BidState) (call : BidCall)

theorem enter_needReMapping :
    (call.enter env s).cmInfo.needReMapping = call.needsUser env s := by
  have hkeys := (filter_spec env call.request).1
  simp only [BidCall.enter, FilterPlan.enter, BidCall.needsUser, BidCall.start]
  cases hsource : (call.request.filter env).keys with
  | none =>
      cases hqueries : (call.request.filter env).queries with
      | false => rfl
      | true =>
          have hsome := hkeys hqueries
          rw [hsource] at hsome
          cases hsome
  | some source =>
      split
      · rw [queryCookieMapping_flag]
        rw [(bind_query source call.store s.cmInfo.queryKV).2.1]
      · rfl

theorem enter_isAdxCookie :
    (call.enter env s).cmInfo.queryKV.isAdxCookie = call.takesCookie env s := by
  have hkey : (call.enter env s).cmInfo.queryKV = match (call.request.filter env).keys with
      | some source => source.bind s.cmInfo.queryKV
      | none => s.cmInfo.queryKV := by
    simp only [BidCall.enter, FilterPlan.enter, BidCall.start]
    cases (call.request.filter env).queries with
    | false => cases (call.request.filter env).keys <;> rfl
    | true =>
        rw [if_pos rfl, queryCookieMapping_queryKV]
        cases (call.request.filter env).keys <;> rfl
  rw [hkey, BidCall.takesCookie]
  split
  · exact (bind_query _ call.store _).2.2
  · rfl

end

/-- A handler that has to name a user has none. -/
def BidState.Blank (s : BidState) : Prop :=
  s.cmInfo.needReMapping = true →
    s.cmInfo.userMapping.userId = [] ∧ s.cmInfo.userMapping.cypherUserId = []

theorem BidState.Blank.uid {env : BidEnv} (lawful : env.users.Lawful) {s : BidState}
    (h : s.Blank) (hflag : s.cmInfo.needReMapping = true) : s.uid env = [] := by
  obtain ⟨huser, hcypher⟩ := h hflag
  rw [BidState.uid, MtUserMapping.cypherUid, if_pos hcypher, huser, lawful.empty]
  rfl

theorem blank_queryCookieMapping (disabled : Bool) (store : CookieStore) (s : BidState) :
    BidState.Blank { s with cmInfo := queryCookieMapping disabled store s.cmInfo } := by
  intro hflag
  cases disabled with
  | true => cases hflag
  | false =>
      obtain ⟨huser, hcypher, hneeds⟩ := queryCookieMapping_enabled store s.cmInfo
      refine ⟨?_, hcypher⟩
      rw [huser]
      exact CookieMappingQueryKeyValue.unmapped_foundUser (hneeds.symm.trans hflag)

theorem blank_enter (env : BidEnv) (s : BidState) (call : BidCall)
    (h : (call.request.filter env).queries = true ∨ s.Blank) : (call.enter env s).Blank := by
  simp only [BidCall.enter, FilterPlan.enter, BidCall.start]
  cases hqueries : (call.request.filter env).queries with
  | true => exact blank_queryCookieMapping _ _ { s with cmInfo := _ }
  | false =>
      rw [hqueries] at h
      rcases h with h | h
      · cases h
      · cases (call.request.filter env).keys <;> exact h

/-- Without a native mapping URL the flag is cleared when a user is named. -/
theorem BidState.Blank.step {env : BidEnv} (lawful : env.users.Lawful) (store : CookieStore)
    {s : BidState} (h : s.Blank) {step : HandlerStep}
    (hstep : ∀ adxId url placed, step = .redoMapping adxId url placed → url = []) :
    (perform env store s step).1.Blank := by
  cases step with
  | queryMapping => exact blank_queryCookieMapping _ _ _
  | redoMapping adxId url placed =>
      rw [hstep adxId url placed rfl]
      obtain ⟨events, hperform, -⟩ := perform_redo env store adxId [] placed s
      rw [hperform]
      split
      · exact fun hnamed => absurd rfl (BidState.nativeMapping_iff.mp hnamed).2
      · exact h
  | showPara =>
      intro hflag
      obtain ⟨huser, hcypher⟩ := h hflag
      simp only [perform, MtUserMapping.cypherUid_userId, MtUserMapping.cypherUid_cypherUserId]
      exact ⟨huser, h.uid lawful hflag⟩
  | _ => exact h

theorem redoMapping_url {env : BidEnv} {request : BidRequest} {condition : AdSelectCondition}
    {result : SelectResult} (he : request.exchange ∈ lateExchanges) {adxId : Int} {url : Bytes}
    {placed : Bool}
    (h : .redoMapping adxId url placed ∈ request.buildBidResult env condition result) :
    url = request.exchange.nativeUrl := by
  cases hbuilds : request.builds result with
  | false =>
      rw [build_unbuilt env request condition result hbuilds] at h
      cases h
  | true =>
      obtain ⟨urls, _, hbuild, hquiet, -⟩ := build_late env request condition result he hbuilds
      rw [hbuild] at h
      rcases List.mem_append.mp h with h | h
      · cases hquiet _ h
      · cases List.mem_singleton.mp h
        rfl

theorem BidState.Blank.handle {env : BidEnv} (lawful : env.users.Lawful) {call : BidCall}
    (he : call.request.exchange ∈ lateExchanges) (hurl : call.request.exchange.nativeUrl = [])
    {s : BidState} (h : s.Blank) : (handle env s call).1.Blank := by
  refine Mealy.run_invariant (perform env call.store) BidState.Blank ?_ h
  intro t step hstep ht
  refine ht.step lawful call.store ?_
  rintro adxId url placed rfl
  have hall : .redoMapping adxId url placed ∈ call.allSteps env := by
    unfold BidCall.steps at hstep
    split at hstep
    · exact hstep
    · exact List.mem_of_mem_take hstep
  rcases List.mem_append.mp hall with hfilter | hslots
  · cases isSlotStep_filterSteps _ _ hfilter
  · obtain ⟨steps, hsteps, hstep⟩ := List.mem_flatten.mp hslots
    obtain ⟨⟨condition, outcome⟩, -, rfl⟩ := List.mem_map.mp hsteps
    cases outcome with
    | none => cases List.mem_singleton.mp hstep
    | some result =>
        rcases List.mem_append.mp hstep with hstep | hstep
        · exact (redoMapping_url he hstep).trans hurl
        · cases List.mem_singleton.mp hstep

/-- No handler of a late exchange shows a user before it has named the one it needs. -/
theorem blank_of_run {env : BidEnv} (lawful : env.users.Lawful) {e : Exchange}
    (he : e ∈ lateExchanges) {calls : List (CallOf e)} {s : BidState}
    (hrun : Run (bidSystem env e) (fun _ _ => True) calls s) (call : CallOf e) :
    (call.1.enter env s).Blank ∨ call.1.slots env = [] := by
  by_cases hurl : e.nativeUrl = []
  · refine .inl (blank_enter env s call.1 (.inr ?_))
    refine Run.invariant BidState.Blank ?_ ?_ hrun
    · rintro s ⟨isAdxCookie, rfl⟩ hflag
      cases hflag
    · rintro s ⟨call, rfl⟩ t hs - rfl
      exact hs.handle lawful he hurl
  · -- only Sohu has a native URL here, and it always queries
    have hid : Identified call.1.request = true := by
      obtain ⟨call, rfl⟩ := call
      cases hrequest : call.request with
      | sohu r => rfl
      | _ =>
          rw [hrequest] at he hurl
          first
          | exact absurd rfl hurl
          | simp [lateExchanges, BidRequest.exchange] at he
    rcases (filter_spec env call.1.request).2 hid with hqueries | hnone
    · exact .inl (blank_enter env s call.1 (.inl hqueries))
    · right
      rw [BidCall.slots, hnone]
      rfl

theorem flatten_slotEvents (env : BidEnv) (s : BidState) (call : BidCall) :
    (slotEvents env s call).flatten =
      (runSlots env call.store call.request (call.enter env s) (call.slots env)).2 :=
  Mealy.flatten_outputs _ _ _

theorem runSlots_first (env : BidEnv) (store : CookieStore) (request : BidRequest) (s : BidState)
    {slots : List BidSlot} (h : ∃ slot ∈ slots, request.built slot = true) :
    ∃ t slot after logs, SameUser env s t ∧ request.built slot = true ∧
      slots.countP request.built = after.countP request.built + 1 ∧
      (∀ event ∈ logs, ∃ userId, event = .bidLog userId) ∧
      (runSlots env store request s slots).2 = logs ++ ((runSlots env store request t [slot]).2 ++
        (runSlots env store request (runSlots env store request t [slot]).1 after).2) := by
  obtain ⟨slot, hfind⟩ := Option.isSome_iff_exists.mp (List.find?_isSome.mpr h)
  obtain ⟨hbuilt, before, after, rfl, hbefore⟩ := List.find?_eq_some_iff_append.mp hfind
  have hunbuilt : ∀ slot ∈ before, ¬request.built slot = true := by
    simpa only [Bool.not_eq_true, Bool.not_eq_true'] using hbefore
  obtain ⟨hsame, hlogs⟩ := runSlots_unbuilt env store request s hunbuilt
  refine ⟨_, slot, after, _, hsame, hbuilt, ?_, hlogs, ?_⟩
  · rw [List.countP_append, List.countP_eq_zero.mpr hunbuilt, List.countP_cons_of_pos hbuilt,
      Nat.zero_add]
  · rw [runSlots_append, runSlots_cons]

/-- The user named for a request is the one in its URLs. -/
def Reaches (users : UserLib) (events : List BidEvent) : Prop :=
  ∀ id, .newUser id ∈ events →
    ∀ u, .showUrl u ∈ events ∨ .clickUrl u ∈ events → u = users.cipher id

/-- The handlers of the late exchanges never put a new user into the URLs. -/
theorem reaches_iff (env : BidEnv) (lawful : env.users.Lawful) {e : Exchange}
    (he : e ∈ lateExchanges) {calls : List (CallOf e)} {s : BidState}
    (hrun : Run (bidSystem env e) (fun _ _ => True) calls s) (call : CallOf e) :
    Reaches env.users (slotEvents env s call.1).flatten ↔
      ¬(call.1.needsUser env s = true ∧
        ∃ slot ∈ call.1.slots env, call.1.request.built slot = true) := by
  have hblank := blank_of_run lawful he hrun call
  obtain ⟨call, rfl⟩ := call
  rw [flatten_slotEvents, ← enter_needReMapping]
  refine ⟨?_, ?_⟩
  · rintro hreaches ⟨hflag, hbuilt⟩
    obtain ⟨t, slot, after, logs, hsame, hslot, -, -, hevents⟩ :=
      runSlots_first env call.store call.request (call.enter env s) hbuilt
    obtain ⟨n, urlEvents, more, hnamed, -⟩ := runSlots_late env call.store call.request he hslot
      (hsame.flag.trans hflag)
    have hshow := runSlots_showUrl env call.store call.request (s := t) he hslot
    rw [hevents] at hreaches
    have huid := hreaches (env.users.generate n)
      (List.mem_append_right _ (List.mem_append_left _ (by
        rw [hnamed]
        exact List.mem_append_right _ List.mem_cons_self)))
      (t.uid env) (.inl (List.mem_append_right _ (List.mem_append_left _ hshow)))
    rcases hblank with hblank | hnil
    · rw [hsame.uid, hblank.uid lawful hflag] at huid
      exact lawful.generated n huid.symm
    · obtain ⟨slot, hmem, -⟩ := hbuilt
      rw [hnil] at hmem
      cases hmem
  · intro hnot id hnew
    have hfalse : BidEvent.isNewUser (.newUser id) = false := by
      cases hflag : (call.enter env s).cmInfo.needReMapping with
      | false => exact (runSlots_mapped env call.store call.request _ hflag _ _ hnew).1
      | true =>
          obtain ⟨userId, hlog⟩ := (runSlots_unbuilt env call.store call.request _
            fun slot hslot hbuilt => hnot ⟨hflag, slot, hslot, hbuilt⟩).2 _ hnew
          cases hlog
    cases hfalse

theorem lawful_sampleBidEnv : sampleBidEnv.users.Lawful :=
  ⟨rfl, fun _ h => nomatch (List.append_eq_nil_iff.mp h).1⟩

theorem run_newHandler (env : BidEnv) (e : Exchange) :
    Run (bidSystem env e) (fun _ _ => True) [] (newHandler false) :=
  .start ⟨false, rfl⟩

def guangyinCall (store : CookieStore) : CallOf .guangyin :=
  ⟨{ request := .guangyin { impSize := 1, isMobile := true, imei := bytes "861234567890123" }
     store := store, outcome := acceptAll }, rfl⟩

theorem reaches_sample :
    (guangyinCall knownStore).1.needsUser sampleBidEnv (newHandler false) = false ∧
      Reaches sampleBidEnv.users
        (slotEvents sampleBidEnv (newHandler false) (guangyinCall knownStore).1).flatten := by
  have hknown : (guangyinCall knownStore).1.needsUser sampleBidEnv (newHandler false) = false := by
    decide
  refine ⟨hknown, (reaches_iff sampleBidEnv lawful_sampleBidEnv (by decide)
    (run_newHandler _ _) _).mpr ?_⟩
  rintro ⟨hneeds, -⟩
  rw [hknown] at hneeds
  cases hneeds

/-- The phone is new: its URLs have an empty `u`, and a user is stored for it. -/
theorem reaches_lost :
    let call := guangyinCall fun _ _ => {}
    ¬Reaches sampleBidEnv.users (slotEvents sampleBidEnv (newHandler false) call.1).flatten := by
  intro call h
  have hu := h (bytes "new") (by decide) [] (.inl (by decide))
  cases hu

/-- At most one user is named for a request, and all its URLs show the same one. -/
def OneUser (events : List BidEvent) : Prop :=
  events.countP BidEvent.isNewUser ≤ 1 ∧ ∃ u, ∀ event ∈ events, ∀ v ∈ event.shown, v = u

theorem countP_isNewUser {u : Bytes} {events : List BidEvent}
    (h : ∀ event ∈ events, event.Shows u) : events.countP BidEvent.isNewUser = 0 := by
  refine List.countP_eq_zero.mpr fun event hevent => ?_
  rw [(h event hevent).1]
  exact Bool.false_ne_true

theorem oneUser_unnamed {u : Bytes} {events : List BidEvent}
    (h : ∀ event ∈ events, event.Shows u) : OneUser events :=
  ⟨(countP_isNewUser h).trans_le (Nat.zero_le 1), u, fun event hevent => (h event hevent).2⟩

theorem oneUser_named {u id : Bytes} {before after : List BidEvent}
    (hbefore : ∀ event ∈ before, event.Shows u) (hafter : ∀ event ∈ after, event.Shows u) :
    OneUser (before ++ .newUser id :: after) := by
  refine ⟨?_, u, ?_⟩
  · rw [List.countP_append, countP_isNewUser hbefore, List.countP_cons_of_pos rfl,
      countP_isNewUser hafter]
  · intro event hevent v hv
    rcases List.mem_append.mp hevent with hevent | hevent
    · exact (hbefore event hevent).2 v hv
    · rcases List.mem_cons.mp hevent with rfl | hevent
      · cases hv
      · exact (hafter event hevent).2 v hv

theorem OneUser.not_named_again {id id' : Bytes} {events more : List BidEvent}
    (h : OneUser (events ++ more)) (hnew : .newUser id ∈ events) : .newUser id' ∉ more := by
  intro hagain
  have hfirst : 0 < events.countP BidEvent.isNewUser := List.countP_pos_iff.mpr ⟨_, hnew, rfl⟩
  have hsecond : 0 < more.countP BidEvent.isNewUser := List.countP_pos_iff.mpr ⟨_, hagain, rfl⟩
  have hone := h.1
  rw [List.countP_append] at hone
  omega

theorem OneUser.showUrl_eq {u v : Bytes} {events : List BidEvent} (h : OneUser events)
    (hu : .showUrl u ∈ events) (hv : .showUrl v ∈ events) : u = v := by
  obtain ⟨-, w, hw⟩ := h
  exact (hw _ hu u rfl).trans (hw _ hv v rfl).symm

theorem shows_of_bidLog {u : Bytes} {events : List BidEvent}
    (h : ∀ event ∈ events, ∃ userId, event = .bidLog userId) :
    ∀ event ∈ events, event.Shows u := by
  intro event hevent
  obtain ⟨userId, rfl⟩ := h event hevent
  exact ⟨rfl, fun v hv => nomatch hv⟩

section

variable (env : BidEnv) (store : CookieStore) (request : BidRequest) {s : BidState}
  {slots : List BidSlot}

/-- After the first bid of a late exchange the URLs show the user that was named. -/
theorem oneUser_late (lawful : env.users.Lawful) (he : request.exchange ∈ lateExchanges)
    (hflag : s.cmInfo.needReMapping = true) (hblank : s.uid env = [])
    (hbuilt : ∃ slot ∈ slots, request.built slot = true) :
    OneUser (runSlots env store request s slots).2 ↔ slots.countP request.built < 2 := by
  obtain ⟨t, slot, after, logs, hsame, hslot, hcount, hlogs, hevents⟩ :=
    runSlots_first env store request s hbuilt
  obtain ⟨n, urlEvents, more, hnamed, hurls, hmore, huid⟩ :=
    runSlots_late env store request he hslot (hsame.flag.trans hflag)
  have hmore' : ∀ event ∈ more, event.Shows (t.uid env) := by
    intro event hevent
    obtain ⟨hnew, hshown⟩ := hmore event hevent
    refine ⟨hnew, ?_⟩
    rw [hshown]
    exact fun v hv => nomatch hv
  rw [hcount]
  refine ⟨?_, ?_⟩
  · -- the second bid shows the user that was named after the first
    intro hone
    by_contra hsecond
    have hpos : 0 < after.countP request.built := by omega
    obtain ⟨t', slot', _, _, hsame', hslot', -, -, hafter⟩ :=
      runSlots_first env store request (runSlots env store request t [slot]).1
        (List.countP_pos_iff.mp hpos)
    have hfirst := runSlots_showUrl env store request (s := t) he hslot
    have hagain := runSlots_showUrl env store request (s := t') he hslot'
    rw [hsame.uid, hblank] at hfirst
    rw [hsame'.uid, huid] at hagain
    rw [hevents, hafter] at hone
    refine lawful.generated n (hone.showUrl_eq ?_ ?_)
    · simp only [List.mem_append, hagain, or_true, true_or]
    · simp only [List.mem_append, hfirst, or_true, true_or]
  · intro hfew
    have hnone : after.countP request.built = 0 := by omega
    have hafter := shows_of_bidLog (u := t.uid env) (runSlots_unbuilt env store request
      (runSlots env store request t [slot]).1 (List.countP_eq_zero.mp hnone)).2
    rw [hevents, hnamed, List.append_assoc, ← List.append_assoc logs, List.cons_append]
    exact oneUser_named (List.forall_mem_append.mpr ⟨shows_of_bidLog hlogs, hurls⟩)
      (List.forall_mem_append.mpr ⟨hmore', hafter⟩)

/-- The other exchanges name another user for each bid, but only while the exchange is to
map the cookie itself. -/
theorem oneUser_early (he : request.exchange ∉ lateExchanges)
    (hflag : s.cmInfo.needReMapping = true)
    (hbuilt : ∃ slot ∈ slots, request.built slot = true) :
    OneUser (runSlots env store request s slots).2 ↔
      s.nativeMapping request.exchange.nativeUrl = false ∨ slots.countP request.built < 2 := by
  obtain ⟨t, slot, after, logs, hsame, hslot, hcount, hlogs, hevents⟩ :=
    runSlots_first env store request s hbuilt
  obtain ⟨n, more, hnamed, hmore, huid, hnative⟩ :=
    runSlots_early env store request he hslot (hsame.flag.trans hflag)
  have hsameNative : t.nativeMapping request.exchange.nativeUrl =
      s.nativeMapping request.exchange.nativeUrl := by
    rw [BidState.nativeMapping, BidState.nativeMapping, hsame.key]
  rw [hsameNative] at hnative
  rw [hcount]
  refine ⟨?_, ?_⟩
  · -- with a native URL the flag is still up when the second bid is built
    intro hone
    by_contra hnot
    rw [not_or, Bool.not_eq_false] at hnot
    have hpos : 0 < after.countP request.built := by omega
    obtain ⟨t', slot', _, _, hsame', hslot', -, -, hafter⟩ :=
      runSlots_first env store request (runSlots env store request t [slot]).1
        (List.countP_pos_iff.mp hpos)
    obtain ⟨n', more', hagain, -⟩ := runSlots_early env store request he hslot'
      (hsame'.flag.trans (hnative.trans hnot.1))
    rw [hevents, hnamed, hafter, hagain, ← List.append_assoc] at hone
    exact hone.not_named_again (List.mem_append_right _ List.mem_cons_self)
      (List.mem_append_right _ (List.mem_append_left _ List.mem_cons_self))
  · intro h
    have hafter : ∀ event ∈ (runSlots env store request
        (runSlots env store request t [slot]).1 after).2,
        event.Shows (env.users.cipher (env.users.generate n)) := by
      rcases h with hmapped | hfew
      · rw [← huid]
        exact runSlots_mapped env store request _ (hnative.trans hmapped) after
      · have hnone : after.countP request.built = 0 := by omega
        exact shows_of_bidLog
          (runSlots_unbuilt env store request _ (List.countP_eq_zero.mp hnone)).2
    rw [hevents, hnamed, List.cons_append]
    exact oneUser_named (shows_of_bidLog hlogs) (List.forall_mem_append.mpr ⟨hmore, hafter⟩)

end

/-- A request names one user and shows no other, unless a second bid comes before the URLs
have caught up or while the cookie is still to be mapped. -/
theorem oneUser_iff (env : BidEnv) (lawful : env.users.Lawful) {e : Exchange}
    {calls : List (CallOf e)} {s : BidState}
    (hrun : Run (bidSystem env e) (fun _ _ => True) calls s) (call : CallOf e) :
    OneUser (slotEvents env s call.1).flatten ↔
      ¬(call.1.needsUser env s = true ∧
        2 ≤ (call.1.slots env).countP call.1.request.built ∧
        (e ∈ lateExchanges ∨ call.1.takesCookie env s = true ∧ e.nativeUrl ≠ [])) := by
  have hblank := fun he => blank_of_run lawful he hrun call
  obtain ⟨call, rfl⟩ := call
  rw [flatten_slotEvents, ← enter_needReMapping, ← enter_isAdxCookie]
  dsimp only at hblank ⊢
  cases hflag : (call.enter env s).cmInfo.needReMapping with
  | false =>
      refine iff_of_true (oneUser_unnamed (runSlots_mapped env _ _ _ hflag _)) ?_
      rintro ⟨h, -⟩
      cases h
  | true =>
      by_cases hbuilt : ∃ slot ∈ call.slots env, call.request.built slot = true
      · by_cases he : call.request.exchange ∈ lateExchanges
        · have huid : (call.enter env s).uid env = [] := by
            rcases hblank he with hblank | hnil
            · exact hblank.uid lawful hflag
            · obtain ⟨slot, hmem, -⟩ := hbuilt
              rw [hnil] at hmem
              cases hmem
          rw [oneUser_late env _ _ lawful he hflag huid hbuilt]
          simp only [he, true_or, and_true, true_and, not_le]
        · rw [oneUser_early env _ _ he hflag hbuilt]
          simp only [he, false_or, true_and]
          rw [← Bool.not_eq_true, BidState.nativeMapping_iff, not_and_or (a := 2 ≤ _), not_le,
            or_comm]
      · have hlogs := (runSlots_unbuilt env call.store call.request (call.enter env s)
          fun slot hslot h => hbuilt ⟨slot, hslot, h⟩).2
        refine iff_of_true (oneUser_unnamed (u := []) (shows_of_bidLog hlogs)) ?_
        rintro ⟨-, htwo, -⟩
        have hpos := List.countP_pos_iff.mp (Nat.lt_of_lt_of_le Nat.zero_lt_two htwo)
        exact hbuilt hpos

def youkuPage (userId : Bytes) : CallOf .youku :=
  ⟨{ request := .youku { imps := [{ ad := .banner }, { ad := .banner }], device := some {}
                         userId := userId }
     store := knownStore, outcome := acceptAll }, rfl⟩

theorem oneUser_sample :
    (youkuPage (bytes "yk1")).1.needsUser sampleBidEnv (newHandler false) = false ∧
      OneUser (slotEvents sampleBidEnv (newHandler false) (youkuPage (bytes "yk1")).1).flatten := by
  have hknown : (youkuPage (bytes "yk1")).1.needsUser sampleBidEnv (newHandler false) = false := by
    decide
  refine ⟨hknown, (oneUser_iff sampleBidEnv lawful_sampleBidEnv (run_newHandler _ _) _).mpr ?_⟩
  rintro ⟨hneeds, -⟩
  rw [hknown] at hneeds
  cases hneeds

/-- The page has no cookie of the exchange yet, and a user is named for each bid. -/
theorem two_users_named :
    ¬OneUser (slotEvents sampleBidEnv (newHandler false) (youkuPage []).1).flatten := by
  rintro ⟨hone, -⟩
  revert hone
  decide

end AdServer.Bid
