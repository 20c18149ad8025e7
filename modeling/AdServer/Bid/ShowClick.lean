import AdServer.Bid.Naming

/-!
The user in the show URL and in the click URL of one bid. `getShowPara` asks
`cypherUid`, which fills the cache of the mapping; `getClickPara` reads the cache as
it is. The Baidu and Tanx handlers build the click URL first.
-/
namespace AdServer.Bid

/-- The user that the store has for the request. -/
def BidCall.foundUser (env : BidEnv) (call : BidCall) : Bytes :=
  ((call.request.filter env).keys.map fun source => source.query.foundUser call.store).getD []

/-- Tanx writes no click URL for an ordinary banner on a page. -/
def BidRequest.writesClick : BidRequest → AdSelectCondition → SelectResult → Bool
  | .tanx _, condition, result => condition.flowType ≠ .pc || result.bannerType = .video
  | _, _, _ => true

/-- The show URLs and the click URLs of a bid carry the same user. -/
def ShowClickAgree (events : List BidEvent) : Prop :=
  ∀ u v, .clickUrl u ∈ events → .showUrl v ∈ events → u = v

section

variable (env : BidEnv) (store : CookieStore)

/-- Only a show URL fills the cache. -/
theorem perform_cypherUserId {s : BidState} {step : HandlerStep} (hstep : step.isSlotStep = true)
    (hflag : s.cmInfo.needReMapping = false) :
    (perform env store s step).1.cmInfo.userMapping.cypherUserId =
      if step = .showPara then s.uid env else s.cmInfo.userMapping.cypherUserId := by
  cases step with
  | bindKeys _ | queryMapping | setDeal _ => cases hstep
  | redoMapping adxId url placed =>
      obtain ⟨writes, hperform, -⟩ := perform_redo_mapped env store adxId url placed hflag
      rw [hperform]
      rfl
  | showPara => exact MtUserMapping.cypherUid_cypherUserId _ _
  | _ => rfl

theorem run_cypherUserId {s : BidState} {steps : List HandlerStep}
    (hsteps : ∀ step ∈ steps, step.isSlotStep = true) (hflag : s.cmInfo.needReMapping = false) :
    (Mealy.run (perform env store) s steps).1.cmInfo.userMapping.cypherUserId =
      if .showPara ∈ steps then s.uid env else s.cmInfo.userMapping.cypherUserId := by
  induction steps generalizing s with
  | nil => rfl
  | cons step steps ih =>
      have hstep := hsteps step List.mem_cons_self
      have hsame := (perform_mapped env store hstep hflag).1
      rw [Mealy.run_cons, ih (fun next hnext => hsteps next (List.mem_cons_of_mem step hnext))
        (hsame.flag.trans hflag), hsame.uid, perform_cypherUserId env store hstep hflag]
      by_cases hshow : step = .showPara
      · simp only [hshow, if_true, List.mem_cons, true_or, ite_self]
      · simp only [List.mem_cons, eq_comm (a := HandlerStep.showPara), hshow, if_false, false_or]

theorem run_clickPara (s : BidState) (n : Nat) :
    Mealy.run (perform env store) s (List.replicate n .clickPara) =
      (s, List.replicate n (.clickUrl s.cmInfo.userMapping.cypherUserId)) := by
  induction n with
  | zero => rfl
  | succ n ih =>
      rw [List.replicate_succ, Mealy.run_cons]
      simp only [perform, ih]
      rfl

end

/-- Baidu and Tanx write the click URLs of a bid before its show URL. -/
theorem build_clicks (env : BidEnv) {request : BidRequest}
    (he : request.exchange = .baidu ∨ request.exchange = .tanx) (condition : AdSelectCondition)
    (result : SelectResult) :
    ∃ adxId url placed n, request.buildBidResult env condition result =
        .redoMapping adxId url placed :: (List.replicate n .clickPara ++ [.showPara]) ∧
      (n = 0 ↔ request.writesClick condition result = false) := by
  cases request with
  | tanx r =>
      simp only [BidRequest.buildBidResult, tanxBuild, BidRequest.writesClick]
      split_ifs with hnative hvideo hpc
      · exact ⟨_, _, _, 1, rfl, by simp [hnative.1]⟩
      · exact ⟨_, _, _, 1, rfl, by simp [hvideo]⟩
      · exact ⟨_, _, _, 0, rfl, by simp [hpc, hvideo]⟩
      · exact ⟨_, _, _, 1, rfl, by simp [hpc]⟩
  | baidu r =>
      simp only [BidRequest.buildBidResult, baiduBuild, BidRequest.writesClick]
      split
      · exact ⟨_, _, _, 1, rfl, by decide⟩
      · split
        · exact ⟨_, _, _, 1, rfl, by decide⟩
        · exact ⟨_, _, _, 2, rfl, by decide⟩
  | _ => simp [BidRequest.exchange] at he

theorem showPara_mem_callbackSteps (env : BidEnv) {request : BidRequest}
    (he : request.exchange = .baidu ∨ request.exchange = .tanx) (slots : List BidSlot) :
    .showPara ∈ (callbackSteps (request.buildBidResult env) slots).flatten ↔
      ∃ slot ∈ slots, slot.2.isSome = true := by
  have hslot : ∀ slot : BidSlot, .showPara ∈ slotSteps (request.buildBidResult env) slot.1 slot.2 ↔
      slot.2.isSome = true := by
    rintro ⟨condition, outcome⟩
    cases outcome with
    | none => simp [slotSteps]
    | some result =>
        obtain ⟨_, _, _, _, hbuild, -⟩ := build_clicks env he condition result
        simp [slotSteps, hbuild]
  simp only [callbackSteps, List.mem_flatten, List.mem_map, exists_exists_and_eq_and, hslot]

/-- The click URLs of a bid carry what the cache has before the bid. -/
theorem showClickAgree_slot (env : BidEnv) (store : CookieStore) {request : BidRequest}
    (he : request.exchange = .baidu ∨ request.exchange = .tanx) (condition : AdSelectCondition)
    (result : SelectResult) {t : BidState} (hflag : t.cmInfo.needReMapping = false) :
    ShowClickAgree (Mealy.run (perform env store) t
        (slotSteps (request.buildBidResult env) condition (some result))).2 ↔
      t.cmInfo.userMapping.cypherUserId = t.uid env ∨
        request.writesClick condition result = false := by
  obtain ⟨adxId, url, placed, n, hbuild, hclicks⟩ := build_clicks env he condition result
  obtain ⟨writes, hredo, hwrites⟩ := perform_redo_mapped env store adxId url placed hflag
  have hevents : ∃ userId, (Mealy.run (perform env store) t
      (slotSteps (request.buildBidResult env) condition (some result))).2 =
        writes ++ (List.replicate n (.clickUrl t.cmInfo.userMapping.cypherUserId) ++
          [.showUrl (t.uid env), .bidLog userId]) := by
    rw [slotSteps, hbuild, List.cons_append, List.append_assoc, Mealy.run_cons, hredo,
      Mealy.run_append, run_clickPara]
    exact ⟨_, rfl⟩
  obtain ⟨userId, hevents⟩ := hevents
  have hnone : ∀ event ∈ writes, event.isStoreWrite = false → False := by
    intro event hevent hfalse
    rw [hwrites event hevent] at hfalse
    cases hfalse
  have hclick : ∀ u, .clickUrl u ∉ writes := fun u hu => hnone _ hu rfl
  have hshow : ∀ v, .showUrl v ∉ writes := fun v hv => hnone _ hv rfl
  rw [hevents, ShowClickAgree, ← hclicks]
  simp only [List.mem_append, hclick, hshow, List.mem_replicate, List.mem_cons, List.not_mem_nil,
    BidEvent.clickUrl.injEq, BidEvent.showUrl.injEq, reduceCtorEq, and_false, or_false, false_or]
  refine ⟨?_, ?_⟩
  · intro h
    rw [or_iff_not_imp_right]
    exact fun hn => h _ _ ⟨hn, rfl⟩ rfl
  · rintro h u v ⟨hn, rfl⟩ rfl
    exact h.resolve_right hn

theorem enter_found {env : BidEnv} (henabled : env.disabledCookieMapping = false) {call : BidCall}
    (hqueries : (call.request.filter env).queries = true) (hfound : call.foundUser env ≠ [])
    (hvalid : env.users.isValid (call.foundUser env) = true) (s : BidState) :
    (call.enter env s).cmInfo.needReMapping = false ∧
      (call.enter env s).cmInfo.userMapping.cypherUserId = [] ∧
      (call.enter env s).uid env = env.users.cipher (call.foundUser env) := by
  obtain ⟨source, hkeys, hcm⟩ := enter_cmInfo s hqueries
  have huser : call.foundUser env = source.query.foundUser call.store := by
    simp only [BidCall.foundUser, hkeys, Option.map_some, Option.getD_some]
  rw [henabled] at hcm
  obtain ⟨hid, hcypher, hflag⟩ := queryCookieMapping_enabled call.store
    { s.cmInfo with queryKV := source.bind s.cmInfo.queryKV }
  obtain ⟨hbind, -⟩ := bind_query source call.store s.cmInfo.queryKV
  rw [← hcm] at hid hcypher hflag
  rw [hbind, ← huser] at hid
  refine ⟨?_, hcypher, ?_⟩
  · rw [hflag, Bool.eq_false_iff]
    intro hunmapped
    rw [huser, ← hbind] at hfound
    exact hfound (CookieMappingQueryKeyValue.unmapped_foundUser hunmapped)
  · rw [BidState.uid, MtUserMapping.cypherUid, if_pos hcypher, hid, hvalid]
    rfl

/-- The click URLs of the first bid of a request carry no user. -/
theorem showClickAgree_iff (env : BidEnv) (henabled : env.disabledCookieMapping = false)
    {call : BidCall} (he : call.request.exchange = .baidu ∨ call.request.exchange = .tanx)
    (hfound : call.foundUser env ≠ [])
    (hvalid : env.users.isValid (call.foundUser env) = true)
    (hcipher : env.users.cipher (call.foundUser env) ≠ []) (s : BidState) {k : Nat}
    {condition : AdSelectCondition} {result : SelectResult} {events : List BidEvent}
    (hslot : (call.slots env)[k]? = some (condition, some result))
    (hevents : (slotEvents env s call)[k]? = some events) :
    ShowClickAgree events ↔
      (∃ slot ∈ (call.slots env).take k, slot.2.isSome = true) ∨
        call.request.writesClick condition result = false := by
  have hqueries : (call.request.filter env).queries = true := by
    have hid : Identified call.request = true := by
      cases hrequest : call.request with
      | tanx r | baidu r => rfl
      | _ => simp [hrequest, BidRequest.exchange] at he
    refine ((filter_spec env call.request).2 hid).resolve_right fun hnone => ?_
    rw [BidCall.slots, hnone] at hslot
    cases hslot
  obtain ⟨hflag, hcypher, huid⟩ := enter_found henabled hqueries hfound hvalid s
  have hsteps := isSlotStep_callbackSteps env call.request ((call.slots env).take k)
  have hsame := (run_unnaming env call.store (.inr ⟨hflag, hsteps⟩)).1
  rw [slotEvents, Mealy.getElem?_outputs, BidCall.slotSteps, callbackSteps, List.getElem?_map,
    hslot, ← List.map_take] at hevents
  cases hevents
  refine (showClickAgree_slot env call.store he condition result (hsame.flag.trans hflag)).trans ?_
  refine or_congr ?_ Iff.rfl
  rw [hsame.uid, run_cypherUserId env call.store hsteps hflag, hcypher, huid,
    ← showPara_mem_callbackSteps env he]
  split
  · rename_i hshown
    exact iff_of_true rfl hshown
  · rename_i hshown
    exact iff_of_false (fun h => hcipher h.symm) hshown

def baiduPage : BidCall where
  request := .baidu
    { adslots := [{ allowedNonNativead := true }, { allowedNonNativead := true }]
      baiduUserId := bytes "bd1" }
  store := knownStore
  outcome := acceptAll

theorem showClickAgree_sample :
    ∃ events, (slotEvents sampleBidEnv (newHandler false) baiduPage)[1]? = some events ∧
      ShowClickAgree events := by
  have hfound : baiduPage.foundUser sampleBidEnv ≠ [] := by decide
  refine ⟨_, rfl, (showClickAgree_iff sampleBidEnv rfl (.inl rfl) hfound (by decide) (by decide)
    (newHandler false) (k := 1) rfl rfl).mpr (.inl ?_)⟩
  exact ⟨_, List.mem_cons_self, rfl⟩

/-- The click URL of the first slot carries no user, its show URL does. -/
theorem showClick_differ :
    ∃ events, (slotEvents sampleBidEnv (newHandler false) baiduPage)[0]? = some events ∧
      ¬ShowClickAgree events := by
  refine ⟨_, rfl, fun h => ?_⟩
  have hu := h [] (bytes "c-abc") (by decide) (by decide)
  revert hu
  decide

end AdServer.Bid
