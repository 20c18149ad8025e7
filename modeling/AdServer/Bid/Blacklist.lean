import AdServer.Bid.Session

/-!
Device ids that many devices share. `cookieMappingKeyMobile` drops an id that
stands in the exclude set of its kind, and the handlers of Youku and Baidu put the
ids in upper case before. Only the entry for Android ids is written in lower case,
so it is never met.
-/
namespace AdServer.Bid

inductive DeviceKind
  | idfa | imei | androidId | mac
  deriving DecidableEq, Repr

def DeviceKind.key : DeviceKind → Bytes
  | .idfa => MtUserMapping.idfaKey
  | .imei => MtUserMapping.imeiKey
  | .androidId => MtUserMapping.androidIdKey
  | .mac => MtUserMapping.macKey

def DeviceKind.excluded : DeviceKind → List Bytes
  | .idfa => excludeIDFAs
  | .imei => excludeIMEIs
  | .androidId => excludeAndroidIds
  | .mac => excludeMACs

def DeviceIds.get (ids : DeviceIds) : DeviceKind → Bytes
  | .idfa => ids.idfa
  | .imei => ids.imei
  | .androidId => ids.androidId
  | .mac => ids.mac

def YoukuRequest.appIds (r : YoukuRequest) : Option DeviceIds :=
  match r.imps, r.device with
  | first :: _, some device =>
    if !first.skipped && decide (device.flowType = .mobile) && r.hasApp then
      some (device.ids.map toUpper)
    else none
  | _, _ => none

def BaiduRequest.appIds (r : BaiduRequest) : Option DeviceIds :=
  if r.isPing || r.isTest || r.adslots.isEmpty then none
  else (r.mobile.filter fun mobile => mobile.hasApp).map BaiduMobile.ids

/-- The device ids of a request from a mobile app, in upper case; `none` where no id
gets as far as `cookieMappingKeyMobile`. -/
def BidRequest.appIds : BidRequest → Option DeviceIds
  | .youku r => r.appIds
  | .baidu r => r.appIds
  | _ => none

/-- The id is an entry of the exclude set of its kind, whatever the letter case of either. -/
def Blacklisted (kind : DeviceKind) (ids : DeviceIds) : Prop :=
  (kind.excluded.map toUpper).contains (ids.get kind) = true

instance (kind : DeviceKind) (ids : DeviceIds) : Decidable (Blacklisted kind ids) :=
  inferInstanceAs (Decidable (_ = true))

namespace CookieMappingQueryKeyValue

/-- The key is neither looked up nor mapped. -/
def Spares (k : Bytes) (kv : CookieMappingQueryKeyValue) : Prop :=
  kv.key ≠ k ∧ ∀ entry ∈ kv.deviceMappings, entry.1 ≠ k

instance (k : Bytes) (kv : CookieMappingQueryKeyValue) : Decidable (kv.Spares k) :=
  inferInstanceAs (Decidable (_ ∧ _))

variable {k : Bytes} {kv : CookieMappingQueryKeyValue}

theorem spares_clearDeviceMapping (kv : CookieMappingQueryKeyValue) (hk : k ≠ []) :
    kv.clearDeviceMapping.Spares k :=
  ⟨hk.symm, fun _ hentry => nomatch hentry⟩

theorem mem_insertMapping {mappings : List (Bytes × Bytes × Bytes)} {k' v v2 : Bytes}
    {entry : Bytes × Bytes × Bytes} (h : entry ∈ insertMapping mappings k' v v2) :
    entry ∈ mappings ∨ entry.1 = k' := by
  unfold insertMapping at h
  split at h
  · exact .inl h
  · rcases List.mem_append.mp h with h | h
    · exact .inl h
    · exact .inr (congrArg Prod.fst (List.mem_singleton.mp h))

theorem Spares.rebindDevice (h : kv.Spares k) {k' v : Bytes} (hv : k' = k → v = []) (v2 : Bytes) :
    (kv.rebindDevice k' v v2).Spares k := by
  unfold CookieMappingQueryKeyValue.rebindDevice
  split
  · rename_i hbound
    have hne : k' ≠ k := fun heq => hbound.2 (hv heq)
    refine ⟨?_, ?_⟩
    · dsimp only
      split
      · exact hne
      · exact h.1
    · intro entry hentry
      rcases mem_insertMapping hentry with hold | hnew
      · exact h.2 entry hold
      · exact hnew ▸ hne
  · exact h

/-- The key is mapped. -/
def Maps (k : Bytes) (kv : CookieMappingQueryKeyValue) : Prop :=
  ∃ entry ∈ kv.deviceMappings, entry.1 = k

theorem Maps.not_spares (h : kv.Maps k) : ¬ kv.Spares k := by
  obtain ⟨entry, hentry, heq⟩ := h
  exact fun hspares => hspares.2 entry hentry heq

theorem Maps.rebindDevice (h : kv.Maps k) (k' v v2 : Bytes) :
    (kv.rebindDevice k' v v2).Maps k := by
  obtain ⟨entry, hentry, heq⟩ := h
  refine ⟨entry, ?_, heq⟩
  unfold CookieMappingQueryKeyValue.rebindDevice insertMapping
  split
  · dsimp only
    split
    · exact hentry
    · exact List.mem_append_left _ hentry
  · exact hentry

theorem maps_rebindDevice (kv : CookieMappingQueryKeyValue) {v : Bytes} (hk : k ≠ []) (hv : v ≠ [])
    (v2 : Bytes) : (kv.rebindDevice k v v2).Maps k := by
  rw [CookieMappingQueryKeyValue.rebindDevice, if_pos ⟨hk, hv⟩]
  unfold Maps insertMapping
  dsimp only
  split
  · rename_i hany
    obtain ⟨entry, hentry, heq⟩ := List.any_eq_true.mp hany
    exact ⟨entry, hentry, of_decide_eq_true heq⟩
  · exact ⟨(k, v, v2), List.mem_append_right _ List.mem_cons_self, rfl⟩

end CookieMappingQueryKeyValue

theorem adxUidKey_ne_key (adxId : Int) (kind : DeviceKind) :
    MtUserMapping.adxUidKey adxId ≠ kind.key := by
  intro h
  have hhead := congrArg (List.take 3) h
  rw [MtUserMapping.take_adxUidKey] at hhead
  revert hhead
  cases kind <;> decide

section
variable (ids condition : DeviceIds) (appAdxId : Int) (appUserId : Bytes)
  (kv : CookieMappingQueryKeyValue)

/-- A kind of id is left out exactly where it is excluded or has no value. -/
theorem spares_cookieMappingKeyMobile_iff (kind : DeviceKind) :
    (cookieMappingKeyMobile ids condition appAdxId appUserId kv).Spares kind.key ↔
      unlessExcluded kind.excluded (condition.get kind) (ids.get kind) = [] := by
  have hkey : kind.key ≠ [] := by cases kind <;> decide
  have hadx := adxUidKey_ne_key appAdxId kind
  unfold cookieMappingKeyMobile
  constructor
  · intro h
    by_contra hvalue
    refine CookieMappingQueryKeyValue.Maps.not_spares ?_ h
    apply CookieMappingQueryKeyValue.Maps.rebindDevice
    have hmaps := fun kv => CookieMappingQueryKeyValue.maps_rebindDevice kv hkey hvalue
    cases kind with
    | mac => exact hmaps _ _
    | androidId => exact (hmaps _ _).rebindDevice _ _ _
    | imei => exact ((hmaps _ _).rebindDevice _ _ _).rebindDevice _ _ _
    | idfa => exact (((hmaps _ _).rebindDevice _ _ _).rebindDevice _ _ _).rebindDevice _ _ _
  · intro hvalue
    have hstart := CookieMappingQueryKeyValue.spares_clearDeviceMapping kv hkey
    refine ((((hstart.rebindDevice ?_ _).rebindDevice ?_ _).rebindDevice ?_ _).rebindDevice ?_
      _).rebindDevice (fun heq => absurd heq hadx) _
    all_goals
      cases kind with
      | _ => first | exact fun _ => hvalue | exact fun heq => absurd heq (by decide)

end

theorem keys_of_appIds (env : BidEnv) {request : BidRequest} {ids : DeviceIds}
    (h : request.appIds = some ids) :
    ∃ appAdxId appUserId,
      (request.filter env).keys = some (hashedKeys env ids appAdxId appUserId) := by
  cases request with
  | youku r =>
      obtain ⟨imps, device, hasApp, userId⟩ := r
      cases imps with
      | nil => cases h
      | cons first imps =>
          cases device with
          | none => cases h
          | some device =>
              simp only [BidRequest.appIds, YoukuRequest.appIds] at h
              split at h
              · rename_i happ
                simp only [Bool.and_eq_true, Bool.not_eq_true', decide_eq_true_eq] at happ
                obtain ⟨⟨hskipped, hflow⟩, rfl⟩ := happ
                cases h
                refine ⟨env.ids .youkuMobile, userId, ?_⟩
                simp only [BidRequest.filter, YoukuRequest.filter, YoukuRequest.keys, hskipped,
                  hflow, if_true, Bool.false_eq_true, if_false]
              · cases h
  | baidu r =>
      simp only [BidRequest.appIds, BaiduRequest.appIds] at h
      split at h
      · cases h
      · rename_i hreach
        simp only [Bool.or_eq_true, not_or, List.isEmpty_iff] at hreach
        obtain ⟨mobile, hmobile, rfl⟩ := Option.map_eq_some_iff.mp h
        obtain ⟨hmobile, happ⟩ := Option.filter_eq_some_iff.mp hmobile
        refine ⟨0, [], ?_⟩
        simp only [BidRequest.filter, BaiduRequest.filter, hreach.1.1, hreach.1.2, hreach.2,
          or_self, Bool.false_eq_true, if_false, BaiduRequest.keys, hmobile, happ, if_true]
  | _ => cases h

theorem excluded_toUpper {kind : DeviceKind} (hkind : kind ≠ .androidId) :
    kind.excluded.map toUpper = kind.excluded := by
  cases kind with
  | androidId => exact absurd rfl hkind
  | _ => decide

/-- A blacklisted id of a mobile app is kept out of the mapping unless it is an Android id. -/
theorem blacklist_respected_iff (env : BidEnv) (digest : ∀ text, text ≠ [] → env.md5 text ≠ [])
    (request : BidRequest) (ids : DeviceIds) (happ : request.appIds = some ids)
    (kv : CookieMappingQueryKeyValue) :
    (∀ source, (request.filter env).keys = some source →
      ∀ kind, Blacklisted kind ids → (source.bind kv).Spares kind.key) ↔
      ¬ Blacklisted .androidId ids := by
  obtain ⟨appAdxId, appUserId, hkeys⟩ := keys_of_appIds env happ
  have hspares := spares_cookieMappingKeyMobile_iff (ids.map (md5Encode env)) ids appAdxId
    appUserId kv
  constructor
  · intro h hlisted
    have hempty := (hspares .androidId).mp (h _ hkeys .androidId hlisted)
    have hid : ids.androidId = bytes "9774D56D682E549C" := by
      have hupper : DeviceKind.androidId.excluded.map toUpper = [bytes "9774D56D682E549C"] := by
        decide
      rw [Blacklisted, hupper, List.contains_iff_mem] at hlisted
      exact List.mem_singleton.mp hlisted
    have hkept : unlessExcluded DeviceKind.androidId.excluded (ids.get .androidId)
        ((ids.map (md5Encode env)).get .androidId) = env.md5 (bytes "9774D56D682E549C") := by
      simp only [DeviceIds.get, DeviceIds.map, hid, md5Encode]
      rfl
    rw [hkept] at hempty
    exact digest _ (by decide) hempty
  · intro hlisted source hsource kind hkind
    rw [hkeys, Option.some.injEq] at hsource
    subst hsource
    refine (hspares kind).mpr ?_
    have hne : kind ≠ .androidId := fun heq => hlisted (heq ▸ hkind)
    rw [Blacklisted, excluded_toUpper hne] at hkind
    exact if_pos hkind

def youkuApp (ids : DeviceIds) : BidRequest :=
  .youku { imps := [{ ad := .banner }], device := some { devicetype := 0, ids }, hasApp := true }

theorem blacklist_respected_sample :
    let request := youkuApp { idfa := bytes "9f89c84a559f573636a47ff8daed0d33" }
    ∀ source, (request.filter sampleBidEnv).keys = some source →
      ∀ kind, Blacklisted kind { idfa := bytes "9F89C84A559F573636A47FF8DAED0D33" } →
        (source.bind { isAdxCookie := false }).Spares kind.key :=
  (blacklist_respected_iff sampleBidEnv
    (fun text _ => List.append_ne_nil_of_left_ne_nil (by decide) text) _ _ rfl _).mpr (by decide)

/-- The Android id that every device of one kind reports is mapped to a user. -/
theorem blacklisted_androidId_mapped :
    let request := youkuApp { androidId := bytes "9774d56d682e549c" }
    let ids : DeviceIds := { androidId := bytes "9774D56D682E549C" }
    request.appIds = some ids ∧ Blacklisted .androidId ids ∧
      ∀ source, (request.filter sampleBidEnv).keys = some source →
        ¬ (source.bind { isAdxCookie := false }).Spares DeviceKind.androidId.key := by
  refine ⟨rfl, by decide, ?_⟩
  intro source hsource
  cases hsource
  decide

end AdServer.Bid
