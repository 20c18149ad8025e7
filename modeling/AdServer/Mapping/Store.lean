import AdServer.Bid.Mapping
import AdServer.Url.Serialize

/-!
The store behind `CookieMappingManager`: a map from sets and keys to records of
bins with a time-to-live. Writes and touches are handed to an event loop and
executed later. A touch that finds no record calls back, and the callback writes
the record anew.
-/
namespace AdServer.Mapping

open Url Bid

structure MappingRecord where
  bins : ParamMap
  ttl : Int

namespace MappingRecord

def userIdBin : Bytes := bytes "user_id"

def originIdBin : Bytes := bytes "origin_id"

def userId (r : MappingRecord) : Bytes := r.bins.value userIdBin

def outerUserOriginId (r : MappingRecord) : Bytes := r.bins.value originIdBin

end MappingRecord

def asKey (set value : Bytes) : Bytes × Bytes := (cString set, cString value)

abbrev MappingStore := Bytes × Bytes → Option MappingRecord

def MappingStore.empty : MappingStore := fun _ => none

/-- What `getUserMappingByKey` is answered when the store is up. -/
def MappingStore.answers (store : MappingStore) : CookieStore := fun k v =>
  match store (asKey k v) with
  | some r => { userId := r.userId, outerUserOriginId := r.outerUserOriginId }
  | none => {}

/-- `DAY_SECOND * 30`, the default of every update. -/
def mappingTtl : Int := 86400 * 30

structure MappingPut where
  userId : Bytes
  outerUserKey : Bytes
  outerUserId : Bytes
  outerUserOriginId : Bytes := []
  ttl : Int

def setStr (bin text : Bytes) (bins : ParamMap) : ParamMap :=
  if text = [] then bins else Finmap.insert (cString bin) (cString text) bins

/-- `MtUserMapping::record`, on top of the bins that are there. -/
def MappingPut.record (p : MappingPut) (bins : ParamMap) : ParamMap :=
  setStr MappingRecord.originIdBin p.outerUserOriginId
    (setStr p.outerUserKey p.outerUserId (setStr MappingRecord.userIdBin p.userId bins))

def MappingStore.put (store : MappingStore) (p : MappingPut) : MappingStore :=
  let key := asKey p.outerUserKey p.outerUserId
  Function.update store key
    (some { bins := p.record (((store key).map MappingRecord.bins).getD ∅), ttl := p.ttl })

def updateMappingAdxUid (userId : Bytes) (adxId : Int) (value : Bytes) (ttl : Int) :
    MappingPut where
  userId := userId
  outerUserKey := MtUserMapping.adxUidKey adxId
  outerUserId := value
  ttl := ttl

def updateMappingDeviceAsync (userId deviceIdType value originDeviceValue : Bytes) (ttl : Int) :
    MappingPut where
  userId := userId
  outerUserKey := deviceIdType
  outerUserId := value
  outerUserOriginId := originDeviceValue
  ttl := ttl

structure TouchFallbackData where
  key : Bytes
  value : Bytes
  userId : Bytes
  originId : Bytes

/-- The put issued for an error code; 2 says that there is no record. -/
def touchMappingAsyncCallback (err : Int) (data : TouchFallbackData) : Option MappingPut :=
  if err = 2 then
    some (updateMappingDeviceAsync data.userId data.key data.value data.originId mappingTtl)
  else none

structure TouchOperation where
  data : TouchFallbackData
  ttl : Int

def touchMapping (k value userId originId : Bytes) (ttl : Int) : TouchOperation :=
  ⟨⟨k, value, userId, originId⟩, ttl⟩

def TouchOperation.operate (op : TouchOperation) (store : MappingStore) : MappingStore × Int :=
  let key := asKey op.data.key op.data.value
  match store key with
  | some r => (Function.update store key (some { r with ttl := op.ttl }), 0)
  | none => (store, 2)

/-- The store once the operation, its callback and the put it may issue are done. -/
def TouchOperation.complete (op : TouchOperation) (store : MappingStore) : MappingStore :=
  let (touched, err) := op.operate store
  match touchMappingAsyncCallback err op.data with
  | some p => touched.put p
  | none => touched

theorem value_setStr_same (bin : Bytes) {text : Bytes} (h : text ≠ []) (bins : ParamMap) :
    (setStr bin text bins).value (cString bin) = cString text := by
  rw [setStr, if_neg h, ParamMap.value, Finmap.lookup_insert, Option.getD_some]

theorem value_setStr_of_ne {bin k : Bytes} (h : k ≠ cString bin) (text : Bytes)
    (bins : ParamMap) : (setStr bin text bins).value k = bins.value k := by
  rw [setStr]
  split
  · rfl
  · rw [ParamMap.value, Finmap.lookup_insert_of_ne _ h, ParamMap.value]

theorem setStr_nil (bin : Bytes) (bins : ParamMap) : setStr bin [] bins = bins := if_pos rfl

theorem value_record_of_key {p : MappingPut}
    (h : cString p.outerUserKey = MappingRecord.userIdBin ∧ p.outerUserId ≠ []) (bins : ParamMap) :
    (p.record bins).value MappingRecord.userIdBin = cString p.outerUserId := by
  rw [MappingPut.record, value_setStr_of_ne (by decide), ← h.1, value_setStr_same _ h.2]

theorem value_record_of_not_key {p : MappingPut}
    (h : ¬ (cString p.outerUserKey = MappingRecord.userIdBin ∧ p.outerUserId ≠ []))
    (bins : ParamMap) :
    (p.record bins).value MappingRecord.userIdBin =
      if p.userId = [] then bins.value MappingRecord.userIdBin else cString p.userId := by
  have hbin : cString MappingRecord.userIdBin = MappingRecord.userIdBin := by decide
  have hinner : (setStr p.outerUserKey p.outerUserId
      (setStr MappingRecord.userIdBin p.userId bins)).value MappingRecord.userIdBin =
      (setStr MappingRecord.userIdBin p.userId bins).value MappingRecord.userIdBin := by
    by_cases hid : p.outerUserId = []
    · rw [hid, setStr_nil]
    · exact value_setStr_of_ne (fun heq => h ⟨heq.symm, hid⟩) _ _
  rw [MappingPut.record, value_setStr_of_ne (by decide), hinner]
  split
  · rename_i hempty
    rw [hempty, setStr_nil]
  · rename_i huser
    simpa only [hbin] using value_setStr_same MappingRecord.userIdBin huser bins

theorem put_self (store : MappingStore) (p : MappingPut) :
    store.put p (asKey p.outerUserKey p.outerUserId) =
      some { bins := p.record (((store (asKey p.outerUserKey p.outerUserId)).map
          MappingRecord.bins).getD ∅), ttl := p.ttl } :=
  Function.update_self ..

theorem put_of_ne (store : MappingStore) {p : MappingPut} {key : Bytes × Bytes}
    (h : key ≠ asKey p.outerUserKey p.outerUserId) : store.put p key = store key :=
  Function.update_of_ne h ..

theorem complete_of_some (op : TouchOperation) {store : MappingStore} {r : MappingRecord}
    (h : store (asKey op.data.key op.data.value) = some r) :
    op.complete store (asKey op.data.key op.data.value) = some { r with ttl := op.ttl } := by
  simp [TouchOperation.complete, TouchOperation.operate, h, touchMappingAsyncCallback]

theorem complete_of_none (op : TouchOperation) {store : MappingStore}
    (h : store (asKey op.data.key op.data.value) = none) :
    op.complete store = store.put (updateMappingDeviceAsync op.data.userId op.data.key
      op.data.value op.data.originId mappingTtl) := by
  simp [TouchOperation.complete, TouchOperation.operate, h, touchMappingAsyncCallback]

def LivesFor (ttl : Int) (store : MappingStore) (key : Bytes × Bytes) : Prop :=
  ∃ r, store key = some r ∧ r.userId ≠ [] ∧ r.ttl = ttl

/-- The text that a put leaves in the `user_id` bin of a new record. The set of that
name has its own ids there. -/
def writtenUser (k value userId : Bytes) : Bytes :=
  if cString k = MappingRecord.userIdBin ∧ value ≠ [] then cString value else cString userId

theorem value_record_empty (p : MappingPut) :
    (p.record ∅).value MappingRecord.userIdBin =
      writtenUser p.outerUserKey p.outerUserId p.userId := by
  rw [writtenUser]
  split
  · rename_i h
    exact value_record_of_key h ∅
  · rename_i h
    rw [value_record_of_not_key h]
    split
    · rename_i hempty
      rw [hempty]
      rfl
    · rfl

/-- A touch gives the record the time-to-live that was asked for if and only if it is
there and has a user, or it is missing and the default of 30 days was asked for. -/
theorem touchMapping_livesFor_iff (store : MappingStore) (k value userId originId : Bytes)
    (ttl : Int) :
    LivesFor ttl ((touchMapping k value userId originId ttl).complete store) (asKey k value) ↔
      (∃ r, store (asKey k value) = some r ∧ r.userId ≠ []) ∨
        store (asKey k value) = none ∧ writtenUser k value userId ≠ [] ∧ ttl = mappingTtl := by
  cases hstore : store (asKey k value) with
  | some r =>
      have hdone := complete_of_some (touchMapping k value userId originId ttl) hstore
      refine ⟨?_, ?_⟩
      · rintro ⟨r', hr', huser, -⟩
        cases hdone.symm.trans hr'
        exact .inl ⟨r, rfl, huser⟩
      · rintro (⟨r', hr', huser⟩ | ⟨hnone, -⟩)
        · cases hr'
          exact ⟨_, hdone, huser, rfl⟩
        · cases hnone
  | none =>
      have hdone := congrFun
        (complete_of_none (touchMapping k value userId originId ttl) hstore) (asKey k value)
      have hput := put_self store (updateMappingDeviceAsync userId k value originId mappingTtl)
      have hrecord := value_record_empty
        (updateMappingDeviceAsync userId k value originId mappingTtl)
      simp only [updateMappingDeviceAsync, hstore, Option.map_none, Option.getD_none]
        at hput hrecord
      simp only [touchMapping, updateMappingDeviceAsync, hput] at hdone
      refine ⟨?_, ?_⟩
      · rintro ⟨r, hr, huser, httl⟩
        cases hdone.symm.trans hr
        exact .inr ⟨rfl, hrecord ▸ huser, httl.symm⟩
      · rintro (⟨r, hr, -⟩ | ⟨-, huser, httl⟩)
        · cases hr
        · exact ⟨_, hdone, hrecord.trans_ne huser, httl.symm⟩

/-- A device id that has no record yet is touched for 900 days and written for 30. -/
theorem touchMapping_fallback_short :
    let touch := touchMapping MtUserMapping.imeiKey (bytes "imei") (bytes "user") (bytes "imei")
      (86400 * 900)
    ¬ LivesFor touch.ttl (touch.complete MappingStore.empty)
      (asKey MtUserMapping.imeiKey (bytes "imei")) := by
  intro touch hlives
  obtain ⟨r, hr, -, httl⟩ := hlives
  rw [complete_of_none touch rfl] at hr
  cases (put_self MappingStore.empty _).symm.trans hr
  exact absurd httl (by decide)

end AdServer.Mapping
