import AdServer.Billing.LogItem
import AdServer.Url.Replace

/-!
What a click leaves behind for the trace requests that follow it. `recordSource`
takes an id from a counter in the store, writes a source record under the id and
points an index entry for the user and the advertiser to it. The id gets into the
parameters before the two writes, and from there into the landing URL of the
redirect, whether the writes succeed or not.
-/
namespace AdServer.Trace

open Url Billing

/-! ### The store -/

/-- `std::setw(12) << std::setfill('0') << std::setbase(16) << val`. -/
def sourceIdText (val : Nat) : Bytes := (Numeral.text 16 hexDigit val).leftpad 12 (byte '0')

structure SourceRecord where
  latestTime : Int
  texts : List (Bytes × Bytes)
  deriving DecidableEq, Repr

/-- The id counter, if it was ever used, the two sets of the trace namespace and the
clicks of each order. -/
structure TraceState where
  counter : Option Nat
  sources : Bytes → Option SourceRecord
  index : Bytes → Option Bytes
  orders : Int → Nat

namespace TraceState

def putSource (s : TraceState) (key : Bytes) (r : SourceRecord) : TraceState :=
  { s with sources := Function.update s.sources (cString key) (some r) }

def putIndex (s : TraceState) (key id : Bytes) : TraceState :=
  { s with index := Function.update s.index (cString key) (some (cString id)) }

/-- Nothing in the store mentions an id that the counter has not passed. -/
def Fresh (s : TraceState) : Prop :=
  ∀ n, s.counter.getD 0 ≤ n →
    s.sources (sourceIdText n) = none ∧ ∀ key, s.index key ≠ some (sourceIdText n)

end TraceState

structure TraceStore extends TraceState where
  fresh : toTraceState.Fresh

/-- Which writes of a click fail. A write that fails changes nothing. -/
structure WriteFailures where
  generate : Bool := false
  source : Bool := false
  index : Bool := false
  order : Bool := false

/-- The text of the id, empty where none is made. The counter is read before it is
increased, so its first use finds no value. -/
def generateSourceId (fails : Bool) (s : TraceState) : TraceState × Bytes :=
  if fails then (s, [])
  else
    match s.counter with
    | none => ({ s with counter := some 1 }, [])
    | some val => ({ s with counter := some (val + 1) }, sourceIdText val)

section
variable {Rate : Type} (keys : UrlConst → Bytes)

/-- The bins of a `SourceRecord` behind `latest_time`. `as_record_new(16)` has no room for
the last of them. -/
def sourceTexts (m : ParamMap) (log : LogItem Rate) : List (Bytes × Bytes) :=
  let param (k : UrlConst) : Bytes := cString (m.value (keys k))
  [(bytes "adv_id", param .adownerId), (bytes "sid", param .execId),
    (bytes "adx_id", param .adxId), (bytes "mt_uid", cString log.userId),
    (bytes "pid", param .mttyadplaceId), (bytes "adxpid", param .adplaceId),
    (bytes "request_id", param .exposeId), (bytes "create_id", param .creativeId),
    (bytes "geo_id", param .areaId), (bytes "referer_url", param .referer),
    (bytes "bid_price", param .bidPrice), (bytes "ppid", param .productpackageId),
    (bytes "oid", param .orderId), (bytes "pricetype", param .priceType),
    (bytes "mid", param .siteId), (bytes "impid", param .exposeId)].take 15

def sourceRecord (m : ParamMap) (log : LogItem Rate) : SourceRecord :=
  { latestTime := log.timeStamp, texts := sourceTexts keys m log }

def recordSource (failures : WriteFailures) (m : ParamMap) (log : LogItem Rate) (s : TraceState) :
    TraceState × ParamMap :=
  let userId := log.userId
  let ownerId := m.value (keys .adownerId)
  if userId = [] ∨ ownerId = [] then (s, m)
  else
    let (s, sourceId) := generateSourceId failures.generate s
    if sourceId = [] then (s, m)
    else
      let m := Finmap.insert (bytes "source_id") sourceId m
      if failures.source then (s, m)
      else
        let s := s.putSource sourceId (sourceRecord keys m log)
        if failures.index then (s, m) else (s.putIndex (userId ++ ownerId) sourceId, m)

/-! ### The landing URL -/

/-- The loop over the landing URL. A name is collected between braces, and a brace that
is not closed swallows the rest. -/
def expand (m : ParamMap) : Option Bytes → Bytes → Bytes
  | _, [] => []
  | none, c :: rest =>
    if c = byte '\x7b' then expand m (some []) rest else c :: expand m none rest
  | some name, c :: rest =>
    if c = byte '\x7d' then cString (m.value name) ++ expand m none rest
    else expand m (some (name ++ [c])) rest

def replace (str pattern replacement : Bytes) : Bytes :=
  match findFrom str pattern 0 with
  | none => str
  | some i => str.take i ++ replacement ++ str.drop (i + pattern.length)

def landingNames : List (Bytes × UrlConst) :=
  [(bytes "advid", .adownerId), (bytes "pid", .mttyadplaceId), (bytes "adxpid", .adplaceId),
    (bytes "bid", .creativeId), (bytes "sid", .execId), (bytes "idfa", .deviceIdfa),
    (bytes "imei", .deviceImei), (bytes "mac", .deviceMac), (bytes "androidid", .deviceAndoroidid),
    (bytes "xid", .adxId)]

def copyParam (m : ParamMap) (entry : Bytes × UrlConst) : ParamMap :=
  Finmap.insert entry.1 (m.value (keys entry.2)) m

def landingParams (userIp : Bytes) (m : ParamMap) : ParamMap :=
  copyParam keys (Finmap.insert (bytes "ip") userIp (landingNames.foldl (copyParam keys) m))
    (bytes "geoid", .areaId)

def landingReplacements : List (Bytes × Bytes) :=
  [(bytes "%7badvid%7d", bytes "advid"), (bytes "%7Badvid%7D", bytes "advid"),
    (bytes "%7bidfa%7d", bytes "idfa"), (bytes "%7Bidfa%7D", bytes "idfa"),
    (bytes "%7bsource_id%7d", bytes "source_id"), (bytes "%7Bsource_id%7D", bytes "source_id")]

/-- `handleLandingUrl` after its assignments; `none` is a write behind `buffer[1024]` or
`result[1024]`. -/
def expandLanding (m : ParamMap) (landingUrl : Bytes) : Option Bytes :=
  let result := expand m none (cString landingUrl)
  if landingUrl.length < 1024 ∧ result.length < 1024 then
    some (landingReplacements.foldl (fun url entry => replace url entry.1 (m.value entry.2)) result)
  else none

def countOrder (fails : Bool) (orderId : Bytes) (s : TraceState) : TraceState :=
  match stol orderId with
  | some id =>
    if fails then s else { s with orders := Function.update s.orders id (s.orders id + 1) }
  | none => s

structure ClickOutcome where
  state : TraceState
  response : HttpResponse

def customLogic (failures : WriteFailures) (userIp : Bytes) (m : ParamMap) (log : LogItem Rate)
    (s : TraceState) : Option ClickOutcome :=
  if log.adInfo.landingUrl = [] then
    some { state := s, response := { status := 400, message := bytes "Error,empty landing url" } }
  else
    let (recorded, m) := recordSource keys failures m log s
    let m := landingParams keys userIp m
    (expandLanding m log.adInfo.landingUrl).map fun location =>
      { state := countOrder failures.order (m.value (keys .orderId)) recorded
        response :=
          { status := 302
            message := bytes "OK"
            headers := [(bytes "Location", location)]
            body := bytes "m" } }

end

/-! ### Source ids -/

theorem sourceIdText_injective : Function.Injective sourceIdText := by
  have hread : ∀ n, Numeral.read 16 hexValue (sourceIdText n) = n := by
    intro n
    rw [sourceIdText, List.leftpad, Numeral.read_replicate_append 16 hexValue (by decide)]
    exact Numeral.read_text 16 hexDigit (by omega) hexValue hexValue_hexDigit n
  intro n n' h
  rw [← hread n, h, hread n']

theorem mem_sourceIdText {n : Nat} {c : UInt8} (h : c ∈ sourceIdText n) :
    c ≠ 0 ∧ c ≠ byte '%' := by
  have htable : ∀ d : Fin 16, hexDigit d ≠ 0 ∧ hexDigit d ≠ byte '%' := by decide
  rw [sourceIdText, List.leftpad, List.mem_append] at h
  rcases h with h | h
  · rw [List.eq_of_mem_replicate h]
    decide
  · obtain ⟨d, hd, rfl⟩ := Numeral.mem_text 16 hexDigit (by omega) h
    exact htable ⟨d, hd⟩

theorem sourceIdText_ne_nil (n : Nat) : sourceIdText n ≠ [] := by
  rw [sourceIdText, List.leftpad]
  exact List.append_ne_nil_of_right_ne_nil _ (Numeral.text_ne_nil 16 hexDigit n)

@[simp]
theorem cString_sourceIdText (n : Nat) : cString (sourceIdText n) = sourceIdText n :=
  cString_of_notMem fun h => (mem_sourceIdText h).1 rfl

theorem length_sourceIdText_le {n : Nat} (h : n < 2 ^ 63) : (sourceIdText n).length ≤ 16 := by
  have hlen := Numeral.length_text_le 16 hexDigit (by omega) (k := 16) (by omega)
    (h.trans (by norm_num))
  rw [sourceIdText, List.leftpad, List.length_append, List.length_replicate]
  omega

/-! ### What a click records -/

section
variable {Rate : Type} (keys : UrlConst → Bytes) (failures : WriteFailures) (m : ParamMap)
  (log : LogItem Rate) (s : TraceState)

/-- The number whose text is the source id of a click, if it gets one. -/
def issued : Option Nat :=
  if log.userId = [] ∨ m.value (keys .adownerId) = [] ∨ failures.generate = true then none
  else s.counter

def indexKey (userId ownerId : Bytes) : Bytes := cString (userId ++ ownerId)

def withSourceId (val : Nat) : ParamMap := Finmap.insert (bytes "source_id") (sourceIdText val) m

def recorded (val : Nat) : TraceState :=
  { s with
    counter := some (val + 1)
    sources :=
      if failures.source then s.sources
      else
        Function.update s.sources (sourceIdText val)
          (some (sourceRecord keys (withSourceId m val) log))
    index :=
      if failures.source ∨ failures.index then s.index
      else
        Function.update s.index (indexKey log.userId (m.value (keys .adownerId)))
          (some (sourceIdText val)) }

variable {keys failures m log s}

theorem counter_of_issued {val : Nat} (h : issued keys failures m log s = some val) :
    s.counter = some val := by
  unfold issued at h
  split at h
  · cases h
  · exact h

theorem recordSource_of_issued {val : Nat} (h : issued keys failures m log s = some val) :
    recordSource keys failures m log s =
      (recorded keys failures m log s val, withSourceId m val) := by
  unfold issued at h
  split at h
  · cases h
  · rename_i hrecords
    simp only [not_or, Bool.not_eq_true] at hrecords
    obtain ⟨huser, howner, hgenerate⟩ := hrecords
    unfold recordSource recorded withSourceId
    simp only [huser, howner, or_self, if_false, generateSourceId, hgenerate, Bool.false_eq_true, h,
      sourceIdText_ne_nil, TraceState.putSource, TraceState.putIndex, cString_sourceIdText]
    cases failures.source <;> cases failures.index <;> rfl

theorem recordSource_of_not_issued (h : issued keys failures m log s = none) :
    ∃ counter : Option Nat, s.counter.getD 0 ≤ counter.getD 0 ∧
      recordSource keys failures m log s = ({ s with counter := counter }, m) := by
  unfold issued at h
  unfold recordSource
  split at h
  · rename_i hskips
    by_cases hids : log.userId = [] ∨ m.value (keys .adownerId) = []
    · exact ⟨s.counter, le_refl _, by simp only [hids, if_true]⟩
    · have hgenerate : failures.generate = true := by
        rw [not_or] at hids
        exact (hskips.resolve_left hids.1).resolve_left hids.2
      refine ⟨s.counter, le_refl _, ?_⟩
      simp only [hids, if_false, generateSourceId, hgenerate, if_true]
  · rename_i hrecords
    simp only [not_or, Bool.not_eq_true] at hrecords
    refine ⟨some 1, by simp [h], ?_⟩
    simp only [hrecords.1, hrecords.2.1, or_self, if_false, generateSourceId, hrecords.2.2,
      Bool.false_eq_true, h, if_true]

theorem recorded_fresh {val : Nat} (hfresh : s.Fresh) (h : s.counter = some val) :
    (recorded keys failures m log s val).Fresh := by
  intro n hn
  have hlt : val < n := hn
  obtain ⟨hsource, hindex⟩ := hfresh n (by rw [h]; exact hlt.le)
  have hne : sourceIdText n ≠ sourceIdText val := fun heq =>
    absurd (sourceIdText_injective heq) hlt.ne'
  refine ⟨?_, ?_⟩
  · simp only [recorded]
    split
    · exact hsource
    · rw [Function.update_of_ne hne, hsource]
  · intro key
    simp only [recorded]
    split
    · exact hindex key
    · rw [Function.update_apply]
      split
      · exact fun heq => hne (Option.some.inj heq).symm
      · exact hindex key

theorem recordSource_fresh (hfresh : s.Fresh) : (recordSource keys failures m log s).1.Fresh := by
  cases hissued : issued keys failures m log s with
  | none =>
      obtain ⟨counter, hle, hrecord⟩ := recordSource_of_not_issued hissued
      rw [hrecord]
      exact fun n hn => hfresh n (hle.trans hn)
  | some val =>
      rw [recordSource_of_issued hissued]
      exact recorded_fresh hfresh (counter_of_issued hissued)

end

/-! ### The redirect -/

theorem value_insert_of_ne {m : ParamMap} {key name : Bytes} (h : name ≠ key) (value : Bytes) :
    ParamMap.value (Finmap.insert key value m) name = m.value name := by
  rw [ParamMap.value, Finmap.lookup_insert_of_ne _ h, ParamMap.value]

theorem value_foldl_copyParam (keys : UrlConst → Bytes) {name : Bytes}
    {entries : List (Bytes × UrlConst)} (h : ∀ entry ∈ entries, name ≠ entry.1) (m : ParamMap) :
    (entries.foldl (copyParam keys) m).value name = m.value name := by
  induction entries generalizing m with
  | nil => rfl
  | cons entry entries ih =>
      rw [List.foldl_cons, ih fun x hx => h x (List.mem_cons_of_mem entry hx)]
      exact value_insert_of_ne (h entry List.mem_cons_self) _

theorem value_landingParams_of_ne (keys : UrlConst → Bytes) (userIp : Bytes) (m : ParamMap)
    {name : Bytes} (hnames : ∀ entry ∈ landingNames, name ≠ entry.1) (hip : name ≠ bytes "ip")
    (hgeoid : name ≠ bytes "geoid") : (landingParams keys userIp m).value name = m.value name := by
  rw [landingParams, copyParam, value_insert_of_ne hgeoid, value_insert_of_ne hip,
    value_foldl_copyParam keys hnames]

theorem value_landingParams (keys : UrlConst → Bytes) (userIp : Bytes) (m : ParamMap) :
    (landingParams keys userIp m).value (bytes "source_id") = m.value (bytes "source_id") :=
  value_landingParams_of_ne keys userIp m (by decide) (by decide) (by decide)

theorem replace_eq_urlReplace (str pattern replacement : Bytes) :
    replace str pattern replacement = urlReplace str pattern replacement := rfl

theorem foldl_replace_of_absent (m : ParamMap) {url : Bytes} (entries : List (Bytes × Bytes))
    (h : ∀ entry ∈ entries, ¬entry.1 <:+: url) :
    entries.foldl (fun url entry => replace url entry.1 (m.value entry.2)) url = url := by
  induction entries with
  | nil => rfl
  | cons entry entries ih =>
      obtain ⟨hentry, hentries⟩ := List.forall_mem_cons.mp h
      rw [List.foldl_cons, replace_eq_urlReplace, urlReplace_of_absent hentry, ih hentries]

def bareLanding : Bytes := bytes "\x7bsource_id\x7d"

theorem expand_bareLanding (m : ParamMap) :
    expand m none (cString bareLanding) = cString (m.value (bytes "source_id")) := by
  have hname : expand m none (cString bareLanding) =
      cString (m.value (bytes "source_id")) ++ [] := rfl
  rw [hname, List.append_nil]

theorem expandLanding_bareLanding {m : ParamMap} {val : Nat} (hval : val < 2 ^ 63)
    (h : m.value (bytes "source_id") = sourceIdText val) :
    expandLanding m bareLanding = some (sourceIdText val) := by
  have hlen := length_sourceIdText_le hval
  have hshort : bareLanding.length < 1024 := by decide
  have hreplacements : ∀ entry ∈ landingReplacements, byte '%' ∈ entry.1 := by decide
  have habsent : ∀ entry ∈ landingReplacements, ¬entry.1 <:+: sourceIdText val :=
    fun entry hentry hoccurs =>
      (mem_sourceIdText (hoccurs.subset (hreplacements entry hentry))).2 rfl
  rw [expandLanding, expand_bareLanding, h, cString_sourceIdText]
  simp only [hshort, true_and]
  rw [if_pos (by omega), foldl_replace_of_absent m _ habsent]

section
variable {Rate : Type} {keys : UrlConst → Bytes} {failures : WriteFailures} {userIp : Bytes}
  {m : ParamMap} {log : LogItem Rate} {s : TraceState} {val : Nat}

theorem customLogic_of_issued (hlanding : log.adInfo.landingUrl ≠ [])
    (h : issued keys failures m log s = some val) :
    customLogic keys failures userIp m log s =
      (expandLanding (landingParams keys userIp (withSourceId m val)) log.adInfo.landingUrl).map
        fun location =>
          { state := countOrder failures.order
              ((landingParams keys userIp (withSourceId m val)).value (keys .orderId))
              (recorded keys failures m log s val)
            response :=
              { status := 302
                message := bytes "OK"
                headers := [(bytes "Location", location)]
                body := bytes "m" } } := by
  rw [customLogic, if_neg hlanding, recordSource_of_issued h]

/-- The store has the record of the click under its source id, and the index entry of its
user and advertiser points there. -/
def Holds (keys : UrlConst → Bytes) (m : ParamMap) (log : LogItem Rate) (val : Nat)
    (s : TraceState) : Prop :=
  s.sources (sourceIdText val) = some (sourceRecord keys (withSourceId m val) log) ∧
    s.index (indexKey log.userId (m.value (keys .adownerId))) = some (sourceIdText val)

/-- If the `Location` of the answer has the source id of the click in it, the store holds
what the id stands for. -/
def Resolves (keys : UrlConst → Bytes) (failures : WriteFailures) (userIp : Bytes) (m : ParamMap)
    (log : LogItem Rate) (s : TraceState) : Prop :=
  ∀ after location val, customLogic keys failures userIp m log s = some after →
    (bytes "Location", location) ∈ after.response.headers →
    issued keys failures m log s = some val → sourceIdText val <:+: location →
    Holds keys m log val after.state

theorem holds_countOrder_iff (fails : Bool) (orderId : Bytes) :
    Holds keys m log val (countOrder fails orderId s) ↔ Holds keys m log val s := by
  unfold countOrder
  split
  · split <;> rfl
  · rfl

theorem recorded_holds (hsource : failures.source = false) (hindex : failures.index = false) :
    Holds keys m log val (recorded keys failures m log s val) := by
  simp [Holds, recorded, hsource, hindex]

theorem recorded_not_holds (hfresh : s.Fresh) (h : s.counter = some val)
    (hfails : ¬ (failures.source = false ∧ failures.index = false)) :
    ¬ Holds keys m log val (recorded keys failures m log s val) := by
  obtain ⟨hsource, hindex⟩ := hfresh val (by rw [h]; exact le_refl _)
  rintro ⟨hheld, hpoints⟩
  simp only [recorded] at hheld hpoints
  split at hheld
  · rw [hsource] at hheld
    cases hheld
  · rename_i hwrites
    rw [if_pos (by simpa [hwrites] using hfails)] at hpoints
    exact hindex _ hpoints

end

def withLanding {Rate : Type} (log : LogItem Rate) (landing : Bytes) : LogItem Rate :=
  { log with adInfo.landingUrl := landing }

theorem not_resolves_bareLanding {Rate : Type} {keys : UrlConst → Bytes} {failures : WriteFailures}
    {m : ParamMap} {log : LogItem Rate} {s : TraceState} {val : Nat} (hfresh : s.Fresh)
    (hissued : issued keys failures m log s = some val) (hval : val < 2 ^ 63)
    (hfails : ¬ (failures.source = false ∧ failures.index = false)) (userIp : Bytes) :
    ¬ Resolves keys failures userIp m (withLanding log bareLanding) s := by
  intro hresolves
  have hlocation : expandLanding (landingParams keys userIp (withSourceId m val)) bareLanding =
      some (sourceIdText val) := by
    refine expandLanding_bareLanding hval ?_
    rw [value_landingParams, ParamMap.value, withSourceId, Finmap.lookup_insert, Option.getD_some]
  have hclick : customLogic keys failures userIp m (withLanding log bareLanding) s = _ :=
    customLogic_of_issued (show bareLanding ≠ [] by decide) hissued
  rw [withLanding, hlocation, Option.map_some] at hclick
  have hholds := hresolves _ _ val hclick List.mem_cons_self hissued List.infix_rfl
  rw [holds_countOrder_iff] at hholds
  exact recorded_not_holds hfresh (counter_of_issued hissued) hfails hholds

/-- For a click of given user, parameters and write failures, the source id in every
redirect resolves if and only if the click gets no id or both writes succeed. -/
theorem redirects_resolve_iff {Rate : Type} (keys : UrlConst → Bytes) (failures : WriteFailures)
    (userIp : Bytes) (m : ParamMap) (log : LogItem Rate) (store : TraceStore)
    (hcounter : ∀ n, store.counter = some n → n < 2 ^ 63) :
    (∀ landing, bareLanding <:+: landing →
      Resolves keys failures userIp m (withLanding log landing) store.toTraceState) ↔
      issued keys failures m log store.toTraceState = none ∨
        failures.source = false ∧ failures.index = false := by
  refine ⟨?_, ?_⟩
  · intro hresolves
    by_contra hbroken
    rw [not_or] at hbroken
    obtain ⟨hissued, hfails⟩ := hbroken
    obtain ⟨val, hval⟩ := Option.ne_none_iff_exists'.mp hissued
    exact not_resolves_bareLanding store.fresh hval (hcounter val (counter_of_issued hval)) hfails
      userIp (hresolves bareLanding List.infix_rfl)
  · rintro (hnone | ⟨hsource, hindex⟩) landing -
    · intro after location val _ _ hissued
      exact absurd (hnone.symm.trans hissued) (by simp)
    · intro after location val hclick hheader hissued _
      by_cases hlanding : landing = []
      · rw [customLogic, withLanding, if_pos hlanding] at hclick
        cases hclick
        cases hheader
      · rw [customLogic_of_issued hlanding hissued] at hclick
        obtain ⟨_, -, rfl⟩ := Option.map_eq_some_iff.mp hclick
        rw [holds_countOrder_iff]
        exact recorded_holds hsource hindex

def seededStore (n : Nat) : TraceStore where
  counter := some n
  sources := fun _ => none
  index := fun _ => none
  orders := fun _ => 0
  fresh := fun _ _ => ⟨rfl, fun _ h => by cases h⟩

def clickParams : ParamMap := Finmap.insert (sampleKeys .adownerId) (bytes "7") ∅

def clickLog : LogItem Unit := { userId := bytes "u" }

theorem redirects_resolve_sample :
    Resolves sampleKeys {} [] clickParams (withLanding clickLog bareLanding)
      (seededStore 1).toTraceState :=
  (redirects_resolve_iff sampleKeys {} [] clickParams clickLog (seededStore 1) (by
    intro n h
    cases h
    decide)).mpr (.inr ⟨rfl, rfl⟩) bareLanding List.infix_rfl

/-- The write of the source record fails, and the client gets the id all the same. -/
theorem redirect_dangles :
    ¬ Resolves sampleKeys { source := true } [] clickParams (withLanding clickLog bareLanding)
      (seededStore 1).toTraceState := by
  have hissued : issued sampleKeys { source := true } clickParams clickLog
      (seededStore 1).toTraceState = some 1 := by decide
  exact not_resolves_bareLanding (seededStore 1).fresh hissued (by decide) (by decide) []

end AdServer.Trace
