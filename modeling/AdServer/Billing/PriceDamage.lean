import AdServer.Billing.Deal

/-!
What an exchange price that cannot be read does to the rest of the log record.
`parseObjectToLogItem` has one `try` block for all fields, and two exchanges send
their price as a plain number that `std::stoi` reads: for them a bad price sets the
status to 500 and cuts off the fields that come behind it.
-/
namespace AdServer.Billing

open AdServer.Url

section
variable {Rate : Type}

/-- The record without `cost`, `bidPrice` and `feeRateDetail`. -/
def LogItem.withoutBill (log : LogItem Rate) : LogItem Rate := { log with adInfo.bill := {} }

/-- The exchange sends its price as a plain number. -/
def PlainPrice (ids : AdxConst → Int) (adx : Int) : Prop :=
  AdxConst.label ids adx = some .neteaseMobile ∨ AdxConst.label ids adx = some .yidian

instance (ids : AdxConst → Int) (adx : Int) : Decidable (PlainPrice ids adx) :=
  inferInstanceAs (Decidable (_ ∨ _))

theorem decodeAdxExchangePrice_eq_none_iff (lib : BillingLib Rate) (ids : AdxConst → Int)
    (adx : Int) {price : Bytes} (hne : price ≠ []) :
    decodeAdxExchangePrice lib ids adx price = none ↔ PlainPrice ids adx ∧ stoi price = none := by
  rw [decodeAdxExchangePrice, if_neg hne, PlainPrice]
  cases AdxConst.label ids adx with
  | none => simp
  | some c => cases c <;> simp

variable (env : ServerEnv Rate)

/-- The maps have the same text under every key but that of the exchange price. -/
def AgreeButPrice (m m' : ParamMap) : Prop :=
  ∀ k, k ≠ .exchangePrice → m.lookup (env.keys k) = m'.lookup (env.keys k)

theorem agreeButPrice_insert (distinct : Function.Injective env.keys) (m : ParamMap)
    (price price' : Bytes) :
    AgreeButPrice env (Finmap.insert (env.keys .exchangePrice) price m)
      (Finmap.insert (env.keys .exchangePrice) price' m) := by
  intro k hk
  have hkey : env.keys k ≠ env.keys .exchangePrice := fun h => hk (distinct h)
  rw [Finmap.lookup_insert_of_ne _ hkey, Finmap.lookup_insert_of_ne _ hkey]

section
variable {m m' : ParamMap} {env} (hagree : AgreeButPrice env m m') (log : LogItem Rate)

include hagree

theorem onParam_congr {k : UrlConst} (hk : k ≠ .exchangePrice)
    (set : Bytes → LogItem Rate → LogItem Rate) :
    onParam m (env.keys k) set log = onParam m' (env.keys k) set log := by
  rw [onParam, hagree k hk, onParam]

theorem priceTypeOf_congr : priceTypeOf env m = priceTypeOf env m' := by
  rw [priceTypeOf, hagree .priceType (by decide), priceTypeOf]

theorem parseTarget_congr : parseTarget env m log = parseTarget env m' log := by
  simp (disch := decide) only [parseTarget, onParam_congr hagree, priceTypeOf_congr hagree]

theorem parseDevice_congr : parseDevice env m log = parseDevice env m' log := by
  simp (disch := decide) only [parseDevice, onParam_congr hagree]

end

theorem parseTarget_reqStatus (m : ParamMap) (log : LogItem Rate) :
    (parseTarget env m log).reqStatus = log.reqStatus := by
  simp only [parseTarget, apply_onParam _ _ fun log : LogItem Rate => log.reqStatus, elim_same]

theorem parseDevice_reqStatus (m : ParamMap) (log : LogItem Rate) :
    (parseDevice env m log).reqStatus = log.reqStatus := by
  simp only [parseDevice, addDevice, apply_onParam _ _ fun log : LogItem Rate => log.reqStatus,
    elim_same]

theorem parseDevice_withoutBill (m : ParamMap) (log : LogItem Rate) :
    (parseDevice env m log).withoutBill = parseDevice env m log.withoutBill := by
  have hdevice : ∀ key name log, (onParam m key (addDevice name) log : LogItem Rate).withoutBill =
      onParam m key (addDevice name) log.withoutBill := by
    intro key name log
    unfold onParam
    cases m.lookup key <;> rfl
  simp only [parseDevice, hdevice]
  refine congrArg _ (congrArg _ (congrArg _ (congrArg _ ?_)))
  unfold onParam
  cases m.lookup (env.keys .productpackageId) <;> rfl

/-- What becomes of the record when the exchange price is there. -/
theorem parseObjectToLogItem_price {m : ParamMap} {price : Bytes}
    (hprice : m.lookup (env.keys .exchangePrice) = some price) (log : LogItem Rate) :
    (parseObjectToLogItem env m log).withoutBill =
      if decodeAdxExchangePrice env.billing env.ids (parseTarget env m log).adInfo.adxid price =
          none
      then { (parseTarget env m log).withoutBill with reqStatus := 500 }
      else parseDevice env m (parseTarget env m log).withoutBill := by
  simp only [parseObjectToLogItem, parsePrice, hprice]
  cases decodeAdxExchangePrice env.billing env.ids (parseTarget env m log).adInfo.adxid price with
  | none => rfl
  | some decodePrice =>
      simp only [Option.map_some, reduceCtorEq, if_false, parseDevice_withoutBill]
      rfl

/-- The record's exchange id, if the request names one, else the one it had. -/
def adxidOf (m : ParamMap) (log : LogItem Rate) : Int :=
  (m.lookup (env.keys .adxId)).elim log.adInfo.adxid fun x => wrapInt32 (stringToInt x)

/-- Two prices leave the same record apart from the bill exactly if, for an exchange that
sends plain numbers, `std::stoi` throws at both or at none. -/
theorem onlyBill_iff (env : ServerEnv Rate) (distinct : Function.Injective env.keys)
    (m : ParamMap) (log : LogItem Rate) (hstatus : log.reqStatus ≠ 500) (price price' : Bytes)
    (hprice : price ≠ []) (hprice' : price' ≠ []) :
    (parseObjectToLogItem env (Finmap.insert (env.keys .exchangePrice) price m) log).withoutBill =
        (parseObjectToLogItem env
          (Finmap.insert (env.keys .exchangePrice) price' m) log).withoutBill ↔
      (PlainPrice env.ids (adxidOf env m log) → (stoi price = none ↔ stoi price' = none)) := by
  have hadx : ∀ text, (parseTarget env (Finmap.insert (env.keys .exchangePrice) text m)
      log).adInfo.adxid = adxidOf env m log := by
    intro text
    have hkey : env.keys .adxId ≠ env.keys .exchangePrice := fun h => by cases distinct h
    rw [parseTarget_adxid, Finmap.lookup_insert_of_ne _ hkey, adxidOf]
  have hagree := agreeButPrice_insert env distinct m price price'
  have htarget := parseTarget_congr hagree log
  rw [parseObjectToLogItem_price env (Finmap.lookup_insert m),
    parseObjectToLogItem_price env (Finmap.lookup_insert m), hadx, hadx,
    ← htarget, ← parseDevice_congr hagree,
    if_congr (decodeAdxExchangePrice_eq_none_iff _ _ _ hprice) rfl rfl,
    if_congr (decodeAdxExchangePrice_eq_none_iff _ _ _ hprice') rfl rfl]
  -- the status tells the two ways through the record apart
  have hdiffer : { (parseTarget env (Finmap.insert (env.keys .exchangePrice) price m)
        log).withoutBill with reqStatus := 500 } ≠
      parseDevice env (Finmap.insert (env.keys .exchangePrice) price m)
        (parseTarget env (Finmap.insert (env.keys .exchangePrice) price m) log).withoutBill := by
    intro h
    have hcode := congrArg LogItem.reqStatus h
    rw [parseDevice_reqStatus] at hcode
    exact hstatus ((parseTarget_reqStatus env _ log).symm.trans hcode.symm)
  by_cases hplain : PlainPrice env.ids (adxidOf env m log)
  · by_cases hthrow : stoi price = none <;> by_cases hthrow' : stoi price' = none <;>
      simp [hplain, hthrow, hthrow', hdiffer, hdiffer.symm]
  · simp [hplain]

def priceLog : LogItem Unit := { logType := .SHOW, reqStatus := 200 }

def priceParams : ParamMap := paramsOf sampleKeys
  [(.adxId, intToString (sampleIds .neteaseMobile)), (.productpackageId, bytes "7"),
    (.deviceImei, bytes "IMEI")]

theorem onlyBill_sample :
    (parseObjectToLogItem sampleEnv
        (Finmap.insert (sampleKeys .exchangePrice) (bytes "1500") priceParams)
        priceLog).withoutBill =
      (parseObjectToLogItem sampleEnv
        (Finmap.insert (sampleKeys .exchangePrice) (bytes "9") priceParams) priceLog).withoutBill :=
  (onlyBill_iff sampleEnv sampleKeys_injective priceParams priceLog (by decide) (bytes "1500")
    (bytes "9") (by decide) (by decide)).mpr fun _ => by decide

/-- A price macro that the exchange has not replaced: the request fails, and the product
package and the device id are gone. -/
theorem bad_price_damages :
    let good := parseObjectToLogItem sampleEnv
      (Finmap.insert (sampleKeys .exchangePrice) (bytes "1500") priceParams) priceLog
    let bad := parseObjectToLogItem sampleEnv
      (Finmap.insert (sampleKeys .exchangePrice) (bytes "PRICE") priceParams) priceLog
    good.reqStatus = 200 ∧ bad.reqStatus = 500 ∧ good.adInfo.ppid = 7 ∧ bad.adInfo.ppid = 0 ∧
      good.deviceID = bytes "imei:IMEI," ∧ bad.deviceID = [] := by
  decide

end

end AdServer.Billing
