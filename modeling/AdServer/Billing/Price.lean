import AdServer.Constants

/-!
The prices of a log record: how the exchange's settlement price and the offer
price of the URL are read, and what `calcPrice` makes of them in each phase.

Ciphered exchange prices, double arithmetic and the split of the fees are
functions of `BillingLib`; all `int` arithmetic is written out. In the click
phase both prices are multiplied by 1000, and the bill is the exact product as
long as the product is an `int`.
-/
namespace AdServer.Billing

inductive LogPhaseType
  | BID | SHOW | VIEW | CLICK | TRACK | MAPPING
  deriving DecidableEq, Repr

/-- The decoders of the exchanges, `double` as `Rate`, and `MT::common::costdetailVec`. -/
structure BillingLib (Rate : Type) where
  tanx_price_decode : Bytes → Int
  youku_price_decode : Bytes → Int
  baidu_price_decode : Bytes → Int
  guangyin_price_decode : Bytes → Int
  gdt_price_decode : Bytes → Int
  sohu_price_decode : Bytes → Int
  nex_price_decode : Bytes → Int
  kupai_price_decode : Bytes → Int
  max360_price_decode : Bytes → Int
  /-- `int(std::stof(input) * 1.06 * 100)`, zero if `std::stof` throws. -/
  inmobiPrice : Bytes → Int
  one : Rate
  zero : Rate
  ofInt : Int → Rate
  le : Rate → Rate → Bool
  stod : Bytes → Option Rate
  /-- `std::ceil(price * rate)`, converted to `int`. -/
  ceilMul : Int → Rate → Int
  div : Int → Rate → Rate
  costdetailVec : Bytes → Rate → List Rate

section
variable {Rate : Type} (lib : BillingLib Rate) (ids : AdxConst → Int) (types : PriceTypeConst → Int)

/-- The settlement price an exchange reports; `none` is the exception of `std::stoi`. -/
def decodeAdxExchangePrice (adx : Int) (input : Bytes) : Option Int :=
  if input = [] then some 0
  else
    match AdxConst.label ids adx with
    | some .tanx | some .tanxMobile => some (wrapInt32 (lib.tanx_price_decode input))
    | some .youku | some .youkuMobile => some (wrapInt32 (lib.youku_price_decode input))
    | some .baidu | some .baiduMobile => some (wrapInt32 (lib.baidu_price_decode input))
    | some .guangyin | some .guangyinMobile => some (wrapInt32 (lib.guangyin_price_decode input))
    | some .tencentGdt | some .gdtMobile => some (wrapInt32 (lib.gdt_price_decode input))
    | some .neteaseMobile | some .yidian => stoi input
    | some .sohuPc | some .sohuMobile => some (wrapInt32 (lib.sohu_price_decode input))
    | some .inmobi => some (wrapInt32 (lib.inmobiPrice input))
    | some .liebaoMobile => some ((stoi input).getD 0)
    | some .nexPc | some .nexMobile => some (wrapInt32 (lib.nex_price_decode input))
    | some .kupaiMobile => some (wrapInt32 (lib.kupai_price_decode input))
    | some .max360Pc | some .max360Mobile =>
        some (wrapInt32 ((lib.max360_price_decode input).tdiv 10000))
    | some .adx2345Pc | some .adx2345Mobile | some .sspPc | some .sspMobile =>
        some ((stoi input).getD 0)
    | none => some 0

/-- The price fields of `AdInfo` that `calcPrice` writes. -/
structure Bill (Rate : Type) where
  cost : Int := 0
  bidPrice : Int := 0
  feeRateDetail : List Rate := []

def fixPrice (adx : Int) (isDeal : Bool) : Bool :=
  isDeal ∨ adx = ids .neteaseMobile ∨ adx = ids .yidian

/-- The value of the variable `offerPrice` once a fixed price without an offer has
taken the exchange's price. -/
def settledOffer (adx : Int) (isDeal : Bool) (decodePrice offerPrice : Int) : Int :=
  if fixPrice ids adx isDeal ∧ offerPrice = 0 then decodePrice else offerPrice

/-- The media is bought per impression; a buy type of zero counts as that. -/
def BoughtPerShow (adplaceBuyType : Int) : Prop :=
  adplaceBuyType = 0 ∨ adplaceBuyType = types .rrtbCpm

instance (adplaceBuyType : Int) : Decidable (BoughtPerShow types adplaceBuyType) :=
  inferInstanceAs (Decidable (_ ∨ _))

/-- The advertiser pays per click. -/
def SettledPerClick (priceType : Int) : Prop :=
  priceType = types .rrtbCpc ∨ priceType = types .rcpc

instance (priceType : Int) : Decidable (SettledPerClick types priceType) :=
  inferInstanceAs (Decidable (_ ∨ _))

def splitFees (feeRateDetail : Bytes) (base : Rate) (before : List Rate) : List Rate :=
  if feeRateDetail = [] then before else lib.costdetailVec feeRateDetail base

def calcPrice (adx : Int) (isDeal : Bool) (decodePrice offerPrice : Int) (feeRate : Rate)
    (feeRateDetail : Bytes) (bill : Bill Rate) (logPhase : LogPhaseType)
    (priceType adplaceBuyType : Int) : Bill Rate :=
  let offerPrice := settledOffer ids adx isDeal decodePrice offerPrice
  match logPhase with
  | .SHOW =>
      let cost := if BoughtPerShow types adplaceBuyType then decodePrice else 0
      if SettledPerClick types priceType then { bill with cost := cost, bidPrice := 0 }
      else if fixPrice ids adx isDeal then
        ⟨cost, offerPrice, splitFees lib feeRateDetail (lib.ofInt offerPrice) bill.feeRateDetail⟩
      else
        ⟨cost, lib.ceilMul decodePrice feeRate,
          splitFees lib feeRateDetail (lib.ofInt decodePrice) bill.feeRateDetail⟩
  | .CLICK =>
      let cost := wrapInt32 ((if BoughtPerShow types adplaceBuyType then 0 else decodePrice) * 1000)
      if SettledPerClick types priceType then
        let bidPrice := wrapInt32 (offerPrice * 1000)
        ⟨cost, bidPrice,
          splitFees lib feeRateDetail (lib.div bidPrice feeRate) bill.feeRateDetail⟩
      else { bill with cost := cost }
  | _ => bill

/-- `decodeOfferPrice(input)`, with `useAes` at its default. -/
def decodeOfferPrice (input : Bytes) : Int :=
  match stoi input with
  | some output => if output < 0 then wrapInt32 (-output) else output
  | none => 0

theorem decodeOfferPrice_eq {input : Bytes} (h : stoi input ≠ some (-2 ^ 31)) :
    decodeOfferPrice input = ((stoi input).getD 0).natAbs := by
  have hrange := stoi_range input
  unfold decodeOfferPrice
  cases hread : stoi input with
  | none => rfl
  | some output =>
      rw [hread] at h hrange
      have hne : output ≠ -2 ^ 31 := fun heq => h (congrArg some heq)
      simp only [Option.getD_some] at hrange ⊢
      split
      · rw [wrapInt32_eq_self_iff.mpr (by omega)]
        omega
      · omega

theorem decodeOfferPrice_neg {input : Bytes} (h : stoi input = some (-2 ^ 31)) :
    decodeOfferPrice input = -2 ^ 31 := by
  rw [decodeOfferPrice, h]
  decide

theorem decodeOfferPrice_nonneg_iff (input : Bytes) :
    0 ≤ decodeOfferPrice input ↔ stoi input ≠ some (-2 ^ 31) := by
  refine ⟨?_, fun h => decodeOfferPrice_eq h ▸ Int.natCast_nonneg _⟩
  intro hnonneg hmin
  rw [decodeOfferPrice_neg hmin] at hnonneg
  omega

theorem calcPrice_click_cost (adx : Int) (isDeal : Bool) (decodePrice offerPrice : Int)
    (feeRate : Rate) (feeRateDetail : Bytes) (bill : Bill Rate) (priceType adplaceBuyType : Int) :
    (calcPrice lib ids types adx isDeal decodePrice offerPrice feeRate feeRateDetail bill .CLICK
        priceType adplaceBuyType).cost =
      wrapInt32 ((if BoughtPerShow types adplaceBuyType then 0 else decodePrice) * 1000) := by
  simp only [calcPrice]
  split <;> rfl

theorem calcPrice_click_bidPrice (adx : Int) (isDeal : Bool) (decodePrice offerPrice : Int)
    (feeRate : Rate) (feeRateDetail : Bytes) (bill : Bill Rate) (priceType adplaceBuyType : Int) :
    (calcPrice lib ids types adx isDeal decodePrice offerPrice feeRate feeRateDetail bill .CLICK
        priceType adplaceBuyType).bidPrice =
      if SettledPerClick types priceType then
        wrapInt32 (settledOffer ids adx isDeal decodePrice offerPrice * 1000)
      else bill.bidPrice := by
  simp only [calcPrice]
  split <;> rfl

/-- The offer price is not negative, and the bill of a click is made of the exact
products, zero where the click is not billed. -/
def ExactClickBill (adx : Int) (isDeal : Bool) (decodePrice offerPrice : Int)
    (bill : Bill Rate) (priceType adplaceBuyType : Int) : Prop :=
  0 ≤ offerPrice ∧ 0 ≤ bill.cost ∧ 0 ≤ bill.bidPrice ∧
  bill.cost = (if BoughtPerShow types adplaceBuyType then 0 else decodePrice * 1000) ∧
  bill.bidPrice =
    (if SettledPerClick types priceType then
      settledOffer ids adx isDeal decodePrice offerPrice * 1000
    else 0)

/-- The offer is not the one `int` without a negation, and every price the click
bills stays an `int` when multiplied by 1000: the exchange's price if the media is
bought per click, and the offer, or the exchange's price for want of an offer at a
fixed price, if the advertiser pays per click. -/
def ProductsFit (adx : Int) (isDeal : Bool) (text : Bytes) (decodePrice : Int)
    (priceType adplaceBuyType : Int) : Prop :=
  stoi text ≠ some (-2 ^ 31) ∧
  (BoughtPerShow types adplaceBuyType ∨ decodePrice * 1000 < 2 ^ 31) ∧
  (SettledPerClick types priceType →
    if fixPrice ids adx isDeal ∧ (stoi text).getD 0 = 0 then decodePrice * 1000 < 2 ^ 31
    else ((stoi text).getD 0).natAbs * 1000 < 2 ^ 31)

end

theorem wrapInt32_mul_iff {n : Int} (h : 0 ≤ n) :
    wrapInt32 (n * 1000) = n * 1000 ↔ n * 1000 < 2 ^ 31 := by
  rw [wrapInt32_eq_self_iff]
  omega

theorem settledOffer_nonneg (ids : AdxConst → Int) (adx : Int) (isDeal : Bool)
    {decodePrice offerPrice : Int} (hprice : 0 ≤ decodePrice) (hoffer : 0 ≤ offerPrice) :
    0 ≤ settledOffer ids adx isDeal decodePrice offerPrice := by
  unfold settledOffer
  split <;> assumption

/-- On a fresh log record the click phase bills the exact products if and only if
they fit in an `int` and the offer price can be negated. -/
theorem exactClickBill_iff {Rate : Type} (lib : BillingLib Rate) (ids : AdxConst → Int)
    (types : PriceTypeConst → Int) (adx : Int) (isDeal : Bool) (text : Bytes) (decodePrice : Int)
    (feeRate : Rate) (feeRateDetail : Bytes) (priceType adplaceBuyType : Int)
    (hprice : 0 ≤ decodePrice ∧ decodePrice < 2 ^ 31) :
    ExactClickBill ids types adx isDeal decodePrice (decodeOfferPrice text)
        (calcPrice lib ids types adx isDeal decodePrice (decodeOfferPrice text) feeRate
          feeRateDetail {} .CLICK priceType adplaceBuyType)
        priceType adplaceBuyType ↔
      ProductsFit ids types adx isDeal text decodePrice priceType adplaceBuyType := by
  rw [ExactClickBill, ProductsFit, calcPrice_click_cost, calcPrice_click_bidPrice,
    decodeOfferPrice_nonneg_iff]
  refine and_congr_right ?_
  intro hmin
  rw [decodeOfferPrice_eq hmin]
  have hsettled := settledOffer_nonneg ids adx isDeal hprice.1
    (Int.natCast_nonneg ((stoi text).getD 0).natAbs)
  have hcost := wrapInt32_mul_iff hprice.1
  have hbid := wrapInt32_mul_iff hsettled
  have hfit : settledOffer ids adx isDeal decodePrice ((stoi text).getD 0).natAbs * 1000 < 2 ^ 31 ↔
      if fixPrice ids adx isDeal ∧ (stoi text).getD 0 = 0 then decodePrice * 1000 < 2 ^ 31
      else ((stoi text).getD 0).natAbs * 1000 < 2 ^ 31 := by
    simp only [settledOffer, Int.natCast_eq_zero, Int.natAbs_eq_zero]
    split
    · rfl
    · omega
  rw [← hfit]
  have hzero : wrapInt32 (0 * 1000) = 0 := by decide
  by_cases hbuy : BoughtPerShow types adplaceBuyType <;>
    by_cases hclick : SettledPerClick types priceType <;>
    simp only [hbuy, hclick, if_true, if_false, hzero, true_or, false_or, true_and, and_true,
      forall_const, false_implies, le_refl] <;>
    grind

def blankLib : BillingLib Unit where
  tanx_price_decode := fun _ => 0
  youku_price_decode := fun _ => 0
  baidu_price_decode := fun _ => 0
  guangyin_price_decode := fun _ => 0
  gdt_price_decode := fun _ => 0
  sohu_price_decode := fun _ => 0
  nex_price_decode := fun _ => 0
  kupai_price_decode := fun _ => 0
  max360_price_decode := fun _ => 0
  inmobiPrice := fun _ => 0
  one := ()
  zero := ()
  ofInt := fun _ => ()
  le := fun _ _ => true
  stod := fun _ => none
  ceilMul := fun price _ => price
  div := fun _ _ => ()
  costdetailVec := fun _ _ => []

/-- The bill of a click on media bought and sold per click, on the exchange of the
own media. -/
def sampleClick (text : Bytes) (decodePrice : Int) : Bill Unit :=
  calcPrice blankLib sampleIds sampleTypes (sampleIds .sspPc) false decodePrice
    (decodeOfferPrice text) () [] {} .CLICK (sampleTypes .rrtbCpc) (sampleTypes .rrtbCpc)

theorem exactClickBill_sample :
    ExactClickBill sampleIds sampleTypes (sampleIds .sspPc) false 300
      (decodeOfferPrice (bytes "250")) (sampleClick (bytes "250") 300)
      (sampleTypes .rrtbCpc) (sampleTypes .rrtbCpc) :=
  (exactClickBill_iff blankLib sampleIds sampleTypes (sampleIds .sspPc) false (bytes "250") 300 ()
    [] (sampleTypes .rrtbCpc) (sampleTypes .rrtbCpc) (by decide)).mpr
    (by unfold ProductsFit; decide)

/-- An offer of 2147484 is billed as a negative amount. -/
theorem clickBill_wraps :
    (sampleClick (bytes "2147484") 0).bidPrice = -2147483296 ∧
    ¬ ExactClickBill sampleIds sampleTypes (sampleIds .sspPc) false 0
      (decodeOfferPrice (bytes "2147484")) (sampleClick (bytes "2147484") 0)
      (sampleTypes .rrtbCpc) (sampleTypes .rrtbCpc) := by
  have hbid : (sampleClick (bytes "2147484") 0).bidPrice = -2147483296 := by decide
  refine ⟨hbid, ?_⟩
  rintro ⟨-, -, hnonneg, -⟩
  rw [hbid] at hnonneg
  omega

end AdServer.Billing
