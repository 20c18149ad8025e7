import AdServer.Url.Basic

/-!
The parameter binding table. The texts of the `URL_*` constants come from
`mtty/constants.h`, which is not part of this repository: they are a parameter
`keys` of the table, and the results say which facts about them they need.
-/
namespace AdServer.Url

inductive ParamType
  | int
  | string
  deriving DecidableEq, Repr

inductive UrlConst
  | referer | adplaceId | mttyadplaceId | exposeId | adownerId | adplanId | execId
  | creativeId | adxId | clickId | areaId | clickX | clickY | adxMacro | bidPrice
  | exchangePrice | mttyUid | priceType | productpackageId | orderId | impOf | dealId
  | deviceIdfa | deviceImei | deviceAndoroidid | deviceMac | landingUrl | timem | siteId
  | flowtype | ip | adxBidid | adxImpid | channel | feeRate | feeRateStrs | adplaceBuyType
  deriving DecidableEq, Repr

abbrev ParamBindingItem := Bytes × ParamType

def paramBindingRows : List (UrlConst × ParamType) :=
  [(.referer, .string), (.adplaceId, .string), (.mttyadplaceId, .string), (.exposeId, .string),
    (.adownerId, .int), (.adplanId, .int), (.execId, .int), (.creativeId, .int), (.adxId, .int),
    (.clickId, .string), (.areaId, .string), (.clickX, .int), (.clickY, .int),
    (.adxMacro, .string), (.bidPrice, .int), (.exchangePrice, .string), (.mttyUid, .string),
    (.priceType, .int), (.productpackageId, .int), (.orderId, .int), (.impOf, .int),
    (.dealId, .int), (.deviceIdfa, .string), (.deviceImei, .string),
    (.deviceAndoroidid, .string), (.deviceMac, .string), (.landingUrl, .string), (.timem, .int),
    (.siteId, .int), (.flowtype, .int), (.ip, .string), (.adxBidid, .string),
    (.adxImpid, .string), (.channel, .int), (.feeRate, .string), (.feeRateStrs, .string),
    (.adplaceBuyType, .int)]

variable (keys : UrlConst → Bytes)

def paramBindingTable : List ParamBindingItem :=
  paramBindingRows.map fun row => (keys row.1, row.2)

theorem paramBindingRows_nodup : (paramBindingRows.map Prod.fst).Nodup := by decide

theorem paramBindingTable_nodup (distinct : Function.Injective keys) :
    ((paramBindingTable keys).map Prod.fst).Nodup := by
  have hkeys : (paramBindingTable keys).map Prod.fst = (paramBindingRows.map Prod.fst).map keys := by
    simp [paramBindingTable]
  rw [hkeys]
  exact paramBindingRows_nodup.map distinct

theorem mem_paramBindingTable_key {item : ParamBindingItem} (h : item ∈ paramBindingTable keys) :
    ∃ k, item.1 = keys k := by
  obtain ⟨row, -, rfl⟩ := List.mem_map.mp h
  exact ⟨row.1, rfl⟩

/-- The map after `add(keys k, text)` for each entry, in order. -/
def paramsOf (entries : List (UrlConst × Bytes)) : ParamMap :=
  entries.foldl (fun m entry => Finmap.insert (keys entry.1) entry.2 m) ∅

/-- The last text added under a name. -/
def lastAdded (k : UrlConst) (entries : List (UrlConst × Bytes)) : Option Bytes :=
  entries.foldl (fun found entry => if entry.1 = k then some entry.2 else found) none

theorem lookup_paramsOf (distinct : Function.Injective keys) (k : UrlConst)
    (entries : List (UrlConst × Bytes)) :
    (paramsOf keys entries).lookup (keys k) = lastAdded k entries := by
  induction entries using List.reverseRecOn with
  | nil => exact Finmap.lookup_empty _
  | append_singleton entries entry ih =>
      rw [paramsOf, lastAdded, List.foldl_append, List.foldl_append, ← paramsOf, ← lastAdded]
      simp only [List.foldl_cons, List.foldl_nil]
      split
      · rename_i heq
        rw [heq, Finmap.lookup_insert]
      · rename_i hne
        rw [Finmap.lookup_insert_of_ne _ fun h => hne (distinct h).symm, ih]

/-- Texts that could stand for the constants: one character each, all different. -/
def sampleKeys (k : UrlConst) : Bytes :=
  [UInt8.ofNat (65 + paramBindingRows.findIdx fun row => row.1 = k)]

theorem mem_paramBindingRows (k : UrlConst) : k ∈ paramBindingRows.map Prod.fst := by
  cases k <;> decide

theorem sampleKeys_injective : Function.Injective sampleKeys := by
  have hrows : ∀ k ∈ paramBindingRows.map Prod.fst, ∀ k' ∈ paramBindingRows.map Prod.fst,
      sampleKeys k = sampleKeys k' → k = k' := by
    decide
  intro k k'
  exact hrows k (mem_paramBindingRows k) k' (mem_paramBindingRows k')

end AdServer.Url
