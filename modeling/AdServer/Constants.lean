import AdServer.Basic

/-!
Exchange ids and price types. Their numbers come from `mtty/constants.h`, which
is not part of this repository: they are parameters `ids` and `types`, and the
results say which facts about them they need.
-/
namespace AdServer

inductive AdxConst
  | tanx | tanxMobile | youku | youkuMobile | baidu | baiduMobile | guangyin | guangyinMobile
  | tencentGdt | gdtMobile | neteaseMobile | yidian | sohuPc | sohuMobile | inmobi | liebaoMobile
  | nexPc | nexMobile | kupaiMobile | max360Pc | max360Mobile | adx2345Pc | adx2345Mobile
  | sspPc | sspMobile
  deriving DecidableEq, Repr

inductive PriceTypeConst
  | rrtbCpm | rrtbCpc | rcpc
  deriving DecidableEq, Repr

def AdxConst.all : List AdxConst :=
  [.tanx, .tanxMobile, .youku, .youkuMobile, .baidu, .baiduMobile, .guangyin, .guangyinMobile,
    .tencentGdt, .gdtMobile, .neteaseMobile, .yidian, .sohuPc, .sohuMobile, .inmobi,
    .liebaoMobile, .nexPc, .nexMobile, .kupaiMobile, .max360Pc, .max360Mobile, .adx2345Pc,
    .adx2345Mobile, .sspPc, .sspMobile]

theorem AdxConst.mem_all (c : AdxConst) : c ∈ AdxConst.all := by cases c <;> decide

/-- The label of `switch (adx)` that is taken; `none` is `default`. -/
def AdxConst.label (ids : AdxConst → Int) (adx : Int) : Option AdxConst :=
  AdxConst.all.find? fun c => ids c = adx

theorem AdxConst.label_of (ids : AdxConst → Int) (distinct : Function.Injective ids)
    (c : AdxConst) : AdxConst.label ids (ids c) = some c := by
  have hsome : (AdxConst.label ids (ids c)).isSome :=
    List.find?_isSome.mpr ⟨c, c.mem_all, by simp⟩
  obtain ⟨c', hc'⟩ := Option.isSome_iff_exists.mp hsome
  have hid := List.find?_some hc'
  rw [hc', distinct (of_decide_eq_true hid)]

/-- Numbers that could stand for the exchange ids. -/
def sampleIds (c : AdxConst) : Int := AdxConst.all.idxOf c + 1

theorem sampleIds_injective : Function.Injective sampleIds := by
  intro c c' h
  refine (List.idxOf_inj c.mem_all).mp ?_
  simpa only [sampleIds, add_left_inj, Nat.cast_inj] using h

/-- Numbers that could stand for the price types. -/
def sampleTypes : PriceTypeConst → Int
  | .rrtbCpm => 1
  | .rrtbCpc => 2
  | .rcpc => 3

theorem sampleTypes_injective : Function.Injective sampleTypes := by
  intro t t'
  cases t <;> cases t' <;> decide

theorem sampleTypes_pos (t : PriceTypeConst) : 0 < sampleTypes t := by cases t <;> decide

end AdServer
