import AdServer.Area.Load

/-!
What the order of the lines does to the dictionary. As long as every line comes behind its parent,
the maps hold just the items of the lines so far, and at the end the dictionary has one entry for
each line. A line before its parent leaves an item with an empty name, and nothing takes it out
again.
-/
namespace AdServer.Area

open Billing

inductive AreaKind
  | country | province | city
  deriving DecidableEq

def AreaMaps.get (maps : AreaMaps) : AreaKind → OrderedMap Int AreaItem
  | .country => maps.country
  | .province => maps.province
  | .city => maps.city

/-- Where the parents of a kind are. -/
def AreaKind.parent : AreaKind → AreaKind
  | .country | .province => .country
  | .city => .province

variable {areaCodeMargin : Nat}

namespace AreaLine

variable (line : AreaLine areaCodeMargin)

def kind : AreaKind :=
  if line.province = 0 then .country else if line.city = 0 then .province else .city

/-- The key of a line in the map of its kind. -/
def key : Int :=
  match line.kind with
  | .country => line.country
  | .province => areaKey areaCodeMargin line.country line.province
  | .city => areaKey areaCodeMargin line.country line.city

/-- The key of the parent. -/
def parentKey : Int :=
  match line.kind with
  | .country | .province => line.country
  | .city => areaKey areaCodeMargin line.country line.province

variable {line}

theorem kind_eq_country_iff : line.kind = .country ↔ line.province = 0 ∧ line.city = 0 := by
  have hcity := line.province_ne
  unfold kind
  split
  · rename_i h
    exact iff_of_true rfl ⟨h, by_contra fun hne => hcity hne h⟩
  · rename_i h
    split
    · exact iff_of_false (by decide) fun hboth => h hboth.1
    · exact iff_of_false (by decide) fun hboth => h hboth.1

theorem kind_ne_country_iff : line.kind ≠ .country ↔ line.province ≠ 0 := by
  refine not_congr ⟨fun h => (kind_eq_country_iff.mp h).1, fun h => ?_⟩
  rw [kind, if_pos h]

theorem kind_eq_province_iff : line.kind = .province ↔ line.province ≠ 0 ∧ line.city = 0 := by
  unfold kind
  split
  · rename_i h
    exact iff_of_false (by decide) fun hboth => hboth.1 h
  · rename_i h
    split
    · rename_i hcity
      exact iff_of_true rfl ⟨h, hcity⟩
    · rename_i hcity
      exact iff_of_false (by decide) fun hboth => hcity hboth.2

theorem kind_eq_city_iff : line.kind = .city ↔ line.province ≠ 0 ∧ line.city ≠ 0 := by
  unfold kind
  split
  · rename_i h
    exact iff_of_false (by decide) fun hboth => hboth.1 h
  · rename_i h
    split
    · rename_i hcity
      exact iff_of_false (by decide) fun hboth => hboth.2 hcity
    · rename_i hcity
      exact iff_of_true rfl ⟨h, hcity⟩

end AreaLine

theorem areaKey_lt (hmargin : areaCodeMargin ≤ 2 ^ 16) {a b : Nat} (ha : a < areaCodeMargin)
    (hb : b < areaCodeMargin) : a * areaCodeMargin + b < 2 ^ 32 :=
  calc a * areaCodeMargin + b < (a + 1) * areaCodeMargin := by rw [Nat.succ_mul]; omega
    _ ≤ areaCodeMargin * areaCodeMargin := Nat.mul_le_mul_right _ ha
    _ ≤ 2 ^ 16 * 2 ^ 16 := Nat.mul_le_mul hmargin hmargin

theorem wrapInt32_injective_of_lt {m n : Nat} (hm : m < 2 ^ 32) (hn : n < 2 ^ 32)
    (h : wrapInt32 m = wrapInt32 n) : m = n := by
  have hbits := congrArg BitVec.toNat (BitVec.toInt_inj.mp h)
  rwa [BitVec.ofInt_natCast, BitVec.ofInt_natCast, BitVec.toNat_ofNat, BitVec.toNat_ofNat,
    Nat.mod_eq_of_lt hm, Nat.mod_eq_of_lt hn] at hbits

/-- Two codes below the margin are found again in their key. -/
theorem areaKey_injective (hmargin : areaCodeMargin ≤ 2 ^ 16) {a b c d : Nat}
    (ha : a < areaCodeMargin) (hb : b < areaCodeMargin) (hc : c < areaCodeMargin)
    (hd : d < areaCodeMargin) (h : areaKey areaCodeMargin a b = areaKey areaCodeMargin c d) :
    a = c ∧ b = d := by
  have hsum : a * areaCodeMargin + b = c * areaCodeMargin + d := by
    refine wrapInt32_injective_of_lt (areaKey_lt hmargin ha hb) (areaKey_lt hmargin hc hd) ?_
    push_cast
    exact h
  have hquotient : a = c := by
    have hdiv := congrArg (· / areaCodeMargin) hsum
    simp only [Nat.add_comm _ b, Nat.add_comm _ d] at hdiv
    rwa [Nat.add_mul_div_right _ _ (by omega), Nat.add_mul_div_right _ _ (by omega),
      Nat.div_eq_of_lt hb, Nat.div_eq_of_lt hd, Nat.zero_add, Nat.zero_add] at hdiv
  subst hquotient
  exact ⟨rfl, Nat.add_left_cancel hsum⟩

theorem AreaLine.isParentOf_iff (hmargin : areaCodeMargin ≤ 2 ^ 16)
    {p l : AreaLine areaCodeMargin} :
    p.IsParentOf l ↔ l.kind ≠ .country ∧ p.kind = l.kind.parent ∧ p.key = l.parentKey := by
  have hzero := l.province_ne
  cases hl : l.kind with
  | country =>
      have hprovince := (kind_eq_country_iff.mp hl).1
      exact iff_of_false (fun h => h.1 hprovince) fun h => h.1 rfl
  | province =>
      obtain ⟨hprovince, hcity⟩ := kind_eq_province_iff.mp hl
      rw [IsParentOf, if_pos hcity, parentKey, hl, AreaKind.parent]
      constructor
      · rintro ⟨-, hcountry, hpcity, hpprovince⟩
        have hkind := kind_eq_country_iff.mpr ⟨hpprovince, hpcity⟩
        refine ⟨by decide, hkind, ?_⟩
        rw [key, hkind]
        exact congrArg _ hcountry
      · rintro ⟨-, hkind, hkey⟩
        obtain ⟨hpprovince, hpcity⟩ := kind_eq_country_iff.mp hkind
        rw [key, hkind] at hkey
        exact ⟨hprovince, Int.ofNat_inj.mp hkey, hpcity, hpprovince⟩
  | city =>
      obtain ⟨hprovince, hcity⟩ := kind_eq_city_iff.mp hl
      rw [IsParentOf, if_neg hcity, parentKey, hl, AreaKind.parent]
      constructor
      · rintro ⟨-, hcountry, hpcity, hpprovince⟩
        have hkind := kind_eq_province_iff.mpr ⟨hpprovince ▸ hprovince, hpcity⟩
        refine ⟨by decide, hkind, ?_⟩
        rw [key, hkind, hcountry, hpprovince]
      · rintro ⟨-, hkind, hkey⟩
        obtain ⟨hpprovince, hpcity⟩ := kind_eq_province_iff.mp hkind
        rw [key, hkind] at hkey
        obtain ⟨hsame, hsame'⟩ := areaKey_injective hmargin p.below.1 p.below.2.1 l.below.1
          l.below.2.1 hkey
        exact ⟨hprovince, hsame, hpcity, hsame'⟩

/-- Members that are never in a relation to another one. -/
theorem eq_of_pairwise_not {α : Type} {R : α → α → Prop} (hsymm : ∀ a b, R a b → R b a)
    {l : List α} (h : l.Pairwise fun a b => ¬R a b) {a b : α} (ha : a ∈ l) (hb : b ∈ l)
    (hab : R a b) : a = b := by
  have : Std.Symm fun a b => ¬R a b := ⟨fun a b hnot hba => hnot (hsymm b a hba)⟩
  exact by_contra fun hne => h.forall ha hb hne hab

section
variable {lines : List (AreaLine areaCodeMargin)} (hlines : AreaLines lines)
include hlines

theorem AreaLines.eq_of_geo {l l' : AreaLine areaCodeMargin} (hl : l ∈ lines) (hl' : l' ∈ lines)
    (h : l.geo = l'.geo) : l = l' :=
  eq_of_pairwise_not (fun _ _ => Eq.symm) hlines.codes hl hl' h

theorem AreaLines.eq_of_name {l l' : AreaLine areaCodeMargin} (hl : l ∈ lines) (hl' : l' ∈ lines)
    (h : fullName lines l = fullName lines l') : l = l' :=
  eq_of_pairwise_not (fun _ _ => Eq.symm) hlines.names hl hl' h

theorem AreaLines.eq_of_city {l l' : AreaLine areaCodeMargin} (hl : l ∈ lines) (hl' : l' ∈ lines)
    (hcountry : l.country = l'.country) (hcity : l.city = l'.city) (hne : l.city ≠ 0) : l = l' :=
  eq_of_pairwise_not (fun _ _ h => ⟨h.1.symm, h.2.1.symm, h.2.1 ▸ h.2.2⟩) hlines.cities hl hl'
    ⟨hcountry, hcity, hne⟩

theorem AreaLines.eq_of_key (hmargin : areaCodeMargin ≤ 2 ^ 16) {l l' : AreaLine areaCodeMargin}
    (hl : l ∈ lines) (hl' : l' ∈ lines) (hkind : l.kind = l'.kind) (hkey : l.key = l'.key) :
    l = l' := by
  obtain ⟨hcountry, hprovince, hcity⟩ := l.below
  obtain ⟨hcountry', hprovince', hcity'⟩ := l'.below
  rw [AreaLine.key, AreaLine.key, ← hkind] at hkey
  cases hl'kind : l.kind with
  | country =>
      rw [hl'kind] at hkey hkind
      obtain ⟨hp, hq⟩ := AreaLine.kind_eq_country_iff.mp hl'kind
      obtain ⟨hp', hq'⟩ := AreaLine.kind_eq_country_iff.mp hkind.symm
      refine hlines.eq_of_geo hl hl' ?_
      rw [AreaLine.geo, AreaLine.geo, hp, hq, hp', hq', Int.ofNat_inj.mp hkey]
  | province =>
      rw [hl'kind] at hkey hkind
      obtain ⟨-, hq⟩ := AreaLine.kind_eq_province_iff.mp hl'kind
      obtain ⟨-, hq'⟩ := AreaLine.kind_eq_province_iff.mp hkind.symm
      obtain ⟨hsame, hsame'⟩ :=
        areaKey_injective hmargin hcountry hprovince hcountry' hprovince' hkey
      refine hlines.eq_of_geo hl hl' ?_
      rw [AreaLine.geo, AreaLine.geo, hq, hq', hsame, hsame']
  | city =>
      rw [hl'kind] at hkey hkind
      obtain ⟨-, hq⟩ := AreaLine.kind_eq_city_iff.mp hl'kind
      obtain ⟨hsame, hsame'⟩ := areaKey_injective hmargin hcountry hcity hcountry' hcity' hkey
      exact hlines.eq_of_city hl hl' hsame hsame' hq

theorem AreaLines.nameOf_eq {p : AreaLine areaCodeMargin} (hp : p ∈ lines) (hcity : p.city = 0) :
    nameOf lines p.country p.province = p.name := by
  rw [nameOf]
  cases hfind : lines.find? fun l => l.country = p.country ∧ l.province = p.province ∧ l.city = 0
    with
  | none => exact absurd (List.find?_eq_none.mp hfind p hp) (by simp [hcity])
  | some l =>
      have hcodes : l.country = p.country ∧ l.province = p.province ∧ l.city = 0 := by
        simpa using List.find?_some hfind
      have hgeo : l.geo = p.geo := by
        rw [AreaLine.geo, AreaLine.geo, hcodes.1, hcodes.2.1, hcodes.2.2, hcity]
      rw [hlines.eq_of_geo (List.mem_of_find?_eq_some hfind) hp hgeo]
      rfl

theorem AreaLines.fullName_eq {p l : AreaLine areaCodeMargin} (hp : p ∈ lines)
    (hparent : p.IsParentOf l) : fullName lines l = fullName lines p ++ l.name := by
  obtain ⟨hprovince, hcountry, hpcity, hpprovince⟩ := hparent
  have hname := hlines.nameOf_eq hp hpcity
  rw [fullName, fullName, if_neg hprovince, if_pos hpcity]
  by_cases hcity : l.city = 0
  · rw [if_pos hcity] at hpprovince ⊢
    rw [hcountry, hpprovince] at hname
    rw [if_pos hpprovince, hname]
    simp
  · rw [if_neg hcity] at hpprovince ⊢
    rw [hcountry, hpprovince] at hname
    rw [hpprovince, if_neg hprovince, hname, hcountry]
    simp

end

theorem fullName_ne_nil (lines : List (AreaLine areaCodeMargin)) (l : AreaLine areaCodeMargin) :
    fullName lines l ≠ [] :=
  List.append_ne_nil_of_right_ne_nil _ l.name_ne

theorem fullName_country {lines : List (AreaLine areaCodeMargin)} {l : AreaLine areaCodeMargin}
    (h : l.kind = .country) : fullName lines l = l.name := by
  obtain ⟨hprovince, hcity⟩ := AreaLine.kind_eq_country_iff.mp h
  rw [fullName, if_pos hprovince, if_pos hcity]
  rfl

section
variable (garbage : Int → GeoInfo)

/-- The body of the loop for a line. -/
def addAreaLine (maps : AreaMaps) (l : AreaLine areaCodeMargin) : AreaMaps :=
  addLine areaCodeMargin garbage maps l.name l.geo

variable (maps : AreaMaps) (l : AreaLine areaCodeMargin)

theorem get_addAreaLine_country (h : l.kind = .country) (kind : AreaKind) :
    (addAreaLine garbage maps l).get kind =
      if kind = l.kind then (maps.get kind).insert l.key ⟨l.geo, l.name⟩ else maps.get kind := by
  obtain ⟨hprovince, -⟩ := AreaLine.kind_eq_country_iff.mp h
  have hcountry : (l.country : Int) ≠ 0 := Int.natCast_ne_zero.mpr l.country_ne
  have hzero : (l.province : Int) = 0 := Int.natCast_eq_zero.mpr hprovince
  rw [AreaLine.key, h, addAreaLine, addLine, if_pos ⟨hcountry, hzero⟩]
  cases kind <;> rfl

/-- The parent of a province or a city, and the map that it was looked for in. -/
def accessParent : AreaItem × OrderedMap Int AreaItem :=
  (maps.get l.kind.parent).access l.parentKey (AreaItem.unset garbage l.parentKey)

theorem get_addAreaLine_child (h : l.kind ≠ .country) (kind : AreaKind) :
    (addAreaLine garbage maps l).get kind =
      if kind = l.kind then
        (maps.get kind).insert l.key ⟨l.geo, (accessParent garbage maps l).1.name ++ l.name⟩
      else if kind = l.kind.parent then (accessParent garbage maps l).2
      else maps.get kind := by
  have hcountry : (l.country : Int) ≠ 0 := Int.natCast_ne_zero.mpr l.country_ne
  cases hl : l.kind with
  | country => exact absurd hl h
  | province =>
      obtain ⟨hprovince, hcity⟩ := AreaLine.kind_eq_province_iff.mp hl
      have hne : (l.province : Int) ≠ 0 := Int.natCast_ne_zero.mpr hprovince
      have hzero : (l.city : Int) = 0 := Int.natCast_eq_zero.mpr hcity
      rw [accessParent, AreaLine.key, AreaLine.parentKey, hl, addAreaLine, addLine,
        if_neg fun hboth => hne hboth.2, if_pos ⟨hcountry, hne, hzero⟩]
      cases kind <;> rfl
  | city =>
      obtain ⟨hprovince, hcity⟩ := AreaLine.kind_eq_city_iff.mp hl
      have hne : (l.province : Int) ≠ 0 := Int.natCast_ne_zero.mpr hprovince
      have hne' : (l.city : Int) ≠ 0 := Int.natCast_ne_zero.mpr hcity
      rw [accessParent, AreaLine.key, AreaLine.parentKey, hl, addAreaLine, addLine,
        if_neg fun hboth => hne hboth.2, if_neg fun hall => hne' hall.2.2,
        if_pos ⟨hcountry, hne, hne'⟩]
      cases kind <;> rfl

variable {maps l}

/-- Nothing is taken out of the maps. -/
theorem mem_addAreaLine {kind : AreaKind} {x : Int × AreaItem}
    (h : x ∈ (maps.get kind).entries) :
    x ∈ ((addAreaLine garbage maps l).get kind).entries := by
  by_cases hl : l.kind = .country
  · rw [get_addAreaLine_country garbage maps l hl]
    split
    · exact (OrderedMap.mem_insert _ _).mpr (.inl h)
    · exact h
  · rw [get_addAreaLine_child garbage maps l hl]
    split
    · exact (OrderedMap.mem_insert _ _).mpr (.inl h)
    · split
      · rename_i hparent
        subst hparent
        exact OrderedMap.mem_access_of_mem h _
      · exact h

end

/-- The maps hold the items of these lines and nothing else. -/
def Exact (lines done : List (AreaLine areaCodeMargin)) (maps : AreaMaps) : Prop :=
  ∀ kind key areaItem, (key, areaItem) ∈ (maps.get kind).entries ↔
    ∃ l ∈ done, l.kind = kind ∧ key = l.key ∧ areaItem = itemOf lines l

/-- Every province and every city comes behind its parent, which may be among `seen`. -/
def ParentsFirst : List (AreaLine areaCodeMargin) → List (AreaLine areaCodeMargin) → Prop
  | _, [] => True
  | seen, l :: rest =>
    (l.province ≠ 0 → ∃ p ∈ seen, p.IsParentOf l) ∧ ParentsFirst (seen ++ [l]) rest

/-- There is an item with an empty name. -/
def Unnamed (maps : AreaMaps) : Prop :=
  ∃ kind key areaItem, (key, areaItem) ∈ (maps.get kind).entries ∧ areaItem.name = []

section
variable {garbage : Int → GeoInfo} {maps : AreaMaps} {lines done : List (AreaLine areaCodeMargin)}
  {l : AreaLine areaCodeMargin}

theorem Unnamed.addAreaLine (h : Unnamed maps) : Unnamed (addAreaLine garbage maps l) := by
  obtain ⟨kind, key, areaItem, hmem, hname⟩ := h
  exact ⟨kind, key, areaItem, mem_addAreaLine garbage hmem, hname⟩

theorem Unnamed.foldl (h : Unnamed maps) (rest : List (AreaLine areaCodeMargin)) :
    Unnamed (rest.foldl (Area.addAreaLine garbage) maps) := by
  induction rest generalizing maps with
  | nil => exact h
  | cons l rest ih => exact ih h.addAreaLine

theorem exists_mem_snoc {P : AreaLine areaCodeMargin → Prop} :
    (∃ l' ∈ done ++ [l], P l') ↔ (∃ l' ∈ done, P l') ∨ P l := by
  constructor
  · rintro ⟨l', hl', h⟩
    obtain hl' | hl' := List.mem_append.mp hl'
    · exact .inl ⟨l', hl', h⟩
    · exact .inr (List.mem_singleton.mp hl' ▸ h)
  · rintro (⟨l', hl', h⟩ | h)
    · exact ⟨l', List.mem_append_left _ hl', h⟩
    · exact ⟨l, List.mem_append_right _ List.mem_cons_self, h⟩

/-- One more item in the map of its kind. -/
theorem Exact.snoc (hlines : AreaLines lines) (hmargin : areaCodeMargin ≤ 2 ^ 16)
    (hexact : Exact lines done maps) (hdone : ∀ l ∈ done, l ∈ lines) (hl : l ∈ lines)
    (hnew : l ∉ done) {maps' : AreaMaps}
    (hget : ∀ kind, maps'.get kind =
      if kind = l.kind then (maps.get kind).insert l.key (itemOf lines l) else maps.get kind) :
    Exact lines (done ++ [l]) maps' := by
  intro kind key areaItem
  rw [hget]
  split
  · rename_i hkind
    subst hkind
    have habsent : ∀ w, (l.key, w) ∉ (maps.get l.kind).entries := by
      intro w hmem
      obtain ⟨l', hl', hkind, hkey, -⟩ := (hexact _ _ _).mp hmem
      exact hnew (hlines.eq_of_key hmargin (hdone l' hl') hl hkind hkey.symm ▸ hl')
    rw [OrderedMap.mem_insert, and_iff_left habsent, hexact, Prod.mk.injEq, exists_mem_snoc,
      and_iff_right rfl]
  · rename_i hkind
    rw [hexact, exists_mem_snoc]
    exact (or_iff_left fun h => hkind h.1.symm).symm

theorem Exact.addAreaLine (hlines : AreaLines lines) (hmargin : areaCodeMargin ≤ 2 ^ 16)
    (hexact : Exact lines done maps) (hdone : ∀ l ∈ done, l ∈ lines) (hl : l ∈ lines)
    (hnew : l ∉ done)
    (hparent : l.province ≠ 0 → ∃ p ∈ done, p.IsParentOf l) :
    Exact lines (done ++ [l]) (Area.addAreaLine garbage maps l) := by
  refine hexact.snoc hlines hmargin hdone hl hnew fun kind => ?_
  by_cases hkind : l.kind = .country
  · rw [get_addAreaLine_country garbage maps l hkind, itemOf, fullName_country hkind]
  · obtain ⟨p, hp, hparent⟩ := hparent (AreaLine.kind_ne_country_iff.mp hkind)
    obtain ⟨-, hpkind, hpkey⟩ := (AreaLine.isParentOf_iff hmargin).mp hparent
    have hmem : (l.parentKey, itemOf lines p) ∈ (maps.get l.kind.parent).entries :=
      (hexact _ _ _).mpr ⟨p, hp, hpkind, hpkey.symm, rfl⟩
    have haccess : accessParent garbage maps l = (itemOf lines p, maps.get l.kind.parent) :=
      OrderedMap.access_of_mem hmem _
    have hname : (itemOf lines p).name ++ l.name = fullName lines l :=
      (hlines.fullName_eq (hdone p hp) hparent).symm
    rw [get_addAreaLine_child garbage maps l hkind, haccess, hname]
    split
    · rfl
    · split
      · rename_i hkind'
        rw [hkind']
      · rfl

theorem Exact.unnamed_addAreaLine (hmargin : areaCodeMargin ≤ 2 ^ 16)
    (hexact : Exact lines done maps) (hprovince : l.province ≠ 0)
    (hparent : ∀ p ∈ done, ¬p.IsParentOf l) : Unnamed (Area.addAreaLine garbage maps l) := by
  have hkind : l.kind ≠ .country := AreaLine.kind_ne_country_iff.mpr hprovince
  have habsent : ∀ w, (l.parentKey, w) ∉ (maps.get l.kind.parent).entries := by
    intro w hmem
    obtain ⟨p, hp, hpkind, hpkey, -⟩ := (hexact _ _ _).mp hmem
    exact hparent p hp ((AreaLine.isParentOf_iff hmargin).mpr ⟨hkind, hpkind, hpkey.symm⟩)
  have hne : l.kind.parent ≠ l.kind := by
    cases hl : l.kind with
    | country => exact absurd hl hkind
    | province => decide
    | city => decide
  refine ⟨l.kind.parent, l.parentKey, AreaItem.unset garbage l.parentKey, ?_, rfl⟩
  rw [get_addAreaLine_child garbage maps l hkind, if_neg hne, if_pos rfl, accessParent,
    OrderedMap.access_of_notMem habsent]
  exact (OrderedMap.mem_insert _ _).mpr (.inr ⟨rfl, habsent⟩)

theorem AreaLines.nodup (hlines : AreaLines lines) : lines.Nodup :=
  hlines.codes.imp fun h heq => h (congrArg AreaLine.geo heq)

/-- The run over the lines that are left: exact if parents come first, and with an unnamed item
otherwise. -/
theorem Exact.foldl (hlines : AreaLines lines) (hmargin : areaCodeMargin ≤ 2 ^ 16)
    {rest : List (AreaLine areaCodeMargin)} (hperm : (done ++ rest).Perm lines)
    (hexact : Exact lines done maps) :
    (ParentsFirst done rest →
      Exact lines (done ++ rest) (rest.foldl (Area.addAreaLine garbage) maps)) ∧
    (¬ParentsFirst done rest → Unnamed (rest.foldl (Area.addAreaLine garbage) maps)) := by
  induction rest generalizing done maps with
  | nil =>
      rw [List.append_nil]
      exact ⟨fun _ => hexact, fun h => absurd trivial h⟩
  | cons l rest ih =>
      have hdone : ∀ l ∈ done, l ∈ lines := fun l' hl' =>
        hperm.subset (List.mem_append_left _ hl')
      have hl : l ∈ lines := hperm.subset (List.mem_append_right _ List.mem_cons_self)
      have hnew : l ∉ done := by
        have hnodup := hperm.nodup_iff.mpr hlines.nodup
        exact fun hmem => (List.disjoint_of_nodup_append hnodup) hmem List.mem_cons_self
      have hperm' : ((done ++ [l]) ++ rest).Perm lines := by
        rwa [List.append_assoc, List.singleton_append]
      rw [List.append_cons, List.foldl_cons, ParentsFirst]
      by_cases hparent : l.province ≠ 0 → ∃ p ∈ done, p.IsParentOf l
      · rw [and_iff_right hparent]
        exact ih hperm' (hexact.addAreaLine hlines hmargin hdone hl hnew hparent)
      · refine ⟨fun h => absurd h.1 hparent, fun _ => ?_⟩
        obtain ⟨hprovince, hnone⟩ := Classical.not_imp.mp hparent
        refine Unnamed.foldl (hexact.unnamed_addAreaLine hmargin hprovince fun p hp h => ?_) rest
        exact hnone ⟨p, hp, h⟩

end

section
variable {lines : List (AreaLine areaCodeMargin)} (hlines : AreaLines lines)

theorem AreaLine.IsParentOf.geo_eq {p p' l : AreaLine areaCodeMargin} (h : p.IsParentOf l)
    (h' : p'.IsParentOf l) : p.geo = p'.geo := by
  obtain ⟨-, hcountry, hcity, hprovince⟩ := h
  obtain ⟨-, hcountry', hcity', hprovince'⟩ := h'
  rw [AreaLine.geo, AreaLine.geo, hcountry, hcity, hprovince, hcountry', hcity', hprovince']

theorem AreaLine.not_isParentOf_self (l : AreaLine areaCodeMargin) : ¬l.IsParentOf l := by
  rintro ⟨hne, -, hcity, hprovince⟩
  rw [if_pos hcity] at hprovince
  exact hne hprovince

include hlines

theorem AreaLines.parentsFirst_iff {seen rest : List (AreaLine areaCodeMargin)}
    (hperm : (seen ++ rest).Perm lines) :
    ParentsFirst seen rest ↔ rest.Pairwise fun a b => ¬b.IsParentOf a := by
  induction rest generalizing seen with
  | nil => exact iff_of_true trivial .nil
  | cons l rest ih =>
      have hl : l ∈ lines := hperm.subset (List.mem_append_right _ List.mem_cons_self)
      have hnodup := hperm.nodup_iff.mpr hlines.nodup
      have hperm' : ((seen ++ [l]) ++ rest).Perm lines := by
        rwa [List.append_assoc, List.singleton_append]
      rw [ParentsFirst, List.pairwise_cons, ih hperm']
      refine and_congr_left fun _ => ⟨fun h b hb hparent => ?_, fun h hprovince => ?_⟩
      · obtain ⟨p, hp, hparent'⟩ := h hparent.1
        have hmem : p ∈ lines := hperm.subset (List.mem_append_left _ hp)
        have hmem' : b ∈ lines :=
          hperm.subset (List.mem_append_right _ (List.mem_cons_of_mem l hb))
        have hsame := hlines.eq_of_geo hmem hmem' (hparent'.geo_eq hparent)
        exact List.disjoint_of_nodup_append hnodup hp (hsame ▸ List.mem_cons_of_mem l hb)
      · obtain ⟨p, hp, hparent⟩ := hlines.parents l hl hprovince
        obtain hp | hp := List.mem_append.mp (hperm.symm.subset hp)
        · exact ⟨p, hp, hparent⟩
        · obtain rfl | hp := List.mem_cons.mp hp
          · exact absurd hparent p.not_isParentOf_self
          · exact absurd hparent (h p hp)

end

theorem AreaDict.lookup_insertNew (areaDict : AreaDict) (areaItem : AreaItem) (key : Bytes) :
    (areaDict.insertNew areaItem).lookup key =
      (areaDict.lookup key).or (if areaItem.name = key then some areaItem else none) := by
  unfold insertNew
  by_cases hkey : areaItem.name = key
  · subst hkey
    rw [if_pos rfl]
    split
    · rename_i hmem
      obtain ⟨old, hold⟩ := Finmap.mem_iff.mp hmem
      rw [hold]
      rfl
    · rename_i hmem
      rw [Finmap.lookup_insert, Finmap.lookup_eq_none.mpr hmem]
      rfl
  · rw [if_neg hkey, Option.or_none]
    split
    · rfl
    · exact Finmap.lookup_insert_of_ne areaDict (Ne.symm hkey)

theorem AreaDict.lookup_foldl_insertNew (items : List AreaItem) (areaDict : AreaDict)
    (key : Bytes) :
    (items.foldl AreaDict.insertNew areaDict).lookup key =
      (areaDict.lookup key).or (items.find? fun areaItem => areaItem.name = key) := by
  induction items generalizing areaDict with
  | nil => rw [List.find?_nil, Option.or_none]; rfl
  | cons areaItem items ih =>
      rw [List.foldl_cons, ih, lookup_insertNew, Option.or_assoc, List.find?_cons]
      congr 1
      by_cases hkey : areaItem.name = key
      · rw [if_pos hkey, decide_eq_true hkey]
        rfl
      · rw [if_neg hkey, decide_eq_false hkey]
        rfl

theorem AreaMaps.mem_items {maps : AreaMaps} {areaItem : AreaItem} :
    areaItem ∈ maps.items ↔ ∃ kind key, (key, areaItem) ∈ (maps.get kind).entries := by
  have hvalues (m : OrderedMap Int AreaItem) :
      areaItem ∈ m.entries.map Prod.snd ↔ ∃ key, (key, areaItem) ∈ m.entries := by simp
  rw [items, List.mem_append, List.mem_append, hvalues, hvalues, hvalues]
  constructor
  · rintro ((h | h) | h)
    · exact ⟨.country, h⟩
    · exact ⟨.province, h⟩
    · exact ⟨.city, h⟩
  · rintro ⟨kind, h⟩
    cases kind with
    | country => exact .inl (.inl h)
    | province => exact .inl (.inr h)
    | city => exact .inr h

section
variable {lines done : List (AreaLine areaCodeMargin)} {maps : AreaMaps}

theorem Exact.oneEntryPerLine (hlines : AreaLines lines) (hperm : done.Perm lines)
    (hexact : Exact lines done maps) :
    OneEntryPerLine lines (maps.items.foldl AreaDict.insertNew ∅) := by
  have hitems {areaItem : AreaItem} :
      areaItem ∈ maps.items ↔ ∃ l ∈ lines, areaItem = itemOf lines l := by
    rw [AreaMaps.mem_items]
    constructor
    · rintro ⟨kind, key, hmem⟩
      obtain ⟨l, hl, -, -, hitem⟩ := (hexact _ _ _).mp hmem
      exact ⟨l, hperm.subset hl, hitem⟩
    · rintro ⟨l, hl, rfl⟩
      exact ⟨l.kind, l.key, (hexact _ _ _).mpr ⟨l, hperm.symm.subset hl, rfl, rfl, rfl⟩⟩
  intro key areaItem
  rw [AreaDict.lookup_foldl_insertNew, Finmap.lookup_empty, Option.none_or]
  constructor
  · intro hfind
    obtain ⟨l, hl, rfl⟩ := hitems.mp (List.mem_of_find?_eq_some hfind)
    have hname := List.find?_some hfind
    exact ⟨l, hl, (of_decide_eq_true hname).symm, rfl⟩
  · rintro ⟨l, hl, rfl, rfl⟩
    cases hfind : maps.items.find? fun areaItem => areaItem.name = fullName lines l with
    | none =>
        have hnot := List.find?_eq_none.mp hfind _ (hitems.mpr ⟨l, hl, rfl⟩)
        exact absurd (decide_eq_true rfl) hnot
    | some areaItem =>
        obtain ⟨l', hl', rfl⟩ := hitems.mp (List.mem_of_find?_eq_some hfind)
        have hname := List.find?_some hfind
        rw [hlines.eq_of_name hl' hl (of_decide_eq_true hname)]

theorem Unnamed.not_oneEntryPerLine (h : Unnamed maps) :
    ¬OneEntryPerLine lines (maps.items.foldl AreaDict.insertNew ∅) := by
  obtain ⟨kind, key, areaItem, hmem, hname⟩ := h
  intro hentries
  cases hfind : maps.items.find? fun areaItem => areaItem.name = [] with
  | none =>
      have hnot := List.find?_eq_none.mp hfind _ (AreaMaps.mem_items.mpr ⟨kind, key, hmem⟩)
      exact hnot (decide_eq_true hname)
  | some found =>
      have hlookup : (maps.items.foldl AreaDict.insertNew ∅).lookup [] = some found := by
        rw [AreaDict.lookup_foldl_insertNew, Finmap.lookup_empty, Option.none_or, hfind]
      obtain ⟨l, -, hempty, -⟩ := (hentries [] found).mp hlookup
      exact fullName_ne_nil lines l hempty.symm

end

/-- There is at most one such dictionary. -/
theorem OneEntryPerLine.unique {lines : List (AreaLine areaCodeMargin)}
    {areaDict areaDict' : AreaDict} (h : OneEntryPerLine lines areaDict)
    (h' : OneEntryPerLine lines areaDict') : areaDict = areaDict' := by
  refine Finmap.ext_lookup fun key => Option.ext fun areaItem => ?_
  exact (h key areaItem).trans (h' key areaItem).symm

theorem exact_nil (lines : List (AreaLine areaCodeMargin)) : Exact lines [] {} := by
  intro kind key areaItem
  refine iff_of_false (fun h => ?_) fun ⟨l, hl, _⟩ => by cases hl
  cases kind <;> cases h

theorem loadAreaData_texts (hmargin : areaCodeMargin ≤ 2 ^ 16) (garbage : Int → GeoInfo)
    (areaDict : AreaDict) (lines : List (AreaLine areaCodeMargin)) :
    loadAreaData areaCodeMargin garbage areaDict (lines.map AreaLine.text).flatten =
      some ((lines.foldl (addAreaLine garbage) {}).items.foldl AreaDict.insertNew areaDict) := by
  have hrun (maps : AreaMaps) :
      (lines.map AreaLine.text).foldlM (readLine areaCodeMargin garbage) maps =
        some (lines.foldl (addAreaLine garbage) maps) := by
    induction lines generalizing maps with
    | nil => rfl
    | cons l lines ih =>
        rw [List.map_cons, List.foldlM_cons, readLine, l.processAreaFileLine_text hmargin]
        exact ih _
  rw [loadAreaData, AreaLine.fgetsLines_texts, hrun]
  rfl

/-- Loading a permutation of the lines gives one entry for each line if and only if no line comes
before its parent. -/
theorem loadAreaData_permuted_iff (hmargin : areaCodeMargin ≤ 2 ^ 16) (garbage : Int → GeoInfo)
    {lines lines' : List (AreaLine areaCodeMargin)} (hperm : lines'.Perm lines)
    (hlines : AreaLines lines) :
    (∃ areaDict, loadAreaData areaCodeMargin garbage ∅ (lines'.map AreaLine.text).flatten =
        some areaDict ∧ OneEntryPerLine lines areaDict) ↔
      lines'.Pairwise fun a b => ¬b.IsParentOf a := by
  have hrun : (ParentsFirst [] lines' → Exact lines ([] ++ lines') (lines'.foldl
      (addAreaLine garbage) {})) ∧
      (¬ParentsFirst [] lines' → Unnamed (lines'.foldl (addAreaLine garbage) {})) :=
    (exact_nil lines).foldl hlines hmargin hperm
  have horder : ParentsFirst [] lines' ↔ _ := hlines.parentsFirst_iff hperm
  rw [← horder, loadAreaData_texts hmargin]
  constructor
  · rintro ⟨areaDict, hload, hentries⟩
    cases hload
    exact by_contra fun hnot => (hrun.2 hnot).not_oneEntryPerLine hentries
  · intro hfirst
    exact ⟨_, rfl, (hrun.1 hfirst).oneEntryPerLine hlines hperm⟩

def countryLine : AreaLine 10000 where
  name := bytes "CN"
  country := 86
  province := 0
  city := 0
  blank := 9
  codes := bytes "86" ++ [byte '\n']
  name_ne := by decide
  name_plain := by decide +kernel
  isBlank_blank := by decide
  codesText := .country ⟨by decide, by decide +kernel, by decide⟩
  country_ne := by decide
  province_ne := by decide
  below := by decide
  short := by decide

def provinceLine : AreaLine 10000 where
  name := bytes "GD"
  country := 86
  province := 44
  city := 0
  blank := 9
  codes := bytes "86" ++ byte '-' :: (bytes "44" ++ [byte '\n'])
  name_ne := by decide
  name_plain := by decide +kernel
  isBlank_blank := by decide
  codesText := .province ⟨by decide, by decide +kernel, by decide⟩
    ⟨by decide, by decide +kernel, by decide⟩
  country_ne := by decide
  province_ne := by decide
  below := by decide
  short := by decide

theorem areaLines_country_province : AreaLines [countryLine, provinceLine] where
  codes := by decide +kernel
  parents := by
    intro l hl hprovince
    refine ⟨countryLine, List.mem_cons_self, hprovince, ?_⟩
    obtain rfl | hl := List.mem_cons.mp hl
    · exact absurd rfl hprovince
    · rw [List.mem_singleton.mp hl]
      decide
  cities := by decide +kernel
  names := by decide +kernel

theorem loadAreaData_country_province :
    ∃ areaDict, loadAreaData (10000 : Nat) (fun _ => {}) ∅
        ([countryLine, provinceLine].map AreaLine.text).flatten = some areaDict ∧
      OneEntryPerLine [countryLine, provinceLine] areaDict := by
  refine (loadAreaData_permuted_iff (by decide) (fun _ => {}) (List.Perm.refl _)
    areaLines_country_province).mpr ?_
  exact List.pairwise_pair.mpr fun h => h.1 rfl

/-- The province before its country. -/
theorem loadAreaData_province_country :
    ¬∃ areaDict, loadAreaData (10000 : Nat) (fun _ => {}) ∅
        ([provinceLine, countryLine].map AreaLine.text).flatten = some areaDict ∧
      OneEntryPerLine [countryLine, provinceLine] areaDict := by
  rintro ⟨areaDict, hload, hentries⟩
  rw [loadAreaData_texts (by decide)] at hload
  cases hload
  have hfirst : Unnamed (addAreaLine (fun _ => {}) {} provinceLine) :=
    (exact_nil [countryLine, provinceLine]).unnamed_addAreaLine (by decide) (by decide)
      (List.forall_mem_nil _)
  exact (hfirst.foldl [countryLine]).not_oneEntryPerLine hentries

end AdServer.Area
