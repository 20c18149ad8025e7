import AdServer.Area.File
import AdServer.Library.OrderedMap

/-!
Loading the area file. A line names a country, a province or a city. Provinces and cities are put
under the name of their parent with their own behind it; `operator[]` gives that name from maps
that are still being filled. A parent that is not there yet gets a default item with an empty
name, which keeps its own line out later on.
-/
namespace AdServer.Area

open Billing Scenario

structure AreaMaps where
  country : OrderedMap Int AreaItem := .empty
  province : OrderedMap Int AreaItem := .empty
  city : OrderedMap Int AreaItem := .empty

section
variable (areaCodeMargin : Int) (garbage : Int → GeoInfo)

/-- The code of the parent and a code below it in one `int`. -/
def areaKey (country code : Int) : Int := wrapInt32 (country * areaCodeMargin + code)

/-- What `AreaItem()` leaves: an empty name and codes that are not set. -/
def AreaItem.unset (key : Int) : AreaItem := ⟨garbage key, []⟩

/-- The body of the loop, after the line was read. -/
def addLine (maps : AreaMaps) (name : Bytes) (codes : GeoInfo) : AreaMaps :=
  if codes.country ≠ 0 ∧ codes.province = 0 then
    { maps with country := maps.country.insert codes.country ⟨codes, name⟩ }
  else if codes.country ≠ 0 ∧ codes.province ≠ 0 ∧ codes.city = 0 then
    let (parent, countryMap) :=
      maps.country.access codes.country (AreaItem.unset garbage codes.country)
    { maps with
      country := countryMap
      province := maps.province.insert (areaKey areaCodeMargin codes.country codes.province)
        ⟨codes, parent.name ++ name⟩ }
  else if codes.country ≠ 0 ∧ codes.province ≠ 0 ∧ codes.city ≠ 0 then
    let provinceCode := areaKey areaCodeMargin codes.country codes.province
    let (parent, provinceMap) :=
      maps.province.access provinceCode (AreaItem.unset garbage provinceCode)
    { maps with
      province := provinceMap
      city := maps.city.insert (areaKey areaCodeMargin codes.country codes.city)
        ⟨codes, parent.name ++ name⟩ }
  else maps

/-- One round of the loop. -/
def readLine (maps : AreaMaps) (line : Bytes) : Option AreaMaps :=
  (processAreaFileLine (line ++ [0])).map fun (name, codes) =>
    addLine areaCodeMargin garbage maps name codes

def AreaDict.insertNew (areaDict : AreaDict) (areaItem : AreaItem) : AreaDict :=
  if areaItem.name ∈ areaDict then areaDict else areaDict.insert areaItem.name areaItem

/-- The items of the three maps in the order in which they go into the dictionary. -/
def AreaMaps.items (maps : AreaMaps) : List AreaItem :=
  maps.country.entries.map Prod.snd ++ maps.province.entries.map Prod.snd ++
    maps.city.entries.map Prod.snd

/-- `loadAreaData` for a file that can be opened. `none` is a read behind a line. -/
def loadAreaData (areaDict : AreaDict) (content : Bytes) : Option AreaDict := do
  let maps ← (fgetsLines content).foldlM (readLine areaCodeMargin garbage) {}
  some (maps.items.foldl AreaDict.insertNew areaDict)

end

/-- Digits of a number. -/
structure NumberText (text : Bytes) (value : Nat) : Prop where
  nonempty : text ≠ []
  digits : ∀ c ∈ text, isDigit c = true
  read : Numeral.read 10 digitValue text = value

/-- One to three numbers with dashes between them; the others are zero. -/
inductive CodesText : Nat → Nat → Nat → Bytes → Prop
  | country {a : Bytes} {c : Nat} : NumberText a c → CodesText c 0 0 (a ++ [byte '\n'])
  | province {a b : Bytes} {c p : Nat} : NumberText a c → NumberText b p →
      CodesText c p 0 (a ++ byte '-' :: (b ++ [byte '\n']))
  | city {a b d : Bytes} {c p q : Nat} : NumberText a c → NumberText b p → NumberText d q →
      CodesText c p q (a ++ byte '-' :: (b ++ byte '-' :: (d ++ [byte '\n'])))

/-- A line of the area file: a name, a blank and the codes, with those above the last one. -/
structure AreaLine (areaCodeMargin : Nat) where
  name : Bytes
  country : Nat
  province : Nat
  city : Nat
  blank : UInt8
  codes : Bytes
  name_ne : name ≠ []
  name_plain : ∀ c ∈ name, isBlank c = false ∧ c ≠ byte '\n'
  isBlank_blank : isBlank blank = true
  codesText : CodesText country province city codes
  country_ne : country ≠ 0
  province_ne : city ≠ 0 → province ≠ 0
  below : country < areaCodeMargin ∧ province < areaCodeMargin ∧ city < areaCodeMargin
  short : (name ++ blank :: codes).length ≤ 255

namespace AreaLine

variable {areaCodeMargin : Nat}

def text (line : AreaLine areaCodeMargin) : Bytes := line.name ++ line.blank :: line.codes

def geo (line : AreaLine areaCodeMargin) : GeoInfo := ⟨line.country, line.province, line.city⟩

/-- The country of a province or the province of a city. -/
def IsParentOf (parent line : AreaLine areaCodeMargin) : Prop :=
  line.province ≠ 0 ∧ parent.country = line.country ∧ parent.city = 0 ∧
    parent.province = if line.city = 0 then 0 else line.province

end AreaLine

section
variable {areaCodeMargin : Nat} (lines : List (AreaLine areaCodeMargin))

/-- The name on the line with these codes. -/
def nameOf (country province : Nat) : Bytes :=
  ((lines.find? fun l => l.country = country ∧ l.province = province ∧ l.city = 0).map
    AreaLine.name).getD []

/-- The names of the country, the province and the city of a line behind each other. -/
def fullName (line : AreaLine areaCodeMargin) : Bytes :=
  (if line.province = 0 then [] else nameOf lines line.country 0) ++
    (if line.city = 0 then [] else nameOf lines line.country line.province) ++ line.name

/-- The item of a line. -/
def itemOf (line : AreaLine areaCodeMargin) : AreaItem := ⟨line.geo, fullName lines line⟩

/-- Lines of distinct codes with a parent for every province and every city. -/
structure AreaLines : Prop where
  codes : lines.Pairwise fun a b => a.geo ≠ b.geo
  parents : ∀ l ∈ lines, l.province ≠ 0 → ∃ p ∈ lines, p.IsParentOf l
  cities : lines.Pairwise fun a b => ¬(a.country = b.country ∧ a.city = b.city ∧ a.city ≠ 0)
  names : lines.Pairwise fun a b => fullName lines a ≠ fullName lines b

/-- The dictionary has one entry for each line, under its full name. -/
def OneEntryPerLine (areaDict : AreaDict) : Prop :=
  ∀ key areaItem, areaDict.lookup key = some areaItem ↔
    ∃ l ∈ lines, key = fullName lines l ∧ areaItem = itemOf lines l

end

theorem NumberText.atoi_append {text rest : Bytes} {value : Nat} (h : NumberText text value)
    (hrest : rest.takeWhile isDigit = []) (hvalue : value < 2 ^ 31) :
    atoi (text ++ rest) = value := by
  rw [atoi_digits h.nonempty h.digits hrest (by rw [h.read]; exact hvalue), h.read]

theorem NumberText.endsNumber_eq_false {text : Bytes} {value : Nat} (h : NumberText text value) :
    ∀ x ∈ text, endsNumber x = false :=
  Area.endsNumber_eq_false (fun hmem => by cases h.digits _ hmem) fun hmem => by
    cases h.digits _ hmem

theorem takeWhile_isDigit_newline (rest : Bytes) :
    (byte '\n' :: rest).takeWhile isDigit = [] :=
  List.takeWhile_cons_of_neg (by decide)

theorem takeWhile_isDigit_dash (rest : Bytes) : (byte '-' :: rest).takeWhile isDigit = [] :=
  List.takeWhile_cons_of_neg (by decide)

theorem areaCodes_codesText {c p q : Nat} {codes : Bytes} (h : CodesText c p q codes)
    (hc : c < 2 ^ 31) (hp : p < 2 ^ 31) (hq : q < 2 ^ 31) :
    areaCodes (codes ++ [0]) = some ⟨c, p, q⟩ := by
  have hnul : (0 : UInt8) ∈ [0] := List.mem_singleton_self 0
  cases h with
  | country ha =>
      rw [List.append_assoc, List.singleton_append,
        areaCodes_newline ha.endsNumber_eq_false hnul,
        ha.atoi_append (takeWhile_isDigit_newline _) hc]
      rfl
  | province ha hb =>
      simp only [List.append_assoc, List.cons_append, List.nil_append]
      rw [areaCodes_dash_newline ha.endsNumber_eq_false hb.endsNumber_eq_false hnul,
        ha.atoi_append (takeWhile_isDigit_dash _) hc,
        hb.atoi_append (takeWhile_isDigit_newline _) hp]
      rfl
  | city ha hb hd =>
      simp only [List.append_assoc, List.cons_append, List.nil_append]
      rw [areaCodes_dash_dash ha.endsNumber_eq_false hb.endsNumber_eq_false (by simp),
        ha.atoi_append (takeWhile_isDigit_dash _) hc, hb.atoi_append (takeWhile_isDigit_dash _) hp,
        hd.atoi_append (takeWhile_isDigit_newline _) hq]

theorem CodesText.exists_newline {c p q : Nat} {codes : Bytes} (h : CodesText c p q codes) :
    ∃ body, codes = body ++ [byte '\n'] ∧ byte '\n' ∉ body := by
  have hdigits {text : Bytes} {value : Nat} (h : NumberText text value) : byte '\n' ∉ text :=
    fun hmem => by cases h.digits _ hmem
  have hdash : byte '\n' ≠ byte '-' := by decide
  cases h with
  | country ha => exact ⟨_, rfl, hdigits ha⟩
  | @province a b _ _ ha hb =>
      refine ⟨a ++ byte '-' :: b, by simp, ?_⟩
      simp [hdigits ha, hdigits hb, hdash]
  | @city a b d _ _ _ ha hb hd =>
      refine ⟨a ++ byte '-' :: (b ++ byte '-' :: d), by simp, ?_⟩
      simp [hdigits ha, hdigits hb, hdigits hd, hdash]

theorem fgetsFrom_newline {body : Bytes} (hbody : byte '\n' ∉ body) (line rest : Bytes)
    (hshort : line.length + body.length + 1 ≤ 255) :
    fgetsFrom line (body ++ byte '\n' :: rest) =
      (line ++ (body ++ [byte '\n'])) :: fgetsFrom [] rest := by
  induction body generalizing line with
  | nil =>
      rw [List.nil_append, fgetsFrom, if_pos (.inl rfl)]
      rfl
  | cons c body ih =>
      have hc : c ≠ byte '\n' := fun h => hbody (h ▸ List.mem_cons_self)
      rw [List.length_cons] at hshort
      rw [List.cons_append, fgetsFrom, if_neg (by rintro (h | h); exacts [hc h, by omega]),
        ih (fun hmem => hbody (List.mem_cons_of_mem c hmem)) _
          (by rw [List.length_append, List.length_singleton]; omega)]
      simp

namespace AreaLine

variable {areaCodeMargin : Nat}

theorem processAreaFileLine_text (hmargin : areaCodeMargin ≤ 2 ^ 16)
    (line : AreaLine areaCodeMargin) :
    processAreaFileLine (line.text ++ [0]) = some (line.name, line.geo) := by
  obtain ⟨hcountry, hprovince, hcity⟩ := line.below
  rw [text, List.append_assoc, List.cons_append,
    processAreaFileLine_append_cons (fun x hx => (line.name_plain x hx).1) line.isBlank_blank,
    areaCodes_codesText line.codesText (by omega) (by omega) (by omega)]
  rfl

theorem fgetsFrom_text (line : AreaLine areaCodeMargin) (rest : Bytes) :
    fgetsFrom [] (line.text ++ rest) = line.text :: fgetsFrom [] rest := by
  obtain ⟨codes, hcodes, hnewline⟩ := line.codesText.exists_newline
  have htext : line.text = (line.name ++ line.blank :: codes) ++ [byte '\n'] := by
    rw [text, hcodes, List.append_assoc, List.cons_append]
  have hbody : byte '\n' ∉ line.name ++ line.blank :: codes := by
    have hname : byte '\n' ∉ line.name := fun hmem => (line.name_plain _ hmem).2 rfl
    have hblank : byte '\n' ≠ line.blank := fun h => by
      have hspace := line.isBlank_blank
      rw [← h] at hspace
      cases hspace
    simp [hname, hblank, hnewline]
  have hshort : line.text.length ≤ 255 := line.short
  rw [htext, List.append_assoc, List.singleton_append, fgetsFrom_newline hbody [] rest]
  · rfl
  · rw [htext, List.length_append] at hshort
    simpa using hshort

theorem fgetsLines_texts (lines : List (AreaLine areaCodeMargin)) :
    fgetsLines (lines.map text).flatten = lines.map text := by
  rw [fgetsLines]
  induction lines with
  | nil => rfl
  | cons line lines ih =>
      rw [List.map_cons, List.flatten_cons, fgetsFrom_text, ih]

end AreaLine

end AdServer.Area
