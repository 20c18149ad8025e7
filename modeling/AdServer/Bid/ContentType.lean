import AdServer.Area.Load
import AdServer.Library.LoadedTable
import AdServer.Url.Query

/-!
The content types of the exchanges, `TypeTableManager`. The first `getInstance` is that of
`global_init`: it fills the table from the database, and from a file where the database fails. A
number that `std::stoi` refuses throws in the middle of this, and so does a line of the file without
three parts. Nothing in `global_init` catches either, so that the process ends with the load.
-/
namespace AdServer.Bid

open Area LoadedTable Url

structure ContenttypeItem where
  adxid : Int
  adxContentType : Bytes
  mttyContentType : Int
  deriving DecidableEq

abbrev ContentTypeDict := Bytes → Option ContenttypeItem

/-- An exception of `std::stoi`, or the text of `processContentTypeDictFile`. -/
inductive TypeTableError
  | number | text
  deriving DecidableEq

/-- A row of `content_category_map`. -/
structure CategoryRow where
  adxid : Int
  adxCategory : Bytes
  commonCategory : Bytes

/-- The rows that the database gives, whether an `SQLException` ends them, and the file if it can
be opened. -/
structure TypeSources where
  rows : List CategoryRow
  failed : Bool
  contenttypefile : Option Bytes

def typeKey (adxId : Int) (adxContentType : Bytes) : Bytes :=
  intToString adxId ++ byte ':' :: adxContentType

def stoiOrThrow (text : Bytes) : Except TypeTableError Int :=
  match stoi text with
  | some n => .ok n
  | none => .error .number

/-- One round over the result set: the number for the key, and the item, where it is an `int`. -/
def readRow (row : CategoryRow) : Except TypeTableError (Int × ContenttypeItem) := do
  let mttyContentType ← stoiOrThrow row.commonCategory
  pure (row.adxid, ⟨wrapInt32 row.adxid, row.adxCategory, mttyContentType⟩)

def processContentTypeDictFile (line : Bytes) : Except TypeTableError ContenttypeItem :=
  match line.splitOnP fun c => c = byte '|' with
  | [adxid, adxContentType, mttyContentType] => do
    let adxid ← stoiOrThrow adxid
    let mttyContentType ← stoiOrThrow mttyContentType
    pure ⟨adxid, adxContentType, mttyContentType⟩
  | _ => .error .text

/-- One round over the lines of the file. -/
def readLine (buffer : Bytes) : Except TypeTableError (Int × ContenttypeItem) := do
  let item ← processContentTypeDictFile (cString buffer)
  pure (item.adxid, item)

def insertItem (dict : ContentTypeDict) (reading : Int × ContenttypeItem) : ContentTypeDict :=
  insertNew dict (typeKey reading.1 reading.2.adxContentType, reading.2)

/-- Either loop, which an exception ends. -/
def insertItems (dict : ContentTypeDict)
    (readings : List (Except TypeTableError (Int × ContenttypeItem))) :
    Except TypeTableError ContentTypeDict :=
  readings.foldlM (fun dict reading => reading.map (insertItem dict)) dict

def loadContentTypeData (sources : TypeSources) (dict : ContentTypeDict) :
    Except TypeTableError ContentTypeDict := do
  let dict ← insertItems dict (sources.rows.map readRow)
  if sources.failed then
    match sources.contenttypefile with
    | some content => insertItems dict ((fgetsLines content).map readLine)
    | none => pure dict
  else pure dict

def getContentType (dict : ContentTypeDict) (adxId : Int) (adxContentType : Bytes) : Int :=
  match dict (typeKey adxId adxContentType) with
  | some item => item.mttyContentType
  | none => 0

def getInstance (sources : TypeSources) (manager : State ContentTypeDict) :
    Except TypeTableError (State ContentTypeDict) :=
  ensure loadContentTypeData sources manager

/-- The `getInstance` of `global_init`, and lookups one after the other, each with `getInstance`
before it and what the sources hold then. -/
def typeLookups (sources : TypeSources) (calls : List (TypeSources × Int × Bytes)) :
    Except TypeTableError (List Int) := do
  let manager ← getInstance sources ⟨false, fun _ => none⟩
  uses loadContentTypeData (fun dict q => getContentType dict q.1 q.2) manager calls

namespace ContenttypeItem

def row (item : ContenttypeItem) : CategoryRow :=
  ⟨item.adxid, item.adxContentType, intToString item.mttyContentType⟩

/-- The line of the file without its end. -/
def fields (item : ContenttypeItem) : Bytes :=
  intToString item.adxid ++
    byte '|' :: (item.adxContentType ++ byte '|' :: intToString item.mttyContentType)

def line (item : ContenttypeItem) : Bytes := item.fields ++ [byte '\n']

/-- The line is one line of the file, and one that `fgets` gets as a whole. -/
structure Writable (item : ContenttypeItem) : Prop where
  adxid : -2 ^ 31 ≤ item.adxid ∧ item.adxid < 2 ^ 31
  mttyContentType : -2 ^ 31 ≤ item.mttyContentType ∧ item.mttyContentType < 2 ^ 31
  plain : ∀ b ∈ item.adxContentType, b ≠ byte '|' ∧ b ≠ byte '\n' ∧ b ≠ 0
  short : item.line.length ≤ 255

end ContenttypeItem

namespace TypeSources

def readings (sources : TypeSources) : List (Except TypeTableError (Int × ContenttypeItem)) :=
  sources.rows.map readRow ++
    if sources.failed then (sources.contenttypefile.elim [] fgetsLines).map readLine else []

/-- All readings, if none throws, or else the first exception. -/
def known (sources : TypeSources) : Except TypeTableError (List (Int × ContenttypeItem)) :=
  sources.readings.mapM id

end TypeSources

/-- The content type of the first reading that is of what is looked up. -/
def contentTypeIn (known : List (Int × ContenttypeItem)) (q : Int × Bytes) : Int :=
  ((known.find? fun reading => reading.1 = q.1 ∧ reading.2.adxContentType = q.2).map
    fun reading => reading.2.mttyContentType).getD 0

theorem typeKey_inj {adxId adxId' : Int} {type type' : Bytes} :
    typeKey adxId type = typeKey adxId' type' ↔ adxId = adxId' ∧ type = type' := by
  refine ⟨fun h => ?_, fun ⟨hid, htype⟩ => by rw [hid, htype]⟩
  have hcolon : ∀ n, ∀ b ∈ intToString n, decide (b ≠ byte ':') = true := by
    intro n b hb
    refine decide_eq_true fun heq => ?_
    exact notMem_intToString (by decide) (by decide) n (heq ▸ hb)
  have htake : ∀ n text, (typeKey n text).takeWhile (fun b => decide (b ≠ byte ':')) =
      intToString n := by
    intro n text
    rw [typeKey, List.takeWhile_append_of_pos (hcolon n), List.takeWhile_cons_of_neg (by simp),
      List.append_nil]
  have hid : adxId = adxId' := intToString_injective (by rw [← htake, h, htake])
  subst hid
  exact ⟨rfl, (List.cons.inj (List.append_cancel_left h)).2⟩

theorem insertItems_eq (dict : ContentTypeDict)
    (readings : List (Except TypeTableError (Int × ContenttypeItem))) :
    insertItems dict readings = (readings.mapM id).map fun known => known.foldl insertItem dict := by
  induction readings generalizing dict with
  | nil => rfl
  | cons reading readings ih =>
      rw [List.mapM_cons]
      cases reading with
      | error error => rfl
      | ok reading =>
          refine (ih (insertItem dict reading)).trans ?_
          cases readings.mapM id <;> rfl

theorem loadContentTypeData_eq (sources : TypeSources) (dict : ContentTypeDict) :
    loadContentTypeData sources dict =
      sources.known.map fun known => known.foldl insertItem dict := by
  rw [TypeSources.known, ← insertItems_eq, TypeSources.readings, insertItems, List.foldlM_append]
  unfold loadContentTypeData
  refine congrArg (insertItems dict _ >>= ·) (funext fun dict => ?_)
  cases sources.failed with
  | false => rfl
  | true =>
      cases sources.contenttypefile with
      | none => rfl
      | some content => rfl

theorem getContentType_foldl (known : List (Int × ContenttypeItem)) (adxId : Int) (type : Bytes) :
    getContentType (known.foldl insertItem fun _ => none) adxId type =
      contentTypeIn known (adxId, type) := by
  have hdict : known.foldl insertItem (fun _ => none) (typeKey adxId type) =
      (known.find? fun reading => reading.1 = adxId ∧ reading.2.adxContentType = type).map
        Prod.snd := by
    have hfold : known.foldl insertItem (fun _ => none) =
        (known.map fun reading => (typeKey reading.1 reading.2.adxContentType, reading.2)).foldl
          insertNew fun _ => none := by
      rw [List.foldl_map]
      rfl
    rw [hfold, foldl_insertNew, Option.none_or, List.find?_map, Option.map_map]
    simp only [Function.comp_def, typeKey_inj]
  rw [getContentType, hdict, contentTypeIn]
  cases known.find? _ <;> rfl

theorem typeLookups_eq_load (sources : TypeSources) (calls : List (TypeSources × Int × Bytes)) :
    typeLookups sources calls =
      (loadContentTypeData sources fun _ => none).map fun dict =>
        calls.map fun call => getContentType dict call.2.1 call.2.2 :=
  uses_of_ensure loadContentTypeData (fun dict (q : Int × Bytes) => getContentType dict q.1 q.2)
    sources (fun _ => none) calls

/-- Every lookup is answered from the first reading that the sources gave in `global_init`, and no
lookup is if that load met a number it could not read or a line without three parts. -/
theorem content_types_answered (sources : TypeSources)
    (calls : List (TypeSources × Int × Bytes)) :
    typeLookups sources calls =
      sources.known.map fun known => calls.map fun call => contentTypeIn known call.2 := by
  rw [typeLookups_eq_load, loadContentTypeData_eq]
  cases sources.known with
  | error error => rfl
  | ok known => simp only [Except.map, getContentType_foldl]

/-- A number ends at the first byte that is no digit. -/
theorem stoi_intToString_append {n : Int} (h : -2 ^ 31 ≤ n ∧ n < 2 ^ 31) {c : UInt8}
    (hc : isDigit c = false) (rest : Bytes) : stoi (intToString n ++ c :: rest) = some n := by
  have htake : ∀ m, (decimal m ++ c :: rest).takeWhile isDigit = decimal m := by
    intro m
    rw [List.takeWhile_append_of_pos fun x hx => isDigit_of_mem_decimal hx,
      List.takeWhile_cons_of_neg (by simp [hc]), List.append_nil]
  have hself : ∀ m, (decimal m).takeWhile isDigit = decimal m := fun m =>
    List.takeWhile_eq_self_iff.mpr fun x hx => isDigit_of_mem_decimal hx
  have hstol : stol (intToString n ++ c :: rest) = stol (intToString n) := by
    unfold intToString
    split
    · have hdrop : ∀ text : Bytes, splitSign ((byte '-' :: text).dropWhile isSpace) =
          (true, text) := fun _ => rfl
      simp only [List.cons_append, stol, hdrop, htake, hself]
    · obtain ⟨d, ds, hds⟩ := List.exists_cons_of_ne_nil (decimal_ne_nil n.natAbs)
      have hdigit : isDigit d = true :=
        isDigit_of_mem_decimal (n := n.natAbs) (hds ▸ List.mem_cons_self)
      have hlong := splitSign_of_isDigit hdigit (ds ++ c :: rest)
      have hshort := splitSign_of_isDigit hdigit ds
      rw [← List.cons_append, ← hds] at hlong
      rw [← hds] at hshort
      simp only [stol, hlong, hshort, htake, hself]
  rw [stoi, hstol, ← stoi, stoi_intToString h]

namespace ContenttypeItem

variable {c : ContenttypeItem}

theorem Writable.notMem_line (h : c.Writable) : byte '\n' ∉ c.fields ∧ 0 ∉ c.line := by
  have hplain : ∀ b, b ∈ c.adxContentType → b ≠ byte '\n' ∧ b ≠ 0 := fun b hb =>
    ⟨(h.plain b hb).2.1, (h.plain b hb).2.2⟩
  have hnumber : ∀ n, byte '\n' ∉ intToString n := notMem_intToString (by decide) (by decide)
  simp only [line, fields, List.mem_append, List.mem_cons, List.not_mem_nil, not_or]
  refine ⟨⟨hnumber _, by decide, ?_, by decide, hnumber _⟩, ⟨?_, ?_, ?_, ?_, ?_⟩, ?_, ?_⟩
  · exact fun hmem => (hplain _ hmem).1 rfl
  · exact zero_notMem_intToString _
  · decide
  · exact fun hmem => (hplain _ hmem).2 rfl
  · decide
  · exact zero_notMem_intToString _
  · decide
  · exact not_false

theorem Writable.readLine_line (h : c.Writable) : readLine c.line = .ok (c.adxid, c) := by
  have hnumber : ∀ n, ∀ b ∈ intToString n, decide (b = byte '|') = false := by
    intro n b hb
    refine decide_eq_false fun heq => ?_
    exact notMem_intToString (by decide) (by decide) n (heq ▸ hb)
  have hlast : ∀ b ∈ intToString c.mttyContentType ++ [byte '\n'],
      decide (b = byte '|') = false := by
    intro b hb
    rcases List.mem_append.mp hb with hb | hb
    · exact hnumber _ b hb
    · rw [List.mem_singleton.mp hb]
      decide
  have hsplit : c.line.splitOnP (fun b => b = byte '|') =
      [intToString c.adxid, c.adxContentType, intToString c.mttyContentType ++ [byte '\n']] := by
    rw [line, fields, List.append_assoc, List.cons_append, List.append_assoc, List.cons_append,
      List.splitOnP_append_cons_of_forall_mem (hnumber _) _ (by decide),
      List.splitOnP_append_cons_of_forall_mem
        (fun b hb => decide_eq_false (h.plain b hb).1) _ (by decide),
      List.splitOnP_eq_singleton hlast]
  have hadxid : stoiOrThrow (intToString c.adxid) = .ok c.adxid := by
    rw [stoiOrThrow, stoi_intToString h.adxid]
  have hmtty : stoiOrThrow (intToString c.mttyContentType ++ [byte '\n']) =
      .ok c.mttyContentType := by
    rw [stoiOrThrow, stoi_intToString_append h.mttyContentType (by decide)]
  rw [readLine, cString_of_notMem h.notMem_line.2, processContentTypeDictFile, hsplit]
  simp only [hadxid, hmtty]
  rfl

theorem Writable.readRow_row (h : c.Writable) : readRow c.row = .ok (c.adxid, c) := by
  have hmtty : stoiOrThrow (intToString c.mttyContentType) = .ok c.mttyContentType := by
    rw [stoiOrThrow, stoi_intToString h.mttyContentType]
  rw [readRow, row, hmtty, wrapInt32_eq_self_iff.mpr h.adxid]
  rfl

theorem fgetsLines_lines {items : List ContenttypeItem} (h : ∀ c ∈ items, c.Writable) :
    fgetsLines (items.flatMap line) = items.map line := by
  induction items with
  | nil => rfl
  | cons c items ih =>
      obtain ⟨hc, hrest⟩ := List.forall_mem_cons.mp h
      have hshort := hc.short
      rw [line, List.length_append, List.length_singleton] at hshort
      have hline := fgetsFrom_newline hc.notMem_line.1 [] (items.flatMap line)
        (by rw [List.length_nil]; omega)
      rw [List.nil_append] at hline
      rw [List.flatMap_cons, fgetsLines, line, List.append_assoc, List.singleton_append, hline,
        List.map_cons, ← ih hrest]
      rfl

end ContenttypeItem

theorem mapM_id_map_ok {α : Type} (l : List α) :
    (l.map (Except.ok (ε := TypeTableError))).mapM id = .ok l := by
  induction l with
  | nil => rfl
  | cons a l ih => rw [List.map_cons, List.mapM_cons, ih]; rfl

/-- Wherever the database fails, a file of its rows answers every lookup as the whole table would
have. -/
theorem content_types_fallback (items : List ContenttypeItem) (hwritable : ∀ c ∈ items, c.Writable)
    (n : Nat) (file : Option Bytes) (calls : List (TypeSources × Int × Bytes)) :
    typeLookups ⟨(items.take n).map ContenttypeItem.row, true,
        some (items.flatMap ContenttypeItem.line)⟩ calls =
      typeLookups ⟨items.map ContenttypeItem.row, false, file⟩ calls := by
  obtain ⟨known, hknown⟩ : ∃ known, known = items.map fun c => (c.adxid, c) := ⟨_, rfl⟩
  have hrows : (items.map ContenttypeItem.row).map readRow = known.map .ok := by
    rw [hknown, List.map_map, List.map_map]
    exact List.map_congr_left fun c hc => (hwritable c hc).readRow_row
  have hlines : (fgetsLines (items.flatMap ContenttypeItem.line)).map readLine =
      known.map .ok := by
    rw [ContenttypeItem.fgetsLines_lines hwritable, hknown, List.map_map, List.map_map]
    exact List.map_congr_left fun c hc => (hwritable c hc).readLine_line
  have hbroken : (TypeSources.mk ((items.take n).map ContenttypeItem.row) true
      (some (items.flatMap ContenttypeItem.line))).known = .ok (known.take n ++ known) := by
    rw [TypeSources.known, ← mapM_id_map_ok, List.map_append, TypeSources.readings,
      List.map_take, List.map_take, hrows, ← List.map_take, ← hlines]
    rfl
  have hwhole : (TypeSources.mk (items.map ContenttypeItem.row) false file).known = .ok known := by
    rw [TypeSources.known, ← mapM_id_map_ok, TypeSources.readings, hrows]
    exact congrArg (List.mapM id) (List.append_nil _)
  rw [typeLookups_eq_load, typeLookups_eq_load, loadContentTypeData_eq, loadContentTypeData_eq,
    hbroken, hwhole]
  simp only [Except.map, getContentType_foldl, contentTypeIn, find?_take_append]

/-- The second of two categories is looked up after the database gave the first one. -/
theorem content_types_fallback_two :
    ∃ items : List ContenttypeItem, (∀ c ∈ items, c.Writable) ∧
      typeLookups ⟨(items.take 1).map ContenttypeItem.row, true,
        some (items.flatMap ContenttypeItem.line)⟩ [(⟨[], false, none⟩, 2, bytes "b")] =
          .ok [7] := by
  obtain ⟨items, hitems⟩ : ∃ items : List ContenttypeItem,
      items = [⟨1, bytes "a", 5⟩, ⟨2, bytes "b", 7⟩] := ⟨_, rfl⟩
  have hwritable : ∀ c ∈ items, c.Writable := by
    subst hitems
    intro c hc
    rcases List.mem_pair.mp hc with rfl | rfl
    · exact ⟨by decide, by decide, forall_mem_of_all (by decide), by decide +kernel⟩
    · exact ⟨by decide, by decide, forall_mem_of_all (by decide), by decide +kernel⟩
  refine ⟨items, hwritable, ?_⟩
  rw [content_types_fallback items hwritable 1 none [(⟨[], false, none⟩, 2, bytes "b")]]
  subst hitems
  rfl

end AdServer.Bid
