import AdServer.Template.Bind

/-!
What binding is for: every parameter in the text is replaced by its value. A parameter is found in
the text alone; the scanner finds the same ones unless one begins at the very byte at which it
gives up an open name, since it steps over that byte.
-/
namespace AdServer.Template

open Url

/-- The name of the parameter at the start of a text. -/
def placeholderName : Bytes → Option Bytes
  | c :: d :: rest =>
    if c = byte '$' ∧ d = byte '\x7b' ∧
        (rest.dropWhile someCharacter).head? = some (byte '\x7d') then
      some (rest.takeWhile someCharacter)
    else none
  | _ => none

/-- The text with all its parameters replaced, from a place on with as many bytes to leave out. -/
def substituteFrom (paramMap : ParamMap) : Nat → Bytes → Bytes
  | _, [] => []
  | skip + 1, _ :: rest => substituteFrom paramMap skip rest
  | 0, c :: rest =>
    match placeholderName (c :: rest) with
    | some name => paramMap.value name ++ substituteFrom paramMap (name.length + 2) rest
    | none => c :: substituteFrom paramMap 0 rest

def substitute (paramMap : ParamMap) (text : Bytes) : Bytes := substituteFrom paramMap 0 text

/-- A parameter begins where the scanner gives up an open name. The first argument is whether a
name is open. -/
def overlooks : Bool → Bytes → Bool
  | _, [] => false
  | true, c :: rest =>
    if c = byte '\x7d' then overlooks false rest
    else if someCharacter c then overlooks true rest
    else (placeholderName (c :: rest)).isSome || overlooks false rest
  | false, [_] => false
  | false, c :: d :: rest =>
    if c = byte '$' ∧ d = byte '\x7b' then overlooks true rest else overlooks false (d :: rest)

section
variable {name : Bytes} (hname : ∀ c ∈ name, someCharacter c = true)

theorem dollar_notMem (hname : ∀ c ∈ name, someCharacter c = true) :
    byte '$' ∉ byte '\x7b' :: name := by
  intro h
  obtain h | h := List.mem_cons.mp h
  · exact absurd h (by decide)
  · cases hname _ h

include hname

theorem placeholderName_append {rest : Bytes} (hrest : rest.takeWhile someCharacter = []) :
    placeholderName (byte '$' :: byte '\x7b' :: (name ++ rest)) =
      if rest.head? = some (byte '\x7d') then some name else none := by
  have htake : (name ++ rest).takeWhile someCharacter = name := by
    rw [List.takeWhile_append_of_pos hname, hrest, List.append_nil]
  have hdrop : (name ++ rest).dropWhile someCharacter = rest := by
    have hwhole := List.takeWhile_append_dropWhile (p := someCharacter) (l := name ++ rest)
    rw [htake] at hwhole
    exact List.append_cancel_left hwhole
  rw [placeholderName, htake, hdrop]
  simp only [true_and]

end

theorem placeholderName_of_ne {c : UInt8} (hc : c ≠ byte '$') (rest : Bytes) :
    placeholderName (c :: rest) = none := by
  cases rest with
  | nil => rfl
  | cons d rest => exact if_neg fun h => hc h.1

theorem placeholderName_of_not {c d : UInt8} (h : ¬(c = byte '$' ∧ d = byte '\x7b'))
    (rest : Bytes) : placeholderName (c :: d :: rest) = none :=
  if_neg fun hopen => h ⟨hopen.1, hopen.2.1⟩

theorem eq_append_of_placeholderName {text name : Bytes} (h : placeholderName text = some name) :
    (∀ c ∈ name, someCharacter c = true) ∧
      ∃ rest, text = byte '$' :: byte '\x7b' :: (name ++ byte '\x7d' :: rest) := by
  match text, h with
  | c :: d :: text, h =>
      rw [placeholderName] at h
      split at h
      · rename_i hopen
        obtain ⟨rfl, rfl, hclose⟩ := hopen
        cases h
        refine ⟨fun c hc => List.mem_takeWhile_imp hc, ?_⟩
        obtain ⟨rest, hrest⟩ : ∃ rest, text.dropWhile someCharacter = byte '\x7d' :: rest :=
          List.head?_eq_some_iff.mp hclose
        refine ⟨rest, ?_⟩
        rw [← hrest, List.takeWhile_append_dropWhile]
      · cases h

section
variable (paramMap : ParamMap)

theorem substituteFrom_skip (u rest : Bytes) :
    substituteFrom paramMap u.length (u ++ rest) = substitute paramMap rest := by
  induction u with
  | nil => rfl
  | cons c u ih => rw [List.length_cons, List.cons_append, substituteFrom, ih]

theorem substitute_of_none {c : UInt8} {rest : Bytes} (h : placeholderName (c :: rest) = none) :
    substitute paramMap (c :: rest) = c :: substitute paramMap rest := by
  rw [substitute, substituteFrom, h]
  rfl

theorem substitute_plain {u : Bytes} (hu : byte '$' ∉ u) (rest : Bytes) :
    substitute paramMap (u ++ rest) = u ++ substitute paramMap rest := by
  induction u with
  | nil => rfl
  | cons c u ih =>
      have hc : c ≠ byte '$' := fun h => hu (h ▸ List.mem_cons_self)
      rw [List.cons_append, substitute_of_none paramMap (placeholderName_of_ne hc _),
        ih fun h => hu (List.mem_cons_of_mem c h)]
      rfl

theorem substitute_param {name : Bytes} (hname : ∀ c ∈ name, someCharacter c = true)
    (rest : Bytes) :
    substitute paramMap (byte '$' :: byte '\x7b' :: (name ++ byte '\x7d' :: rest)) =
      paramMap.value name ++ substitute paramMap rest := by
  have hclose : (byte '\x7d' :: rest).takeWhile someCharacter = [] :=
    List.takeWhile_cons_of_neg (by decide)
  have hskip : (byte '\x7b' :: (name ++ [byte '\x7d'])).length = name.length + 2 := by
    rw [List.length_cons, List.length_append, List.length_singleton]
  have hbehind : byte '\x7b' :: (name ++ byte '\x7d' :: rest) =
      (byte '\x7b' :: (name ++ [byte '\x7d'])) ++ rest := by simp
  have hfound := placeholderName_append hname hclose
  rw [List.head?_cons, if_pos rfl] at hfound
  rw [substitute, substituteFrom, hfound]
  simp only
  rw [hbehind, ← hskip, substituteFrom_skip]

/-- An open name that something else than a bracket ends is plain text. -/
theorem substitute_open {name : Bytes} (hname : ∀ c ∈ name, someCharacter c = true) {rest : Bytes}
    (hrest : rest.takeWhile someCharacter = []) (hclose : rest.head? ≠ some (byte '\x7d')) :
    substitute paramMap (byte '$' :: byte '\x7b' :: (name ++ rest)) =
      byte '$' :: byte '\x7b' :: (name ++ substitute paramMap rest) := by
  have hfound := placeholderName_append hname hrest
  rw [if_neg hclose] at hfound
  rw [substitute_of_none paramMap hfound, ← List.cons_append,
    substitute_plain paramMap (dollar_notMem hname)]
  rfl

theorem substitute_stop {name : Bytes} (hname : ∀ c ∈ name, someCharacter c = true) {c : UInt8}
    (hc : c ≠ byte '\x7d') (hstop : ¬someCharacter c = true) (rest : Bytes) :
    substitute paramMap (byte '$' :: byte '\x7b' :: (name ++ c :: rest)) =
      byte '$' :: byte '\x7b' :: (name ++ substitute paramMap (c :: rest)) :=
  substitute_open paramMap hname (List.takeWhile_cons_of_neg hstop)
    fun heq => hc (Option.some.inj heq)

end

theorem boundText_literals_append (paramMap : ParamMap) (text : Bytes) (pieces : List Piece) :
    boundText paramMap (literals text ++ pieces) = text ++ boundText paramMap pieces := by
  rw [boundText_append]
  congr 1
  induction text with
  | nil => rfl
  | cons c text ih => exact congrArg (c :: ·) ih

theorem boundText_cons (paramMap : ParamMap) (piece : Piece) (pieces : List Piece) :
    boundText paramMap (piece :: pieces) =
      piece.bound paramMap ++ boundText paramMap pieces := rfl

/-- What was read of an open name is one. -/
def NameOpen : Option Bytes → Prop
  | none => True
  | some name => ∀ c ∈ name, someCharacter c = true

theorem nameOpen_snoc {name : Bytes} (hname : NameOpen (some name)) {c : UInt8}
    (hc : someCharacter c = true) : NameOpen (some (name ++ [c])) := by
  intro x hx
  obtain hx | hx := List.mem_append.mp hx
  · exact hname x hx
  · rw [List.mem_singleton.mp hx]
    exact hc

theorem boundText_scanPieces (paramMap : ParamMap) {name : Option Bytes} {text : Bytes}
    (hname : NameOpen name) (h : overlooks name.isSome text = false) :
    boundText paramMap (scanPieces name text) = substitute paramMap (scanned name text) := by
  fun_induction scanPieces name text with
  | case1 name =>
      have htext := boundText_literals_append paramMap (byte '$' :: byte '\x7b' :: name) []
      have hclose : ([] : Bytes).head? ≠ some (byte '\x7d') := by simp
      have hopen := substitute_open paramMap hname rfl hclose
      rw [List.append_nil] at htext
      rw [scanned, htext, hopen]
      rfl
  | case2 => rfl
  | case3 name rest ih =>
      rw [boundText_cons, ih trivial h, scanned, scanned, substitute_param paramMap hname]
      rfl
  | case4 name c rest hc hsome ih =>
      rw [Option.isSome_some, overlooks, if_neg hc, if_pos hsome] at h
      rw [ih (nameOpen_snoc hname hsome) h, scanned, scanned, List.append_assoc]
      rfl
  | case5 name c rest hc hsome ih =>
      rw [Option.isSome_some, overlooks, if_neg hc, if_neg hsome, Bool.or_eq_false_iff] at h
      obtain ⟨hnone, hrest⟩ := h
      have hplain : placeholderName (c :: rest) = none :=
        Option.isNone_iff_eq_none.mp (Option.isSome_eq_false_iff.mp hnone)
      rw [boundText_literals_append, ih trivial hrest, scanned, scanned,
        substitute_stop paramMap hname hc hsome, substitute_of_none paramMap hplain]
      simp
  | case6 c => rfl
  | case7 c d rest hboth ih =>
      rw [Option.isSome_none, overlooks, if_pos hboth] at h
      obtain ⟨rfl, rfl⟩ := hboth
      exact ih (List.forall_mem_nil _) h
  | case8 c d rest hboth ih =>
      rw [Option.isSome_none, overlooks, if_neg hboth] at h
      have hnone := placeholderName_of_not hboth rest
      rw [boundText_cons, ih trivial h, scanned, scanned, substitute_of_none paramMap hnone]
      rfl

/-- A text that begins with a parameter leaves less than the text behind its first byte. -/
theorem length_substitute_lt {c : UInt8} {rest name : Bytes}
    (h : placeholderName (c :: rest) = some name) :
    (substitute ∅ (c :: rest)).length < (substitute ∅ rest).length := by
  obtain ⟨hname, more, hcons⟩ := eq_append_of_placeholderName h
  obtain ⟨rfl, rfl⟩ := List.cons_eq_cons.mp hcons
  have hclose : byte '$' ∉ [byte '\x7d'] := by decide
  have hplain : substitute ∅ (byte '\x7b' :: (name ++ byte '\x7d' :: more)) =
      (byte '\x7b' :: name) ++ ([byte '\x7d'] ++ substitute ∅ more) := by
    rw [← substitute_plain ∅ hclose, ← substitute_plain ∅ (dollar_notMem hname)]
    rfl
  have hvalue : ParamMap.value ∅ name = [] := rfl
  rw [substitute_param ∅ hname, hplain, hvalue]
  simp only [List.length_append, List.length_cons, List.length_nil]
  omega

/-- Without values the scanner leaves at least as much text as the substitution, and more if it
overlooks a parameter. -/
theorem length_substitute_empty_le {name : Option Bytes} {text : Bytes} (hname : NameOpen name) :
    (substitute ∅ (scanned name text)).length ≤ (boundText ∅ (scanPieces name text)).length ∧
      (overlooks name.isSome text = true →
        (substitute ∅ (scanned name text)).length <
          (boundText ∅ (scanPieces name text)).length) := by
  fun_induction scanPieces name text with
  | case1 name =>
      have hsame := @boundText_scanPieces ∅ (some name) [] hname rfl
      rw [scanPieces] at hsame
      rw [hsame]
      exact ⟨Nat.le_refl _, fun h => by cases h⟩
  | case2 => exact ⟨Nat.le_refl _, fun h => by cases h⟩
  | case3 name rest ih =>
      rw [Option.isSome_some, overlooks, if_pos rfl, boundText_cons, scanned,
        substitute_param ∅ hname]
      exact ih trivial
  | case4 name c rest hc hsome ih =>
      rw [Option.isSome_some, overlooks, if_neg hc, if_pos hsome]
      have hnext := ih (nameOpen_snoc hname hsome)
      rw [scanned, List.append_assoc] at hnext
      exact hnext
  | case5 name c rest hc hsome ih =>
      obtain ⟨hle, hlt⟩ := ih trivial
      rw [Option.isSome_some, overlooks, if_neg hc, if_neg hsome, boundText_literals_append,
        scanned, substitute_stop ∅ hname hc hsome]
      simp only [List.cons_append, List.append_assoc, List.length_cons, List.length_append]
      rw [scanned] at hle hlt
      cases hfound : placeholderName (c :: rest) with
      | none =>
          rw [substitute_of_none ∅ hfound, List.length_cons, Option.isSome_none, Bool.false_or]
          refine ⟨by omega, fun h => ?_⟩
          have hshorter := hlt h
          omega
      | some found =>
          have hlength := length_substitute_lt hfound
          exact ⟨by omega, fun _ => by omega⟩
  | case6 c => exact ⟨Nat.le_refl _, fun h => by cases h⟩
  | case7 c d rest hboth ih =>
      rw [Option.isSome_none, overlooks, if_pos hboth]
      obtain ⟨rfl, rfl⟩ := hboth
      exact ih (List.forall_mem_nil _)
  | case8 c d rest hboth ih =>
      rw [Option.isSome_none, overlooks, if_neg hboth]
      have hnone := placeholderName_of_not hboth rest
      obtain ⟨hle, hlt⟩ := ih trivial
      rw [boundText_cons, scanned, substitute_of_none ∅ hnone]
      exact ⟨Nat.succ_le_succ hle, fun h => Nat.succ_lt_succ (hlt h)⟩

/-- Binding replaces all parameters for every map if and only if no parameter begins where the
scanner gives up an open name. -/
theorem bind_eq_substitute_iff (engine : TemplateEngine) (hnul : 0 ∉ engine.templateFileContent)
    (hlength : engine.templateFileContent.length < 2 ^ 31) :
    (∀ paramMap, engine.bind paramMap = some (substitute paramMap engine.templateFileContent)) ↔
      overlooks false engine.templateFileContent = false := by
  have htext : engine.text = engine.templateFileContent := cString_of_notMem hnul
  have hbind (paramMap : ParamMap) : engine.bind paramMap =
      some (boundText paramMap (scanPieces none engine.templateFileContent)) := by
    rw [engine.bind_eq, engine.layout_eq_pieces (htext ▸ hlength), TemplateEngine.pieces, htext]
    rfl
  constructor
  · intro hall
    have hsame := Option.some.inj ((hbind ∅).symm.trans (hall ∅))
    refine Bool.eq_false_iff.mpr fun h => ?_
    have hlonger := (@length_substitute_empty_le none engine.templateFileContent trivial).2 h
    rw [hsame] at hlonger
    exact Nat.lt_irrefl _ hlonger
  · intro h paramMap
    rw [hbind]
    exact congrArg some (@boundText_scanPieces paramMap none _ trivial h)

def namePlain : TemplateEngine where
  templateFileContent := loadFile (bytes "a$\x7bx\x7db")
  params := [⟨1, bytes "x"⟩]
  templateRegexp := bytes "a(\\s*.+\\s*)b\n"
  compiled := by decide +kernel

theorem bind_namePlain :
    namePlain.bind (Finmap.singleton (bytes "x") (bytes "7")) =
      some (substitute (Finmap.singleton (bytes "x") (bytes "7")) namePlain.templateFileContent) :=
  (bind_eq_substitute_iff namePlain (by decide +kernel) (by decide +kernel)).mpr
    (by decide +kernel) _

/-- A parameter directly behind an opening that fails. -/
def nameOverlooked : TemplateEngine where
  templateFileContent := loadFile (bytes "$\x7b$\x7ba\x7d")
  params := []
  templateRegexp := bytes "$\x7b$\\\x7ba\\\x7d\n"
  compiled := by decide +kernel

theorem bind_nameOverlooked :
    nameOverlooked.bind (Finmap.singleton (bytes "a") (bytes "7")) =
        some (bytes "$\x7b$\x7ba\x7d\n") ∧
      substitute (Finmap.singleton (bytes "a") (bytes "7")) nameOverlooked.templateFileContent =
        bytes "$\x7b7\n" := by
  decide +kernel

end AdServer.Template
