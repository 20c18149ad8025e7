import AdServer.Url.Query

/-!
Templates. `compile` goes over the text with the name of a parameter that is still open: a
bracket closes it, any other character that no name has makes plain text of it. What it keeps are
the positions and names of the parameters and a regular expression for the bound text. The text
falls into pieces, one for each parameter and one for each other byte; positions and text are
those of the pieces.
-/
namespace AdServer.Template

open Url

def someCharacter (c : UInt8) : Bool :=
  (48 ≤ c ∧ c ≤ 57) ∨ (65 ≤ c ∧ c ≤ 90) ∨ (97 ≤ c ∧ c ≤ 122) ∨ c = byte '_' ∨ c = byte '.'

def inRegexpCharset (c : UInt8) : Bool :=
  c ∈ [byte '.', byte '\x7b', byte '\x7d', byte '[', byte ']', byte '(', byte ')', byte '\\',
    byte '|']

/-- `file::loadFile` of a file that can be read: a line end behind every line, the last one
included. -/
def loadFile (content : Bytes) : Bytes := content ++ [byte '\n']

structure TemplateParam where
  pos : Int
  param : Bytes
  deriving DecidableEq

structure Compiled where
  params : List TemplateParam := []
  templateRegexp : Bytes := []
  deriving DecidableEq

def Compiled.addText (text : Bytes) (compiled : Compiled) : Compiled :=
  { compiled with templateRegexp := text ++ compiled.templateRegexp }

def Compiled.addParam (param : TemplateParam) (compiled : Compiled) : Compiled :=
  ⟨param :: compiled.params, bytes "(\\s*.+\\s*)" ++ compiled.templateRegexp⟩

/-- The loop of `compile` at a position, with `paramStart` and the text from there on. `none` is
the exception at the end. -/
def compileFrom (p : Nat) : Option (Nat × Bytes) → Bytes → Option Compiled
  | some _, [] => none
  | none, [] => some {}
  | some (paramStart, name), c :: rest =>
    if c = byte '\x7d' then
      (compileFrom (p + 1) none rest).map (·.addParam ⟨toInt32 (paramStart - 2), name⟩)
    else if someCharacter c then compileFrom (p + 1) (some (paramStart, name ++ [c])) rest
    else
      (compileFrom (p + 1) none rest).map
        (·.addText (byte '$' :: byte '\x7b' :: (name ++ [c])))
  | none, [c] =>
    (compileFrom (p + 1) none []).map
      (·.addText (if inRegexpCharset c then [byte '\\', c] else [c]))
  | none, c :: d :: rest =>
    if c = byte '$' ∧ d = byte '\x7b' then compileFrom (p + 2) (some (p + 2, [])) rest
    else
      (compileFrom (p + 1) none (d :: rest)).map
        (·.addText (if inRegexpCharset c then [byte '\\', c] else [c]))

def compile (templateFileContent : Bytes) : Option Compiled :=
  compileFrom 0 none (cString templateFileContent)

/-- An object that was made of a file. -/
structure TemplateEngine extends Compiled where
  templateFileContent : Bytes
  compiled : compile templateFileContent = some toCompiled

inductive Piece
  | literal (c : UInt8)
  | param (name : Bytes)
  deriving DecidableEq

def literals (text : Bytes) : List Piece := text.map .literal

/-- The pieces of a text, with the name of the parameter that is open. -/
def scanPieces : Option Bytes → Bytes → List Piece
  | some name, [] => literals (byte '$' :: byte '\x7b' :: name)
  | none, [] => []
  | some name, c :: rest =>
    if c = byte '\x7d' then .param name :: scanPieces none rest
    else if someCharacter c then scanPieces (some (name ++ [c])) rest
    else literals (byte '$' :: byte '\x7b' :: (name ++ [c])) ++ scanPieces none rest
  | none, [c] => [.literal c]
  | none, c :: d :: rest =>
    if c = byte '$' ∧ d = byte '\x7b' then scanPieces (some []) rest
    else .literal c :: scanPieces none (d :: rest)

def Piece.source : Piece → Bytes
  | .literal c => [c]
  | .param name => byte '$' :: byte '\x7b' :: (name ++ [byte '\x7d'])

def sourceText (pieces : List Piece) : Bytes := (pieces.map Piece.source).flatten

/-- The parameters of pieces that begin at a position. -/
def paramsAt (p : Nat) : List Piece → List TemplateParam
  | [] => []
  | .literal _ :: pieces => paramsAt (p + 1) pieces
  | .param name :: pieces => ⟨toInt32 p, name⟩ :: paramsAt (p + name.length + 3) pieces

theorem sourceText_literals_append (text : Bytes) (pieces : List Piece) :
    sourceText (literals text ++ pieces) = text ++ sourceText pieces := by
  rw [sourceText, literals, List.map_append, List.flatten_append, List.map_map]
  congr 1
  induction text with
  | nil => rfl
  | cons c text ih => exact congrArg (c :: ·) ih

theorem paramsAt_literals_append (p : Nat) (text : Bytes) (pieces : List Piece) :
    paramsAt p (literals text ++ pieces) = paramsAt (p + text.length) pieces := by
  induction text generalizing p with
  | nil => rfl
  | cons c text ih =>
      rw [List.length_cons, Nat.add_comm text.length, ← Nat.add_assoc]
      exact ih (p + 1)

/-- The part of the text that the pieces stand for. -/
def scanned : Option Bytes → Bytes → Bytes
  | none, text => text
  | some name, text => byte '$' :: byte '\x7b' :: (name ++ text)

theorem sourceText_cons (piece : Piece) (pieces : List Piece) :
    sourceText (piece :: pieces) = piece.source ++ sourceText pieces := rfl

theorem sourceText_scanPieces (name : Option Bytes) (text : Bytes) :
    sourceText (scanPieces name text) = scanned name text := by
  fun_induction scanPieces name text with
  | case1 name =>
      have h := sourceText_literals_append (byte '$' :: byte '\x7b' :: name) []
      rw [List.append_nil] at h
      exact h
  | case2 => rfl
  | case3 name rest ih =>
      rw [sourceText_cons, ih]
      simp [Piece.source, scanned]
  | case4 name c rest _ _ ih =>
      rw [ih]
      simp [scanned]
  | case5 name c rest _ _ ih =>
      rw [sourceText_literals_append, ih]
      simp [scanned]
  | case6 c => rfl
  | case7 c d rest h ih =>
      obtain ⟨rfl, rfl⟩ := h
      exact ih
  | case8 c d rest _ ih =>
      rw [sourceText_cons, ih]
      rfl

/-- Where the pieces begin. -/
def scanStart (p : Nat) : Option (Nat × Bytes) → Nat
  | none => p
  | some (paramStart, _) => paramStart - 2

/-- The position is the one behind what was read of a name. -/
def AtName (p : Nat) : Option (Nat × Bytes) → Prop
  | none => True
  | some (paramStart, name) => 2 ≤ paramStart ∧ p = paramStart + name.length

theorem params_compileFrom {p : Nat} {name : Option (Nat × Bytes)} {text : Bytes}
    {compiled : Compiled} (hp : AtName p name) (h : compileFrom p name text = some compiled) :
    compiled.params = paramsAt (scanStart p name) (scanPieces (name.map Prod.snd) text) := by
  fun_induction compileFrom p name text generalizing compiled with
  | case1 p name => cases h
  | case2 p =>
      cases h
      rfl
  | case3 p paramStart name rest ih =>
      obtain ⟨hstart, rfl⟩ := hp
      obtain ⟨inner, hinner, rfl⟩ := Option.map_eq_some_iff.mp h
      have hnext : paramStart - 2 + name.length + 3 = paramStart + name.length + 1 := by omega
      have htail := ih trivial hinner
      rw [Option.map_some, scanPieces, if_pos rfl, paramsAt, scanStart, hnext]
      exact congrArg _ htail
  | case4 p paramStart name c rest hc hsome ih =>
      obtain ⟨hstart, rfl⟩ := hp
      have hname : AtName (paramStart + name.length + 1) (some (paramStart, name ++ [c])) :=
        ⟨hstart, by rw [List.length_append, List.length_singleton, Nat.add_assoc]⟩
      rw [Option.map_some, scanPieces, if_neg hc, if_pos hsome]
      exact ih hname h
  | case5 p paramStart name c rest hc hsome ih =>
      obtain ⟨hstart, rfl⟩ := hp
      obtain ⟨inner, hinner, rfl⟩ := Option.map_eq_some_iff.mp h
      have hnext : paramStart - 2 + (byte '$' :: byte '\x7b' :: (name ++ [c])).length =
          paramStart + name.length + 1 := by
        simp only [List.length_cons, List.length_append, List.length_nil]
        omega
      have htail := ih trivial hinner
      rw [Option.map_some, scanPieces, if_neg hc, if_neg hsome, paramsAt_literals_append,
        scanStart, hnext]
      exact htail
  | case6 p c =>
      cases h
      rfl
  | case7 p c d rest hboth ih =>
      have hname : AtName (p + 2) (some (p + 2, [])) := ⟨Nat.le_add_left 2 p, rfl⟩
      rw [Option.map_none, scanPieces, if_pos hboth]
      exact ih hname h
  | case8 p c d rest hboth ih =>
      obtain ⟨inner, hinner, rfl⟩ := Option.map_eq_some_iff.mp h
      have htail := ih trivial hinner
      rw [Option.map_none, scanPieces, if_neg hboth]
      exact htail

namespace TemplateEngine

variable (engine : TemplateEngine)

/-- The text that the loops go over. -/
def text : Bytes := cString engine.templateFileContent

def pieces : List Piece := scanPieces none engine.text

theorem sourceText_pieces : sourceText engine.pieces = engine.text :=
  sourceText_scanPieces none engine.text

theorem params_eq : engine.params = paramsAt 0 engine.pieces :=
  @params_compileFrom 0 none _ _ trivial engine.compiled

end TemplateEngine

end AdServer.Template
