import AdServer.Template.Compile
import AdServer.Url.Serialize

/-!
Binding a template. Both functions walk over the text with the list of parameters: a byte before
the next position is put out, at a position the value of the parameter is put out and its text is
stepped over. `bind` appends to a stream; `bindFast` writes into a string of a size that counts
each value of the map once.
-/
namespace AdServer.Template

open Url

section
variable {σ : Type} (params : List TemplateParam) (lit : σ → UInt8 → σ) (put : σ → Bytes → σ)

/-- `paramIdx` and `currentPos` after a parameter. -/
def nextParam (paramIdx : Int) (currentPos : TemplateParam) : Int × TemplateParam :=
  if paramIdx + 1 < toInt32 params.length then
    (paramIdx + 1, params.getD (paramIdx + 1).toNat currentPos)
  else (paramIdx, { currentPos with pos := 0x7FFFFFFF })

/-- The loop at `p`, with as many bytes to step over. `none` is a read behind the string. -/
def walk (pos paramIdx : Int) (currentPos : TemplateParam) : Nat → Bytes → σ → Option σ
  | _, [], _ => none
  | skip + 1, _ :: p, out => walk pos paramIdx currentPos skip p out
  | 0, c :: p, out =>
    if pos < currentPos.pos ∧ c ≠ 0 then
      walk (wrapInt32 (pos + 1)) paramIdx currentPos 0 p (lit out c)
    else if c = 0 then some out
    else
      let next := nextParam params paramIdx currentPos
      walk (wrapInt32 (pos + (currentPos.param.length + 3))) next.1 next.2
        (currentPos.param.length + 2) p (put out currentPos.param)

/-- `paramIdx` and `currentPos` at the start. -/
def firstParam : Int × TemplateParam :=
  match params with
  | [] => (-1, ⟨0x7FFFFFFF, []⟩)
  | param :: _ => (0, param)

def TemplateEngine.run (engine : TemplateEngine) (out : σ) : Option σ :=
  let first := firstParam engine.params
  walk engine.params lit put 0 first.1 first.2 0 (engine.templateFileContent ++ [0]) out

end

def TemplateEngine.bind (engine : TemplateEngine) (paramMap : ParamMap) : Option Bytes :=
  engine.run (fun out c => out ++ [c]) (fun out name => out ++ paramMap.value name) []

/-- One byte more in a string of a size. `none` is a write behind it. -/
def writeByte (size : Nat) (out : Option Bytes) (c : UInt8) : Option Bytes :=
  out.bind fun written => if written.length < size then some (written ++ [c]) else none

/-- `size` after the loop over the map, which comes in some order. -/
def outputSize (templateFileContent : Bytes) (order : List (Bytes × Bytes)) : Int :=
  order.foldl (fun size entry => wrapInt32 (size + entry.2.length))
    (toInt32 templateFileContent.length)

def TemplateEngine.bindFast (engine : TemplateEngine) (paramMap : ParamMap)
    (order : List (Bytes × Bytes)) : Except Fault Bytes :=
  let size := wrapInt32 (outputSize engine.templateFileContent order + 1)
  if size < 0 then .error .exception
  else
    match engine.run (writeByte size.toNat)
        (fun out name => (paramMap.value name).foldl (writeByte size.toNat) out) (some []) with
    | some (some output) => .ok output
    | _ => .error .outside

/-- The pieces that the loop goes through. -/
def TemplateEngine.layout (engine : TemplateEngine) : Option (List Piece) :=
  engine.run (fun pieces c => pieces ++ [.literal c])
    (fun pieces name => pieces ++ [.param name]) []

def Piece.bound (paramMap : ParamMap) : Piece → Bytes
  | .literal c => [c]
  | .param name => paramMap.value name

def boundText (paramMap : ParamMap) (pieces : List Piece) : Bytes :=
  (pieces.map (Piece.bound paramMap)).flatten

section
variable {σ τ : Type} {params : List TemplateParam} {lit : σ → UInt8 → σ} {put : σ → Bytes → σ}
  {lit' : τ → UInt8 → τ} {put' : τ → Bytes → τ} (f : σ → τ)
  (hlit : ∀ out c, f (lit out c) = lit' (f out) c)
  (hput : ∀ out name, f (put out name) = put' (f out) name)
include hlit hput

/-- The way of the loop does not depend on what it puts out. -/
theorem walk_map (pos paramIdx : Int) (currentPos : TemplateParam) (skip : Nat) (p : Bytes)
    (out : σ) :
    walk params lit' put' pos paramIdx currentPos skip p (f out) =
      (walk params lit put pos paramIdx currentPos skip p out).map f := by
  fun_induction walk params lit put pos paramIdx currentPos skip p out with
  | case1 => rw [walk]; rfl
  | case2 pos paramIdx currentPos skip c p out ih => rw [walk, ih]
  | case3 pos paramIdx currentPos c p out hbefore ih => rw [walk, if_pos hbefore, ← hlit, ih]
  | case4 pos paramIdx currentPos p out hbefore => rw [walk, if_neg hbefore, if_pos rfl]; rfl
  | case5 pos paramIdx currentPos c p out hbefore hnul next ih =>
      rw [walk, if_neg hbefore, if_neg hnul, ← hput]
      exact ih

theorem TemplateEngine.run_map (engine : TemplateEngine) (out : σ) :
    engine.run lit' put' (f out) = (engine.run lit put out).map f :=
  walk_map f hlit hput _ _ _ _ _ _

end

theorem boundText_append (paramMap : ParamMap) (pieces pieces' : List Piece) :
    boundText paramMap (pieces ++ pieces') =
      boundText paramMap pieces ++ boundText paramMap pieces' := by
  rw [boundText, List.map_append, List.flatten_append]
  rfl

theorem boundText_singleton (paramMap : ParamMap) (piece : Piece) :
    boundText paramMap [piece] = piece.bound paramMap := List.append_nil _

/-- A text that was written to a string of a size. -/
def written (size : Nat) (text : Bytes) : Option Bytes :=
  if text.length ≤ size then some text else none

theorem writeByte_written (size : Nat) (text : Bytes) (c : UInt8) :
    writeByte size (written size text) c = written size (text ++ [c]) := by
  have hlength : (text ++ [c]).length = text.length + 1 := List.length_append
  rw [written, written, hlength]
  split
  · rfl
  · rw [if_neg (by omega)]
    rfl

theorem foldl_writeByte_written (size : Nat) (text value : Bytes) :
    value.foldl (writeByte size) (written size text) = written size (text ++ value) := by
  induction value generalizing text with
  | nil => rw [List.append_nil]; rfl
  | cons c value ih => rw [List.foldl_cons, writeByte_written, ih, ← List.append_cons]

section
variable (engine : TemplateEngine) (paramMap : ParamMap)

theorem TemplateEngine.bind_eq : engine.bind paramMap = engine.layout.map (boundText paramMap) := by
  refine engine.run_map (boundText paramMap) (fun pieces c => ?_) (fun pieces name => ?_) []
  · rw [boundText_append, boundText_singleton]
    rfl
  · rw [boundText_append, boundText_singleton]
    rfl

theorem TemplateEngine.run_writeByte (size : Nat) :
    engine.run (writeByte size)
        (fun out name => (paramMap.value name).foldl (writeByte size) out) (some []) =
      engine.layout.map fun pieces => written size (boundText paramMap pieces) := by
  refine engine.run_map (fun pieces => written size (boundText paramMap pieces))
    (fun pieces c => ?_) (fun pieces name => ?_) []
  · rw [boundText_append, boundText_singleton, writeByte_written]
    rfl
  · rw [boundText_append, boundText_singleton, foldl_writeByte_written]
    rfl

/-- The bytes that pieces need, a parameter at each of its places. -/
def neededSize (pieces : List Piece) : Nat :=
  (pieces.map fun piece => (piece.bound paramMap).length).sum

theorem length_boundText (pieces : List Piece) :
    (boundText paramMap pieces).length = neededSize paramMap pieces := by
  rw [boundText, List.length_flatten, List.map_map]
  rfl

theorem TemplateEngine.bindFast_eq_bind_layout_iff (order : List (Bytes × Bytes)) :
    (∃ text, engine.bind paramMap = some text ∧ engine.bindFast paramMap order = .ok text) ↔
      ∃ pieces, engine.layout = some pieces ∧
        (neededSize paramMap pieces : Int) ≤
          wrapInt32 (outputSize engine.templateFileContent order + 1) := by
  rw [engine.bind_eq paramMap, bindFast]
  generalize wrapInt32 (outputSize engine.templateFileContent order + 1) = size
  simp only [engine.run_writeByte paramMap]
  cases engine.layout with
  | none =>
      refine iff_of_false ?_ ?_
      · rintro ⟨text, h, -⟩
        cases h
      · rintro ⟨pieces, h, -⟩
        cases h
  | some pieces =>
      have hlength := length_boundText paramMap pieces
      by_cases hsize : size < 0
      · rw [if_pos hsize]
        refine iff_of_false ?_ ?_
        · rintro ⟨text, -, h⟩
          cases h
        · rintro ⟨pieces', -, h⟩
          omega
      · simp only [hsize, if_false, Option.map_some]
        by_cases hfits : (boundText paramMap pieces).length ≤ size.toNat
        · have hwritten : written size.toNat (boundText paramMap pieces) = some _ := if_pos hfits
          simp only [hwritten]
          exact iff_of_true ⟨_, rfl, rfl⟩ ⟨pieces, rfl, by omega⟩
        · have hwritten : written size.toNat (boundText paramMap pieces) = none := if_neg hfits
          simp only [hwritten]
          refine iff_of_false ?_ ?_
          · rintro ⟨text, -, h⟩
            cases h
          · rintro ⟨pieces', h, hle⟩
            cases h
            omega

end

section
variable {σ : Type} {params : List TemplateParam} {lit : σ → UInt8 → σ} {put : σ → Bytes → σ}

/-- What a piece puts out. -/
def Piece.emit (lit : σ → UInt8 → σ) (put : σ → Bytes → σ) (out : σ) : Piece → σ
  | .literal c => lit out c
  | .param name => put out name

/-- The parameters from `currentPos` on. -/
def AtParams (params : List TemplateParam) (paramIdx : Int) (currentPos : TemplateParam) :
    List TemplateParam → Prop
  | [] => currentPos.pos = 0x7FFFFFFF
  | param :: rest => currentPos = param ∧ ∃ k : Nat, paramIdx + 1 = k ∧ params.drop k = rest

theorem atParams_firstParam :
    AtParams params (firstParam params).1 (firstParam params).2 params := by
  cases params with
  | nil => rfl
  | cons param rest => exact ⟨rfl, 1, rfl, rfl⟩

theorem AtParams.nextParam (hsize : toInt32 params.length = params.length) {paramIdx : Int}
    {currentPos param : TemplateParam} {rest : List TemplateParam}
    (h : AtParams params paramIdx currentPos (param :: rest)) :
    AtParams params (nextParam params paramIdx currentPos).1
      (nextParam params paramIdx currentPos).2 rest := by
  obtain ⟨-, k, hk, hrest⟩ := h
  rw [Template.nextParam, hsize, hk, Int.toNat_natCast]
  cases rest with
  | nil =>
      have hlength : params.length ≤ k := List.drop_eq_nil_iff.mp hrest
      rw [if_neg (by omega)]
      rfl
  | cons next rest =>
      have hget : params[k]? = some next := by
        rw [← List.head?_drop, hrest]
        rfl
      have hlength : k < params.length := (List.getElem?_eq_some_iff.mp hget).1
      rw [if_pos (by omega)]
      refine ⟨?_, k + 1, rfl, ?_⟩
      · rw [List.getD_eq_getElem?_getD, hget]
        rfl
      · rw [← List.drop_drop, hrest]
        rfl

theorem walk_skip (pos paramIdx : Int) (currentPos : TemplateParam) (u p : Bytes) (out : σ) :
    walk params lit put pos paramIdx currentPos u.length (u ++ p) out =
      walk params lit put pos paramIdx currentPos 0 p out := by
  induction u with
  | nil => rfl
  | cons c u ih => rw [List.length_cons, List.cons_append, walk, ih]

theorem length_source_literal (c : UInt8) : (Piece.literal c).source.length = 1 := rfl

theorem length_source_param (name : Bytes) :
    (Piece.param name).source.length = name.length + 3 := by
  rw [Piece.source, List.length_cons, List.length_cons, List.length_append, List.length_singleton]

theorem le_pos_of_mem_paramsAt {p : Nat} {pieces : List Piece} {param : TemplateParam}
    (hlength : p + (sourceText pieces).length < 2 ^ 31) (h : param ∈ paramsAt p pieces) :
    (p : Int) ≤ param.pos := by
  induction pieces generalizing p with
  | nil => cases h
  | cons piece pieces ih =>
      rw [sourceText_cons, List.length_append] at hlength
      cases piece with
      | literal c =>
          rw [length_source_literal] at hlength
          have hrest := ih (by omega) h
          omega
      | param name =>
          rw [length_source_param] at hlength
          obtain rfl | h := List.mem_cons.mp h
          · rw [toInt32_of_lt (by omega)]
          · have hrest := ih (by omega) h
            omega

/-- Before a byte of plain text the next position is not reached. -/
theorem AtParams.lt_pos {p : Nat} {pieces : List Piece} {paramIdx : Int}
    {currentPos : TemplateParam} (hlength : p + 1 + (sourceText pieces).length < 2 ^ 31)
    (h : AtParams params paramIdx currentPos (paramsAt (p + 1) pieces)) :
    (p : Int) < currentPos.pos := by
  cases hparams : paramsAt (p + 1) pieces with
  | nil =>
      rw [hparams] at h
      have hpos : currentPos.pos = 0x7FFFFFFF := h
      omega
  | cons param rest =>
      have hle := le_pos_of_mem_paramsAt hlength (hparams ▸ List.mem_cons_self)
      rw [hparams] at h
      rw [h.1]
      omega

/-- The loop goes through the pieces of the text. -/
theorem walk_pieces (hsize : toInt32 params.length = params.length) {p : Nat}
    {pieces : List Piece} {paramIdx : Int} {currentPos : TemplateParam}
    (hlength : p + (sourceText pieces).length < 2 ^ 31) (hnul : 0 ∉ sourceText pieces)
    (hparams : AtParams params paramIdx currentPos (paramsAt p pieces)) (more : Bytes) (out : σ) :
    walk params lit put p paramIdx currentPos 0 (sourceText pieces ++ 0 :: more) out =
      some (pieces.foldl (Piece.emit lit put) out) := by
  induction pieces generalizing p paramIdx currentPos out with
  | nil =>
      rw [sourceText, List.map_nil, List.flatten_nil, List.nil_append, walk,
        if_neg fun h => h.2 rfl, if_pos rfl]
      rfl
  | cons piece pieces ih =>
      rw [sourceText_cons] at hlength hnul ⊢
      rw [List.length_append] at hlength
      obtain ⟨hfirst, hrest⟩ := not_or.mp (mt List.mem_append.mpr hnul)
      cases piece with
      | literal c =>
          rw [length_source_literal] at hlength
          have hc : c ≠ 0 := fun h => hfirst (h ▸ List.mem_cons_self)
          have hpos := AtParams.lt_pos (by omega) hparams
          have hnext : wrapInt32 ((p : Int) + 1) = (p + 1 : Nat) :=
            wrapInt32_eq_self_iff.mpr (by omega)
          rw [Piece.source, List.append_assoc, List.singleton_append, walk, if_pos ⟨hpos, hc⟩,
            hnext, ih (by omega) hrest hparams]
          rfl
      | param name =>
          rw [length_source_param] at hlength
          obtain ⟨hcurrent, -⟩ := id hparams
          have hpos : currentPos.pos = p := by
            rw [hcurrent, toInt32_of_lt (by omega)]
          have hname : currentPos.param = name := by rw [hcurrent]
          have hnext : wrapInt32 ((p : Int) + (name.length + 3)) = (p + name.length + 3 : Nat) :=
            wrapInt32_eq_self_iff.mpr (by omega)
          have hskip : (byte '\x7b' :: (name ++ [byte '\x7d'])).length = name.length + 2 := by
            rw [List.length_cons, List.length_append, List.length_singleton]
          have hcons : (Piece.param name).source ++ sourceText pieces ++ 0 :: more =
              byte '$' :: ((byte '\x7b' :: (name ++ [byte '\x7d'])) ++
                (sourceText pieces ++ 0 :: more)) := by
            rw [Piece.source, List.append_assoc]
            rfl
          rw [hcons, walk, if_neg (by omega), if_neg (by decide), hname, hnext, ← hskip, walk_skip,
            ih (by omega) hrest (hparams.nextParam hsize)]
          rfl

end

theorem length_paramsAt_le (p : Nat) (pieces : List Piece) :
    (paramsAt p pieces).length ≤ (sourceText pieces).length := by
  induction pieces generalizing p with
  | nil => exact Nat.le_refl 0
  | cons piece pieces ih =>
      rw [sourceText_cons, List.length_append]
      cases piece with
      | literal c =>
          have hrest := ih (p + 1)
          rw [length_source_literal, paramsAt]
          omega
      | param name =>
          have hrest := ih (p + name.length + 3)
          rw [length_source_param, paramsAt, List.length_cons]
          omega

/-- The loops go through the pieces that the scanner has found, in texts that an `int` can
count. -/
theorem TemplateEngine.layout_eq_pieces (engine : TemplateEngine)
    (hlength : engine.text.length < 2 ^ 31) : engine.layout = some engine.pieces := by
  have hsource := engine.sourceText_pieces
  have hsize : toInt32 engine.params.length = engine.params.length := by
    have hle := length_paramsAt_le 0 engine.pieces
    rw [engine.params_eq]
    exact toInt32_of_lt (by rw [hsource] at hle; omega)
  have hfirst : AtParams engine.params (firstParam engine.params).1 (firstParam engine.params).2
      (paramsAt 0 engine.pieces) := by
    rw [← engine.params_eq]
    exact atParams_firstParam
  have hcopy (pieces done : List Piece) : pieces.foldl (Piece.emit
      (fun pieces c => pieces ++ [.literal c]) (fun pieces name => pieces ++ [.param name])) done =
        done ++ pieces := by
    induction pieces generalizing done with
    | nil => rw [List.append_nil]; rfl
    | cons piece pieces ih =>
        rw [List.foldl_cons, ih, List.append_cons]
        cases piece <;> rfl
  obtain ⟨more, hmemory⟩ := exists_append_nul engine.templateFileContent []
  rw [layout, run, hmemory, ← text, ← hsource]
  refine (walk_pieces hsize ?_ ?_ hfirst more []).trans (congrArg some (hcopy engine.pieces []))
  · rw [hsource, Nat.zero_add]
    exact hlength
  · rw [hsource]
    exact zero_notMem_cString _

/-- The fast binding stays inside its string and gives the text of the plain one if and only if
the pieces of the template, with the value of a parameter at each of its places, are not longer
than the string, whose size has each value once. -/
theorem TemplateEngine.bindFast_eq_bind_iff (engine : TemplateEngine)
    (hlength : engine.text.length < 2 ^ 31) (paramMap : ParamMap) (order : List (Bytes × Bytes)) :
    (∃ text, engine.bind paramMap = some text ∧ engine.bindFast paramMap order = .ok text) ↔
      (neededSize paramMap engine.pieces : Int) ≤
        wrapInt32 (outputSize engine.templateFileContent order + 1) := by
  rw [engine.bindFast_eq_bind_layout_iff paramMap order, engine.layout_eq_pieces hlength]
  simp only [Option.some.injEq, exists_eq_left']

/-- A parameter used twice. -/
def twoPlaces : TemplateEngine where
  templateFileContent := loadFile (bytes "$\x7ba\x7d$\x7ba\x7d")
  params := [⟨0, bytes "a"⟩, ⟨4, bytes "a"⟩]
  templateRegexp := bytes "(\\s*.+\\s*)(\\s*.+\\s*)\n"
  compiled := by decide +kernel

theorem bindFast_twoPlaces_short :
    ∃ text, twoPlaces.bind (Finmap.singleton (bytes "a") (bytes "xyz")) = some text ∧
      twoPlaces.bindFast (Finmap.singleton (bytes "a") (bytes "xyz")) [(bytes "a", bytes "xyz")] =
        .ok text :=
  (twoPlaces.bindFast_eq_bind_iff (by decide +kernel) _ _).mpr (by decide +kernel)

/-- A value of ten bytes. -/
theorem bindFast_twoPlaces :
    twoPlaces.bind (Finmap.singleton (bytes "a") (List.replicate 10 120)) =
        some (List.replicate 20 120 ++ [byte '\n']) ∧
      twoPlaces.bindFast (Finmap.singleton (bytes "a") (List.replicate 10 120))
        [(bytes "a", List.replicate 10 120)] = .error .outside := by
  decide +kernel

end AdServer.Template
