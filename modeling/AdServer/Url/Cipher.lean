import Mathlib.Data.List.Infix
import AdServer.Library.Base64
import AdServer.Url.Deserialize
import AdServer.Url.Percent
import AdServer.Url.Query

/-!
`URLHelper`: ciphered parameters, their text and the way back with its retry.
The Base64 coder belongs to a library; it is a parameter, and a result that needs
a fact about it names the fact. Each call of `urlDecode_f` meets its own stray
memory.
-/
namespace AdServer.Url

/-- The Base64 coder of the crypto library; `none` is an exception, which
`cypher::base64decode` reports as `false`. -/
structure Base64Lib where
  encode : Bytes → Bytes
  decode : Bytes → Option Bytes

def isBase64Char (c : UInt8) : Bool :=
  (byte 'A' ≤ c ∧ c ≤ byte 'Z') ∨ (byte 'a' ≤ c ∧ c ≤ byte 'z') ∨ (byte '0' ≤ c ∧ c ≤ byte '9') ∨
    c = byte '+' ∨ c = byte '/' ∨ c = byte '=' ∨ c = byte '\n'

structure Base64Lib.Lawful (lib : Base64Lib) : Prop where
  inverts : ∀ input, lib.decode (lib.encode input) = some input
  alphabet : ∀ input, ∀ c ∈ lib.encode input, isBase64Char c = true

def cryptoBase64 : Base64Lib where
  encode := Base64.encode
  decode := fun text => some (Base64.decode text)

theorem cryptoBase64_lawful : cryptoBase64.Lawful where
  inverts := fun input => congrArg some (Base64.decode_encode input)
  alphabet := by
    have hdigit : ∀ d : Fin 64, isBase64Char (Base64.digitChar d) = true := by decide
    intro input c hc
    obtain rfl | rfl | ⟨d, hd, rfl⟩ := Base64.mem_encode hc
    · decide
    · decide
    · exact hdigit ⟨d, hd⟩

structure URLHelper where
  paramMap : ParamMap
  macroParamMap : ParamMap
  protocolName : Bytes
  host : Bytes
  port : Bytes
  path : Bytes

def macroHolder : Bytes := bytes "_mh_"

def encodeHolder : Bytes := bytes "_q_"

def presetBufSize : Nat := 2048

def macroText (order : List (Bytes × Bytes)) : Bytes :=
  order.flatMap fun entry => bytes "%7c" ++ entry.1 ++ bytes "%7c" ++ entry.2

/-- `cipherParam`. `order` is the traversal of the macros after `_mh_` was set. -/
def cipherParam (lib : Base64Lib) (stray : Stray) (table : List ParamBindingItem)
    (order : List (Bytes × Bytes)) (helper : URLHelper) : Except Fault (URLHelper × Bytes) :=
  match urlParamSerialize table helper.paramMap with
  | .error fault => .error fault
  | .ok (encodeParam, mh) =>
    let base64Param := lib.encode encodeParam
    if ∀ write ∈ urlEncodeWrites stray 0 base64Param, write.1 < presetBufSize then
      .ok ({ helper with macroParamMap := Finmap.insert macroHolder mh helper.macroParamMap },
        encodeHolder ++ bytes "=" ++ (urlEncode_f stray base64Param ++ macroText order ++ bytes "%7c"))
    else .error .overrun

def findFrom (str pattern : Bytes) (pos : Nat) : Option Nat :=
  (List.range (str.length + 1)).find? fun i => pos ≤ i ∧ pattern <+: str.drop i

def urlReplaceAllLoop (pattern replacement : Bytes) : Nat → Bytes → Nat → Option Bytes
  | 0, _, _ => none
  | fuel + 1, str, startPos =>
    match findFrom str pattern startPos with
    | none => some str
    | some i =>
      urlReplaceAllLoop pattern replacement fuel
        (str.take i ++ replacement ++ str.drop (i + pattern.length)) i

/-- `url_replace_all`; `none` when it is still running after one round for each
character. -/
def urlReplaceAll (str pattern replacement : Bytes) : Option Bytes :=
  urlReplaceAllLoop pattern replacement (str.length + 1) str 0

inductive StdException
  | url (e : URLException)
  | lengthError
  deriving DecidableEq, Repr

/-- `data` after one percent decoding, or two if an encoded `|` remains. -/
def safeText (stray₁ stray₂ : Stray) (data : Bytes) : Bytes :=
  let safeData := urlDecode_f stray₁ data
  if bytes "%7c" <:+: safeData then urlDecode_f stray₂ safeData else safeData

def insertTokens : List Bytes → ParamMap → ParamMap
  | name :: value :: rest, m => insertTokens rest (m.insertNew name value)
  | _, m => m

def verify (vc : BitVec 64) (m : ParamMap) : ParamMap :=
  let inputVc := m.value macroHolder
  if inputVc ≠ hexText vc then ∅ else m

/-- The Base64 text found under `_q_` in the main part; `none` is an exception. -/
def cipherQuery (text : Bytes) : Option Bytes :=
  (getParamv2 ∅ ((text.splitOn (byte '|')).headD []) (byte '&')).map fun m => m.value encodeHolder

/-- The body of the `try` block of `processParamData`. -/
def processParamBody (lib : Base64Lib) (stray₁ stray₂ : Stray) (table : List ParamBindingItem)
    (data : Bytes) (encoded : Bool) : EStateM StdException ParamMap Bool := fun m =>
  if encoded then
    let text := safeText stray₁ stray₂ data
    match cipherQuery text with
    | none => .error .lengthError m
    | some mainPart =>
      match lib.decode mainPart with
      | none => .ok false m
      | some base64param =>
        match urlParamDeserialize table base64param m with
        | .error e m' => .error (.url e) m'
        | .ok vc m' => .ok true (verify vc (insertTokens (text.splitOn (byte '|')).tail m'))
  else
    match getParamv2 m data (byte '&') with
    | none => .error .lengthError m
    | some m' => .ok true m'

def processParamData (lib : Base64Lib) (stray₁ stray₂ : Stray) (table : List ParamBindingItem)
    (data : Bytes) (encoded : Bool) (m : ParamMap) : Bool × ParamMap :=
  match processParamBody lib stray₁ stray₂ table data encoded m with
  | .ok result m' => (result, m')
  | .error _ _ => (false, ∅)

def retryText (stray : Stray) (data : Bytes) : Bytes :=
  let escapeData :=
    if bytes "-7c" <:+: data then (urlReplaceAll data (bytes "-") (bytes "%")).getD data else data
  urlDecode_f stray escapeData

def processParamDataWithRetry (lib : Base64Lib) (strays : Nat → Stray)
    (table : List ParamBindingItem) (data : Bytes) (encoded : Bool) (m : ParamMap) : ParamMap :=
  if 2048 ≤ data.length then m
  else
    let first := processParamData lib (strays 0) (strays 1) table data encoded m
    if first.1 then first.2
    else
      (processParamData lib (strays 3) (strays 4) table (retryText (strays 2) data) encoded first.2).2

end AdServer.Url
