import AdServer.Url.Serialize

/-!
The reader of serialised parameters: `numberDecode`, `decodeUrlParamNum`,
`decodeUrlParamStr` and `urlParamDeserialize`. A read pointer with its boundary
is the list of the bytes between them. The 64-bit sum of `numberDecode` wraps,
and `limit` is an `int`. The map is filled by reference, so it keeps the entries
inserted before an exception.
-/
namespace AdServer.Url

/-- `while (i < limit && buf[i] > 0x7F) i++`. -/
def countContinuation (limit : Int) : Bytes → Nat → Nat
  | [], i => i
  | b :: bs, i => if (i : Int) < limit ∧ 0x7F < b then countContinuation limit bs (i + 1) else i

/-- The sum over `buf[0 .. j]`, taken from `buf[j]` down to `buf[0]`. -/
def numberDecodeSum : Bytes → BitVec 64
  | [] => 0
  | b :: bs =>
    bs.foldr (fun c result => (result + BitVec.ofNat 64 (c &&& 0x7F).toNat) <<< 7) 0 +
      BitVec.ofNat 64 (b &&& 0x7F).toNat

def numberDecode (buf : Bytes) : Except URLException (Int × Bytes) :=
  let limit := toInt32 buf.length
  let j := countContinuation limit buf 0
  if limit ≤ j then .error ⟨"numberDecode:reach boundary"⟩
  else .ok ((numberDecodeSum (buf.take (j + 1))).toInt, buf.drop (j + 1))

def decodeUrlParamNum (p : Bytes) : Except URLException (Int × Bytes) := numberDecode p

def decodeUrlParamStr (p : Bytes) : Except URLException (Bytes × Bytes) :=
  match numberDecode p with
  | .error e => .error e
  | .ok (num, p') =>
    if 0 < num ∧ num ≤ p'.length then .ok (p'.take num.toNat, p'.drop num.toNat)
    else .ok ([], p')

def deserializeLoop : List ParamBindingItem → Bytes → BitVec 64 →
    EStateM URLException ParamMap (BitVec 64)
  | [], _, vc, m => .ok vc m
  | item :: table, p, vc, m =>
    if p = [] then deserializeLoop table p vc m
    else
      match item.2 with
      | .int =>
        match decodeUrlParamNum p with
        | .error e => .error e m
        | .ok (num, p') =>
          deserializeLoop table p' (vc ^^^ toUInt64 num)
            (if num ≠ 0 then m.insertNew item.1 (intToString num) else m)
      | .string =>
        match decodeUrlParamStr p with
        | .error e => .error e m
        | .ok (v, p') =>
          deserializeLoop table p' (vc ^^^ BitVec.ofNat 64 v.length)
            (if v ≠ [] then m.insertNew item.1 v else m)

def urlParamDeserialize (table : List ParamBindingItem) (input : Bytes) :
    EStateM URLException ParamMap (BitVec 64) :=
  deserializeLoop table input 0xFFFFFFFF#64

end AdServer.Url
