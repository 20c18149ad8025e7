import AdServer.Url.BindingTable
import AdServer.Library.Base128

/-!
The serialiser of the parameter map: `numberEncode`, `writeStringToBuf`,
`writeIntToBuf`, `encodeUrlParam` and `urlParamSerialize`.

The writers share the write pointer, the remaining size and the check value by
reference, and an exception leaves them as they are at that moment. The state
keeps the bytes between the start of `buf` and the write pointer. Nothing stops
the pointer at the end of the array, so the state may hold more than
`sizeof(buf)` bytes; `urlParamSerialize` then has no defined result.
-/
namespace AdServer.Url

structure URLException where
  message : String
  deriving DecidableEq, Repr

structure WriteState where
  written : Bytes
  bufRemain : Int
  vc : BitVec 64
  deriving DecidableEq, Repr

abbrev WriteM := EStateM URLException WriteState

def bufSize : Nat := 2048

def numberEncodeLoop (number : Int) : Bytes :=
  if 0 < number then
    UInt8.ofNat ((number.toNat &&& 0x7F) ||| 0x80) :: numberEncodeLoop (number >>> (7 : Nat))
  else []
termination_by number.toNat
decreasing_by
  simp only [Int.shiftRight_eq_div_pow]
  omega

/-- `buf[i - 1] &= 0x7F`, on the last byte written so far. -/
def clearLast : Bytes → Bytes
  | [] => []
  | [b] => [b &&& 0x7F]
  | b :: c :: bs => b :: clearLast (c :: bs)

def numberEncode (number : Int) : WriteM Unit := fun s =>
  if s.bufRemain ≤ 10 then
    .error ⟨"numberEncode:buffer reach boundary"⟩ s
  else
    let stored := numberEncodeLoop number
    .ok () { s with
      written := clearLast (s.written ++ stored)
      bufRemain := s.bufRemain - stored.length }

def copyToBuf (src : Bytes) (size : Int) : WriteM Unit := fun s =>
  if s.bufRemain < size then
    .error ⟨"buffer remained not large enough to hold string "⟩ s
  else
    .ok () { s with
      written := s.written ++ src.take size.toNat
      bufRemain := s.bufRemain - size }

def writeStringToBuf (src : Bytes) (size : Int) : WriteM Unit := fun s =>
  if 0 < size then
    match numberEncode size s with
    | .error e s' => .error e s'
    | .ok _ s' => copyToBuf src size s'
  else if 1 ≤ s.bufRemain then
    .ok () { s with written := s.written ++ [0x00], bufRemain := s.bufRemain - 1 }
  else
    .error ⟨"writeStringToBuf:url encode invalid status,maybe size invalid or buffer not enough"⟩ s

/-- Unlike `writeStringToBuf`, the branch for zero does not count its byte. -/
def writeIntToBuf (src : Int) : WriteM Unit := fun s =>
  if 0 < src then numberEncode src s
  else if 1 ≤ s.bufRemain then
    .ok () { s with written := s.written ++ [0x00] }
  else
    .error ⟨"writeIntToBuf:url encode invalid status,maybe buffer not enough"⟩ s

def paramNumber (value : Bytes) : Int := if value = [] then 0 else stringToInt value

def encodeUrlParam (paramType : ParamType) (value : Bytes) : WriteM Unit := fun s =>
  match paramType with
  | .string =>
    -- `int size` receives a `size_t`, while the check value takes the whole length.
    match writeStringToBuf value (toInt32 value.length) s with
    | .error e s' => .error e s'
    | .ok _ s' => .ok () { s' with vc := s'.vc ^^^ BitVec.ofNat 64 value.length }
  | .int =>
    match writeIntToBuf (paramNumber value) s with
    | .error e s' => .error e s'
    | .ok _ s' => .ok () { s' with vc := s'.vc ^^^ toUInt64 (paramNumber value) }

def ParamMap.value (m : ParamMap) (key : Bytes) : Bytes := (m.lookup key).getD []

def serializeLoop (m : ParamMap) : List ParamBindingItem → WriteM Unit
  | [], s => .ok () s
  | item :: table, s =>
    match encodeUrlParam item.2 (m.value item.1) s with
    | .error e s' => .error e s'
    | .ok _ s' => serializeLoop m table s'

def initialWriteState : WriteState := { written := [], bufRemain := bufSize, vc := 0xFFFFFFFF#64 }

/-- How a call can end without a result. -/
inductive Fault
  | exception (e : URLException)
  | overrun
  deriving DecidableEq, Repr

/-- The produced bytes, and the text recorded under `_mh_` in `macroParamMap`. -/
def urlParamSerialize (table : List ParamBindingItem) (m : ParamMap) : Except Fault (Bytes × Bytes) :=
  match serializeLoop m table initialWriteState with
  | .ok _ s => if s.written.length ≤ bufSize then .ok (s.written, hexText s.vc) else .error .overrun
  | .error e s => if s.written.length ≤ bufSize then .error (.exception e) else .error .overrun

end AdServer.Url
