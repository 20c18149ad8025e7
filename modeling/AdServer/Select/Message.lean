import AdServer.Basic
import AdServer.Library.ByteOrder

/-!
The messages of `search` and `getBannerById`: a byte for the type and the payload behind it. In a
debug session the payload is wrapped with its type before it is sent. `search` makes the message
after that, `getBannerById` before, so that its message has room for the plain payload only.
-/
namespace AdServer.Select

structure SelectDebugRequest where
  originMsgType : UInt8
  requestData : Bytes

/-- The message types and the serialisation of the shared message library. -/
structure MessageLibrary where
  adselectRequest : UInt8
  adselectDebug : UInt8
  getBannerRequest : UInt8
  serialize : SelectDebugRequest → Bytes

/-- `zmq::message_t message(size)`; `memory` is what its bytes happen to be. -/
def newMessage (memory : Nat → UInt8) (size : Nat) : Bytes := (List.range size).map memory

/-- `memcpy` to a position of a message; `none` is a write behind it. -/
def copyTo (position : Nat) (data message : Bytes) : Option Bytes :=
  if position + data.length ≤ message.length then
    some (message.take position ++ (data ++ message.drop (position + data.length)))
  else none

section
variable (lib : MessageLibrary) (memory : Nat → UInt8) (inDebugSession : Bool)

/-- What is returned, the type and the payload. -/
def filterDebugSessionRequest (flag : UInt8) (requestBin : Bytes) : Bool × UInt8 × Bytes :=
  if inDebugSession then (true, lib.adselectDebug, lib.serialize ⟨flag, requestBin⟩)
  else (false, flag, requestBin)

/-- The two `memcpy` calls. -/
def fill (flag : UInt8) (requestBin message : Bytes) : Option Bytes :=
  (copyTo 0 [flag] message).bind (copyTo 1 requestBin)

/-- The message of `search` for a serialised request. -/
def searchMessage (requestBin : Bytes) : Option Bytes :=
  let (_, flag, requestBin) :=
    filterDebugSessionRequest lib inDebugSession lib.adselectRequest requestBin
  fill flag requestBin (newMessage memory (requestBin.length + 1))

/-- The bytes of an `int64_t`. -/
def bannerIdBytes (bannerId : BitVec 64) : Bytes := ByteOrder.littleEndian 8 bannerId.toNat

def bannerMessage (bannerId : BitVec 64) : Option Bytes :=
  let requestBin := bannerIdBytes bannerId
  let message := newMessage memory (requestBin.length + 1)
  let (_, flag, requestBin) :=
    filterDebugSessionRequest lib inDebugSession lib.getBannerRequest requestBin
  fill flag requestBin message

/-- The message that a type and a payload are to be sent as. -/
def framed (flag : UInt8) (requestBin : Bytes) : Bytes :=
  if inDebugSession then lib.adselectDebug :: lib.serialize ⟨flag, requestBin⟩
  else flag :: requestBin

end

theorem length_newMessage (memory : Nat → UInt8) (size : Nat) :
    (newMessage memory size).length = size := by
  rw [newMessage, List.length_map, List.length_range]

/-- A message is filled exactly if it has one byte more than the payload. -/
theorem fill_eq_some_iff {flag : UInt8} {requestBin message : Bytes} (hmessage : message ≠ []) :
    fill flag requestBin message = some (flag :: requestBin) ↔
      message.length = requestBin.length + 1 := by
  obtain ⟨c, message, rfl⟩ := List.exists_cons_of_ne_nil hmessage
  have hflag : copyTo 0 [flag] (c :: message) = some (flag :: message) := if_pos (by simp)
  rw [fill, hflag, Option.bind_some, copyTo, List.length_cons, List.length_cons]
  constructor
  · intro h
    split at h
    · have hlength := congrArg List.length (Option.some.inj h)
      simp only [List.length_append, List.length_take, List.length_drop, List.length_cons]
        at hlength
      omega
    · cases h
  · intro hlength
    rw [if_pos (by omega), List.drop_eq_nil_of_le (by rw [List.length_cons]; omega),
      List.append_nil]
    rfl

theorem length_bannerIdBytes (bannerId : BitVec 64) : (bannerIdBytes bannerId).length = 8 :=
  ByteOrder.length_littleEndian 8 _

section
variable (lib : MessageLibrary) (memory : Nat → UInt8) (inDebugSession : Bool)

theorem newMessage_ne_nil (size : Nat) : newMessage memory (size + 1) ≠ [] := by
  rw [← List.length_pos_iff, length_newMessage]
  omega

theorem framed_eq (flag : UInt8) (requestBin : Bytes) :
    framed lib inDebugSession flag requestBin =
      (filterDebugSessionRequest lib inDebugSession flag requestBin).2.1 ::
        (filterDebugSessionRequest lib inDebugSession flag requestBin).2.2 := by
  cases inDebugSession with
  | false => rfl
  | true => rfl

/-- `search` measures the payload that it sends. -/
theorem searchMessage_eq (requestBin : Bytes) :
    searchMessage lib memory inDebugSession requestBin =
      some (framed lib inDebugSession lib.adselectRequest requestBin) := by
  rw [framed_eq]
  exact (fill_eq_some_iff (newMessage_ne_nil memory _)).mpr (length_newMessage memory _)

/-- `getBannerById` measures the plain payload, which has eight bytes. -/
theorem bannerMessage_eq_iff (bannerId : BitVec 64) :
    bannerMessage lib memory inDebugSession bannerId =
        some (framed lib inDebugSession lib.getBannerRequest (bannerIdBytes bannerId)) ↔
      (filterDebugSessionRequest lib inDebugSession lib.getBannerRequest
        (bannerIdBytes bannerId)).2.2.length = 8 := by
  have hmessage : bannerMessage lib memory inDebugSession bannerId =
      fill (filterDebugSessionRequest lib inDebugSession lib.getBannerRequest
          (bannerIdBytes bannerId)).2.1
        (filterDebugSessionRequest lib inDebugSession lib.getBannerRequest
          (bannerIdBytes bannerId)).2.2
        (newMessage memory ((bannerIdBytes bannerId).length + 1)) := rfl
  rw [hmessage, framed_eq, fill_eq_some_iff (newMessage_ne_nil memory _), length_newMessage,
    length_bannerIdBytes, Nat.add_right_cancel_iff, eq_comm]

end

/-- Both messages are framed exactly if the wrapped request of a banner is as long as the plain
one, which matters in a debug session only. -/
theorem messages_framed_iff (lib : MessageLibrary) (memory : Nat → UInt8) (inDebugSession : Bool)
    (requestBin : Bytes) (bannerId : BitVec 64) :
    (searchMessage lib memory inDebugSession requestBin =
        some (framed lib inDebugSession lib.adselectRequest requestBin) ∧
      bannerMessage lib memory inDebugSession bannerId =
        some (framed lib inDebugSession lib.getBannerRequest (bannerIdBytes bannerId))) ↔
    (inDebugSession = true →
      (lib.serialize ⟨lib.getBannerRequest, bannerIdBytes bannerId⟩).length = 8) := by
  rw [bannerMessage_eq_iff, and_iff_right (searchMessage_eq lib memory inDebugSession requestBin)]
  cases inDebugSession with
  | false => exact ⟨fun _ h => absurd h Bool.false_ne_true, fun _ => length_bannerIdBytes bannerId⟩
  | true => exact ⟨fun h _ => h, fun h => h rfl⟩

/-- A wrapping with one byte for the type is written behind the message. -/
theorem bannerMessage_wrapped :
    bannerMessage ⟨1, 2, 3, fun request => request.originMsgType :: request.requestData⟩
      (fun _ => 0) true 7 = none := by
  decide +kernel

end AdServer.Select
