import AdServer.Library.Cursor
import AdServer.Url.SerializeRecord

/-!
Texts with NUL bytes as texts without. `encode4ali` writes the number of the NUL bytes, their
places as base-128 numerals and then the other bytes; `decode4ali` puts them together again. Both
fill arrays of 1024 elements, in which every write is checked here.
-/
namespace AdServer.Codec

open Url (numberEncodeLoop clearLast)

universe u

/-- The next element of an array is written; `none` is a write behind its 1024 elements. -/
def push {α : Type u} (buf : List α) (x : α) : Option (List α) :=
  if buf.length < 1024 then some (buf ++ [x]) else none

def pushAll {α : Type u} (buf xs : List α) : Option (List α) := xs.foldlM push buf

def numberEncode (number : Int) (stub : Bytes) : Option Bytes :=
  (pushAll stub (numberEncodeLoop number)).map clearLast

/-- The loop that fills `zeroIndex`. -/
def zeroIndices : Bytes → Nat → List Nat → Option (List Nat)
  | [], _, zeroIndex => some zeroIndex
  | c :: buf, i, zeroIndex =>
    if c = 0 then (push zeroIndex (i + 1)).bind (zeroIndices buf (i + 1))
    else zeroIndices buf (i + 1) zeroIndex

/-- The loop over the bytes that are not NUL. -/
def writeOthers (buf stub : Bytes) : Option Bytes :=
  buf.foldlM (fun stub c => if c ≠ 0 then push stub c else some stub) stub

/-- The first `len` bytes of a buffer; `memcpy` takes a negative length as a huge one. -/
def encode4aliBuf (buf : Bytes) (len : Int) : Option Bytes :=
  (zeroIndices (buf.take len.toNat) 0 []).bind fun zeroIndex =>
    if zeroIndex.length = 0 then
      if len < 0 then none else pushAll [byte '0'] (buf.take len.toNat)
    else
      (numberEncode zeroIndex.length [byte '1']).bind fun stub =>
        (zeroIndex.foldlM (fun stub (z : Nat) => numberEncode z stub) stub).bind fun stub =>
          (writeOthers (buf.take len.toNat) stub).bind fun stub => (push stub 0).map fun _ => stub

def encode4ali (input : Bytes) : Option Bytes := encode4aliBuf input (toInt32 input.length)

/-- The sum over `buf[0 .. j]`, taken from `buf[j]` down to `buf[0]`. -/
def numberDecodeSum : Bytes → BitVec 32
  | [] => 0
  | b :: bs =>
    bs.foldr (fun c result => (result + BitVec.ofNat 32 (c &&& 0x7F).toNat) <<< 7) 0 +
      BitVec.ofNat 32 (b &&& 0x7F).toNat

/-- The number and the bytes behind it; `none` is a read behind the text. -/
def numberDecode (buf : Bytes) : Option (Int × Bytes) :=
  let j := (buf.takeWhile (0x7F < ·)).length
  if j < buf.length then some ((numberDecodeSum (buf.take (j + 1))).toInt, buf.drop (j + 1))
  else none

/-- The loop that fills `zeroIdx`. -/
def decodeIndices : (zeroCnt : Nat) → Bytes → List Int → Option (List Int × Bytes)
  | 0, p, zeroIdx => some (zeroIdx, p)
  | zeroCnt + 1, p, zeroIdx =>
    (numberDecode p).bind fun (number, p) =>
      (push zeroIdx (number - 1)).bind (decodeIndices zeroCnt p)

/-- `while (k < zeroIdx[j])`, with the rounds it makes. -/
def copyBytes : Nat → Bytes → Bytes → Option (Bytes × Bytes)
  | 0, p, result => some (p, result)
  | _ + 1, [], _ => none
  | rounds + 1, c :: p, result => (push result c).bind (copyBytes rounds p)

/-- The loop that sets the NUL bytes before the last of the other bytes. -/
def mergeLoop : List Int → Bytes → Bytes → Option (List Int × Bytes × Bytes)
  | [], p, result => some ([], p, result)
  | _ :: _, [], _ => none
  | z :: zeroIdx, c :: p, result =>
    if c = 0 then some (z :: zeroIdx, c :: p, result)
    else
      (copyBytes (z - result.length).toNat (c :: p) result).bind fun (p, result) =>
        (push result 0).bind (mergeLoop zeroIdx p)

/-- The last loop. -/
def copyRest : Bytes → Bytes → Option Bytes
  | [], _ => none
  | c :: p, result => if c = 0 then some result else (push result c).bind (copyRest p)

/-- The NUL bytes that are left, the last loop and the terminator. -/
def finish (zeroIdx : List Int) (p result : Bytes) : Option Bytes :=
  (pushAll result (zeroIdx.map fun _ => 0)).bind fun result =>
    (copyRest p result).bind fun result => (push result 0).map fun _ => result

def decode4aliBuf (inputBuf : Bytes) (len : Int) : Option Bytes :=
  match inputBuf with
  | [] => none
  | c :: p =>
    if c = byte '0' then if len < 1 then none else some (p.take (len - 1).toNat)
    else
      (numberDecode p).bind fun (zeroCnt, p) =>
        (decodeIndices zeroCnt.toNat p []).bind fun (zeroIdx, p) =>
          (mergeLoop zeroIdx p []).bind fun (zeroIdx, p, result) => finish zeroIdx p result

def decode4ali (input : Bytes) : Option Bytes :=
  decode4aliBuf (input ++ [0]) (toInt32 input.length)

section
variable {α : Type u} {buf : List α}

theorem push_eq (h : buf.length < 1024) (x : α) : push buf x = some (buf ++ [x]) := if_pos h

theorem pushAll_eq {xs : List α} (h : buf.length + xs.length ≤ 1024) :
    pushAll buf xs = some (buf ++ xs) := by
  induction xs generalizing buf with
  | nil => exact congrArg some (List.append_nil buf).symm
  | cons x xs ih =>
      rw [List.length_cons] at h
      rw [pushAll, List.foldlM_cons, push_eq (by omega)]
      refine (ih ?_).trans ?_
      · rw [List.length_append, List.length_singleton]
        omega
      · rw [List.append_assoc, List.singleton_append]

end

theorem numberEncode_eq {n : Nat} (hpos : 0 < n) {stub : Bytes}
    (h : stub.length + (Base128.encode n).length ≤ 1024) :
    numberEncode n stub = some (stub ++ Base128.encode n) := by
  have hclear := Url.clearLast_numberEncodeLoop n hpos
  have hlength := congrArg List.length hclear
  rw [Url.length_clearLast] at hlength
  have hne : numberEncodeLoop n ≠ [] := by
    rw [Url.numberEncodeLoop_of_pos (by omega)]
    exact List.cons_ne_nil _ _
  rw [numberEncode, pushAll_eq (by omega), Option.map_some, Url.clearLast_append stub hne, hclear]

/-- The places of the NUL bytes of a text that stands at an index, counted from one. -/
def zeroPlaces : Nat → Bytes → List Nat
  | _, [] => []
  | i, c :: text => if c = 0 then (i + 1) :: zeroPlaces (i + 1) text else zeroPlaces (i + 1) text

theorem zeroIndices_eq {text : Bytes} {i : Nat} {zeroIndex : List Nat}
    (h : zeroIndex.length + text.length ≤ 1024) :
    zeroIndices text i zeroIndex = some (zeroIndex ++ zeroPlaces i text) := by
  induction text generalizing i zeroIndex with
  | nil => exact congrArg some (List.append_nil zeroIndex).symm
  | cons c text ih =>
      rw [List.length_cons] at h
      rw [zeroIndices, zeroPlaces]
      split
      · rw [push_eq (by omega), Option.bind_some, ih, List.append_assoc, List.singleton_append]
        rw [List.length_append, List.length_singleton]
        omega
      · exact ih (by omega)

/-- The bytes of a text that are not NUL. -/
def others (text : Bytes) : Bytes := text.filter (· ≠ 0)

section
variable {c : UInt8} {text : Bytes}

theorem others_cons (hc : c ≠ 0) : others (c :: text) = c :: others text :=
  List.filter_cons_of_pos (decide_eq_true hc)

theorem others_zero : others (0 :: text) = others text :=
  List.filter_cons_of_neg (fun h => of_decide_eq_true h rfl)

theorem others_append (front : Bytes) : others (front ++ text) = others front ++ others text :=
  List.filter_append ..

theorem others_of_forall (h : ∀ x ∈ text, x ≠ 0) : others text = text :=
  List.filter_eq_self.mpr fun x hx => decide_eq_true (h x hx)

theorem ne_zero_of_mem_others (h : c ∈ others text) : c ≠ 0 :=
  of_decide_eq_true (List.mem_filter.mp h).2

theorem zeroPlaces_cons (i : Nat) (hc : c ≠ 0) :
    zeroPlaces i (c :: text) = zeroPlaces (i + 1) text := if_neg hc

theorem zeroPlaces_zero (i : Nat) :
    zeroPlaces i (0 :: text) = (i + 1) :: zeroPlaces (i + 1) text := if_pos rfl

end

theorem zeroPlaces_append {front : Bytes} (hfront : ∀ x ∈ front, x ≠ 0) (text : Bytes) (i : Nat) :
    zeroPlaces i (front ++ text) = zeroPlaces (i + front.length) text := by
  induction front generalizing i with
  | nil => rfl
  | cons c front ih =>
      rw [List.forall_mem_cons] at hfront
      rw [List.cons_append, zeroPlaces_cons i hfront.1, ih hfront.2, List.length_cons,
        Nat.add_assoc, Nat.add_comm 1]

theorem length_zeroPlaces (i : Nat) (text : Bytes) :
    (zeroPlaces i text).length + (others text).length = text.length := by
  induction text generalizing i with
  | nil => rfl
  | cons c text ih =>
      have htext := ih (i + 1)
      by_cases hc : c = 0
      · rw [hc, zeroPlaces_zero, others_zero, List.length_cons, List.length_cons]
        omega
      · rw [zeroPlaces_cons i hc, others_cons hc, List.length_cons, List.length_cons]
        omega

theorem forall_of_zeroPlaces {i : Nat} {text : Bytes} (h : zeroPlaces i text = []) :
    ∀ x ∈ text, x ≠ 0 := by
  have hlength := length_zeroPlaces i text
  rw [h, List.length_nil, Nat.zero_add, others, List.length_filter_eq_length_iff] at hlength
  exact fun x hx => of_decide_eq_true (hlength x hx)

theorem zeroPlaces_range {i : Nat} {text : Bytes} {z : Nat} (hz : z ∈ zeroPlaces i text) :
    i < z ∧ z ≤ i + text.length := by
  induction text generalizing i with
  | nil => cases hz
  | cons c text ih =>
      rw [zeroPlaces] at hz
      rw [List.length_cons]
      split at hz
      · obtain rfl | hz := List.mem_cons.mp hz
        · omega
        · have hrange := ih hz
          omega
      · have hrange := ih hz
        omega

theorem writeOthers_eq {text stub : Bytes} (h : stub.length + (others text).length ≤ 1024) :
    writeOthers text stub = some (stub ++ others text) := by
  induction text generalizing stub with
  | nil => exact congrArg some (List.append_nil stub).symm
  | cons c text ih =>
      rw [writeOthers, List.foldlM_cons]
      by_cases hc : c = 0
      · rw [hc, others_zero] at h ⊢
        rw [if_neg (not_not.mpr rfl)]
        exact ih h
      · rw [others_cons hc, List.length_cons] at h
        rw [if_pos hc, push_eq (by omega), others_cons hc,
          List.append_cons stub c (others text)]
        refine ih ?_
        rw [List.length_append, List.length_singleton]
        omega

/-- The places as numerals. -/
def placesText (zeros : List Nat) : Bytes := zeros.flatMap Base128.encode

section
variable {zeros : List Nat}

theorem placesText_cons (z : Nat) :
    placesText (z :: zeros) = Base128.encode z ++ placesText zeros := List.flatMap_cons

theorem foldlM_numberEncode (hpos : ∀ z ∈ zeros, 0 < z) {stub : Bytes}
    (h : stub.length + (placesText zeros).length ≤ 1024) :
    zeros.foldlM (fun stub (z : Nat) => numberEncode z stub) stub =
      some (stub ++ placesText zeros) := by
  induction zeros generalizing stub with
  | nil => exact congrArg some (List.append_nil stub).symm
  | cons z zeros ih =>
      rw [List.forall_mem_cons] at hpos
      rw [placesText_cons, List.length_append] at h
      rw [List.foldlM_cons, numberEncode_eq hpos.1 (by omega), placesText_cons,
        ← List.append_assoc]
      refine ih hpos.2 ?_
      rw [List.length_append]
      omega

theorem length_placesText_le (h : ∀ z ∈ zeros, z < 2 ^ 14) :
    (placesText zeros).length ≤ 2 * zeros.length := by
  induction zeros with
  | nil => exact Nat.le_refl 0
  | cons z zeros ih =>
      rw [List.forall_mem_cons] at h
      have hz : (Base128.encode z).length ≤ 2 := Base128.length_encode_le h.1
      have hzeros := ih h.2
      rw [placesText_cons, List.length_append, List.length_cons]
      omega

end

theorem zero_notMem_encode {n : Nat} (h : 0 < n) : (0 : UInt8) ∉ Base128.encode n := by
  have hbyte {d : Nat} (hd : 0 < d) (hlt : d < 256) : (0 : UInt8) ≠ UInt8.ofNat d := by
    intro heq
    have hzero := congrArg UInt8.toNat heq
    rw [UInt8.toNat_ofNat', Nat.mod_eq_of_lt hlt, UInt8.toNat_zero] at hzero
    omega
  induction n using Nat.strongRecOn with
  | ind n ih =>
      by_cases hlast : n < 128
      · rw [Base128.encode_lt h hlast, List.mem_singleton]
        exact hbyte h (by omega)
      · rw [Base128.encode_ge (by omega), List.mem_cons, not_or]
        exact ⟨hbyte (by omega) (by omega), ih (n / 128) (by omega) (by omega)⟩

theorem numberDecodeSum_eq (bs : Bytes) :
    numberDecodeSum bs = BitVec.ofNat 32 (Base128.value bs) := by
  cases bs with
  | nil => rfl
  | cons b bs =>
      rw [numberDecodeSum, Url.foldr_numberDecode, Url.and_mask_toNat, ← BitVec.ofNat_add,
        Nat.add_comm, Base128.value_cons]

theorem numberDecode_encode {n : Nat} (hpos : 0 < n) (hn : n < 2 ^ 31) (rest : Bytes) :
    numberDecode (Base128.encode n ++ rest) = some ((n : Int), rest) := by
  have hencode : 0 < (Base128.encode n).length :=
    List.length_pos_iff.mpr (Base128.encode_ne_nil hpos)
  have hcontinues : (fun b : UInt8 => decide (0x7F < b)) = Base128.continues := by
    funext b
    rw [Bool.eq_iff_iff, Url.continues_iff, decide_eq_true_iff]
  have hj : ((Base128.encode n ++ rest).takeWhile (0x7F < ·)).length =
      (Base128.encode n).length - 1 := by
    rw [hcontinues, Base128.takeWhile_encode_append hpos, List.length_dropLast]
  have hnext : (Base128.encode n).length - 1 + 1 = (Base128.encode n).length := by omega
  rw [numberDecode, hj, if_pos (by rw [List.length_append]; omega), hnext, List.take_left,
    List.drop_left, numberDecodeSum_eq, Base128.value_encode, BitVec.toInt_ofNat',
    Int.bmod_eq_of_le (by omega) (by omega)]

theorem decodeIndices_eq {zeros : List Nat} (hrange : ∀ z ∈ zeros, 0 < z ∧ z < 2 ^ 31)
    {zeroIdx : List Int} (h : zeroIdx.length + zeros.length ≤ 1024) (rest : Bytes) :
    decodeIndices zeros.length (placesText zeros ++ rest) zeroIdx =
      some (zeroIdx ++ zeros.map (fun z : Nat => (z : Int) - 1), rest) := by
  induction zeros generalizing zeroIdx with
  | nil => exact congrArg (fun l => some (l, rest)) (List.append_nil zeroIdx).symm
  | cons z zeros ih =>
      rw [List.forall_mem_cons] at hrange
      rw [List.length_cons] at h ⊢
      rw [decodeIndices, placesText_cons, List.append_assoc,
        numberDecode_encode hrange.1.1 hrange.1.2, Option.bind_some, List.map_cons,
        List.append_cons]
      change (push zeroIdx _).bind _ = _
      rw [push_eq (by omega)]
      refine ih hrange.2 ?_
      rw [List.length_append, List.length_singleton]
      omega

theorem copyBytes_eq {front result : Bytes} (h : result.length + front.length ≤ 1024)
    (p : Bytes) : copyBytes front.length (front ++ p) result = some (p, result ++ front) := by
  induction front generalizing result with
  | nil => exact congrArg (fun l => some (p, l)) (List.append_nil result).symm
  | cons c front ih =>
      rw [List.length_cons] at h ⊢
      rw [List.cons_append, copyBytes, push_eq (by omega), Option.bind_some,
        List.append_cons result c front]
      refine ih ?_
      rw [List.length_append, List.length_singleton]
      omega

theorem copyRest_eq {text result : Bytes} (htext : ∀ x ∈ text, x ≠ 0)
    (h : result.length + text.length ≤ 1024) :
    copyRest (text ++ [0]) result = some (result ++ text) := by
  induction text generalizing result with
  | nil => exact congrArg some (List.append_nil result).symm
  | cons c text ih =>
      rw [List.forall_mem_cons] at htext
      rw [List.length_cons] at h
      rw [List.cons_append, copyRest, if_neg htext.1, push_eq (by omega), Option.bind_some,
        List.append_cons result c text]
      refine ih htext.2 ?_
      rw [List.length_append, List.length_singleton]
      omega

/-- What is left after the loop that sets the NUL bytes: only NUL bytes, or only others. -/
theorem finish_eq {zeroIdx : List Int} {text result : Bytes} (htext : ∀ x ∈ text, x ≠ 0)
    (h : result.length + zeroIdx.length + text.length < 1024) :
    finish zeroIdx (text ++ [0]) result =
      some (result ++ List.replicate zeroIdx.length 0 ++ text) := by
  rw [finish, List.map_const', pushAll_eq (by rw [List.length_replicate]; omega),
    Option.bind_some, copyRest_eq htext, Option.bind_some, push_eq]
  · rfl
  · rw [List.length_append, List.length_append, List.length_replicate]
    omega
  · rw [List.length_append, List.length_replicate]
    omega

theorem mergeLoop_zero {zeroIdx : List Int} {p result : Bytes} :
    mergeLoop zeroIdx (0 :: p) result = some (zeroIdx, 0 :: p, result) := by
  cases zeroIdx with
  | nil => rfl
  | cons z zeroIdx => exact if_pos rfl

theorem mergeLoop_append {front p result : Bytes} {zeroIdx : List Int} (c : UInt8) (q : Bytes)
    (hp : front ++ p = c :: q) (hc : c ≠ 0) (h : (result ++ front).length < 1024) :
    mergeLoop (((result ++ front).length : Int) :: zeroIdx) (front ++ p) result =
      mergeLoop zeroIdx p (result ++ front ++ [0]) := by
  have hrounds : (((result ++ front).length : Int) - result.length).toNat = front.length := by
    rw [List.length_append]
    omega
  have hroom : result.length + front.length ≤ 1024 := by
    rw [← List.length_append]
    exact Nat.le_of_lt h
  rw [hp, mergeLoop, if_neg hc, hrounds, ← hp, copyBytes_eq hroom, Option.bind_some]
  change (push (result ++ front) 0).bind _ = _
  rw [push_eq h, Option.bind_some]

/-- The places of a text's NUL bytes as indices. -/
def zeroIndexes (i : Nat) (text : Bytes) : List Int :=
  (zeroPlaces i text).map fun z : Nat => (z : Int) - 1

theorem zeroIndexes_of_forall {text : Bytes} (htext : ∀ x ∈ text, x ≠ 0) (i : Nat) :
    zeroIndexes i text = [] := by
  rw [zeroIndexes, ← List.append_nil text, zeroPlaces_append htext]
  rfl

theorem zeroIndexes_append {front : Bytes} (hfront : ∀ x ∈ front, x ≠ 0) (result rest : Bytes) :
    zeroIndexes result.length (front ++ 0 :: rest) =
      ((result ++ front).length : Int) :: zeroIndexes (result ++ front ++ [0]).length rest := by
  rw [zeroIndexes, zeroPlaces_append hfront, zeroPlaces_zero, List.map_cons, List.length_append,
    List.length_append, List.length_append]
  exact congrArg₂ List.cons (by omega) rfl

theorem eq_replicate_of_others {text : Bytes} (h : others text = []) :
    text = List.replicate text.length 0 := by
  refine List.eq_replicate_of_mem fun x hx => ?_
  exact of_not_not fun hne => List.filter_eq_nil_iff.mp h x hx (decide_eq_true hne)

/-- The loops of the decoder put the bytes at their places again. The induction is on the NUL
bytes of the text, each with the bytes before it. -/
theorem merge_others {text result : Bytes} (h : result.length + text.length < 1024) :
    ((mergeLoop (zeroIndexes result.length text) (others text ++ [0]) result).bind
      fun (zeroIdx, p, result) => finish zeroIdx p result) = some (result ++ text) := by
  obtain ⟨n, hn⟩ : ∃ n, text.length = n := ⟨_, rfl⟩
  induction n using Nat.strongRecOn generalizing text result with
  | ind n ih =>
      obtain hnone | ⟨front, c, rest, rfl, hc, hfront⟩ :=
        Cursor.forall_or_exists_append (fun c : UInt8 => c == 0) text
      · have htext : ∀ x ∈ text, x ≠ 0 := fun x hx => ne_of_beq_false (hnone x hx)
        rw [zeroIndexes_of_forall htext, others_of_forall htext, mergeLoop, Option.bind_some]
        refine (finish_eq htext (by simpa using h)).trans ?_
        rw [List.length_nil, List.replicate_zero, List.append_nil]
      · obtain rfl : c = 0 := eq_of_beq hc
        have hfront : ∀ x ∈ front, x ≠ 0 := fun x hx => ne_of_beq_false (hfront x hx)
        cases hothers : others (front ++ 0 :: rest) with
        | nil =>
            have hcount := length_zeroPlaces result.length (front ++ 0 :: rest)
            rw [hothers, List.length_nil, Nat.add_zero] at hcount
            rw [List.nil_append, mergeLoop_zero, Option.bind_some]
            refine (@finish_eq _ [] result (List.forall_mem_nil _) ?_).trans ?_
            · rw [zeroIndexes, List.length_map, hcount]
              exact h
            · rw [zeroIndexes, List.length_map, hcount, ← eq_replicate_of_others hothers,
                List.append_nil]
        | cons x others' =>
            have hx : x ≠ 0 := ne_zero_of_mem_others (hothers ▸ List.mem_cons_self)
            rw [others_append, others_zero, others_of_forall hfront] at hothers
            rw [List.length_append, List.length_cons] at h hn
            have hstep := @mergeLoop_append front (others rest ++ [0]) result
              (zeroIndexes (result ++ front ++ [0]).length rest) x (others' ++ [0])
              (by rw [← List.append_assoc, hothers, List.cons_append]) hx
              (by rw [List.length_append]; omega)
            have hroom : (result ++ front ++ [0]).length + rest.length < 1024 := by
              rw [List.length_append, List.length_append, List.length_singleton]
              omega
            rw [← hothers, zeroIndexes_append hfront, List.append_assoc front, hstep,
              ih rest.length (by omega) hroom rfl, List.append_assoc, List.append_assoc,
              List.singleton_append]

section
variable {input : Bytes} (hlength : input.length ≤ 500)
include hlength

theorem zeroPlaces_lt : ∀ z ∈ zeroPlaces 0 input, 0 < z ∧ z < 2 ^ 14 := by
  intro z hz
  have hrange := zeroPlaces_range hz
  omega

theorem encode4ali_plain (hnone : zeroPlaces 0 input = []) :
    encode4ali input = some (byte '0' :: input) := by
  have hlen : toInt32 input.length = input.length := toInt32_of_lt (by omega)
  rw [encode4ali, hlen, encode4aliBuf, Int.toNat_natCast, List.take_length,
    zeroIndices_eq (by rw [List.length_nil]; omega), Option.bind_some, List.nil_append, hnone,
    if_pos List.length_nil, if_neg (by omega), pushAll_eq, List.singleton_append]
  rw [List.length_singleton]
  omega

theorem decode4ali_plain : decode4ali (byte '0' :: input) = some input := by
  have hlen : toInt32 (byte '0' :: input).length = input.length + 1 := by
    rw [List.length_cons, toInt32_of_lt (by omega)]
    rfl
  rw [decode4ali, hlen, List.cons_append, decode4aliBuf, if_pos rfl, if_neg (by omega),
    Int.add_sub_cancel, Int.toNat_natCast, List.take_left]

/-- The text with the number of NUL bytes, their places and the other bytes. -/
theorem encode4ali_zeros (hsome : zeroPlaces 0 input ≠ []) :
    encode4ali input = some (byte '1' :: (Base128.encode (zeroPlaces 0 input).length ++
      (placesText (zeroPlaces 0 input) ++ others input))) := by
  have hlen : toInt32 input.length = input.length := toInt32_of_lt (by omega)
  have hcount := length_zeroPlaces 0 input
  have hpos : 0 < (zeroPlaces 0 input).length := List.length_pos_iff.mpr hsome
  have hnumber : (Base128.encode (zeroPlaces 0 input).length).length ≤ 2 :=
    Base128.length_encode_le (by omega)
  have hplaces := length_placesText_le fun z hz => (zeroPlaces_lt hlength z hz).2
  rw [encode4ali, hlen, encode4aliBuf, Int.toNat_natCast, List.take_length,
    zeroIndices_eq (by rw [List.length_nil]; omega), Option.bind_some, List.nil_append,
    if_neg (by omega), numberEncode_eq hpos (by rw [List.length_singleton]; omega),
    Option.bind_some, foldlM_numberEncode (fun z hz => (zeroPlaces_lt hlength z hz).1),
    Option.bind_some, writeOthers_eq, Option.bind_some, push_eq]
  · rw [Option.map_some, List.append_assoc, List.append_assoc]
    rfl
  all_goals
    simp only [List.length_append, List.length_singleton]
    omega

theorem decode4ali_zeros (hsome : zeroPlaces 0 input ≠ []) :
    decode4ali (byte '1' :: (Base128.encode (zeroPlaces 0 input).length ++
      (placesText (zeroPlaces 0 input) ++ others input))) = some input := by
  have hcount := length_zeroPlaces 0 input
  have hpos : 0 < (zeroPlaces 0 input).length := List.length_pos_iff.mpr hsome
  have hindices := @decodeIndices_eq (zeroPlaces 0 input)
    (fun z hz => ⟨(zeroPlaces_lt hlength z hz).1, by have := zeroPlaces_lt hlength z hz; omega⟩)
    [] (by rw [List.length_nil]; omega) (others input ++ [0])
  have hmerge := @merge_others input [] (by rw [List.length_nil]; omega)
  rw [decode4ali, List.cons_append, decode4aliBuf, if_neg (by decide), List.append_assoc,
    List.append_assoc, numberDecode_encode hpos (by omega), Option.bind_some]
  change (decodeIndices (zeroPlaces 0 input).length _ []).bind _ = _
  rw [hindices, Option.bind_some]
  exact hmerge

end

/-- The text of an input has no NUL byte, is written inside the arrays and is undone. -/
theorem decode4ali_encode4ali {input : Bytes} (hlength : input.length ≤ 500) :
    ∃ text, encode4ali input = some text ∧ (0 : UInt8) ∉ text ∧ decode4ali text = some input := by
  by_cases hnone : zeroPlaces 0 input = []
  · have hinput := forall_of_zeroPlaces hnone
    refine ⟨_, encode4ali_plain hlength hnone, ?_, decode4ali_plain hlength⟩
    rw [List.mem_cons, not_or]
    exact ⟨by decide, fun hmem => hinput 0 hmem rfl⟩
  · refine ⟨_, encode4ali_zeros hlength hnone, ?_, decode4ali_zeros hlength hnone⟩
    have hpos : 0 < (zeroPlaces 0 input).length := List.length_pos_iff.mpr hnone
    simp only [List.mem_cons, List.mem_append, not_or]
    refine ⟨by decide, zero_notMem_encode hpos, fun hmem => ?_,
      fun hmem => ne_zero_of_mem_others hmem rfl⟩
    obtain ⟨z, hz, hmem⟩ := List.mem_flatMap.mp hmem
    exact zero_notMem_encode (zeroPlaces_lt hlength z hz).1 hmem

theorem decode4ali_encode4ali_nul :
    ∃ text, encode4ali [0, 65, 0] = some text ∧ (0 : UInt8) ∉ text ∧
      decode4ali text = some [0, 65, 0] :=
  decode4ali_encode4ali (by decide)

end AdServer.Codec
