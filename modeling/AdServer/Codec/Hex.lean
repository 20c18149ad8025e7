import AdServer.Codec.Nibble
import AdServer.Library.XorSwap
import AdServer.Url.Percent

/-!
The hexadecimal codecs. `toHex` writes the low nibble of a byte before the high one.
`toHexReadable` and `hexToReadable` turn that text around, 16-bit units first and then the two
characters of each. Sizes and indices are `int`; a read or a write outside of a buffer has no
result.
-/
namespace AdServer.Codec

open Cells XorSwap Url

def hexMap : Bytes := bytes "0123456789ABCDEF"

def hexChar (nibble : UInt8) : UInt8 := hexMap.getD nibble.toNat 0

def toHexLoop (input : Bytes) : (rounds i : Nat) → (j : Int) → Bytes → Option Bytes
  | 0, _, _, hexResult => some hexResult
  | rounds + 1, i, j, hexResult =>
    (input[i]?).bind fun c =>
      (put hexResult j (hexChar (lowNibble c))).bind fun hexResult =>
        (put hexResult (wrapInt32 (j + 1)) (hexChar (highNibble c))).bind
          (toHexLoop input rounds (i + 1) (wrapInt32 (j + 2)))

def toHex (input : Bytes) (size : Int) (hexResult : Bytes) : Option Bytes :=
  (toHexLoop input size.toNat 0 0 hexResult).bind fun hexResult =>
    put hexResult (wrapInt32 (2 * size)) 0

/-- `^` on a 16-bit unit, which is its two bytes. -/
def xorUnit (u v : UInt8 × UInt8) : UInt8 × UInt8 := (u.1 ^^^ v.1, u.2 ^^^ v.2)

def toHexReadable (input : Bytes) (size : Int) (hexResult : Bytes) : Option Bytes :=
  (toHex input size hexResult).bind fun hexResult =>
    (onUnits (reverseLoop xorUnit · 0 (size - 1)) hexResult).bind fun hexResult =>
      pairLoop (· ^^^ ·) hexResult (wrapInt32 (2 * size) - 1)

/-- `for (; i < size && j >= 0; i++, j--) out[j] = in[i]`. -/
def copyReversed (input : List (UInt8 × UInt8)) (size i j : Int) (out : List (UInt8 × UInt8)) :
    Option (List (UInt8 × UInt8)) :=
  if i < size ∧ 0 ≤ j then
    (entry input i).bind fun u =>
      (put out j u).bind (copyReversed input size (i + 1) (j - 1))
  else some out
termination_by (size - i).toNat

def hexToReadable (hexString : Bytes) (size : Int) (readableResult : Bytes) : Option Bytes :=
  (onUnits (copyReversed (units hexString) (size / 2) 0 (size / 2 - 1)) readableResult).bind
    fun readableResult =>
      (pairLoop (· ^^^ ·) readableResult (2 * (size / 2) - 1)).bind fun readableResult =>
        put readableResult (2 * (size / 2)) 0

/-- The bits of a character; `high` says whether they are the high ones of their byte. -/
def charBits (base : UInt8) (high : Bool) (c : UInt8) : UInt8 :=
  nibbleBits high (if charIndex c < charIndex base then c - byte '0' else c - base + 10)

/-- The loop of the two decoders, which differ in the nibble that an odd index stands for. -/
def decodeLoop (base : UInt8) (oddHigh : Bool) (hexInput : Bytes) :
    (rounds i : Nat) → Bytes → Option Bytes
  | 0, _, result => some result
  | rounds + 1, i, result =>
    (if i % 2 = 0 then put result (i / 2 : Nat) 0 else some result).bind fun result =>
      (hexInput[i]?).bind fun c =>
        (result[i / 2]?).bind fun x =>
          (put result (i / 2 : Nat) (x ||| charBits base ((i % 2 = 1) == oddHigh) c)).bind
            (decodeLoop base oddHigh hexInput rounds (i + 1))

def fromHex (hexInput : Bytes) (size : Int) (result : Bytes) : Option Bytes :=
  decodeLoop (byte 'A') true hexInput size.toNat 0 result

/-- The result and its size; `none` is also the failed assertion. -/
def fromLittleEndiumHex (hexInput : Bytes) (size : Int) (result : Bytes) (outSize : Int)
    (capital : Bool) : Option (Bytes × Int) :=
  let needSize := if size % 2 = 1 then size / 2 + 1 else size / 2
  if outSize < needSize then none
  else
    (decodeLoop (byte (if capital then 'A' else 'a')) false hexInput size.toNat 0 result).map
      fun result => (result, needSize)

/-- The two characters of each byte, the low nibble first. -/
def hexUnits (b : Bytes) : List (UInt8 × UInt8) :=
  b.map fun c => (hexChar (lowNibble c), hexChar (highNibble c))

/-- The hexadecimal text of a byte string, the high nibble first. -/
def readableText (b : Bytes) : Bytes :=
  b.flatMap fun c => [hexChar (highNibble c), hexChar (lowNibble c)]

theorem length_hexUnits (b : Bytes) : (hexUnits b).length = b.length := List.length_map ..

theorem wrapInt32_of_lt {n : Int} (hlow : 0 ≤ n) (hhigh : n < 2 ^ 31) : wrapInt32 n = n :=
  wrapInt32_eq_self_iff.mpr ⟨by omega, hhigh⟩

theorem hexUnits_append (b c : Bytes) : hexUnits (b ++ c) = hexUnits b ++ hexUnits c :=
  List.map_append

theorem put_two {front : Bytes} {j : Int} (hj : j = front.length) (x y lo hi : UInt8)
    (tail : Bytes) :
    ((put (front ++ x :: y :: tail) j lo).bind fun mem => put mem (j + 1) hi) =
      some (front ++ lo :: hi :: tail) := by
  rw [put_append_cons hj, Option.bind_some, List.append_cons,
    put_append_cons (by rw [List.length_append, List.length_singleton]; omega),
    ← List.append_cons]

theorem toHexLoop_succ {done rest mem : Bytes} {c : UInt8} {j : Int} (hlow : 0 ≤ j)
    (hhigh : j + 1 < 2 ^ 31) (rounds : Nat) :
    toHexLoop (done ++ c :: rest) (rounds + 1) done.length j mem =
      ((put mem j (hexChar (lowNibble c))).bind fun mem =>
        put mem (j + 1) (hexChar (highNibble c))).bind
          (toHexLoop (done ++ c :: rest) rounds (done.length + 1) (wrapInt32 (j + 2))) := by
  rw [toHexLoop, getElem?_length_append, Option.bind_some, wrapInt32_of_lt (by omega) hhigh,
    Option.bind_assoc]

/-- The loop writes two characters for each byte. Behind the last byte `j` may have wrapped. -/
theorem toHexLoop_eq (done rest old tail : Bytes) {j : Int} (hold : old.length = 2 * rest.length)
    (hj : rest ≠ [] → j = 2 * done.length) (hlength : done.length + rest.length ≤ 2 ^ 30) :
    toHexLoop (done ++ rest) rest.length done.length j (flat (hexUnits done) ++ (old ++ tail)) =
      some (flat (hexUnits (done ++ rest)) ++ tail) := by
  induction rest generalizing done old j with
  | nil =>
      rw [List.length_nil, Nat.mul_zero, List.length_eq_zero_iff] at hold
      rw [hold, List.append_nil]
      rfl
  | cons c rest ih =>
      obtain ⟨x, y, old, rfl, hrest⟩ := eq_cons_cons hold
      have hj := hj (List.cons_ne_nil c rest)
      have hdone : (flat (hexUnits done)).length = 2 * done.length := by
        rw [length_flat, length_hexUnits]
      rw [List.length_cons] at hlength ⊢
      have hnext := @ih (done ++ [c]) old (wrapInt32 (j + 2)) hrest (fun hne => ?_) ?_
      · rw [hexUnits_append, flat_append, List.length_append, List.append_assoc,
          List.append_assoc (flat _)] at hnext
        rw [toHexLoop_succ (by omega) (by omega), List.cons_append, List.cons_append,
          put_two (by omega)]
        exact hnext
      · have hpos := List.length_pos_iff.mpr hne
        rw [wrapInt32_of_lt (by omega) (by omega), List.length_append, List.length_singleton]
        omega
      · rw [List.length_append, List.length_singleton]
        omega

section
variable {b : Bytes}

theorem toHexLoop_all {mem : Bytes} (hlength : b.length ≤ 2 ^ 30)
    (hroom : 2 * b.length ≤ mem.length) :
    toHexLoop b b.length 0 0 mem = some (flat (hexUnits b) ++ mem.drop (2 * b.length)) := by
  have hloop := @toHexLoop_eq [] b (mem.take (2 * b.length)) (mem.drop (2 * b.length)) 0
    (List.length_take_of_le hroom) (fun _ => rfl) (by rw [List.length_nil]; omega)
  rwa [List.take_append_drop] at hloop

theorem toHex_eq {mem : Bytes} (hlength : b.length < 2 ^ 30) (hroom : 2 * b.length < mem.length) :
    toHex b b.length mem = some (flat (hexUnits b) ++ 0 :: mem.drop (2 * b.length + 1)) := by
  have hflat : (flat (hexUnits b)).length = 2 * b.length := by rw [length_flat, length_hexUnits]
  rw [toHex, Int.toNat_natCast, toHexLoop_all (by omega) (by omega), Option.bind_some,
    wrapInt32_of_lt (by omega) (by omega), List.drop_eq_getElem_cons hroom]
  exact put_append_cons (by omega) _ _ _

theorem xorUnit_cancels : Cancels xorUnit := by
  intro u v
  simp only [xorUnit, UInt8.xor_comm u.1, UInt8.xor_comm u.2, ← UInt8.xor_assoc, UInt8.xor_self,
    UInt8.zero_xor]

theorem xor_cancels : Cancels fun x y : UInt8 => x ^^^ y := by
  intro x y
  change y ^^^ (x ^^^ y) = x
  rw [UInt8.xor_comm x, ← UInt8.xor_assoc, UInt8.xor_self, UInt8.zero_xor]

theorem flat_swap_hexUnits (b : Bytes) : flat ((hexUnits b).map Prod.swap) = readableText b := by
  rw [hexUnits, List.map_map, flat, List.flatMap_map]
  rfl

theorem length_readableText (b : Bytes) : (readableText b).length = 2 * b.length := by
  rw [← flat_swap_hexUnits, length_flat, List.length_map, length_hexUnits]

/-- The pairs turned around make the readable text. -/
theorem pairLoop_hexUnits (b tail : Bytes) :
    pairLoop (· ^^^ ·) (flat (hexUnits b).reverse ++ tail) (2 * b.length - 1) =
      some (readableText b.reverse ++ tail) := by
  have hreverse : (hexUnits b).reverse = hexUnits b.reverse := (List.map_reverse ..).symm
  rw [hreverse, pairLoop_eq xor_cancels, flat_swap_hexUnits]
  rw [length_hexUnits, List.length_reverse]

theorem toHexReadable_eq {mem : Bytes} (hlength : b.length < 2 ^ 30)
    (hroom : 2 * b.length < mem.length) :
    toHexReadable b b.length mem =
      some (readableText b.reverse ++ 0 :: mem.drop (2 * b.length + 1)) := by
  have hreverse := @reverseLoop_eq _ _ xorUnit_cancels [] (hexUnits b)
    (units (0 :: mem.drop (2 * b.length + 1))) 0 (b.length - 1) rfl
    (by rw [length_hexUnits, List.length_nil]; omega)
  rw [toHexReadable, toHex_eq hlength hroom, Option.bind_some,
    onUnits_flat hreverse (List.length_reverse), Option.bind_some,
    wrapInt32_of_lt (by omega) (by omega), pairLoop_hexUnits]

/-- The units that are left go before those that are written. -/
theorem copyReversed_eq (done rest behind old out : List (UInt8 × UInt8)) {size i j : Int}
    (hold : old.length = rest.length) (hsize : size = done.length + rest.length)
    (hi : i = done.length) (hj : j = rest.length - 1) :
    copyReversed (done ++ (rest ++ behind)) size i j (old ++ out) = some (rest.reverse ++ out) := by
  induction rest generalizing done old out i j with
  | nil =>
      rw [List.length_nil, List.length_eq_zero_iff] at hold
      rw [List.length_nil] at hsize
      rw [copyReversed, if_neg (by omega), hold]
      rfl
  | cons u rest ih =>
      rw [List.length_cons] at hold hsize hj
      obtain rfl | ⟨old, v, rfl⟩ := List.eq_nil_or_concat' old
      · cases hold
      · rw [List.length_append, List.length_singleton] at hold
        have hnext := @ih (done ++ [u]) old (u :: out) (i + 1) (j - 1) (by omega)
          (by rw [List.length_append, List.length_singleton]; omega)
          (by rw [List.length_append, List.length_singleton]; omega) (by omega)
        rw [List.append_assoc, List.singleton_append] at hnext
        rw [copyReversed, if_pos (by omega), List.cons_append, entry_append_cons hi,
          Option.bind_some, List.append_assoc, List.singleton_append, put_append_cons (by omega),
          Option.bind_some, hnext, List.reverse_cons, List.append_assoc, List.singleton_append]

theorem hexToReadable_eq {mem : Bytes} (hroom : 2 * b.length < mem.length) (behind : Bytes) :
    hexToReadable (flat (hexUnits b) ++ behind) (2 * b.length) mem =
      some (readableText b.reverse ++ 0 :: mem.drop (2 * b.length + 1)) := by
  have hsize : (2 * (b.length : Int)) / 2 = b.length := by omega
  obtain ⟨old, hold, hmem⟩ := exists_flat (Nat.le_of_lt hroom)
  rw [List.drop_eq_getElem_cons hroom] at hmem
  have hcopy := @copyReversed_eq [] (hexUnits b) (units behind) old
    (units (mem[2 * b.length] :: mem.drop (2 * b.length + 1))) b.length 0 (b.length - 1)
    (by rw [hold, length_hexUnits]) (by rw [length_hexUnits, List.length_nil]; omega) rfl
    (by rw [length_hexUnits])
  have hunits := onUnits_flat hcopy (by rw [List.length_reverse, length_hexUnits, hold])
  have htext : (2 * b.length : Int) = (readableText b.reverse).length := by
    rw [length_readableText, List.length_reverse]
    rfl
  rw [← hmem] at hunits
  rw [hexToReadable, hsize, units_flat_append]
  refine (congrArg (Option.bind · _) hunits).trans ?_
  rw [Option.bind_some, pairLoop_hexUnits, Option.bind_some, put_append_cons htext]

end

section
variable {base : UInt8} {oddHigh : Bool}

theorem decodeLoop_succ {hexInput done : Bytes} {i : Nat} {c : UInt8}
    (hchar : hexInput[i]? = some c) (hi : i / 2 = done.length) (x : UInt8) (tail : Bytes)
    (rounds : Nat) :
    decodeLoop base oddHigh hexInput (rounds + 1) i (done ++ x :: tail) =
      decodeLoop base oddHigh hexInput rounds (i + 1)
        (done ++ ((if i % 2 = 0 then 0 else x) ||| charBits base ((i % 2 = 1) == oddHigh) c) ::
          tail) := by
  have hclear : (if i % 2 = 0 then put (done ++ x :: tail) (i / 2 : Nat) 0
      else some (done ++ x :: tail)) = some (done ++ (if i % 2 = 0 then 0 else x) :: tail) := by
    split
    · exact put_append_cons (by omega) x 0 tail
    · rfl
  have hget (y : UInt8) : (done ++ y :: tail)[i / 2]? = some y := by
    rw [hi, getElem?_length_append]
  rw [decodeLoop, hclear, Option.bind_some, hchar, Option.bind_some, hget, Option.bind_some,
    put_append_cons (by omega), Option.bind_some]

/-- The byte of two characters. -/
def pairByte (base : UInt8) (oddHigh : Bool) (u : UInt8 × UInt8) : UInt8 :=
  charBits base (false == oddHigh) u.1 ||| charBits base (true == oddHigh) u.2

theorem decodeLoop_pair {front behind done : Bytes} (hfront : front.length = 2 * done.length)
    (u : UInt8 × UInt8) (x : UInt8) (tail : Bytes) (rounds : Nat) :
    decodeLoop base oddHigh (front ++ u.1 :: u.2 :: behind) (rounds + 2) (2 * done.length)
      (done ++ x :: tail) =
    decodeLoop base oddHigh (front ++ u.1 :: u.2 :: behind) rounds (2 * done.length + 2)
      (done ++ pairByte base oddHigh u :: tail) := by
  have hfirst : (front ++ u.1 :: u.2 :: behind)[2 * done.length]? = some u.1 := by
    rw [← hfront, getElem?_length_append]
  have hsecond : (front ++ u.1 :: u.2 :: behind)[2 * done.length + 1]? = some u.2 := by
    rw [← hfront, List.getElem?_append_right (Nat.le_add_right _ _), Nat.add_sub_cancel_left]
    rfl
  have heven : 2 * done.length / 2 = done.length := by omega
  have hodd : (2 * done.length + 1) / 2 = done.length := by omega
  rw [decodeLoop_succ hfirst heven, decodeLoop_succ hsecond hodd, if_neg (by omega),
    if_pos (by omega), decide_eq_false (by omega), decide_eq_true (by omega), UInt8.zero_or]
  rfl

/-- The decoders go over the text two characters at a time. -/
theorem decodeLoop_eq (us : List (UInt8 × UInt8)) {front behind done old : Bytes} (tail : Bytes)
    (hfront : front.length = 2 * done.length) (hold : old.length = us.length) :
    decodeLoop base oddHigh (front ++ (flat us ++ behind)) (2 * us.length) (2 * done.length)
      (done ++ (old ++ tail)) =
    some (done ++ (us.map (pairByte base oddHigh) ++ tail)) := by
  induction us generalizing front done old with
  | nil =>
      rw [List.length_nil, List.length_eq_zero_iff] at hold
      rw [hold]
      rfl
  | cons u us ih =>
      obtain ⟨x, old, rfl⟩ := List.exists_cons_of_length_eq_add_one hold
      have hnext := @ih (front ++ [u.1, u.2]) (done ++ [pairByte base oddHigh u]) old
        (by simp only [List.length_append, List.length_cons, List.length_nil]; omega)
        (Nat.succ.inj hold)
      rw [List.append_assoc, List.append_assoc, List.append_assoc, List.length_append] at hnext
      rw [flat_cons, List.cons_append, List.cons_append, List.length_cons, Nat.mul_succ,
        List.cons_append, decodeLoop_pair hfront]
      exact hnext

theorem decodeLoop_all (us : List (UInt8 × UInt8)) {result : Bytes} (behind : Bytes)
    (hroom : us.length ≤ result.length) :
    decodeLoop base oddHigh (flat us ++ behind) (2 * us.length) 0 result =
      some (us.map (pairByte base oddHigh) ++ result.drop us.length) := by
  have hloop := @decodeLoop_eq base oddHigh us [] behind [] (result.take us.length)
    (result.drop us.length) rfl (List.length_take_of_le hroom)
  rw [List.take_append_drop] at hloop
  exact hloop

end

theorem charBits_hexChar {high : Bool} {n : UInt8} (hn : n.toNat < 16) :
    charBits (byte 'A') high (hexChar n) = nibbleBits high n := by
  have hall : ∀ high, ∀ k < 16, charBits (byte 'A') high (hexChar (UInt8.ofNat k)) =
      nibbleBits high (UInt8.ofNat k) := by decide +kernel
  have hchar := hall high n.toNat hn
  rwa [UInt8.ofNat_toNat] at hchar

theorem pairByte_low (c : UInt8) :
    pairByte (byte 'A') true (hexChar (lowNibble c), hexChar (highNibble c)) = c := by
  rw [pairByte, charBits_hexChar (toNat_lowNibble_lt c), charBits_hexChar (toNat_highNibble_lt c)]
  exact nibbleBits_or c

theorem pairByte_high (c : UInt8) :
    pairByte (byte 'A') false (hexChar (highNibble c), hexChar (lowNibble c)) = c := by
  rw [pairByte, charBits_hexChar (toNat_lowNibble_lt c), charBits_hexChar (toNat_highNibble_lt c),
    UInt8.or_comm]
  exact nibbleBits_or c

theorem map_pairByte_hexUnits (b : Bytes) :
    (hexUnits b).map (pairByte (byte 'A') true) = b := by
  rw [hexUnits, List.map_map]
  exact (List.map_congr_left fun c _ => pairByte_low c).trans (List.map_id b)

theorem map_pairByte_swap (b : Bytes) :
    ((hexUnits b).map Prod.swap).map (pairByte (byte 'A') false) = b := by
  rw [hexUnits, List.map_map, List.map_map]
  exact (List.map_congr_left fun c _ => pairByte_high c).trans (List.map_id b)

theorem fromHex_eq {b result : Bytes} (hroom : b.length ≤ result.length) (behind : Bytes) :
    fromHex (flat (hexUnits b) ++ behind) (2 * b.length) result =
      some (b ++ result.drop b.length) := by
  have hloop := @decodeLoop_all (byte 'A') true (hexUnits b) result behind
    (by rwa [length_hexUnits])
  rw [length_hexUnits, map_pairByte_hexUnits] at hloop
  exact hloop

theorem fromLittleEndiumHex_eq {b result : Bytes} (hroom : b.length ≤ result.length) {outSize : Int}
    (hsize : b.length ≤ outSize) (behind : Bytes) :
    fromLittleEndiumHex (readableText b ++ behind) (2 * b.length) result outSize true =
      some (b ++ result.drop b.length, (b.length : Int)) := by
  have hneed : (if (2 * b.length : Int) % 2 = 1 then (2 * b.length : Int) / 2 + 1
      else (2 * b.length : Int) / 2) = b.length := by
    rw [if_neg (by omega)]
    omega
  have hloop := @decodeLoop_all (byte 'A') false ((hexUnits b).map Prod.swap) result behind
    (by rwa [List.length_map, length_hexUnits])
  rw [List.length_map, length_hexUnits, map_pairByte_swap, flat_swap_hexUnits] at hloop
  rw [fromLittleEndiumHex, hneed, if_neg (by omega)]
  exact congrArg (Option.map _) hloop

/-- Byte strings below 2^30 bytes go through all five codecs. A buffer keeps what is behind the
result. -/
theorem hex_codecs {b hex readable converted result machine : Bytes} {outSize : Int}
    (hlength : b.length < 2 ^ 30) (hhex : 2 * b.length < hex.length)
    (hreadable : 2 * b.length < readable.length) (hconverted : 2 * b.length < converted.length)
    (hresult : b.length ≤ result.length) (hmachine : b.length ≤ machine.length)
    (hsize : b.length ≤ outSize) :
    ∃ hexString readableString,
      toHex b b.length hex = some hexString ∧
      fromHex hexString (2 * b.length) result = some (b ++ result.drop b.length) ∧
      toHexReadable b b.length readable = some readableString ∧
      readableString = readableText b.reverse ++ 0 :: readable.drop (2 * b.length + 1) ∧
      hexToReadable hexString (2 * b.length) converted =
        some (readableText b.reverse ++ 0 :: converted.drop (2 * b.length + 1)) ∧
      fromLittleEndiumHex readableString (2 * b.length) machine outSize true =
        some (b.reverse ++ machine.drop b.length, (b.length : Int)) := by
  have hreverse := @fromLittleEndiumHex_eq b.reverse machine (by rwa [List.length_reverse]) outSize
    (by rwa [List.length_reverse]) (0 :: readable.drop (2 * b.length + 1))
  rw [List.length_reverse] at hreverse
  exact ⟨_, _, toHex_eq hlength hhex, fromHex_eq hresult _, toHexReadable_eq hlength hreadable, rfl,
    hexToReadable_eq hconverted _, hreverse⟩

theorem hex_codecs_two :
    ∃ hexString readableString,
      toHex [0x1A, 0xF0] 2 [1, 1, 1, 1, 1] = some hexString ∧
      fromHex hexString 4 [1, 1] = some [0x1A, 0xF0] ∧
      toHexReadable [0x1A, 0xF0] 2 [1, 1, 1, 1, 1] = some readableString ∧
      readableString = bytes "F01A" ++ [0] ∧
      hexToReadable hexString 4 [1, 1, 1, 1, 1] = some (bytes "F01A" ++ [0]) ∧
      fromLittleEndiumHex readableString 4 [1, 1] 2 true = some ([0xF0, 0x1A], 2) :=
  @hex_codecs [0x1A, 0xF0] [1, 1, 1, 1, 1] [1, 1, 1, 1, 1] [1, 1, 1, 1, 1] [1, 1] [1, 1] 2
    (by decide) (by decide) (by decide) (by decide) (by decide) (by decide) (by decide)

/-- At 2^30 bytes the index of the terminator wraps. -/
theorem toHex_wraps :
    toHex (List.replicate (2 ^ 30) 0) (2 ^ 30 : Nat) (List.replicate (2 ^ 31 + 1) 0) = none := by
  have hloop := @toHexLoop_all (List.replicate (2 ^ 30) 0) (List.replicate (2 ^ 31 + 1) 0)
    (by rw [List.length_replicate]) (by rw [List.length_replicate, List.length_replicate]; omega)
  rw [List.length_replicate] at hloop
  rw [toHex, Int.toNat_natCast, hloop, Option.bind_some]
  exact if_neg fun h => absurd h.1 (by decide)

end AdServer.Codec
