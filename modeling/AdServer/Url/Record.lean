import AdServer.Url.Deserialize

/-!
The record format behind the serialised parameters: a list of field values, one
for each row of the binding table. A field value has a byte form, a weight in the
check value and the text it leaves in a parameter map. Every byte form can be
read off the front of any longer input, so a record is read back field by field
although nothing separates its fields. `urlParamDeserialize` is this reading
followed by the insertions into the map.
-/
namespace AdServer.Url

inductive FieldValue
  | int (n : Int)
  | string (s : Bytes)
  deriving DecidableEq, Repr

namespace FieldValue

def type : FieldValue → ParamType
  | int _ => .int
  | string _ => .string

def encode : FieldValue → Bytes
  | int n => if 0 < n then Base128.encode n.toNat else [0x00]
  | string s => if s = [] then [0x00] else Base128.encode s.length ++ s

def weight : FieldValue → BitVec 64
  | int n => toUInt64 n
  | string s => BitVec.ofNat 64 s.length

def text : FieldValue → Bytes
  | int n => if n = 0 then [] else intToString n
  | string s => s

def Storable : FieldValue → Prop
  | int n => 0 ≤ n ∧ n < 2 ^ 63
  | string s => s.length < 2 ^ 31

end FieldValue

def xorWeights : List FieldValue → BitVec 64
  | [] => 0
  | f :: fs => f.weight ^^^ xorWeights fs

def checkValue (fs : List FieldValue) : BitVec 64 := 0xFFFFFFFF#64 ^^^ xorWeights fs

def decodeField : ParamType → Bytes → Except URLException (FieldValue × Bytes)
  | .int, p =>
    match decodeUrlParamNum p with
    | .error e => .error e
    | .ok (num, p') => .ok (.int num, p')
  | .string, p =>
    match decodeUrlParamStr p with
    | .error e => .error e
    | .ok (v, p') => .ok (.string v, p')

/-- The fields read from an input. Rows met after its end have no field. -/
def decodeRecord : List ParamBindingItem → Bytes → Except URLException (List (Bytes × FieldValue))
  | [], _ => .ok []
  | item :: table, p =>
    if p = [] then decodeRecord table p
    else
      match decodeField item.2 p with
      | .error e => .error e
      | .ok (f, p') =>
        match decodeRecord table p' with
        | .error e => .error e
        | .ok fs => .ok ((item.1, f) :: fs)

def insertField (m : ParamMap) (field : Bytes × FieldValue) : ParamMap :=
  if field.2.text = [] then m else m.insertNew field.1 field.2.text

theorem deserializeLoop_cons (item : ParamBindingItem) (table : List ParamBindingItem)
    {p : Bytes} (hp : p ≠ []) (vc : BitVec 64) (m : ParamMap) :
    deserializeLoop (item :: table) p vc m =
      match decodeField item.2 p with
      | .error e => .error e m
      | .ok (f, p') => deserializeLoop table p' (vc ^^^ f.weight) (insertField m (item.1, f)) := by
  obtain ⟨key, type⟩ := item
  cases type with
  | int =>
      simp only [deserializeLoop, hp, if_false, decodeField]
      cases decodeUrlParamNum p with
      | error e => rfl
      | ok r =>
          by_cases hzero : r.1 = 0 <;>
            simp [hzero, insertField, FieldValue.text, FieldValue.weight, intToString_ne_nil]
  | string =>
      simp only [deserializeLoop, hp, if_false, decodeField]
      cases decodeUrlParamStr p with
      | error e => rfl
      | ok r =>
          by_cases hempty : r.1 = [] <;>
            simp [hempty, insertField, FieldValue.text, FieldValue.weight]

/-- The loop refines the reading of a record: it fails where the reading fails,
and otherwise leaves the texts of the fields in the map. -/
theorem deserializeLoop_eq (table : List ParamBindingItem) (p : Bytes) (vc : BitVec 64)
    (m : ParamMap) :
    match decodeRecord table p with
    | .ok fs => deserializeLoop table p vc m =
        .ok (vc ^^^ xorWeights (fs.map Prod.snd)) (fs.foldl insertField m)
    | .error e => ∃ m', deserializeLoop table p vc m = .error e m' := by
  induction table generalizing p vc m with
  | nil => simp [decodeRecord, deserializeLoop, xorWeights]
  | cons item table ih =>
      by_cases hp : p = []
      · simpa only [decodeRecord, deserializeLoop, hp, if_true] using ih [] vc m
      · simp only [decodeRecord, hp, if_false, deserializeLoop_cons item table hp vc m]
        cases decodeField item.2 p with
        | error e => exact ⟨m, rfl⟩
        | ok r =>
            obtain ⟨f, p'⟩ := r
            have htail := ih p' (vc ^^^ f.weight) (insertField m (item.1, f))
            cases hrecord : decodeRecord table p' with
            | error e => simpa only [hrecord] using htail
            | ok fs =>
                simp only [hrecord] at htail
                simp only [hrecord, htail, List.map_cons, List.foldl_cons, xorWeights,
                  BitVec.xor_assoc]

theorem urlParamDeserialize_ok {table : List ParamBindingItem} {input : Bytes}
    {fs : List (Bytes × FieldValue)} (h : decodeRecord table input = .ok fs) (m : ParamMap) :
    urlParamDeserialize table input m = .ok (checkValue (fs.map Prod.snd)) (fs.foldl insertField m) := by
  have hloop := deserializeLoop_eq table input 0xFFFFFFFF#64 m
  rw [h] at hloop
  exact hloop

theorem urlParamDeserialize_error {table : List ParamBindingItem} {input : Bytes}
    {e : URLException} (h : decodeRecord table input = .error e) (m : ParamMap) :
    ∃ m', urlParamDeserialize table input m = .error e m' := by
  have hloop := deserializeLoop_eq table input 0xFFFFFFFF#64 m
  rw [h] at hloop
  exact hloop

theorem continues_iff (b : UInt8) : Base128.continues b = true ↔ 0x7F < b := by
  simp only [Base128.continues, decide_eq_true_eq, UInt8.lt_iff_toNat_lt, UInt8.reduceToNat]
  omega

theorem countContinuation_eq (limit : Int) (buf : Bytes) (i : Nat)
    (h : (i : Int) + buf.length ≤ limit) :
    countContinuation limit buf i = i + (buf.takeWhile Base128.continues).length := by
  induction buf generalizing i with
  | nil => simp [countContinuation]
  | cons b bs ih =>
      simp only [List.length_cons] at h
      have hi : (i : Int) < limit := by omega
      by_cases hb : 0x7F < b
      · have hcont := (continues_iff b).mpr hb
        have htail := ih (i + 1) (by omega)
        simp only [countContinuation, hi, hb, and_self, if_true, htail, List.takeWhile_cons, hcont,
          List.length_cons]
        omega
      · have hcont : Base128.continues b = false := by
          cases h : Base128.continues b with
          | false => rfl
          | true => exact absurd ((continues_iff b).mp h) hb
        simp [countContinuation, hb, hcont]

theorem and_mask_toNat (b : UInt8) : (b &&& 0x7F).toNat = Base128.group b := by
  rw [UInt8.toNat_and, Base128.group]
  exact Nat.and_two_pow_sub_one_eq_mod b.toNat 7

theorem foldr_numberDecode {w : Nat} (bs : Bytes) :
    bs.foldr (fun c result => (result + BitVec.ofNat w (c &&& 0x7F).toNat) <<< 7) (0 : BitVec w) =
      BitVec.ofNat w (128 * Base128.value bs) := by
  have hshift (n : Nat) : BitVec.ofNat w n <<< 7 = BitVec.ofNat w (128 * n) := by
    apply BitVec.eq_of_toNat_eq
    rw [BitVec.toNat_shiftLeft, BitVec.toNat_ofNat, BitVec.toNat_ofNat, Nat.shiftLeft_eq,
      Nat.mod_mul_mod, Nat.mul_comm]
  induction bs with
  | nil => rfl
  | cons b bs ih =>
      rw [List.foldr_cons, ih, and_mask_toNat, ← BitVec.ofNat_add, hshift, Nat.add_comm,
        Base128.value_cons]

theorem numberDecodeSum_eq (bs : Bytes) :
    numberDecodeSum bs = BitVec.ofNat 64 (Base128.value bs) := by
  cases bs with
  | nil => rfl
  | cons b bs =>
      rw [numberDecodeSum, foldr_numberDecode, and_mask_toNat, ← BitVec.ofNat_add, Nat.add_comm,
        Base128.value_cons]

theorem numberDecode_encode {n : Nat} (hpos : 0 < n) (hn : n < 2 ^ 63) (rest : Bytes)
    (hlen : (Base128.encode n ++ rest).length < 2 ^ 31) :
    numberDecode (Base128.encode n ++ rest) = .ok ((n : Int), rest) := by
  have hlimit := toInt32_of_lt hlen
  have hencode : 0 < (Base128.encode n).length := List.length_pos_iff.mpr (Base128.encode_ne_nil hpos)
  have hj : countContinuation (Base128.encode n ++ rest).length (Base128.encode n ++ rest) 0 =
      (Base128.encode n).length - 1 := by
    rw [countContinuation_eq _ _ _ (by omega), Base128.takeWhile_encode_append hpos]
    simp
  have hnext : (Base128.encode n).length - 1 + 1 = (Base128.encode n).length := by omega
  have hroom : ¬ ((Base128.encode n ++ rest).length : Int) ≤ ((Base128.encode n).length - 1 : Nat) := by
    simp only [List.length_append]
    omega
  simp only [numberDecode, hj, hlimit, hroom, if_false, hnext, List.take_left', List.drop_left',
    numberDecodeSum_eq, Base128.value_encode]
  rw [BitVec.toInt_ofNat', Int.bmod_eq_of_le (by omega) (by omega)]

theorem numberDecode_zero (rest : Bytes) (hlen : (0x00 :: rest).length < 2 ^ 31) :
    numberDecode (0x00 :: rest) = .ok (0, rest) := by
  have hlimit := toInt32_of_lt hlen
  have hroom : ¬ ((0x00 :: rest : Bytes).length : Int) ≤ (0 : Nat) := by
    simp only [List.length_cons]
    omega
  have hj : countContinuation (0x00 :: rest : Bytes).length (0x00 :: rest) 0 = 0 := by
    have hzero : ¬ (0x7F : UInt8) < 0x00 := by decide
    simp [countContinuation, hzero]
  simp only [numberDecode, hlimit, hj, hroom, if_false]
  rfl

theorem decodeField_encode (f : FieldValue) (h : f.Storable) (rest : Bytes)
    (hlen : (f.encode ++ rest).length < 2 ^ 31) :
    decodeField f.type (f.encode ++ rest) = .ok (f, rest) := by
  cases f with
  | int n =>
      obtain ⟨hnonneg, hn⟩ := h
      by_cases hpos : 0 < n
      · simp only [FieldValue.encode, hpos, if_true] at hlen ⊢
        have hnum := numberDecode_encode (n := n.toNat) (by omega) (by omega) rest hlen
        simp only [decodeField, FieldValue.type, decodeUrlParamNum, hnum, Int.toNat_of_nonneg hnonneg]
      · have hzero : n = 0 := by omega
        subst hzero
        simp only [FieldValue.encode, Int.lt_irrefl, if_false, List.cons_append, List.nil_append] at hlen ⊢
        simp only [decodeField, FieldValue.type, decodeUrlParamNum, numberDecode_zero rest hlen]
  | string s =>
      have hs : s.length < 2 ^ 31 := h
      by_cases hempty : s = []
      · subst hempty
        simp only [FieldValue.encode, if_true, List.cons_append, List.nil_append] at hlen ⊢
        simp only [decodeField, FieldValue.type, decodeUrlParamStr, numberDecode_zero rest hlen,
          Int.lt_irrefl, false_and, if_false]
      · have hpos : 0 < s.length := List.length_pos_iff.mpr hempty
        simp only [FieldValue.encode, hempty, if_false, List.append_assoc] at hlen ⊢
        have hnum := numberDecode_encode hpos (by omega) (s ++ rest) hlen
        have hroom : (0 : Int) < s.length ∧ (s.length : Int) ≤ (s ++ rest).length := by
          simp only [List.length_append]
          omega
        simp only [decodeField, FieldValue.type, decodeUrlParamStr, hnum, hroom, and_self, if_true,
          Int.toNat_natCast, List.take_left', List.drop_left']

theorem FieldValue.encode_ne_nil (f : FieldValue) : f.encode ≠ [] := by
  cases f with
  | int n =>
      by_cases hpos : 0 < n
      · simpa [encode, hpos] using Base128.encode_ne_nil (n := n.toNat) (by omega)
      · simp [encode, hpos]
  | string s =>
      by_cases hempty : s = []
      · simp [encode, hempty]
      · simp [encode, hempty]

theorem decodeRecord_encode (table : List ParamBindingItem) (field : ParamBindingItem → FieldValue)
    (htype : ∀ item ∈ table, (field item).type = item.2)
    (hstorable : ∀ item ∈ table, (field item).Storable)
    (hlen : (table.flatMap fun item => (field item).encode).length < 2 ^ 31) :
    decodeRecord table (table.flatMap fun item => (field item).encode) =
      .ok (table.map fun item => (item.1, field item)) := by
  induction table with
  | nil => rfl
  | cons item table ih =>
      rw [List.flatMap_cons] at hlen ⊢
      have hne : (field item).encode ++ table.flatMap (fun item => (field item).encode) ≠ [] := by
        simp [FieldValue.encode_ne_nil]
      have hfield := decodeField_encode (field item) (hstorable item (by simp)) _ hlen
      rw [htype item (by simp)] at hfield
      have htail := ih (fun x hx => htype x (List.mem_cons_of_mem item hx))
        (fun x hx => hstorable x (List.mem_cons_of_mem item hx))
        (by simp only [List.length_append] at hlen; omega)
      simp only [decodeRecord, hne, if_false, hfield, htail, List.map_cons]

end AdServer.Url
