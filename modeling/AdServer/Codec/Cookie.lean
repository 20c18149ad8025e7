import AdServer.Codec.Nibble
import AdServer.Url.Percent
import AdServer.Library.LowerBound

/-!
The cipher of the user cookie. A nibble is written as the character at its place in one of four
rows, which take turns. The decoder finds the character in a sorted copy of the row and the nibble
in a third table. That it finds it rests on three properties of a row: the copy is sorted, the
third table says where its characters stand in the row, and no character stands there twice.
-/
namespace AdServer.Codec

open Cells LowerBound Url

universe u

/-- The index found or -1; `none` is a read outside of the array. -/
def bSearch {κ : Type u} [LinearOrder κ] (array : List κ) (key : κ) : Option Int :=
  (search (entry array) key 0 (array.length - 1)).map fun l : Int =>
    if ¬(0 ≤ l ∧ l < array.length ∧ entry array l = some key) ∨ entry array l ≠ some key then -1
    else l

/-- The rows of one number in the three tables. -/
structure CypherRow where
  map : Bytes
  sort : Bytes
  pos : List Nat

/-- The search for a character in the sorted row. -/
def CypherRow.find (row : CypherRow) (c : UInt8) : Option Int :=
  bSearch (row.sort.map charIndex) (charIndex c)

def cypherMap : List Bytes :=
  [bytes "6FXDeNRgys4q=9UY",
    bytes "1oiBCaw3jv_AzMJm",
    bytes "OkMtd7xTufnIKPhH",
    bytes "5L8V0EbSlGQZrc2p"]

def cypherSortMap : List Bytes :=
  [bytes "469=DFNRUXYegqsy",
    bytes "13ABCJM_aijmovwz",
    bytes "7HIKMOPTdfhkntux",
    bytes "0258EGLQSVZbclpr"]

def cypherPosMap : List (List Nat) :=
  [[10, 0, 13, 12, 3, 1, 5, 6, 14, 2, 15, 4, 7, 11, 9, 8],
    [0, 7, 11, 3, 4, 14, 13, 10, 5, 2, 8, 15, 1, 9, 6, 12],
    [5, 15, 11, 12, 2, 0, 13, 7, 4, 9, 14, 1, 10, 3, 8, 6],
    [4, 14, 0, 2, 5, 9, 1, 10, 7, 3, 11, 6, 13, 8, 15, 12]]

/-- The row for the character at an index. -/
def cypherRow (j : Nat) : CypherRow :=
  ⟨cypherMap.getD (j % 4) [], cypherSortMap.getD (j % 4) [], cypherPosMap.getD (j % 4) []⟩

def cookiesEncodeLoop : Bytes → Nat → Bytes → Bytes
  | [], _, output => output
  | c :: input, j, output =>
    cookiesEncodeLoop input (j + 2)
      ((output.set j ((cypherRow j).map.getD (lowNibble c).toNat 0)).set (j + 1)
        ((cypherRow (j + 1)).map.getD (highNibble c).toNat 0))

/-- `none` is the exception. -/
def cookiesEncode (input result : Bytes) : Option Bytes :=
  if 8 < input.length then none else some (cookiesEncodeLoop input 0 result)

/-- `none` is a read outside of a table. -/
def cookiesDecodeLoop : Bytes → Nat → Bytes → Option (Bool × Bytes)
  | [], _, output => some (true, output)
  | c :: input, i, output =>
    ((cypherRow i).find c).bind fun idx =>
      if idx < 0 ∨ 15 < idx then some (false, output)
      else
        (entry (cypherRow i).pos idx).bind fun pos =>
          cookiesDecodeLoop input (i + 1) (output.modify (i / 2)
            (· ||| nibbleBits (i % 2 = 1) (UInt8.ofNat pos)))

/-- What is returned, the output and its size; `none` is a read outside of a table. The buffer has
at least the bytes that `size` says. -/
def cookiesDecode (input output : Bytes) (size : Int) : Option (Bool × Bytes × Int) :=
  if size < 8 then some (false, output, size)
  else
    (cookiesDecodeLoop input 0 (List.replicate 8 0 ++ output.drop 8)).map fun (valid, output) =>
      (valid, output, if valid then 8 else size)

theorem bSearch_sorted {κ : Type u} [LinearOrder κ] {array : List κ}
    (hsorted : array.Pairwise (· ≤ ·)) (key : κ) :
    (∃ i : Nat, bSearch array key = some (i : Int) ∧ array[i]? = some key) ∨
      key ∉ array ∧ bSearch array key = some (-1) := by
  obtain ⟨i, hsearch, -, hfound⟩ := search_sorted hsorted key
  rw [bSearch, hsearch, Option.map_some, entry_natCast]
  by_cases hkey : array[i]? = some key
  · have hlt : i < array.length := (List.getElem?_eq_some_iff.mp hkey).1
    refine .inl ⟨i, congrArg some (if_neg ?_), hkey⟩
    rw [not_or, not_not, not_not]
    exact ⟨⟨Int.natCast_nonneg i, Int.ofNat_lt.mpr hlt, hkey⟩, hkey⟩
  · exact .inr ⟨fun hmem => hkey (hfound.mpr hmem), congrArg some (if_pos (.inr hkey))⟩

theorem charIndex_inj {a b : UInt8} : charIndex a = charIndex b ↔ a = b := by
  refine ⟨fun h => ?_, congrArg charIndex⟩
  have ha := a.toNat_lt
  have hb := b.toNat_lt
  unfold charIndex at h
  rw [← UInt8.toNat_inj]
  split at h <;> split at h <;> simp only [UInt8.lt_iff_toNat_lt, UInt8.reduceToNat] at * <;> omega

/-- The sorted row has the characters of the row in the order of the positions. -/
structure CypherRow.Consistent (row : CypherRow) : Prop where
  length_map : row.map.length = 16
  perm : row.pos.Perm (List.range 16)
  spelled : row.sort.map some = row.pos.map (row.map[·]?)
  sorted : (row.sort.map charIndex).Pairwise (· ≤ ·)

namespace CypherRow.Consistent

variable {row : CypherRow} (h : row.Consistent)
include h

theorem sort_getElem? {i : Nat} {c : UInt8} (hc : row.sort[i]? = some c) :
    ∃ v, row.pos[i]? = some v ∧ v < 16 ∧ row.map[v]? = some c := by
  have hspelled : (row.sort.map some)[i]? = (row.pos.map (row.map[·]?))[i]? :=
    congrArg (·[i]?) h.spelled
  rw [List.getElem?_map, List.getElem?_map, hc, Option.map_some, eq_comm,
    Option.map_eq_some_iff] at hspelled
  obtain ⟨v, hv, hmap⟩ := hspelled
  exact ⟨v, hv, List.mem_range.mp (h.perm.subset (List.mem_of_getElem? hv)), hmap⟩

theorem mem_sort {c : UInt8} : c ∈ row.sort ↔ c ∈ row.map := by
  constructor
  · intro hc
    obtain ⟨i, hi⟩ := List.mem_iff_getElem?.mp hc
    obtain ⟨v, -, -, hmap⟩ := h.sort_getElem? hi
    exact List.mem_of_getElem? hmap
  · intro hc
    obtain ⟨v, hv⟩ := List.mem_iff_getElem?.mp hc
    have hlt : v < 16 := h.length_map ▸ (List.getElem?_eq_some_iff.mp hv).1
    have hmem : some c ∈ row.pos.map (row.map[·]?) :=
      List.mem_map.mpr ⟨v, h.perm.symm.subset (List.mem_range.mpr hlt), hv⟩
    rw [← h.spelled] at hmem
    exact (List.mem_map_of_injective (Option.some_injective _)).mp hmem

/-- The search ends at a place of the character in the row. -/
theorem find_cases (c : UInt8) :
    (∃ i v : Nat, row.find c = some (i : Int) ∧ row.pos[i]? = some v ∧ v < 16 ∧
      row.map[v]? = some c) ∨
    c ∉ row.map ∧ row.find c = some (-1) := by
  obtain ⟨i, hfind, hget⟩ | ⟨hmem, hfind⟩ := bSearch_sorted h.sorted (charIndex c)
  · rw [List.getElem?_map, Option.map_eq_some_iff] at hget
    obtain ⟨c', hc', hsame⟩ := hget
    obtain rfl := charIndex_inj.mp hsame
    obtain ⟨v, hv, hlt, hmap⟩ := h.sort_getElem? hc'
    exact .inl ⟨i, v, hfind, hv, hlt, hmap⟩
  · refine .inr ⟨fun hc => hmem ?_, hfind⟩
    exact List.mem_map_of_mem (h.mem_sort.mpr hc)

theorem lt_sixteen {i v : Nat} (hi : row.pos[i]? = some v) : i < 16 := by
  have hlt := (List.getElem?_eq_some_iff.mp hi).1
  rwa [h.perm.length_eq, List.length_range] at hlt

/-- A nibble is found again where no character stands twice. -/
theorem find_of_nodup (hnodup : row.map.Nodup) {v : Nat} {c : UInt8} (hv : row.map[v]? = some c) :
    ∃ i : Nat, row.find c = some (i : Int) ∧ row.pos[i]? = some v := by
  obtain ⟨i, w, hfind, hpos, -, hw⟩ | ⟨hmem, -⟩ := h.find_cases c
  · have hlt := (List.getElem?_eq_some_iff.mp hv).1
    obtain rfl : v = w := (List.getElem?_inj hlt hnodup).mp (hv.trans hw.symm)
    exact ⟨i, hfind, hpos⟩
  · exact absurd (List.mem_of_getElem? hv) hmem

end CypherRow.Consistent

theorem cypherRow_consistent (j : Nat) : (cypherRow j).Consistent := by
  have hlt : j % 4 < 4 := Nat.mod_lt j (by decide)
  unfold cypherRow
  generalize j % 4 = k at hlt
  have hall : ∀ k < 4,
      (cypherMap.getD k []).length = 16 ∧ (cypherPosMap.getD k []).Perm (List.range 16) ∧
      (cypherSortMap.getD k []).map some =
        (cypherPosMap.getD k []).map ((cypherMap.getD k [])[·]?) ∧
      ((cypherSortMap.getD k []).map charIndex).Pairwise (· ≤ ·) := by decide +kernel
  obtain ⟨hlength, hperm, hspelled, hsorted⟩ := hall k hlt
  exact ⟨hlength, hperm, hspelled, hsorted⟩

theorem cypherRow_nodup (j : Nat) : (cypherRow j).map.Nodup := by
  have hlt : j % 4 < 4 := Nat.mod_lt j (by decide)
  unfold cypherRow
  generalize j % 4 = k at hlt
  have hall : ∀ k < 4, (cypherMap.getD k []).Nodup := by decide +kernel
  exact hall k hlt

/-- The characters for some bytes, the first of them at an index. -/
def cookieText : Nat → Bytes → Bytes
  | _, [] => []
  | j, c :: input =>
    (cypherRow j).map.getD (lowNibble c).toNat 0 ::
      (cypherRow (j + 1)).map.getD (highNibble c).toNat 0 :: cookieText (j + 2) input

theorem cookiesEncodeLoop_eq {input old : Bytes} (done : Bytes)
    (hroom : old.length = 2 * input.length) :
    cookiesEncodeLoop input done.length (done ++ old) = done ++ cookieText done.length input := by
  induction input generalizing done old with
  | nil =>
      rw [List.length_nil, Nat.mul_zero, List.length_eq_zero_iff] at hroom
      rw [hroom]
      rfl
  | cons c input ih =>
      obtain ⟨a, b, old, rfl, hrest⟩ := eq_cons_cons hroom
      have hstep (x y : UInt8) : ((done ++ a :: b :: old).set done.length x).set
          (done.length + 1) y = (done ++ [x, y]) ++ old := by
        simp
      have hlength (x y : UInt8) : (done ++ [x, y]).length = done.length + 2 := by simp
      rw [cookiesEncodeLoop, hstep, ← hlength, ih _ hrest, hlength, List.append_assoc]
      rfl

theorem cypherRow_getElem? (j : Nat) {v : Nat} (hv : v < 16) :
    (cypherRow j).map[v]? = some ((cypherRow j).map.getD v 0) := by
  rw [List.getD_eq_getElem?_getD,
    List.getElem?_eq_getElem ((cypherRow_consistent j).length_map.symm ▸ hv), Option.getD_some]

section
variable {i : Nat} {c : UInt8} {input output : Bytes}

theorem cookiesDecodeLoop_char {v : Nat} (hv : (cypherRow i).map[v]? = some c) :
    cookiesDecodeLoop (c :: input) i output =
      cookiesDecodeLoop input (i + 1)
        (output.modify (i / 2) (· ||| nibbleBits (i % 2 = 1) (UInt8.ofNat v))) := by
  obtain ⟨k, hfind, hpos⟩ := (cypherRow_consistent i).find_of_nodup (cypherRow_nodup i) hv
  have hlt := (cypherRow_consistent i).lt_sixteen hpos
  rw [cookiesDecodeLoop, hfind, Option.bind_some, if_neg (by omega), entry_natCast, hpos,
    Option.bind_some]

theorem cookiesDecodeLoop_stray (hc : c ∉ (cypherRow i).map) :
    cookiesDecodeLoop (c :: input) i output = some (false, output) := by
  obtain ⟨k, v, -, -, -, hv⟩ | ⟨-, hfind⟩ := (cypherRow_consistent i).find_cases c
  · exact absurd (List.mem_of_getElem? hv) hc
  · rw [cookiesDecodeLoop, hfind, Option.bind_some, if_pos (.inl (by decide))]

end

theorem cookiesDecodeLoop_text (input done rest : Bytes) :
    cookiesDecodeLoop (cookieText (2 * done.length) input) (2 * done.length)
      (done ++ (List.replicate input.length 0 ++ rest)) =
      some (true, done ++ (input ++ rest)) := by
  induction input generalizing done with
  | nil => rfl
  | cons c input ih =>
      have hnext := ih (done ++ [c])
      rw [List.length_append, List.length_singleton, Nat.mul_add, List.append_assoc,
        List.singleton_append, List.append_assoc, List.singleton_append] at hnext
      have hbyte : (0 : UInt8) ||| nibbleBits (2 * done.length % 2 = 1)
          (UInt8.ofNat (lowNibble c).toNat) ||| nibbleBits ((2 * done.length + 1) % 2 = 1)
          (UInt8.ofNat (highNibble c).toNat) = c := by
        rw [decide_eq_false (by omega), decide_eq_true (by omega), UInt8.ofNat_toNat,
          UInt8.ofNat_toNat, UInt8.zero_or, nibbleBits_or]
      rw [cookieText, cookiesDecodeLoop_char (cypherRow_getElem? _ (toNat_lowNibble_lt c)),
        cookiesDecodeLoop_char (cypherRow_getElem? _ (toNat_highNibble_lt c)),
        show 2 * done.length / 2 = done.length by omega,
        show (2 * done.length + 1) / 2 = done.length by omega, List.length_cons,
        List.replicate_succ, List.cons_append, modify_length_append, modify_length_append, hbyte]
      exact hnext

/-- Every text that is accepted is the text of some bytes. -/
theorem exists_cookieText {k : Nat} {text : Bytes} {j : Nat} {output out : Bytes}
    (hlength : text.length = 2 * k)
    (hrun : cookiesDecodeLoop text j output = some (true, out)) :
    ∃ input, input.length = k ∧ cookieText j input = text := by
  induction k generalizing text j output with
  | zero => exact ⟨[], rfl, (List.length_eq_zero_iff.mp hlength).symm⟩
  | succ k ih =>
      obtain ⟨a, b, text, rfl, hrest⟩ := eq_cons_cons hlength
      have hmem {c : UInt8} {rest old : Bytes} {i : Nat}
          (h : cookiesDecodeLoop (c :: rest) i old = some (true, out)) :
          ∃ v < 16, (cypherRow i).map[v]? = some c := by
        obtain ⟨-, v, -, -, hv, hmap⟩ | ⟨hstray, -⟩ := (cypherRow_consistent i).find_cases c
        · exact ⟨v, hv, hmap⟩
        · cases (cookiesDecodeLoop_stray hstray).symm.trans h
      obtain ⟨v, hv, ha⟩ := hmem hrun
      rw [cookiesDecodeLoop_char ha] at hrun
      obtain ⟨w, hw, hb⟩ := hmem hrun
      rw [cookiesDecodeLoop_char hb] at hrun
      obtain ⟨input, hinput, htext⟩ := ih hrest hrun
      obtain ⟨c, hlow, hhigh⟩ := exists_nibbles hv hw
      refine ⟨c :: input, congrArg (· + 1) hinput, ?_⟩
      rw [cookieText, hlow, hhigh, htext, List.getD_eq_getElem?_getD, ha,
        List.getD_eq_getElem?_getD, hb]
      rfl

theorem length_cookieText (j : Nat) (input : Bytes) :
    (cookieText j input).length = 2 * input.length := by
  induction input generalizing j with
  | nil => rfl
  | cons c input ih =>
      simp only [cookieText, List.length_cons, ih]
      omega

theorem cookiesEncode_eq {input result : Bytes} (hinput : input.length = 8)
    (hresult : result.length = 16) : cookiesEncode input result = some (cookieText 0 input) := by
  rw [cookiesEncode, if_neg (by omega)]
  exact congrArg some (cookiesEncodeLoop_eq [] (by omega))

theorem cookiesDecode_text {input : Bytes} (hinput : input.length = 8) (output : Bytes) {size : Int}
    (hsize : 8 ≤ size) :
    cookiesDecode (cookieText 0 input) output size = some (true, input ++ output.drop 8, 8) := by
  have hloop := cookiesDecodeLoop_text input [] (output.drop 8)
  rw [hinput] at hloop
  rw [cookiesDecode, if_neg (by omega)]
  exact congrArg (Option.map _) hloop

theorem exists_cookieText_of_cookiesDecode {text output out : Bytes} {size size' : Int}
    (htext : text.length = 16) (hrun : cookiesDecode text output size = some (true, out, size')) :
    ∃ input, input.length = 8 ∧ cookieText 0 input = text := by
  unfold cookiesDecode at hrun
  split at hrun
  · cases hrun
  · obtain ⟨⟨valid, decoded⟩, hloop, hresult⟩ := Option.map_eq_some_iff.mp hrun
    obtain rfl : valid = true := congrArg Prod.fst hresult
    exact exists_cookieText htext hloop

/-- The cipher decodes what it encodes, and a text it accepts is the one it gives for the bytes it
decodes it to. -/
theorem cookies_bijection {input text result : Bytes} (hinput : input.length = 8)
    (htext : text.length = 16) (hresult : result.length = 16) (output : Bytes) {size : Int}
    (hsize : 8 ≤ size) :
    (∃ encoded, cookiesEncode input result = some encoded ∧ encoded.length = 16 ∧
      cookiesDecode encoded output size = some (true, input ++ output.drop 8, 8)) ∧
    ∀ out size', cookiesDecode text output size = some (true, out, size') →
      size' = 8 ∧ cookiesEncode (out.take 8) result = some text := by
  refine ⟨⟨_, cookiesEncode_eq hinput hresult, ?_, cookiesDecode_text hinput output hsize⟩,
    fun out size' hrun => ?_⟩
  · rw [length_cookieText, hinput]
  · obtain ⟨decoded, hdecoded, rfl⟩ := exists_cookieText_of_cookiesDecode htext hrun
    rw [cookiesDecode_text hdecoded output hsize] at hrun
    cases hrun
    rw [List.take_left' hdecoded]
    exact ⟨rfl, cookiesEncode_eq hdecoded hresult⟩

theorem cookies_bijection_sample :
    (∃ encoded, cookiesEncode [0, 1, 0x7F, 0x80, 0xFF, 0x42, 0xA5, 0x10] (List.replicate 16 0) =
        some encoded ∧ encoded.length = 16 ∧
      cookiesDecode encoded [1, 2, 3, 4, 5, 6, 7, 8, 9] 9 =
        some (true, [0, 1, 0x7F, 0x80, 0xFF, 0x42, 0xA5, 0x10, 9], 8)) ∧
    ∀ out size', cookiesDecode (bytes "61k5Y3OlYmM0N_OL") [1, 2, 3, 4, 5, 6, 7, 8, 9] 9 =
        some (true, out, size') →
      size' = 8 ∧
        cookiesEncode (out.take 8) (List.replicate 16 0) = some (bytes "61k5Y3OlYmM0N_OL") :=
  cookies_bijection rfl (by decide +kernel) rfl [1, 2, 3, 4, 5, 6, 7, 8, 9] (by decide)

end AdServer.Codec
