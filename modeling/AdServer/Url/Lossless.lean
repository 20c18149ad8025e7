import AdServer.Url.Decoders

/-!
Percent coding there and back with the tables. A `char` is signed, so the index of a byte from
128 on stands in front of a table; below 128 nothing is lost and all indices are in the tables.
-/
namespace AdServer.Url

/-- The bytes of a string that a function sees which gets the length as an `int`. -/
def passed (input : Bytes) : Bytes := input.take (toInt32 input.length).toNat

/-- The code of a string and its NUL fit into 1024 bytes. -/
def CodeFits (stray : Stray) (input : Bytes) : Prop := escapedSize stray (passed input) < 1024

instance (stray : Stray) (input : Bytes) : Decidable (CodeFits stray input) :=
  inferInstanceAs (Decidable (_ < _))

/-- `urlEncode_f` of a string, with a buffer that is large enough; `none` if its index is no
`int` any more. -/
def urlEncodeString (stray : Stray) (input : Bytes) : Option Bytes :=
  if ∀ write ∈ urlEncodeWrites stray 0 (passed input), write.1 < 2 ^ 31 then
    some (urlEncode_f stray (passed input))
  else none

/-- `urlDecode_f` of a string. -/
def urlDecodeString (stray : Stray) (buffer : Nat → UInt8) (input : Bytes) :
    Except DecodeFault Bytes :=
  urlDecodeInto stray buffer (inMemory input [stray.behind]) (toInt32 input.length)

/-- The indices into `entry` and `map` of the encoder. -/
def urlEncodeIndices (stray : Stray) : Bytes → List Int
  | [] => []
  | c :: rest =>
    if encodeEntryAt stray c then charIndex c :: urlEncodeIndices stray rest
    else charIndex c :: charIndex c :: charIndex c :: urlEncodeIndices stray rest

/-- The indices into `map` of the decoder with `left` bytes to go. -/
def urlDecodeIndices : Nat → Bytes → List Int
  | 0, _ => []
  | _ + 1, [] => []
  | left + 1, c :: p =>
    if c = byte '%' then
      match p with
      | high :: low :: p' => charIndex high :: charIndex low :: urlDecodeIndices (left - 2) p'
      | _ => []
    else urlDecodeIndices left p

def InTable (index : Int) : Prop := 0 ≤ index ∧ index ≤ 127

theorem inTable_charIndex_iff (c : UInt8) : InTable (charIndex c) ↔ c < 128 := by
  have hlt := c.toNat_lt
  by_cases hc : c < 128
  · have hnat := UInt8.lt_iff_toNat_lt.mp hc
    simp only [InTable, charIndex, hc, if_true, iff_true, UInt8.reduceToNat] at hnat ⊢
    omega
  · simp only [InTable, charIndex, hc, if_false, iff_false]
    omega

theorem urlEncodeIndices_inTable_iff (stray : Stray) (input : Bytes) :
    (∀ k ∈ urlEncodeIndices stray input, InTable k) ↔ ∀ c ∈ input, c < 128 := by
  induction input with
  | nil => simp [urlEncodeIndices]
  | cons c rest ih =>
      rw [urlEncodeIndices, List.forall_mem_cons, ← ih, ← inTable_charIndex_iff]
      split
      · rw [List.forall_mem_cons]
      · simp only [List.forall_mem_cons, and_self_left]

theorem urlDecodeIndices_inTable {input : Bytes} (h : Complete input) (behind : Bytes) :
    ∀ k ∈ urlDecodeIndices input.length (inMemory input behind), InTable k := by
  unfold Complete at h
  fun_induction escapes input with
  | case1 => simp [urlDecodeIndices]
  | case2 high low rest ih =>
      obtain ⟨⟨-, hbytes⟩, hrest⟩ := List.forall_mem_cons.mp h
      simp only [inMemory, List.cons_append, List.length_cons, urlDecodeIndices, if_true,
        List.forall_mem_cons, Nat.add_sub_cancel]
      exact ⟨(inTable_charIndex_iff high).mpr (hbytes high (by simp)),
        (inTable_charIndex_iff low).mpr (hbytes low (by simp)), ih hrest⟩
  | case3 high => exact absurd (h _ (List.mem_singleton_self _)).1 (by simp)
  | case4 => exact absurd (h _ (List.mem_singleton_self _)).1 (by simp)
  | case5 c rest hc ih =>
      rw [inMemory, List.cons_append, List.length_cons, urlDecodeIndices.eq_def]
      simp only [hc, if_false]
      exact ih h

theorem complete_flatMap_escape (stray : Stray) {input : Bytes} (h : ∀ c ∈ input, c < 128) :
    Complete (input.flatMap (escape stray)) := by
  have hpercent : urlEncodeEntry (byte '%') = false := by decide
  induction input with
  | nil => intro e he; cases he
  | cons c rest ih =>
      obtain ⟨hc, hrest⟩ := List.forall_mem_cons.mp h
      have hascii := escape_ascii stray hc
      rw [Complete, List.flatMap_cons]
      rw [escape_of_ascii stray hc] at hascii ⊢
      split
      · rename_i hentry
        have hne : c ≠ byte '%' := by
          rintro rfl
          cases hpercent.symm.trans hentry
        rw [List.singleton_append, escapes.eq_def]
        simp only [hne, if_false]
        exact ih hrest
      · rename_i hentry
        rw [if_neg hentry] at hascii
        rw [List.cons_append, List.cons_append, List.singleton_append, escapes, if_pos rfl,
          List.forall_mem_cons]
        exact ⟨⟨rfl, fun x hx => hascii x (List.mem_cons_of_mem _ hx)⟩, ih hrest⟩

/-! ### There and back -/

theorem escapedSize_of_ascii (stray : Stray) {input : Bytes} (h : ∀ c ∈ input, c < 128) :
    escapedSize stray input = input.length + 2 * input.countP fun c => !urlEncodeEntry c := by
  rw [escapedSize]
  refine congrArg (fun n => input.length + 2 * n) (List.countP_congr fun c hc => ?_)
  rw [encodeEntryAt, if_pos (charIndex_nonneg (h c hc))]

theorem passed_eq_self {input : Bytes} (h : input.length < 2 ^ 31) : passed input = input := by
  rw [passed, toInt32_of_lt h, Int.toNat_natCast, List.take_length]

theorem urlEncodeString_eq_some_iff (stray : Stray) (input text : Bytes) :
    urlEncodeString stray input = some text ↔
      escapedSize stray (passed input) < 2 ^ 31 ∧ urlEncode_f stray (passed input) = text := by
  rw [urlEncodeString, if_congr (urlEncodeWrites_lt_iff stray (passed input) (2 ^ 31)) rfl rfl]
  split
  · rename_i hfits
    rw [Option.some.injEq, and_iff_right hfits]
  · rename_i hfits
    exact iff_of_false (fun h => by cases h) fun h => hfits h.1

theorem urlDecodeString_eq (stray : Stray) (buffer : Nat → UInt8) {input : Bytes}
    (h : input.length < 2 ^ 31) :
    urlDecodeString stray buffer input =
      if input.length + 1 < 2 ^ 31 then .ok (urlDecode_f stray input) else .error .clearing := by
  rw [urlDecodeString, urlDecodeInto_eq, toInt32_of_lt h, Int.toNat_natCast, percentLoop_inMemory]
  split
  · rw [if_neg (by omega)]
  · rw [if_pos (by omega)]
    rfl

theorem length_urlEncode_f (stray : Stray) (input : Bytes) :
    (urlEncode_f stray input).length = escapedSize stray input := by
  rw [urlEncode_f_eq, length_flatMap_escape]

/-- The string comes back and all indices are in the tables if and only if its bytes are below
128 and the coded text is short enough for the decoder. -/
theorem urlDecode_urlEncode_iff (stray stray' : Stray) (buffer : Nat → UInt8) (input : Bytes) :
    (∃ text, urlEncodeString stray input = some text ∧
      urlDecodeString stray' buffer text = .ok input ∧
      (∀ k ∈ urlEncodeIndices stray (passed input), InTable k) ∧
      ∀ k ∈ urlDecodeIndices text.length (inMemory text [stray'.behind]), InTable k) ↔
      (∀ c ∈ input, c < 128) ∧
        input.length + 2 * (input.countP fun c => !urlEncodeEntry c) < 2 ^ 31 - 1 := by
  refine ⟨?_, ?_⟩
  · rintro ⟨text, hencode, hdecode, hindices, -⟩
    have hascii := (urlEncodeIndices_inTable_iff stray _).mp hindices
    obtain ⟨hsize, rfl⟩ := (urlEncodeString_eq_some_iff stray input text).mp hencode
    have hlen := length_urlEncode_f stray (passed input)
    rw [urlDecodeString_eq stray' buffer (by omega)] at hdecode
    split at hdecode
    · rename_i hfits
      have hsame : passed input = input := by
        rw [← urlDecode_f_urlEncode_f stray stray' _ hascii]
        exact Except.ok.inj hdecode
      rw [hsame] at hascii hlen
      rw [hsame, hlen] at hfits
      refine ⟨hascii, ?_⟩
      rw [← escapedSize_of_ascii stray hascii]
      omega
    · cases hdecode
  · rintro ⟨hascii, hsize⟩
    have hescaped := escapedSize_of_ascii stray hascii
    have hsame := passed_eq_self (show input.length < 2 ^ 31 by omega)
    have hlen := length_urlEncode_f stray input
    refine ⟨urlEncode_f stray input, ?_, ?_, ?_, ?_⟩
    · rw [urlEncodeString_eq_some_iff, hsame]
      exact ⟨by omega, rfl⟩
    · rw [urlDecodeString_eq stray' buffer (by omega), if_pos (by omega),
        urlDecode_f_urlEncode_f stray stray' input hascii]
    · rw [hsame, urlEncodeIndices_inTable_iff]
      exact hascii
    · apply urlDecodeIndices_inTable
      rw [urlEncode_f_eq]
      exact complete_flatMap_escape stray hascii

/-- A byte of a text in UTF-8: both functions look in front of their tables or give another
byte back. -/
theorem utf8_byte_lost :
    urlEncodeIndices blankStray [0xC3] = [-61, -61, -61] ∧
      ∃ text, urlEncodeString blankStray [0xC3] = some text ∧
        urlDecodeString blankStray (fun _ => 0) text ≠ .ok [0xC3] := by
  refine ⟨by decide, urlEncode_f blankStray [0xC3], ?_, ?_⟩
  · rw [urlEncodeString_eq_some_iff]
    decide
  · rw [urlDecodeString_eq _ _ (by decide)]
    decide

end AdServer.Url
