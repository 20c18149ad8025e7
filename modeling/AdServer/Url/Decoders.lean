import AdServer.Url.Percent

/-!
The two percent decoders on the memory of a string. `urlDecode` computes the digits of an escape
from signed characters and `urlDecode_f` looks them up and adds the byte to a buffer it has
cleared. Both go on by three at a `%` without looking at what is left, and `urlDecode_f` gets
the length of a string as an `int`.
-/
namespace AdServer.Url

/-- What a scan that skips two bytes behind each `%` finds there. -/
def escapes : Bytes → List Bytes
  | [] => []
  | c :: rest =>
    if c = byte '%' then
      match rest with
      | high :: low :: rest' => [high, low] :: escapes rest'
      | [high] => [[high]]
      | [] => [[]]
    else escapes rest

/-- Behind each `%` that is met stand two bytes below 128. -/
def Complete (input : Bytes) : Prop := ∀ e ∈ escapes input, e.length = 2 ∧ ∀ c ∈ e, c < 128

/-- The loop of both decoders with `left` bytes to go, `i` and `in + i`. The last is the memory
from there on; `none` is a byte behind it. -/
def percentLoop (value : Nat → UInt8 → UInt8 → UInt8) : Nat → Nat → Bytes → Option Bytes
  | 0, _, _ => some []
  | _ + 1, _, [] => none
  | left + 1, i, c :: p =>
    if c = byte '%' then
      match p with
      | high :: low :: p' =>
        (percentLoop value (left - 2) (i + 3) p').map (value (i + 1) high low :: ·)
      | _ => none
    else (percentLoop value left (i + 1) p).map (c :: ·)

def escapeDigit (c : UInt8) : UInt8 :=
  if 97 ≤ charIndex c then c - byte 'a' + 10
  else if 65 ≤ charIndex c then c - byte 'A' + 10
  else c - byte '0'

inductive DecodeFault
  | clearing | outside
  deriving DecidableEq, Repr

def readInside (result : Option Bytes) : Except DecodeFault Bytes :=
  result.elim (.error .outside) .ok

/-- `urlDecode` of a string of `length` bytes at the start of a memory. -/
def urlDecode (memory : Bytes) (length : Nat) : Except DecodeFault Bytes :=
  readInside
    (percentLoop (fun _ high low => (escapeDigit high <<< 4) + escapeDigit low) length 0 memory)

/-- The loop of `urlDecode_f` with the index and the contents of its buffer. -/
def urlDecodeBuffer (stray : Stray) :
    Nat → Nat → Bytes → Nat → (Nat → UInt8) → Option Bytes
  | 0, _, _, j, buffer => some ((List.range j).map buffer)
  | _ + 1, _, [], _, _ => none
  | left + 1, i, c :: p, j, buffer =>
    if c = byte '%' then
      match p with
      | high :: low :: p' =>
        urlDecodeBuffer stray (left - 2) (i + 3) p' (j + 1)
          (Function.update buffer j (buffer j + unescape stray (i + 1) high low))
      | _ => none
    else urlDecodeBuffer stray left (i + 1) p (j + 1) (Function.update buffer j c)

def memset (buffer : Nat → UInt8) (size : Nat) : Nat → UInt8 :=
  fun x => if x < size then 0 else buffer x

/-- `urlDecode_f` with its four parameters. The buffer cannot be cleared if `len + 1` overflows
or is negative. -/
def urlDecodeInto (stray : Stray) (buffer : Nat → UInt8) (memory : Bytes) (len : Int) :
    Except DecodeFault Bytes :=
  if len + 1 < 0 ∨ 2 ^ 31 ≤ len + 1 then .error .clearing
  else
    readInside (urlDecodeBuffer stray len.toNat 0 memory 0 (memset buffer (len + 1).toNat))

/-- A string in memory: its bytes, the terminator and what stands behind it. -/
def inMemory (input behind : Bytes) : Bytes := input ++ 0 :: behind

section
variable (value : Nat → UInt8 → UInt8 → UInt8)

theorem percentLoop_cons_ne {c : UInt8} (h : c ≠ byte '%') (left i : Nat) (p : Bytes) :
    percentLoop value (left + 1) i (c :: p) =
      (percentLoop value left (i + 1) p).map (c :: ·) := by
  rw [percentLoop.eq_def]
  exact if_neg h

theorem percentLoop_escape (left i : Nat) (high low : UInt8) (p : Bytes) :
    percentLoop value (left + 1) i (byte '%' :: high :: low :: p) =
      (percentLoop value (left - 2) (i + 3) p).map (value (i + 1) high low :: ·) := by
  rw [percentLoop, if_pos rfl]

/-- Two bytes behind the last one are enough. -/
theorem percentLoop_isSome_of_le {left : Nat} (i : Nat) {p : Bytes}
    (h : left = 0 ∨ left + 2 ≤ p.length) : (percentLoop value left i p).isSome = true := by
  fun_induction percentLoop value left i p with
  | case1 => rfl
  | case2 => simp at h
  | case3 left i high low p ih =>
      rw [Option.isSome_map]
      exact ih (by simp only [List.length_cons] at h; omega)
  | case4 left i p hshort =>
      match p, hshort with
      | [], _ => simp at h
      | [_], _ => simp at h
      | high :: low :: p, hshort => exact absurd rfl (hshort high low p)
  | case5 left i c p hc ih =>
      rw [Option.isSome_map]
      exact ih (by simp only [List.length_cons] at h; omega)

/-- With the terminator alone, every `%` that is met needs a byte behind it. -/
theorem percentLoop_isSome_iff (input : Bytes) (i : Nat) :
    (percentLoop value input.length i (inMemory input [])).isSome = true ↔
      ∀ e ∈ escapes input, e ≠ [] := by
  fun_induction escapes input generalizing i with
  | case1 => simp [percentLoop]
  | case2 high low rest ih =>
      simp only [inMemory, List.cons_append, List.length_cons, percentLoop_escape,
        Option.isSome_map]
      rw [Nat.add_sub_cancel, List.forall_mem_cons]
      exact (ih _).trans (and_iff_right (List.cons_ne_nil _ _)).symm
  | case3 high => simp [inMemory, percentLoop]
  | case4 => simp [inMemory, percentLoop]
  | case5 c rest hc ih =>
      simp only [inMemory, List.cons_append, List.length_cons, percentLoop_cons_ne value hc,
        Option.isSome_map]
      exact ih _

/-- Two ways to read an escape that agree below 128. -/
theorem percentLoop_congr {value value' : Nat → UInt8 → UInt8 → UInt8}
    (h : ∀ i high low, high < 128 → low < 128 → value i high low = value' i high low)
    {input : Bytes} (hinput : Complete input) (i : Nat) (behind : Bytes) :
    ∃ text, percentLoop value input.length i (inMemory input behind) = some text ∧
      percentLoop value' input.length i (inMemory input behind) = some text := by
  unfold Complete at hinput
  fun_induction escapes input generalizing i with
  | case1 => exact ⟨[], rfl, rfl⟩
  | case2 high low rest ih =>
      obtain ⟨⟨-, hbytes⟩, hrest⟩ := List.forall_mem_cons.mp hinput
      obtain ⟨text, hleft, hright⟩ := ih hrest (i + 3)
      have hvalue := h (i + 1) high low (hbytes high (by simp)) (hbytes low (by simp))
      refine ⟨value (i + 1) high low :: text, ?_, ?_⟩
      · exact (percentLoop_escape value _ i high low _).trans (congrArg _ hleft)
      · rw [hvalue]
        exact (percentLoop_escape value' _ i high low _).trans (congrArg _ hright)
  | case3 high => exact absurd (hinput _ (List.mem_singleton_self _)).1 (by simp)
  | case4 => exact absurd (hinput _ (List.mem_singleton_self _)).1 (by simp)
  | case5 c rest hc ih =>
      obtain ⟨text, hleft, hright⟩ := ih hinput (i + 1)
      refine ⟨c :: text, ?_, ?_⟩
      · exact (percentLoop_cons_ne value hc _ i _).trans (congrArg _ hleft)
      · exact (percentLoop_cons_ne value' hc _ i _).trans (congrArg _ hright)

end

section
variable (stray : Stray)

/-- On the memory of a string the loop is the decoder of the string. -/
theorem percentLoop_inMemory (input : Bytes) (i : Nat) (more : Bytes) :
    percentLoop (unescape stray) input.length i (inMemory input (stray.behind :: more)) =
      some (urlDecodeLoop stray i input) := by
  fun_induction urlDecodeLoop stray i input with
  | case1 => rfl
  | case2 i high low rest ih =>
      exact (percentLoop_escape _ _ i high low _).trans (congrArg _ ih)
  | case3 i high => simp [inMemory, percentLoop]
  | case4 i => simp [inMemory, percentLoop]
  | case5 i c rest hc ih => exact (percentLoop_cons_ne _ hc _ i _).trans (congrArg _ ih)

theorem map_range_update (buffer : Nat → UInt8) (j : Nat) (c : UInt8) :
    (List.range (j + 1)).map (Function.update buffer j c) = (List.range j).map buffer ++ [c] := by
  rw [List.range_succ, List.map_append, List.map_singleton, Function.update_self]
  refine congrArg (· ++ [c]) (List.map_congr_left fun x hx => ?_)
  exact Function.update_of_ne (Nat.ne_of_lt (List.mem_range.mp hx)) _ _

/-- The cells that are still to be written are zero, so adding to one is setting it. -/
theorem urlDecodeBuffer_eq (left i : Nat) (p : Bytes) (j : Nat) (buffer : Nat → UInt8)
    (h : ∀ x, j ≤ x → x < j + left → buffer x = 0) :
    urlDecodeBuffer stray left i p j buffer =
      (percentLoop (unescape stray) left i p).map ((List.range j).map buffer ++ ·) := by
  fun_induction percentLoop (unescape stray) left i p generalizing j buffer with
  | case1 => simp [urlDecodeBuffer]
  | case2 => rfl
  | case3 left i high low p ih =>
      have hzero : buffer j = 0 := h j (Nat.le_refl j) (by omega)
      rw [urlDecodeBuffer, if_pos rfl, ih _ _ ?_, map_range_update, hzero, UInt8.zero_add,
        Option.map_map]
      · simp only [Function.comp_def, List.append_assoc, List.singleton_append]
      · intro x hj hx
        rw [Function.update_of_ne (by omega)]
        exact h x (by omega) (by omega)
  | case4 left i p hshort =>
      match p, hshort with
      | [], _ => rfl
      | [_], _ => rfl
      | high :: low :: p, hshort => exact absurd rfl (hshort high low p)
  | case5 left i c p hc ih =>
      rw [urlDecodeBuffer.eq_def]
      simp only [hc, if_false]
      rw [ih _ _ ?_, map_range_update, Option.map_map]
      · simp only [Function.comp_def, List.append_assoc, List.singleton_append]
      · intro x hj hx
        rw [Function.update_of_ne (by omega)]
        exact h x (by omega) (by omega)

theorem urlDecodeInto_eq (buffer : Nat → UInt8) (memory : Bytes) (len : Int) :
    urlDecodeInto stray buffer memory len =
      if len + 1 < 0 ∨ 2 ^ 31 ≤ len + 1 then .error .clearing
      else readInside (percentLoop (unescape stray) len.toNat 0 memory) := by
  unfold urlDecodeInto
  split
  · rfl
  · rw [urlDecodeBuffer_eq]
    · simp
    · intro x _ hx
      exact if_pos (by omega)

end

/-! ### The two decoders -/

theorem readInside_ne_outside_iff (result : Option Bytes) :
    readInside result ≠ .error .outside ↔ result.isSome = true := by
  cases result with
  | none => simp [readInside]
  | some text => simp [readInside]

theorem escapeDigit_eq {c : UInt8} (h : c < 128) : escapeDigit c = urlDecodeMap c := by
  have hindex : charIndex c = c.toNat := if_pos h
  have hlower : 97 ≤ charIndex c ↔ byte 'a' ≤ c := by
    rw [hindex, UInt8.le_iff_toNat_le]
    exact Int.ofNat_le
  have hupper : 65 ≤ charIndex c ↔ byte 'A' ≤ c := by
    rw [hindex, UInt8.le_iff_toNat_le]
    exact Int.ofNat_le
  simp only [escapeDigit, urlDecodeMap, hlower, hupper]

theorem unescape_eq_escapeDigit (stray : Stray) (i : Nat) {high low : UInt8} (hhigh : high < 128)
    (hlow : low < 128) :
    (escapeDigit high <<< 4) + escapeDigit low = unescape stray i high low := by
  rw [unescape, decodeTableAt, decodeTableAt, if_pos (charIndex_nonneg hhigh),
    if_pos (charIndex_nonneg hlow), escapeDigit_eq hhigh, escapeDigit_eq hlow]

/-- The decoders agree on a string whose escapes are complete and below 128, as long as its
length and the size of the cleared memory are numbers of type `int`. -/
theorem urlDecode_eq_urlDecode_f (stray : Stray) (buffer : Nat → UInt8) (input behind : Bytes)
    (hlen : input.length < 2 ^ 31 - 1) (hinput : Complete input) :
    ∃ output, urlDecode (inMemory input behind) input.length = .ok output ∧
      urlDecodeInto stray buffer (inMemory input behind) (toInt32 input.length) = .ok output := by
  obtain ⟨output, hleft, hright⟩ := percentLoop_congr
    (fun i high low hhigh hlow => unescape_eq_escapeDigit stray i hhigh hlow) hinput 0 behind
  have hint : toInt32 input.length = input.length := toInt32_of_lt (by omega)
  refine ⟨output, ?_, ?_⟩
  · rw [urlDecode, hleft]
    rfl
  · rw [urlDecodeInto_eq, hint, if_neg (by omega), Int.toNat_natCast, hright]
    rfl

theorem urlDecode_eq_urlDecode_f_sample :
    ∃ output, urlDecode (inMemory (bytes "a%4a%zZ") []) 7 = .ok output ∧
      urlDecodeInto blankStray (fun _ => 1) (inMemory (bytes "a%4a%zZ") []) (toInt32 7) =
        .ok output :=
  urlDecode_eq_urlDecode_f blankStray (fun _ => 1) (bytes "a%4a%zZ") [] (by decide)
    (by unfold Complete; decide +kernel)

theorem percentLoop_plain (value : Nat → UInt8 → UInt8 → UInt8) {text : Bytes}
    (h : byte '%' ∉ text) (i : Nat) (p : Bytes) :
    percentLoop value text.length i (text ++ p) = some text := by
  induction text generalizing i with
  | nil => rw [List.length_nil, percentLoop]
  | cons c text ih =>
      obtain ⟨hc, htext⟩ := not_or.mp (mt List.mem_cons.mpr h)
      exact (percentLoop_cons_ne value (Ne.symm hc) _ i _).trans (congrArg _ (ih htext (i + 1)))

theorem escapes_plain {text : Bytes} (h : byte '%' ∉ text) : escapes text = [] := by
  induction text with
  | nil => rfl
  | cons c text ih =>
      obtain ⟨hc, htext⟩ := not_or.mp (mt List.mem_cons.mpr h)
      rw [escapes.eq_def]
      simp only [Ne.symm hc, if_false, ih htext]

/-- A string of 2 ^ 31 letters: as an `int` its length is negative. -/
theorem urlDecode_f_long :
    ∃ input, escapes input = [] ∧ urlDecode (inMemory input []) input.length = .ok input ∧
      urlDecodeInto blankStray (fun _ => 1) (inMemory input []) (toInt32 input.length) =
        .error .clearing := by
  have hplain : byte '%' ∉ List.replicate (2 ^ 31) (byte 'a') := fun hmem =>
    absurd (List.eq_of_mem_replicate hmem) (by decide)
  refine ⟨List.replicate (2 ^ 31) (byte 'a'), escapes_plain hplain, ?_, ?_⟩
  · rw [urlDecode, inMemory, percentLoop_plain _ hplain]
    rfl
  · rw [urlDecodeInto, List.length_replicate]
    exact if_pos (by decide)

/-- The decoders stay in front of the terminator or on it if and only if the last byte is not a
`%` that the scan meets. -/
theorem decoders_inside_iff (stray : Stray) (buffer : Nat → UInt8) (input : Bytes) :
    (urlDecode (inMemory input []) input.length ≠ .error .outside ∧
      urlDecodeInto stray buffer (inMemory input []) (toInt32 input.length) ≠ .error .outside) ↔
      ∀ e ∈ escapes input, e ≠ [] := by
  have hfirst : urlDecode (inMemory input []) input.length ≠ .error .outside ↔
      ∀ e ∈ escapes input, e ≠ [] :=
    (readInside_ne_outside_iff _).trans (percentLoop_isSome_iff _ input 0)
  refine ⟨fun h => hfirst.mp h.1, fun h => ⟨hfirst.mpr h, ?_⟩⟩
  rw [urlDecodeInto_eq]
  split
  · intro hfault
    cases hfault
  · rw [readInside_ne_outside_iff]
    by_cases hint : toInt32 input.length = input.length
    · rw [hint, Int.toNat_natCast]
      exact (percentLoop_isSome_iff _ input 0).mpr h
    · apply percentLoop_isSome_of_le
      have hle := toInt32_le input.length
      simp only [inMemory, List.length_append, List.length_singleton]
      omega

theorem percent_at_end :
    urlDecode (inMemory (bytes "50%") []) 3 = .error .outside ∧
      urlDecodeInto blankStray (fun _ => 1) (inMemory (bytes "50%") []) 3 = .error .outside := by
  decide

end AdServer.Url
