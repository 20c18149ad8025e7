import AdServer.Url.Basic

/-!
Percent coding with the tables of `UrlDecodeTable` and `UrlEncodeTable`, as done
by `urlDecode_f` and `urlEncode_f`. A `char` is signed and becomes a table index
as it is, so bytes from 128 on index in front of the tables, and a `%` near the
end makes the decoder look at the terminator and one byte behind it. What is
found there is not determined by the program: it is the parameter `Stray`.
-/
namespace AdServer.Url

/-- The contents of memory outside the tables and behind a terminator. The first
argument of `decodeMap` is the position the index was taken from. -/
structure Stray where
  decodeMap : Nat → UInt8 → UInt8
  encodeEntry : UInt8 → Bool
  encodeMap : UInt8 → UInt8 × UInt8
  behind : UInt8

def blankStray : Stray where
  decodeMap := fun _ _ => 0
  encodeEntry := fun _ => false
  encodeMap := fun _ => (0, 0)
  behind := 0

/-- The table index `(int)c` of a signed `char`. -/
def charIndex (c : UInt8) : Int := if c < 128 then c.toNat else (c.toNat : Int) - 256

def urlDecodeMap (c : UInt8) : UInt8 :=
  if byte 'a' ≤ c then c - byte 'a' + 10
  else if byte 'A' ≤ c then c - byte 'A' + 10
  else c - byte '0'

def urlEncodeEntry (c : UInt8) : Bool :=
  (byte '0' ≤ c ∧ c ≤ byte '9') ∨ (byte 'A' ≤ c ∧ c ≤ byte 'Z') ∨ (byte 'a' ≤ c ∧ c ≤ byte 'z') ∨
    c = byte '-' ∨ c = byte '_' ∨ c = byte '~'

def codetable (d : UInt8) : UInt8 := if d < 10 then byte '0' + d else byte 'A' + (d - 10)

def urlEncodeMap (c : UInt8) : UInt8 × UInt8 :=
  (codetable ((c >>> 4) &&& 0x0F), codetable (c &&& 0x0F))

def decodeTableAt (stray : Stray) (i : Nat) (c : UInt8) : UInt8 :=
  if 0 ≤ charIndex c then urlDecodeMap c else stray.decodeMap i c

def encodeEntryAt (stray : Stray) (c : UInt8) : Bool :=
  if 0 ≤ charIndex c then urlEncodeEntry c else stray.encodeEntry c

def encodeMapAt (stray : Stray) (c : UInt8) : UInt8 × UInt8 :=
  if 0 ≤ charIndex c then urlEncodeMap c else stray.encodeMap c

def unescape (stray : Stray) (i : Nat) (high low : UInt8) : UInt8 :=
  (decodeTableAt stray i high <<< 4) + decodeTableAt stray (i + 1) low

def urlDecodeLoop (stray : Stray) : Nat → Bytes → Bytes
  | _, [] => []
  | i, c :: rest =>
    if c = byte '%' then
      match rest with
      | high :: low :: rest' => unescape stray (i + 1) high low :: urlDecodeLoop stray (i + 3) rest'
      | [high] => [unescape stray (i + 1) high 0]
      | [] => [unescape stray (i + 1) 0 stray.behind]
    else c :: urlDecodeLoop stray (i + 1) rest

def urlDecode_f (stray : Stray) (input : Bytes) : Bytes := urlDecodeLoop stray 0 input

/-- The writes of `urlEncode_f` to its buffer, each with its offset, the final
NUL included. -/
def urlEncodeWrites (stray : Stray) : Nat → Bytes → List (Nat × UInt8)
  | j, [] => [(j, 0)]
  | j, c :: rest =>
    if encodeEntryAt stray c then (j, c) :: urlEncodeWrites stray (j + 1) rest
    else
      (j, byte '%') :: (j + 1, (encodeMapAt stray c).1) :: (j + 2, (encodeMapAt stray c).2) ::
        urlEncodeWrites stray (j + 3) rest

def urlEncode_f (stray : Stray) (input : Bytes) : Bytes :=
  (urlEncodeWrites stray 0 input).dropLast.map Prod.snd

def escape (stray : Stray) (c : UInt8) : Bytes :=
  if encodeEntryAt stray c then [c]
  else [byte '%', (encodeMapAt stray c).1, (encodeMapAt stray c).2]

variable (stray : Stray)

theorem urlEncodeWrites_ne_nil (j : Nat) (input : Bytes) : urlEncodeWrites stray j input ≠ [] := by
  cases input with
  | nil => simp [urlEncodeWrites]
  | cons c rest =>
      simp only [urlEncodeWrites]
      split <;> simp

theorem urlEncodeWrites_snd (j : Nat) (input : Bytes) :
    (urlEncodeWrites stray j input).dropLast.map Prod.snd = input.flatMap (escape stray) := by
  induction input generalizing j with
  | nil => rfl
  | cons c rest ih =>
      simp only [urlEncodeWrites, List.flatMap_cons, escape]
      split
      · rw [List.dropLast_cons_of_ne_nil (urlEncodeWrites_ne_nil stray _ _), List.map_cons, ih]
        rfl
      · rw [List.dropLast_cons_of_ne_nil (by simp), List.dropLast_cons_of_ne_nil (by simp),
          List.dropLast_cons_of_ne_nil (urlEncodeWrites_ne_nil stray _ _)]
        simp only [List.map_cons, ih]
        rfl

theorem urlEncode_f_eq (input : Bytes) : urlEncode_f stray input = input.flatMap (escape stray) :=
  urlEncodeWrites_snd stray 0 input

theorem urlEncodeWrites_fst (j : Nat) (input : Bytes) :
    (urlEncodeWrites stray j input).map Prod.fst =
      List.range' j ((input.flatMap (escape stray)).length + 1) := by
  induction input generalizing j with
  | nil => rfl
  | cons c rest ih =>
      simp only [urlEncodeWrites, List.flatMap_cons, escape, List.length_append]
      split
      · rw [List.map_cons, ih, List.length_singleton, Nat.add_comm 1]
        rfl
      · simp only [List.map_cons, ih, List.length_cons, List.length_nil]
        rw [show 0 + 1 + 1 + 1 + (rest.flatMap (escape stray)).length + 1 =
          (rest.flatMap (escape stray)).length + 1 + 1 + 1 + 1 by omega]
        simp only [List.range'_succ]

/-- The size of the encoded text: two more for every character that is escaped. -/
def escapedSize (input : Bytes) : Nat :=
  input.length + 2 * input.countP fun c => !encodeEntryAt stray c

theorem length_flatMap_escape (input : Bytes) :
    (input.flatMap (escape stray)).length = escapedSize stray input := by
  induction input with
  | nil => rfl
  | cons c rest ih =>
      rw [List.flatMap_cons, List.length_append, ih, escapedSize, escapedSize, List.countP_cons,
        List.length_cons, escape]
      cases encodeEntryAt stray c with
      | true => simp; omega
      | false => simp; omega

theorem writes_lt_iff {writes : List (Nat × UInt8)} {n : Nat}
    (h : writes.map Prod.fst = List.range' 0 (n + 1)) (bound : Nat) :
    (∀ write ∈ writes, write.1 < bound) ↔ n < bound := by
  calc (∀ write ∈ writes, write.1 < bound)
      ↔ ∀ j ∈ writes.map Prod.fst, j < bound := by rw [List.forall_mem_map]
    _ ↔ n < bound := by
        rw [h]
        refine ⟨fun hall => hall _ (by simp [List.mem_range'_1]), fun hn j hj => ?_⟩
        rw [List.mem_range'_1] at hj
        omega

theorem urlEncodeWrites_lt_iff (input : Bytes) (bound : Nat) :
    (∀ write ∈ urlEncodeWrites stray 0 input, write.1 < bound) ↔ escapedSize stray input < bound := by
  have hoffsets := urlEncodeWrites_fst stray 0 input
  rw [length_flatMap_escape] at hoffsets
  exact writes_lt_iff hoffsets bound

theorem urlDecodeLoop_cons_ne {c : UInt8} (h : c ≠ byte '%') (i : Nat) (rest : Bytes) :
    urlDecodeLoop stray i (c :: rest) = c :: urlDecodeLoop stray (i + 1) rest := by
  rw [urlDecodeLoop.eq_def]
  exact if_neg h

theorem charIndex_nonneg {c : UInt8} (h : c < 128) : 0 ≤ charIndex c := by
  simp only [charIndex, h, if_true]
  omega

theorem escape_of_ascii {c : UInt8} (h : c < 128) :
    escape stray c =
      if urlEncodeEntry c then [c] else [byte '%', (urlEncodeMap c).1, (urlEncodeMap c).2] := by
  simp only [escape, encodeEntryAt, encodeMapAt, charIndex_nonneg h, if_true]

private theorem unescape_table : ∀ n : Fin 128,
    let c := UInt8.ofNat n
    (urlEncodeMap c).1 < 128 ∧ (urlEncodeMap c).2 < 128 ∧
      (urlDecodeMap (urlEncodeMap c).1 <<< 4) + urlDecodeMap (urlEncodeMap c).2 = c ∧
      (urlEncodeEntry c = true → c ≠ byte '%') := by
  decide

private theorem ascii_table {c : UInt8} (h : c < 128) :
    (urlEncodeMap c).1 < 128 ∧ (urlEncodeMap c).2 < 128 ∧
      (urlDecodeMap (urlEncodeMap c).1 <<< 4) + urlDecodeMap (urlEncodeMap c).2 = c ∧
      (urlEncodeEntry c = true → c ≠ byte '%') := by
  have hlt : c.toNat < 128 := UInt8.lt_iff_toNat_lt.mp h
  have htable := unescape_table ⟨c.toNat, hlt⟩
  simpa only [UInt8.ofNat_toNat] using htable

theorem escape_ascii {c : UInt8} (h : c < 128) : ∀ x ∈ escape stray c, x < 128 := by
  obtain ⟨hhigh, hlow, -, -⟩ := ascii_table h
  have hpercent : byte '%' < 128 := by decide
  rw [escape_of_ascii stray h]
  split <;> simp [h, hhigh, hlow, hpercent]

theorem codetable_nibble {P : UInt8 → Prop} (h : ∀ k : Fin 16, P (codetable (UInt8.ofNat k)))
    (d : UInt8) : P (codetable (d &&& 0x0F)) := by
  have hlt : (d &&& 0x0F).toNat < 16 := by
    rw [UInt8.toNat_and]
    exact Nat.lt_of_le_of_lt Nat.and_le_right (by decide)
  simpa only [UInt8.ofNat_toNat] using h ⟨_, hlt⟩

theorem escape_chars {P : UInt8 → Prop} {c : UInt8} (h : c < 128) (hself : P c)
    (hpercent : P (byte '%')) (hdigits : ∀ k : Fin 16, P (codetable (UInt8.ofNat k))) :
    ∀ x ∈ escape stray c, P x := by
  rw [escape_of_ascii stray h]
  split
  · simpa using hself
  · simpa [urlEncodeMap] using
      ⟨hpercent, codetable_nibble hdigits (c >>> 4), codetable_nibble hdigits c⟩

theorem urlDecodeLoop_escape {c : UInt8} (h : c < 128) (i : Nat) (rest : Bytes) :
    urlDecodeLoop stray i (escape stray c ++ rest) =
      c :: urlDecodeLoop stray (i + (escape stray c).length) rest := by
  obtain ⟨hhigh, hlow, hvalue, hentry⟩ := ascii_table h
  rw [escape_of_ascii stray h]
  split
  · rename_i hplain
    exact urlDecodeLoop_cons_ne stray (hentry hplain) i rest
  · simp only [List.cons_append, List.nil_append, urlDecodeLoop, if_true, unescape, decodeTableAt,
      charIndex_nonneg hhigh, charIndex_nonneg hlow, hvalue, List.length_cons, List.length_nil]

theorem urlDecodeLoop_flatMap_escape (input : Bytes) (h : ∀ c ∈ input, c < 128) (i : Nat)
    (rest : Bytes) :
    urlDecodeLoop stray i (input.flatMap (escape stray) ++ rest) =
      input ++ urlDecodeLoop stray (i + (input.flatMap (escape stray)).length) rest := by
  induction input generalizing i with
  | nil => rfl
  | cons c input ih =>
      have htail := ih (fun x hx => h x (List.mem_cons_of_mem c hx)) (i + (escape stray c).length)
      rw [List.flatMap_cons, List.append_assoc, urlDecodeLoop_escape stray (h c (by simp)), htail,
        List.length_append, Nat.add_assoc, List.cons_append]

theorem urlDecode_f_urlEncode_f (stray' : Stray) (input : Bytes) (h : ∀ c ∈ input, c < 128) :
    urlDecode_f stray' (urlEncode_f stray input) = input := by
  have hescape : input.flatMap (escape stray) = input.flatMap (escape stray') := by
    apply List.flatMap_congr
    intro c hc
    rw [escape_of_ascii stray (h c hc), escape_of_ascii stray' (h c hc)]
  have hdecode := urlDecodeLoop_flatMap_escape stray' input h 0 []
  rw [urlEncode_f_eq, hescape, urlDecode_f]
  simpa [urlDecodeLoop] using hdecode

theorem urlDecodeLoop_plain (text : Bytes) (h : byte '%' ∉ text) (i : Nat) (rest : Bytes) :
    urlDecodeLoop stray i (text ++ rest) = text ++ urlDecodeLoop stray (i + text.length) rest := by
  induction text generalizing i with
  | nil => rfl
  | cons c text ih =>
      have hc : c ≠ byte '%' := fun heq => h (by simp [heq])
      have htext : byte '%' ∉ text := fun hmem => h (List.mem_cons_of_mem c hmem)
      rw [List.cons_append, urlDecodeLoop_cons_ne stray hc, ih htext, List.length_cons,
        Nat.add_assoc, Nat.add_comm 1, List.cons_append]

theorem urlDecode_f_plain (text : Bytes) (h : byte '%' ∉ text) : urlDecode_f stray text = text := by
  have hplain := urlDecodeLoop_plain stray text h 0 []
  simpa [urlDecode_f, urlDecodeLoop] using hplain

theorem urlDecodeLoop_pipe (i : Nat) (rest : Bytes) :
    urlDecodeLoop stray i (bytes "%7c" ++ rest) = byte '|' :: urlDecodeLoop stray (i + 3) rest := by
  have hbytes : bytes "%7c" = [byte '%', byte '7', byte 'c'] := by decide
  have hvalue : unescape stray (i + 1) (byte '7') (byte 'c') = byte '|' := by
    simp only [unescape, decodeTableAt, charIndex_nonneg (show byte '7' < 128 by decide),
      charIndex_nonneg (show byte 'c' < 128 by decide), if_true]
    decide
  simp only [hbytes, List.cons_append, List.nil_append, urlDecodeLoop, if_true, hvalue]

/-- The decoded text is not longer than its code. -/
theorem length_urlDecodeLoop_le (i : Nat) (input : Bytes) :
    (urlDecodeLoop stray i input).length ≤ input.length := by
  fun_induction urlDecodeLoop stray i input with
  | case1 => exact Nat.le_refl _
  | case2 i high low rest ih => simp only [List.length_cons]; omega
  | case3 => simp
  | case4 => simp
  | case5 i c rest hc ih => simp only [List.length_cons]; omega

def hexDigit? (c : UInt8) : Option Nat :=
  if 48 ≤ c ∧ c ≤ 57 then some (c.toNat - 48)
  else if 65 ≤ c ∧ c ≤ 70 then some (c.toNat - 55)
  else if 97 ≤ c ∧ c ≤ 102 then some (c.toNat - 87)
  else none

/-- `text` is a percent coding of `raw`, with digits of either case and whichever characters
the coder chose to escape. -/
inductive PercentEncodes : Bytes → Bytes → Prop
  | nil : PercentEncodes [] []
  | plain {c : UInt8} {text raw : Bytes} (hc : c ≠ byte '%') (h : PercentEncodes text raw) :
      PercentEncodes (c :: text) (c :: raw)
  | escaped {high low : UInt8} {h l : Nat} {text raw : Bytes} (hhigh : hexDigit? high = some h)
      (hlow : hexDigit? low = some l) (hrest : PercentEncodes text raw) :
      PercentEncodes (byte '%' :: high :: low :: text) (UInt8.ofNat (16 * h + l) :: raw)

private theorem hexDigit_table : ∀ n : Fin 256, ∀ h, hexDigit? (UInt8.ofNat n) = some h →
    0 ≤ charIndex (UInt8.ofNat n) ∧ urlDecodeMap (UInt8.ofNat n) = UInt8.ofNat h := by
  decide +kernel

theorem decodeTableAt_hexDigit {c : UInt8} {h : Nat} (hc : hexDigit? c = some h) (i : Nat) :
    decodeTableAt stray i c = UInt8.ofNat h := by
  have htable := hexDigit_table ⟨c.toNat, c.toNat_lt⟩ h (by rwa [UInt8.ofNat_toNat])
  rw [UInt8.ofNat_toNat] at htable
  rw [decodeTableAt, if_pos htable.1, htable.2]

theorem unescape_hexDigit {high low : UInt8} {h l : Nat} (hhigh : hexDigit? high = some h)
    (hlow : hexDigit? low = some l) (i : Nat) :
    unescape stray i high low = UInt8.ofNat (16 * h + l) := by
  rw [unescape, decodeTableAt_hexDigit stray hhigh, decodeTableAt_hexDigit stray hlow]
  apply UInt8.toNat_inj.mp
  simp only [UInt8.toNat_add, UInt8.toNat_shiftLeft, UInt8.toNat_ofNat', Nat.shiftLeft_eq,
    UInt8.reduceToNat, show 2 ^ (4 % 8) = 16 from rfl]
  omega

theorem PercentEncodes.urlDecodeLoop_eq {text raw : Bytes} (h : PercentEncodes text raw) (i : Nat) :
    urlDecodeLoop stray i text = raw := by
  induction h generalizing i with
  | nil => rfl
  | plain hc h ih => rw [urlDecodeLoop_cons_ne stray hc, ih]
  | escaped hhigh hlow hrest ih =>
      rw [urlDecodeLoop, if_pos rfl, unescape_hexDigit stray hhigh hlow, ih]

theorem PercentEncodes.length_le {text raw : Bytes} (h : PercentEncodes text raw) :
    text.length ≤ 3 * raw.length := by
  induction h with
  | nil => exact Nat.le_refl 0
  | plain hc h ih => simp only [List.length_cons]; omega
  | escaped hhigh hlow hrest ih => simp only [List.length_cons]; omega

theorem PercentEncodes.refl {raw : Bytes} (h : byte '%' ∉ raw) : PercentEncodes raw raw := by
  induction raw with
  | nil => exact .nil
  | cons c raw ih =>
      obtain ⟨hc, hraw⟩ := not_or.mp (mt List.mem_cons.mpr h)
      exact .plain (Ne.symm hc) (ih hraw)

end AdServer.Url
