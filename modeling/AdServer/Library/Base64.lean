import Mathlib.Data.List.Basic

/-!
Base64 with the standard alphabet, padding and line breaks. The encoder starts a
new line after every 72 characters and ends with a line break; the decoder skips
every character outside the alphabet, padding included, and drops the bits that
do not fill a byte.
-/
namespace AdServer.Base64

def digitChar (d : Nat) : UInt8 :=
  if d < 26 then UInt8.ofNat (65 + d)
  else if d < 52 then UInt8.ofNat (71 + d)
  else if d < 62 then UInt8.ofNat (d - 4)
  else if d = 62 then 43
  else 47

def charDigit (c : UInt8) : Option Nat :=
  let n := c.toNat
  if 65 ≤ n ∧ n ≤ 90 then some (n - 65)
  else if 97 ≤ n ∧ n ≤ 122 then some (n - 71)
  else if 48 ≤ n ∧ n ≤ 57 then some (n + 4)
  else if n = 43 then some 62
  else if n = 47 then some 63
  else none

def pad : UInt8 := 61

def lineBreak : UInt8 := 10

def digits : List UInt8 → List Nat
  | a :: b :: c :: rest =>
    a.toNat / 4 :: (a.toNat % 4 * 16 + b.toNat / 16) :: (b.toNat % 16 * 4 + c.toNat / 64) ::
      c.toNat % 64 :: digits rest
  | [a, b] => [a.toNat / 4, a.toNat % 4 * 16 + b.toNat / 16, b.toNat % 16 * 4]
  | [a] => [a.toNat / 4, a.toNat % 4 * 16]
  | [] => []

def undigits : List Nat → List UInt8
  | p :: q :: r :: s :: rest =>
    UInt8.ofNat (p * 4 + q / 16) :: UInt8.ofNat (q % 16 * 16 + r / 4) ::
      UInt8.ofNat (r % 4 * 64 + s) :: undigits rest
  | [p, q, r] => [UInt8.ofNat (p * 4 + q / 16), UInt8.ofNat (q % 16 * 16 + r / 4)]
  | [p, q] => [UInt8.ofNat (p * 4 + q / 16)]
  | _ => []

def padding (n : Nat) : List UInt8 := List.replicate ((3 - n % 3) % 3) pad

/-- Line breaks after every `width` characters; `k` stand on the current line. -/
def breakLines (width : Nat) : Nat → List UInt8 → List UInt8
  | _, [] => []
  | k, c :: cs =>
    if k = width then lineBreak :: c :: breakLines width 1 cs
    else c :: breakLines width (k + 1) cs

/-- The text on one line. -/
def padded (bs : List UInt8) : List UInt8 := (digits bs).map digitChar ++ padding bs.length

def encode (bs : List UInt8) : List UInt8 :=
  breakLines 72 0 ((digits bs).map digitChar ++ padding bs.length) ++ [lineBreak]

def decode (text : List UInt8) : List UInt8 := undigits (text.filterMap charDigit)

theorem digits_lt (bs : List UInt8) : ∀ d ∈ digits bs, d < 64 := by
  induction bs using digits.induct with
  | case1 a b c rest ih =>
      have ha := a.toNat_lt
      have hb := b.toNat_lt
      have hc := c.toNat_lt
      intro d hd
      simp only [digits, List.mem_cons] at hd
      obtain rfl | rfl | rfl | rfl | hd := hd
      · omega
      · omega
      · omega
      · omega
      · exact ih d hd
  | case2 a b =>
      have ha := a.toNat_lt
      have hb := b.toNat_lt
      simp only [digits, List.mem_cons, List.not_mem_nil, or_false]
      omega
  | case3 a =>
      have ha := a.toNat_lt
      simp only [digits, List.mem_cons, List.not_mem_nil, or_false]
      omega
  | case4 => simp [digits]

theorem undigits_digits (bs : List UInt8) : undigits (digits bs) = bs := by
  have hbyte : ∀ (n : Nat) (a : UInt8), n = a.toNat → UInt8.ofNat n = a := by
    intro n a h
    rw [h, UInt8.ofNat_toNat]
  induction bs using digits.induct with
  | case1 a b c rest ih =>
      have ha := a.toNat_lt
      have hb := b.toNat_lt
      have hc := c.toNat_lt
      rw [digits, undigits, ih, hbyte _ a (by omega), hbyte _ b (by omega), hbyte _ c (by omega)]
  | case2 a b =>
      have ha := a.toNat_lt
      have hb := b.toNat_lt
      rw [digits, undigits, hbyte _ a (by omega), hbyte _ b (by omega)]
  | case3 a =>
      have ha := a.toNat_lt
      rw [digits, undigits, hbyte _ a (by omega)]
  | case4 => rfl

theorem length_undigits_le (ds : List Nat) : (undigits ds).length ≤ ds.length := by
  induction ds using undigits.induct with
  | case1 p q r s rest ih =>
      simp only [undigits, List.length_cons]
      omega
  | case2 p q r => simp [undigits]
  | case3 p q => simp [undigits]
  | case4 ds h₁ h₂ h₃ =>
      rw [undigits]
      · exact Nat.zero_le _
      all_goals assumption

theorem length_decode_le (text : List UInt8) : (decode text).length ≤ text.length :=
  Nat.le_trans (length_undigits_le _) (List.length_filterMap_le charDigit text)

theorem decode_skip {c : UInt8} (h : charDigit c = none) (front back : List UInt8) :
    decode (front ++ c :: back) = decode (front ++ back) := by
  rw [decode, decode, List.filterMap_append, List.filterMap_append, List.filterMap_cons_none h]

theorem charDigit_digitChar {d : Nat} (h : d < 64) : charDigit (digitChar d) = some d := by
  have htable : ∀ d : Fin 64, charDigit (digitChar d) = some d.1 := by decide
  exact htable ⟨d, h⟩

theorem filterMap_breakLines (width k : Nat) (cs : List UInt8) :
    (breakLines width k cs).filterMap charDigit = cs.filterMap charDigit := by
  have hbreak : charDigit lineBreak = none := by decide
  induction cs generalizing k with
  | nil => rfl
  | cons c cs ih =>
      simp only [breakLines]
      split
      · rw [List.filterMap_cons_none hbreak, List.filterMap_cons, List.filterMap_cons, ih]
      · rw [List.filterMap_cons, List.filterMap_cons, ih]

theorem filterMap_map_digitChar (ds : List Nat) (h : ∀ d ∈ ds, d < 64) :
    (ds.map digitChar).filterMap charDigit = ds := by
  rw [List.filterMap_map]
  calc ds.filterMap (charDigit ∘ digitChar) = ds.filterMap some :=
        List.filterMap_congr fun d hd => charDigit_digitChar (h d hd)
    _ = ds := List.filterMap_some

theorem filterMap_padding (n : Nat) : (padding n).filterMap charDigit = [] := by
  have hpad : charDigit pad = none := by decide
  rw [padding, List.filterMap_replicate_of_none hpad]

theorem decode_padded (bs : List UInt8) : decode (padded bs) = bs := by
  rw [decode, padded, List.filterMap_append, filterMap_map_digitChar _ (digits_lt bs),
    filterMap_padding, List.append_nil, undigits_digits]

theorem decode_encode (bs : List UInt8) : decode (encode bs) = bs := by
  have hbreak : charDigit lineBreak = none := by decide
  rw [decode, encode, List.filterMap_append, filterMap_breakLines,
    List.filterMap_cons_none hbreak, List.filterMap_nil, List.append_nil]
  exact decode_padded bs

theorem mem_breakLines {width k : Nat} {cs : List UInt8} {c : UInt8}
    (h : c ∈ breakLines width k cs) : c = lineBreak ∨ c ∈ cs := by
  induction cs generalizing k with
  | nil => exact .inr h
  | cons x cs ih =>
      simp only [breakLines] at h
      split at h
      · rcases List.mem_cons.mp h with rfl | h
        · exact .inl rfl
        · rcases List.mem_cons.mp h with rfl | h
          · exact .inr (List.mem_cons_self)
          · exact (ih h).imp_right (List.mem_cons_of_mem x)
      · rcases List.mem_cons.mp h with rfl | h
        · exact .inr (List.mem_cons_self)
        · exact (ih h).imp_right (List.mem_cons_of_mem x)

theorem mem_padded {bs : List UInt8} {c : UInt8} (h : c ∈ padded bs) :
    c = pad ∨ ∃ d < 64, c = digitChar d := by
  rw [padded, List.mem_append] at h
  cases h with
  | inl hdigit =>
      obtain ⟨d, hd, rfl⟩ := List.mem_map.mp hdigit
      exact .inr ⟨d, digits_lt bs d hd, rfl⟩
  | inr hpad => exact .inl (List.eq_of_mem_replicate hpad)

theorem mem_encode {bs : List UInt8} {c : UInt8} (h : c ∈ encode bs) :
    c = lineBreak ∨ c = pad ∨ ∃ d < 64, c = digitChar d := by
  rw [encode, List.mem_append, List.mem_singleton] at h
  cases h with
  | inr hlast => exact .inl hlast
  | inl hline => exact (mem_breakLines hline).imp_right mem_padded

theorem length_breakLines_ge (width k : Nat) (cs : List UInt8) :
    cs.length ≤ (breakLines width k cs).length := by
  induction cs generalizing k with
  | nil => exact Nat.le_refl 0
  | cons c cs ih =>
      simp only [breakLines]
      split
      · have htail := ih 1
        simp only [List.length_cons]
        omega
      · have htail := ih (k + 1)
        simp only [List.length_cons]
        omega

theorem length_digits_padding (bs : List UInt8) :
    (digits bs).length + (padding bs.length).length = 4 * ((bs.length + 2) / 3) := by
  simp only [padding, List.length_replicate]
  induction bs using digits.induct with
  | case1 a b c rest ih =>
      simp only [digits, List.length_cons]
      omega
  | case2 a b => simp [digits]
  | case3 a => simp [digits]
  | case4 => simp [digits]

theorem length_padded (bs : List UInt8) : (padded bs).length = 4 * ((bs.length + 2) / 3) := by
  rw [padded, List.length_append, List.length_map, length_digits_padding]

/-- Four characters for every three bytes that were started. -/
theorem length_encode_ge (bs : List UInt8) : 4 * ((bs.length + 2) / 3) ≤ (encode bs).length := by
  have hlines := length_breakLines_ge 72 0 (padded bs)
  rw [length_padded] at hlines
  rw [encode, List.length_append]
  exact Nat.le_trans hlines (Nat.le_add_right _ _)

end AdServer.Base64
