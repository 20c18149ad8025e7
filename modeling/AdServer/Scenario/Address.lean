import AdServer.Url.Query

/-!
The addresses of the scenario table. `ipStringToInt` reads the parts between the dots with
`atoi` into the bytes of an uninitialised word, the first part into the highest one. On a
dotted quad it gives the address.
-/
namespace AdServer.Scenario

/-- `strtol`, which stays in the range of `long`. -/
def strtol (s : Bytes) : Int :=
  let (negative, body) := splitSign (s.dropWhile isSpace)
  let magnitude : Int := Numeral.read 10 digitValue (body.takeWhile isDigit)
  max (-2 ^ 63) (min (2 ^ 63 - 1) (if negative then -magnitude else magnitude))

def atoi (s : Bytes) : Int := wrapInt32 (strtol s)

def octet (p : Bytes) : BitVec 8 := BitVec.ofInt 8 (atoi p)

/-- The loop of `ipStringToInt` for the octets that are still to be read. `none` is a text
with fewer parts: the loop then leaves octets unset or goes on behind the text. -/
def octets : Nat → Bytes → Option (List (BitVec 8))
  | 0, _ => some []
  | i + 1, p =>
    match p.dropWhile (· ≠ byte '.') with
    | [] => if i = 0 then some [octet p] else none
    | _ :: rest =>
      if rest = [] ∧ i ≠ 0 then none else (octets i rest).map (octet p :: ·)

def ipStringToInt (ipString : Bytes) : Option (BitVec 32) :=
  match octets 4 (Url.cString ipString) with
  | some [a, b, c, d] => some (a ++ b ++ c ++ d)
  | _ => none

/-- `uint32_t(ipStringToInt(ip))`. -/
def ipValue (ip : Bytes) : Option Nat := (ipStringToInt ip).map BitVec.toNat

/-- A decimal number of one byte, leading zeros allowed. -/
structure OctetText (text : Bytes) (value : Nat) : Prop where
  nonempty : text ≠ []
  digits : ∀ c ∈ text, isDigit c = true
  read : Numeral.read 10 digitValue text = value
  small : value < 256

def DottedQuad (text : Bytes) (address : Nat) : Prop :=
  ∃ a b c d w x y z, OctetText a w ∧ OctetText b x ∧ OctetText c y ∧ OctetText d z ∧
    text = a ++ byte '.' :: (b ++ byte '.' :: (c ++ byte '.' :: d)) ∧
    address = w * 2 ^ 24 + x * 2 ^ 16 + y * 2 ^ 8 + z

theorem atoi_digits {text rest : Bytes} (hne : text ≠ []) (hdigits : ∀ c ∈ text, isDigit c = true)
    (hrest : rest.takeWhile isDigit = []) (hsmall : Numeral.read 10 digitValue text < 2 ^ 31) :
    atoi (text ++ rest) = Numeral.read 10 digitValue text := by
  have htake : (text ++ rest).takeWhile isDigit = text := by
    rw [List.takeWhile_append_of_pos hdigits, hrest, List.append_nil]
  obtain ⟨c, cs, hcons⟩ := List.exists_cons_of_ne_nil hne
  have hsign : splitSign ((text ++ rest).dropWhile isSpace) = (false, text ++ rest) := by
    rw [hcons, List.cons_append]
    exact splitSign_of_isDigit (hdigits c (by rw [hcons]; exact List.mem_cons_self)) _
  have hstrtol : strtol (text ++ rest) = Numeral.read 10 digitValue text := by
    simp only [strtol, hsign, htake, Bool.false_eq_true, if_false]
    omega
  rw [atoi, hstrtol, wrapInt32_eq_self_iff]
  omega

namespace OctetText

variable {text : Bytes} {value : Nat}

theorem dot_notMem (h : OctetText text value) : byte '.' ∉ text := by
  intro hmem
  cases h.digits _ hmem

theorem atoi_append (h : OctetText text value) {rest : Bytes}
    (hrest : rest.takeWhile isDigit = []) : atoi (text ++ rest) = value := by
  have hsmall := h.small
  rw [atoi_digits h.nonempty h.digits hrest (by rw [h.read]; omega), h.read]

theorem octet_append (h : OctetText text value) {rest : Bytes}
    (hrest : rest.takeWhile isDigit = []) : octet (text ++ rest) = BitVec.ofNat 8 value := by
  rw [octet, h.atoi_append hrest, BitVec.ofInt_natCast]

theorem octets_dot (h : OctetText text value) (i : Nat) {rest : Bytes} (hrest : rest ≠ []) :
    octets (i + 1) (text ++ byte '.' :: rest) =
      (octets i rest).map (BitVec.ofNat 8 value :: ·) := by
  have hdrop : (text ++ byte '.' :: rest).dropWhile (· ≠ byte '.') = byte '.' :: rest := by
    rw [List.dropWhile_append_of_pos]
    · simp
    · intro c hc
      have hne : c ≠ byte '.' := fun heq => h.dot_notMem (heq ▸ hc)
      simpa using hne
  have hstop : (byte '.' :: rest).takeWhile isDigit = [] :=
    List.takeWhile_cons_of_neg (by decide)
  simp only [octets, hdrop, hrest, false_and, if_false, h.octet_append hstop]

theorem octets_last (h : OctetText text value) : octets 1 text = some [BitVec.ofNat 8 value] := by
  have hdrop : text.dropWhile (· ≠ byte '.') = [] := by
    rw [List.dropWhile_eq_nil_iff]
    intro c hc
    have hne : c ≠ byte '.' := fun heq => h.dot_notMem (heq ▸ hc)
    simpa using hne
  have hoctet : octet (text ++ []) = BitVec.ofNat 8 value := h.octet_append rfl
  rw [List.append_nil] at hoctet
  simp only [octets, hdrop, if_true, hoctet]

end OctetText

theorem toNat_append_add {n m : Nat} (x : BitVec n) (y : BitVec m) :
    (x ++ y).toNat = x.toNat * 2 ^ m + y.toNat := by
  rw [BitVec.toNat_append, ← Nat.shiftLeft_add_eq_or_of_lt y.isLt, Nat.shiftLeft_eq]

theorem DottedQuad.forall_mem {text : Bytes} {address : Nat} (h : DottedQuad text address) :
    ∀ c ∈ text, isDigit c = true ∨ c = byte '.' := by
  obtain ⟨a, b, c, d, w, x, y, z, ha, hb, hc, hd, rfl, -⟩ := h
  intro e he
  simp only [List.mem_append, List.mem_cons] at he
  rcases he with he | rfl | he | rfl | he | rfl | he
  · exact .inl (ha.digits e he)
  · exact .inr rfl
  · exact .inl (hb.digits e he)
  · exact .inr rfl
  · exact .inl (hc.digits e he)
  · exact .inr rfl
  · exact .inl (hd.digits e he)

theorem DottedQuad.notMem {text : Bytes} {address : Nat} (h : DottedQuad text address) {c : UInt8}
    (hdigit : isDigit c = false) (hdot : c ≠ byte '.') : c ∉ text := by
  intro hmem
  cases h.forall_mem c hmem with
  | inl hc => cases hdigit.symm.trans hc
  | inr hc => exact hdot hc

theorem DottedQuad.ipValue {text : Bytes} {address : Nat} (h : DottedQuad text address) :
    ipValue text = some address := by
  have htext : Url.cString text = text :=
    Url.cString_of_notMem (h.notMem (by decide) (by decide))
  obtain ⟨a, b, c, d, w, x, y, z, ha, hb, hc, hd, rfl, haddress⟩ := h
  have hoctets : octets 4 (a ++ byte '.' :: (b ++ byte '.' :: (c ++ byte '.' :: d))) =
      some [BitVec.ofNat 8 w, BitVec.ofNat 8 x, BitVec.ofNat 8 y, BitVec.ofNat 8 z] := by
    rw [ha.octets_dot 3 (by simp), hb.octets_dot 2 (by simp), hc.octets_dot 1 hd.nonempty,
      hd.octets_last]
    rfl
  have hw := ha.small
  have hx := hb.small
  have hy := hc.small
  have hz := hd.small
  simp only [AdServer.Scenario.ipValue, ipStringToInt, htext, hoctets, Option.map_some,
    Option.some.injEq, toNat_append_add, BitVec.toNat_ofNat, haddress]
  omega

def quadText (address : Nat) : Bytes :=
  decimal (address / 2 ^ 24) ++ byte '.' :: (decimal (address / 2 ^ 16 % 256) ++ byte '.' ::
    (decimal (address / 2 ^ 8 % 256) ++ byte '.' :: decimal (address % 256)))

theorem octetText_decimal {value : Nat} (h : value < 256) : OctetText (decimal value) value :=
  ⟨decimal_ne_nil value, fun _ => isDigit_of_mem_decimal, read_decimal value, h⟩

theorem dottedQuad_quadText {address : Nat} (h : address < 2 ^ 32) :
    DottedQuad (quadText address) address :=
  ⟨_, _, _, _, _, _, _, _, octetText_decimal (by omega), octetText_decimal (by omega),
    octetText_decimal (by omega), octetText_decimal (by omega), rfl, by omega⟩

end AdServer.Scenario
