import Mathlib.Data.List.TakeWhile
import AdServer.Library.Numeral

/-!
The C++ data the modelled components share: byte strings, the texts of numbers
and the integer conversions. `int` is 32 bits wide, `int64_t`, `long` and
`size_t` are 64 bits wide; conversions to them are written out wherever the code
performs one.
-/
namespace AdServer

abbrev Bytes := List UInt8

def bytes (literal : String) : Bytes := literal.toUTF8.data.toList

def byte (c : Char) : UInt8 := UInt8.ofNat c.toNat

def toInt32 (n : Nat) : Int := (BitVec.ofNat 32 n).toInt

/-- The value an `int` takes when `n` is assigned to it. -/
def wrapInt32 (n : Int) : Int := (BitVec.ofInt 32 n).toInt

def toUInt64 (n : Int) : BitVec 64 := BitVec.ofInt 64 n

def decimalDigit (d : Nat) : UInt8 := UInt8.ofNat (48 + d)

def hexDigit (d : Nat) : UInt8 := if d < 10 then UInt8.ofNat (48 + d) else UInt8.ofNat (87 + d)

/-- `std::to_string` of a number that is not negative. -/
def decimal (n : Nat) : Bytes := Numeral.text 10 decimalDigit n

/-- `ss << std::hex << vc`. -/
def hexText (vc : BitVec 64) : Bytes := Numeral.text 16 hexDigit vc.toNat

/-- How a function ends without its result: with an exception, or with an access outside. -/
inductive Fault
  | exception | outside
  deriving DecidableEq

structure HttpResponse where
  status : Nat
  message : Bytes
  headers : List (Bytes × Bytes) := []
  body : Bytes := []
  deriving DecidableEq, Repr

def isSpace (c : UInt8) : Bool := c = 32 ∨ (9 ≤ c ∧ c ≤ 13)

def isDigit (c : UInt8) : Bool := 48 ≤ c ∧ c ≤ 57

def digitValue (c : UInt8) : Nat := c.toNat - 48

def splitSign : Bytes → Bool × Bytes
  | c :: cs => if c = byte '-' then (true, cs) else if c = byte '+' then (false, cs) else (false, c :: cs)
  | [] => (false, [])

def checkLong (number : Int) : Option Int :=
  if -2 ^ 63 ≤ number ∧ number < 2 ^ 63 then some number else none

/-- `std::stol`; `none` is `std::invalid_argument` or `std::out_of_range`. -/
def stol (s : Bytes) : Option Int :=
  let (negative, body) := splitSign (s.dropWhile isSpace)
  let digits := body.takeWhile isDigit
  if digits = [] then none
  else
    let magnitude : Int := Numeral.read 10 digitValue digits
    checkLong (if negative then -magnitude else magnitude)

/-- `std::stoi`, which throws on the texts `std::stol` throws on and outside `int`. -/
def stoi (s : Bytes) : Option Int :=
  (stol s).filter fun n => -2 ^ 31 ≤ n ∧ n < 2 ^ 31

theorem forall_mem_of_all {p : UInt8 → Prop} [DecidablePred p] {text : Bytes}
    (h : (text.all fun c => decide (p c)) = true) : ∀ c ∈ text, p c := by
  simpa using h

theorem toInt32_eq (n : Nat) :
    toInt32 n = if n % 2 ^ 32 < 2 ^ 31 then (n : Int) % 2 ^ 32 else (n : Int) % 2 ^ 32 - 2 ^ 32 := by
  simp only [toInt32, BitVec.toInt_eq_toNat_cond, BitVec.toNat_ofNat]
  split <;> split <;> omega

theorem toInt32_of_lt {n : Nat} (h : n < 2 ^ 31) : toInt32 n = n := by
  rw [toInt32_eq]
  omega

theorem toInt32_le (n : Nat) : toInt32 n ≤ n := by
  rw [toInt32_eq]
  omega

theorem toInt32_lt (n : Nat) : toInt32 n < 2 ^ 31 := by
  rw [toInt32_eq]
  omega

theorem wrapInt32_range (n : Int) : -2 ^ 31 ≤ wrapInt32 n ∧ wrapInt32 n < 2 ^ 31 :=
  ⟨BitVec.le_toInt _, BitVec.toInt_lt⟩

theorem wrapInt32_eq_self_iff {n : Int} : wrapInt32 n = n ↔ -2 ^ 31 ≤ n ∧ n < 2 ^ 31 := by
  refine ⟨fun h => h ▸ wrapInt32_range n, ?_⟩
  intro hrange
  rw [wrapInt32, BitVec.toInt_ofInt]
  exact Int.bmod_eq_of_le (by omega) (by omega)

theorem checkLong_range (n : Int) :
    -2 ^ 63 ≤ (checkLong n).getD 0 ∧ (checkLong n).getD 0 < 2 ^ 63 := by
  unfold checkLong
  split
  · rename_i hrange
    exact hrange
  · simp

theorem stol_range (s : Bytes) : -2 ^ 63 ≤ (stol s).getD 0 ∧ (stol s).getD 0 < 2 ^ 63 := by
  simp only [stol]
  split
  · simp
  · exact checkLong_range _

theorem digitValue_decimalDigit (d : Nat) (h : d < 10) : digitValue (decimalDigit d) = d := by
  simp only [digitValue, decimalDigit, UInt8.toNat_ofNat']
  omega

def hexValue (c : UInt8) : Nat := if c.toNat < 58 then c.toNat - 48 else c.toNat - 87

theorem hexValue_hexDigit (d : Nat) (h : d < 16) : hexValue (hexDigit d) = d := by
  unfold hexValue hexDigit
  split <;> simp only [UInt8.toNat_ofNat'] <;> split <;> omega

theorem isDigit_of_mem_decimal {n : Nat} {c : UInt8} (h : c ∈ decimal n) : isDigit c = true := by
  obtain ⟨d, hd, rfl⟩ := Numeral.mem_text 10 decimalDigit (by omega) h
  simp only [isDigit, decimalDigit, decide_eq_true_eq, UInt8.le_iff_toNat_le, UInt8.toNat_ofNat']
  refine ⟨?_, ?_⟩ <;> simp only [UInt8.reduceToNat] <;> omega

theorem decimal_ne_nil (n : Nat) : decimal n ≠ [] := Numeral.text_ne_nil 10 decimalDigit n

theorem read_decimal (n : Nat) : Numeral.read 10 digitValue (decimal n) = n :=
  Numeral.read_text 10 decimalDigit (by omega) digitValue digitValue_decimalDigit n

theorem length_decimal_le {n k : Nat} (hk : 0 < k) (h : n < 10 ^ k) : (decimal n).length ≤ k :=
  Numeral.length_text_le 10 decimalDigit (by omega) hk h

theorem decimal_injective : Function.Injective decimal :=
  Numeral.text_injective 10 decimalDigit (by omega) digitValue digitValue_decimalDigit

theorem hexText_ne_nil (vc : BitVec 64) : hexText vc ≠ [] := Numeral.text_ne_nil 16 hexDigit vc.toNat

theorem hexText_injective : Function.Injective hexText := by
  intro vc vc' h
  exact BitVec.eq_of_toNat_eq
    (Numeral.text_injective 16 hexDigit (by omega) hexValue hexValue_hexDigit h)

theorem splitSign_of_isDigit {c : UInt8} (hc : isDigit c = true) (cs : Bytes) :
    splitSign ((c :: cs).dropWhile isSpace) = (false, c :: cs) := by
  have hspace : isSpace c = false := by
    simp only [isDigit, isSpace, decide_eq_true_eq, decide_eq_false_iff_not,
      UInt8.le_iff_toNat_le, ← UInt8.toNat_inj, UInt8.reduceToNat] at hc ⊢
    omega
  have hminus : c ≠ byte '-' := by rintro rfl; revert hc; decide
  have hplus : c ≠ byte '+' := by rintro rfl; revert hc; decide
  simp [hspace, splitSign, hminus, hplus]

theorem stol_digits {s : Bytes} (hne : s ≠ []) (hall : ∀ x ∈ s, isDigit x = true) :
    stol s = checkLong (Numeral.read 10 digitValue s : Nat) := by
  obtain ⟨c, cs, rfl⟩ := List.exists_cons_of_ne_nil hne
  have htake : (c :: cs).takeWhile isDigit = c :: cs := List.takeWhile_eq_self_iff.mpr hall
  simp only [stol, splitSign_of_isDigit (hall c List.mem_cons_self), htake, hne, if_false,
    Bool.false_eq_true]

theorem stol_minus {s : Bytes} (hne : s ≠ []) (hall : ∀ x ∈ s, isDigit x = true) :
    stol (byte '-' :: s) = checkLong (-(Numeral.read 10 digitValue s : Nat)) := by
  have hdrop : (byte '-' :: s).dropWhile isSpace = byte '-' :: s := by
    have hspace : isSpace (byte '-') = false := by decide
    simp [hspace]
  have htake : s.takeWhile isDigit = s := List.takeWhile_eq_self_iff.mpr hall
  simp only [stol, hdrop, splitSign, if_true, htake, hne, if_false]

theorem stol_decimal {n : Nat} (h : n < 2 ^ 63) : stol (decimal n) = some (n : Int) := by
  rw [stol_digits (decimal_ne_nil n) fun x hx => isDigit_of_mem_decimal hx, read_decimal,
    checkLong, if_pos (by omega)]

theorem digitValue_lt {c : UInt8} (h : isDigit c = true) : digitValue c < 10 := by
  simp only [isDigit, decide_eq_true_eq, UInt8.le_iff_toNat_le, UInt8.reduceToNat] at h
  simp only [digitValue]
  omega

theorem stoi_range (s : Bytes) : -2 ^ 31 ≤ (stoi s).getD 0 ∧ (stoi s).getD 0 < 2 ^ 31 := by
  cases h : stoi s with
  | none => simp
  | some n => simpa using (Option.filter_eq_some_iff.mp h).2

end AdServer
