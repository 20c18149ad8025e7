import Mathlib.Data.Finmap
import AdServer.Basic

/-!
The parameter maps the URL helper works on, and its conversions between numbers
and texts.
-/
namespace AdServer.Url

/-- `std::unordered_map<std::string, std::string>`: no traversal order is part
of its value. -/
abbrev ParamMap := Finmap (fun _ : Bytes => Bytes)

def ParamMap.insertNew (m : ParamMap) (key value : Bytes) : ParamMap :=
  if key ∈ m then m else Finmap.insert key value m

/-- A traversal of the map by a range-based `for`, in whatever order. -/
def ParamMap.Traversal (m : ParamMap) (order : List (Bytes × Bytes)) : Prop :=
  (order.map Prod.fst).Nodup ∧
  ∀ key value, (key, value) ∈ order ↔ m.lookup key = some value

def intToString (n : Int) : Bytes :=
  if n < 0 then byte '-' :: decimal n.natAbs else decimal n.natAbs

/-- `URLParamMap::stringToInt`: any exception of `std::stol` gives zero. -/
def stringToInt (s : Bytes) : Int := (stol s).getD 0

theorem stringToInt_range (s : Bytes) : -2 ^ 63 ≤ stringToInt s ∧ stringToInt s < 2 ^ 63 :=
  stol_range s

theorem intToString_natCast (n : Nat) : intToString (n : Int) = decimal n := by
  simp [intToString]

theorem stringToInt_decimal {n : Nat} (h : n < 2 ^ 63) : stringToInt (decimal n) = n := by
  simp only [stringToInt, stol_decimal h, Option.getD_some]

theorem stol_intToString {n : Int} (h : -2 ^ 63 ≤ n ∧ n < 2 ^ 63) : stol (intToString n) = some n := by
  have hdigits : ∀ x ∈ decimal n.natAbs, isDigit x = true := fun x hx => isDigit_of_mem_decimal hx
  unfold intToString
  split
  · rw [stol_minus (decimal_ne_nil _) hdigits, read_decimal, checkLong, if_pos (by omega)]
    simp only [Option.some.injEq]
    omega
  · rw [stol_decimal (by omega)]
    simp only [Option.some.injEq]
    omega

theorem stringToInt_intToString {n : Int} (h : -2 ^ 63 ≤ n ∧ n < 2 ^ 63) :
    stringToInt (intToString n) = n := by
  rw [stringToInt, stol_intToString h, Option.getD_some]

theorem stoi_intToString {n : Int} (h : -2 ^ 31 ≤ n ∧ n < 2 ^ 31) : stoi (intToString n) = some n := by
  rw [stoi, stol_intToString (by omega)]
  simp only [Option.filter_some, decide_eq_true_eq]
  exact if_pos h

theorem length_intToString_le {n : Int} (h : -2 ^ 31 ≤ n ∧ n < 2 ^ 31) :
    (intToString n).length ≤ 11 := by
  have hlen : (decimal n.natAbs).length ≤ 10 := length_decimal_le (by omega) (by omega)
  unfold intToString
  split
  · exact Nat.succ_le_succ hlen
  · omega

theorem intToString_ne_nil (n : Int) : intToString n ≠ [] := by
  unfold intToString
  split
  · simp
  · exact decimal_ne_nil _

theorem minus_ne_decimal (n : Nat) (text : Bytes) : byte '-' :: text ≠ decimal n := by
  intro h
  have hdigit : isDigit (byte '-') = true :=
    isDigit_of_mem_decimal (n := n) (h ▸ List.mem_cons_self)
  revert hdigit
  decide

theorem notMem_intToString {c : UInt8} (hdigit : isDigit c = false) (hminus : c ≠ byte '-')
    (n : Int) : c ∉ intToString n := by
  have hdecimal : c ∉ decimal n.natAbs := by
    intro h
    cases hdigit.symm.trans (isDigit_of_mem_decimal h)
  unfold intToString
  split
  · rw [List.mem_cons, not_or]
    exact ⟨hminus, hdecimal⟩
  · exact hdecimal

theorem zero_notMem_intToString (n : Int) : (0 : UInt8) ∉ intToString n :=
  notMem_intToString (by decide) (by decide) n

theorem intToString_injective : Function.Injective intToString := by
  intro n m h
  unfold intToString at h
  split at h <;> split at h
  · have habs := decimal_injective (List.cons.inj h).2
    omega
  · exact absurd h (minus_ne_decimal _ _)
  · exact absurd h.symm (minus_ne_decimal _ _)
  · have habs := decimal_injective h
    omega

theorem ParamMap.lookup_insertNew (m : ParamMap) (key value k : Bytes) :
    (m.insertNew key value).lookup k =
      if k = key then some ((m.lookup key).getD value) else m.lookup k := by
  unfold insertNew
  by_cases hk : k = key
  · subst hk
    split
    · rename_i hmem
      obtain ⟨v, hv⟩ := Finmap.mem_iff.mp hmem
      simp [hv]
    · rename_i hmem
      simp [Finmap.lookup_eq_none.mpr hmem]
  · rw [if_neg hk]
    split
    · rfl
    · exact Finmap.lookup_insert_of_ne m hk

theorem ParamMap.lookup_insertNew_of_some {m : ParamMap} {k v : Bytes} (h : m.lookup k = some v)
    (key value : Bytes) : (m.insertNew key value).lookup k = some v := by
  rw [lookup_insertNew]
  split
  · rename_i hk
    subst hk
    simp [h]
  · exact h

/-- The map after a loop that rewrites every value in place. -/
def ParamMap.mapValues (f : Bytes → Bytes) (m : ParamMap) : ParamMap where
  entries := m.entries.map fun entry => ⟨entry.1, f entry.2⟩
  nodupKeys := by
    have hkeys := Multiset.nodup_keys.mpr m.nodupKeys
    rw [← Multiset.nodup_keys]
    simpa [Multiset.keys, Multiset.map_map] using hkeys

theorem ParamMap.lookup_mapValues (f : Bytes → Bytes) (m : ParamMap) (key : Bytes) :
    (m.mapValues f).lookup key = (m.lookup key).map f := by
  apply Option.ext
  intro value
  rw [Finmap.lookup_eq_some_iff, Option.map_eq_some_iff]
  simp only [mapValues, Multiset.mem_map, Finmap.lookup_eq_some_iff]
  refine ⟨?_, ?_⟩
  · rintro ⟨⟨k, v⟩, hentry, heq⟩
    cases heq
    exact ⟨v, hentry, rfl⟩
  · rintro ⟨v, hentry, rfl⟩
    exact ⟨⟨key, v⟩, hentry, rfl⟩

end AdServer.Url
