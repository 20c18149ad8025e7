import AdServer.Billing.LogItem
import AdServer.Format
import AdServer.Scenario.Atoi

/-!
Area codes in the log. `getAreaCodeStrByIp` prints the three numbers of an area with dashes
between them, `extractAreaInfo` reads them back from a NUL-terminated text. It steps over
whatever stopped it, a dash or the terminator.
-/
namespace AdServer.Url

open Billing Cursor Scenario

/-- The code of the area found for an address, from `char code[64]`. -/
def getAreaCodeStr : Option GeoInfo → Option Bytes
  | some areaItem =>
    (printfText (bytes "%04d-%d-%d")
      [.int areaItem.country, .int areaItem.province, .int areaItem.city]).map (·.take 63)
  | none => some (bytes "0086-0-0")

/-- The number at `p1` and the pointer behind its end. -/
def areaNumber (p1 : Bytes) : Option (Int × Bytes) := do
  let p2 ← past (endsPart (byte '-')) p1
  let number ← atoiAt p1
  some (number, p2)

/-- `none` is a read behind the memory. -/
def extractAreaInfo (input : Bytes) : Option GeoInfo := do
  let (country, p1) ← areaNumber input
  let (province, p1) ← areaNumber p1
  let (city, _) ← areaNumber p1
  some ⟨country, province, city⟩

theorem areaNumber_of_nul_mem {p1 p2 : Bytes} (hpast : past (endsPart (byte '-')) p1 = some p2)
    (hnul : 0 ∈ p1) : areaNumber p1 = some (atoi p1, p2) := by
  rw [areaNumber, hpast, atoiAt_of_nul_mem hnul]
  rfl

theorem areaNumber_digits {u v : Bytes} {c : UInt8} {n : Nat} (hne : u ≠ [])
    (hdigits : ∀ x ∈ u, isDigit x = true) (hread : Numeral.read 10 digitValue u = n)
    (hn : n < 2 ^ 31) (hstop : endsPart (byte '-') c = true) (hnul : 0 ∈ c :: v) :
    areaNumber (u ++ c :: v) = some ((n : Int), v) := by
  subst hread
  have hdash : byte '-' ∉ u := fun hmem => by cases hdigits _ hmem
  have hzero : 0 ∉ u := fun hmem => by cases hdigits _ hmem
  have hend : (c :: v).takeWhile isDigit = [] := by
    refine List.takeWhile_cons_of_neg ?_
    obtain rfl | rfl : c = byte '-' ∨ c = 0 := of_decide_eq_true hstop
    · decide
    · decide
  rw [areaNumber_of_nul_mem (past_append_cons (endsPart_eq_false hdash hzero) hstop v)
    (List.mem_append_right u hnul), atoi_digits hne hdigits hend hn]

theorem areaNumber_decimal {n : Nat} (hn : n < 2 ^ 31) {c : UInt8} {v : Bytes}
    (hstop : endsPart (byte '-') c = true) (hnul : 0 ∈ c :: v) :
    areaNumber (decimal n ++ c :: v) = some ((n : Int), v) :=
  areaNumber_digits (decimal_ne_nil n) (fun _ => isDigit_of_mem_decimal) (read_decimal n) hn hstop
    hnul

theorem zeroPadded_natCast (width n : Nat) :
    zeroPadded width n =
      List.replicate (width - (decimal n).length) (byte '0') ++ decimal n := by
  rw [zeroPadded, if_neg (by omega), Int.natAbs_natCast]
  rfl

theorem areaNumber_zeroPadded {n : Nat} (width : Nat) (hn : n < 2 ^ 31) {c : UInt8} {v : Bytes}
    (hstop : endsPart (byte '-') c = true) (hnul : 0 ∈ c :: v) :
    areaNumber (zeroPadded width n ++ c :: v) = some ((n : Int), v) := by
  rw [zeroPadded_natCast]
  refine areaNumber_digits ?_ ?_ ?_ hn hstop hnul
  · exact List.append_ne_nil_of_right_ne_nil _ (decimal_ne_nil n)
  · rw [List.forall_mem_append]
    refine ⟨fun x hx => ?_, fun _ => isDigit_of_mem_decimal⟩
    rw [List.eq_of_mem_replicate hx]
    decide
  · rw [Numeral.read_replicate_append 10 digitValue (by decide), read_decimal]

/-- One number of a text: the rest of the text behind a dash, or the end of the memory behind
the terminator. -/
theorem areaNumber_text {text : Bytes} (hnul : 0 ∉ text) :
    (∃ v, areaNumber (text ++ [0]) = some (atoi text, v ++ [0]) ∧ 0 ∉ v ∧
        text.count (byte '-') = v.count (byte '-') + 1) ∨
      (areaNumber (text ++ [0]) = some (atoi text, []) ∧ text.count (byte '-') = 0) := by
  have hmem : 0 ∈ text ++ [0] := List.mem_append_right _ (List.mem_singleton_self 0)
  by_cases hdash : byte '-' ∈ text
  · obtain ⟨u, v, rfl, hu⟩ := List.eq_append_cons_of_mem hdash
    have hstop := endsPart_eq_false hu fun h => hnul (List.mem_append_left _ h)
    have hpast : past (endsPart (byte '-')) (u ++ byte '-' :: v ++ [0]) = some (v ++ [0]) :=
      past_append (past_append_cons hstop (by decide) v) [0]
    refine .inl ⟨v, ?_, fun h => hnul (List.mem_append_right _ (List.mem_cons_of_mem _ h)), ?_⟩
    · rw [areaNumber_of_nul_mem hpast hmem, atoi_nul]
    · rw [List.count_append, List.count_eq_zero_of_not_mem hu, List.count_cons_self, Nat.zero_add]
  · have hpast : past (endsPart (byte '-')) (text ++ [0]) = some [] :=
      past_append_cons (endsPart_eq_false hdash hnul) (by decide) []
    refine .inr ⟨?_, List.count_eq_zero_of_not_mem hdash⟩
    rw [areaNumber_of_nul_mem hpast hmem, atoi_nul]

theorem extractAreaInfo_isSome_iff {text : Bytes} (hnul : 0 ∉ text) :
    (extractAreaInfo (text ++ [0])).isSome ↔ 2 ≤ text.count (byte '-') := by
  have hbehind : areaNumber [] = none := rfl
  rw [extractAreaInfo]
  obtain ⟨v, hcountry, hv, hcount⟩ | ⟨hcountry, hcount⟩ := areaNumber_text hnul
  · obtain ⟨w, hprovince, hw, hcount'⟩ | ⟨hprovince, hcount'⟩ := areaNumber_text hv
    · obtain ⟨_, hcity, -⟩ | ⟨hcity, -⟩ := areaNumber_text hw
      · exact iff_of_true (by simp [hcountry, hprovince, hcity]) (by omega)
      · exact iff_of_true (by simp [hcountry, hprovince, hcity]) (by omega)
    · exact iff_of_false (by simp [hcountry, hprovince, hbehind]) (by omega)
  · exact iff_of_false (by simp [hcountry, hbehind]) (by omega)

theorem printfText_area (country province city : Nat) :
    printfText (bytes "%04d-%d-%d") [.int country, .int province, .int city] =
      some (zeroPadded 4 country ++ byte '-' ::
        (decimal province ++ byte '-' :: decimal city)) := by
  have hprinted : printfText (bytes "%04d-%d-%d") [.int country, .int province, .int city] =
      some (zeroPadded 4 country ++ byte '-' :: (intToString province ++ byte '-' ::
        (intToString city ++ []))) := rfl
  rw [hprinted, intToString_natCast, intToString_natCast, List.append_nil]

theorem extractAreaInfo_printed {country province city : Nat} (hcountry : country < 2 ^ 31)
    (hprovince : province < 2 ^ 31) (hcity : city < 2 ^ 31) (behind : Bytes) :
    extractAreaInfo (zeroPadded 4 country ++ byte '-' :: (decimal province ++ byte '-' ::
      decimal city) ++ 0 :: behind) = some ⟨country, province, city⟩ := by
  have hlast : areaNumber (decimal city ++ 0 :: behind) = some ((city : Int), behind) :=
    areaNumber_decimal hcity (by decide) List.mem_cons_self
  have hmiddle : areaNumber (decimal province ++ byte '-' :: (decimal city ++ 0 :: behind)) =
      some ((province : Int), decimal city ++ 0 :: behind) :=
    areaNumber_decimal hprovince (by decide) (by simp)
  have hfirst : areaNumber (zeroPadded 4 country ++ byte '-' :: (decimal province ++ byte '-' ::
      (decimal city ++ 0 :: behind))) =
      some ((country : Int), decimal province ++ byte '-' :: (decimal city ++ 0 :: behind)) :=
    areaNumber_zeroPadded 4 hcountry (by decide) (by simp)
  simp only [extractAreaInfo, List.append_assoc, List.cons_append, hfirst, hmiddle, hlast,
    Option.bind_eq_bind, Option.bind_some]

theorem length_area_lt (country province city : Nat) (hcountry : country < 10000)
    (hprovince : province < 2 ^ 31) (hcity : city < 2 ^ 31) :
    (zeroPadded 4 country ++ byte '-' :: (decimal province ++ byte '-' ::
      decimal city)).length < 64 := by
  have hc : (decimal country).length ≤ 4 := length_decimal_le (by omega) (by omega)
  have hp : (decimal province).length ≤ 10 := length_decimal_le (by omega) (by omega)
  have hcity' : (decimal city).length ≤ 10 := length_decimal_le (by omega) (by omega)
  simp only [zeroPadded_natCast, List.length_append, List.length_replicate, List.length_cons]
  omega

/-- A printed area is read back, and a text is read inside its memory exactly if it has two
dashes. -/
theorem areaCode_read_iff (country province city : Int) (behind a : Bytes) :
    ((0 ≤ country ∧ country ≤ 9999) ∧ (0 ≤ province ∧ province < 2 ^ 31) ∧
        (0 ≤ city ∧ city < 2 ^ 31) →
      ∃ text, printfText (bytes "%04d-%d-%d") [.int country, .int province, .int city] =
          some text ∧
        getAreaCodeStr (some ⟨country, province, city⟩) = some text ∧
        extractAreaInfo (text ++ 0 :: behind) = some ⟨country, province, city⟩) ∧
    ((extractAreaInfo (cString a ++ [0])).isSome ↔ 2 ≤ (cString a).count (byte '-')) := by
  refine ⟨?_, extractAreaInfo_isSome_iff (zero_notMem_cString a)⟩
  rintro ⟨⟨hcountry, hcountry'⟩, ⟨hprovince, hprovince'⟩, hcity, hcity'⟩
  lift country to Nat using hcountry
  lift province to Nat using hprovince
  lift city to Nat using hcity
  refine ⟨_, printfText_area country province city, ?_, ?_⟩
  · have hlength := length_area_lt country province city (by omega) (by omega) (by omega)
    rw [getAreaCodeStr, printfText_area, Option.map_some, List.take_of_length_le (by omega)]
  · exact extractAreaInfo_printed (by omega) (by omega) (by omega) behind

theorem areaCode_read_sample :
    ∃ text, printfText (bytes "%04d-%d-%d") [.int 86, .int 31, .int 5] = some text ∧
      getAreaCodeStr (some ⟨86, 31, 5⟩) = some text ∧
      extractAreaInfo (text ++ 0 :: bytes "x") = some ⟨86, 31, 5⟩ :=
  (areaCode_read_iff 86 31 5 (bytes "x") []).1 (by decide)

/-- A country alone: the step over the terminator leaves the text. -/
theorem country_alone_reads_behind : extractAreaInfo (bytes "0086" ++ [0]) = none := by
  decide +kernel

end AdServer.Url
