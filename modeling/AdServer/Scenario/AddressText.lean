import AdServer.Format
import AdServer.Scenario.Atoi

/-!
`ipIntToString` and `ipStringToInt` over the memory that holds the text. The octets are the bytes
of a word, the first one printed the highest. The loop counts four separators, a dot or a NUL,
and reads the byte behind each of them before it looks whether there is anything left to do; the
octets of a shorter text stay as they were in the word.
-/
namespace AdServer.Scenario

open Cursor

/-- The loop of `ipStringToInt` at a pointer, with the octets it sets; `none` is a read behind
the memory. -/
def octetsIn : Nat → Bytes → Option (List (BitVec 8))
  | 0, _ => some []
  | i + 1, p2 => do
    let p ← past (endsPart (byte '.')) p2
    let value ← atoiAt p2
    let c ← p.head?
    if c = 0 then some [BitVec.ofInt 8 value]
    else (octetsIn i p).map (BitVec.ofInt 8 value :: ·)

/-- `what.c[i]` of the word `what.d`. -/
def wordByte (d : BitVec 32) (i : Nat) : BitVec 8 := d.extractLsb' (8 * i) 8

/-- The word whose highest bytes were set. -/
def wordOf (octets : List (BitVec 8)) (unset : BitVec 32) : BitVec 32 :=
  octets.getD 0 (wordByte unset 3) ++ octets.getD 1 (wordByte unset 2) ++
    octets.getD 2 (wordByte unset 1) ++ octets.getD 3 (wordByte unset 0)

def ipStringToIntIn (memory : Bytes) (unset : BitVec 32) : Option (BitVec 32) :=
  (octetsIn 4 memory).map fun octets => wordOf octets unset

/-- The octets in the order in which they are printed. -/
def printedOctets (ip : BitVec 32) : List Nat :=
  [(wordByte ip 3).toNat, (wordByte ip 2).toNat, (wordByte ip 1).toNat, (wordByte ip 0).toNat]

/-- `none` is a text that does not fit into `char buf[16]`. -/
def ipIntToString (ip : BitVec 32) : Option Bytes :=
  (printfText (bytes "%d.%d.%d.%d") ((printedOctets ip).map fun octet => .int octet)).bind
    fun text => if text.length < 16 then some text else none

/-- One octet: the byte behind its separator is there, and a NUL ends the loop. -/
theorem octetsIn_succ_iff {i : Nat} {p2 : Bytes} {octets : List (BitVec 8)} :
    octetsIn (i + 1) p2 = some octets ↔
      ∃ p value c, past (endsPart (byte '.')) p2 = some p ∧ atoiAt p2 = some value ∧
        p.head? = some c ∧
        ((c = 0 ∧ octets = [BitVec.ofInt 8 value]) ∨
          (c ≠ 0 ∧ ∃ rest, octetsIn i p = some rest ∧ octets = BitVec.ofInt 8 value :: rest)) := by
  simp only [octetsIn, Option.bind_eq_bind, Option.bind_eq_some_iff]
  constructor
  · rintro ⟨p, hpast, value, hvalue, c, hc, hrest⟩
    refine ⟨p, value, c, hpast, hvalue, hc, ?_⟩
    split at hrest
    · exact .inl ⟨‹_›, (Option.some.inj hrest).symm⟩
    · obtain ⟨rest, hoctets, rfl⟩ := Option.map_eq_some_iff.mp hrest
      exact .inr ⟨‹_›, rest, hoctets, rfl⟩
  · rintro ⟨p, value, c, hpast, hvalue, hc, ⟨hnul, rfl⟩ | ⟨hnul, rest, hrest, rfl⟩⟩
    · exact ⟨p, hpast, value, hvalue, c, hc, by rw [if_pos hnul]⟩
    · exact ⟨p, hpast, value, hvalue, c, hc, by rw [if_neg hnul, hrest, Option.map_some]⟩

theorem octetsIn_append {n : Nat} {p : Bytes} {octets : List (BitVec 8)}
    (h : octetsIn n p = some octets) (more : Bytes) : octetsIn n (p ++ more) = some octets := by
  induction n generalizing p octets with
  | zero => exact h
  | succ n ih =>
      obtain ⟨q, value, c, hpast, hvalue, hc, hrest⟩ := octetsIn_succ_iff.mp h
      refine octetsIn_succ_iff.mpr ⟨_, value, c, past_append hpast more,
        atoiAt_append hvalue more, by rw [List.head?_append, hc, Option.some_or], ?_⟩
      exact hrest.imp_right fun ⟨hnul, rest, hoctets, heq⟩ => ⟨hnul, rest, ih hoctets, heq⟩

theorem length_le_of_octetsIn {n : Nat} {p : Bytes} {octets : List (BitVec 8)}
    (h : octetsIn n p = some octets) : octets.length ≤ n := by
  induction n generalizing p octets with
  | zero =>
      cases h
      exact Nat.le_refl 0
  | succ n ih =>
      obtain ⟨q, value, c, -, -, -, ⟨-, rfl⟩ | ⟨-, rest, hrest, rfl⟩⟩ := octetsIn_succ_iff.mp h
      · exact Nat.le_add_left 1 n
      · exact Nat.succ_le_succ (ih hrest)

theorem dropWhile_dot {u : Bytes} (hu : byte '.' ∉ u) (rest : Bytes) :
    (u ++ byte '.' :: rest).dropWhile (· ≠ byte '.') = byte '.' :: rest := by
  rw [List.dropWhile_append_of_pos]
  · simp
  · intro x hx
    have hne : x ≠ byte '.' := fun heq => hu (heq ▸ hx)
    simpa using hne

/-- On a text with all its parts the loop sets the octets of the text, whatever stands behind
the terminator. -/
theorem octetsIn_of_octets {n : Nat} {s : Bytes} {octs : List (BitVec 8)} (hnul : 0 ∉ s)
    (h : octets n s = some octs) (behind : UInt8) (more : Bytes) :
    octetsIn n (s ++ 0 :: behind :: more) = some octs := by
  induction n generalizing s octs with
  | zero => exact h
  | succ n ih =>
      have hvalue : atoiAt (s ++ 0 :: behind :: more) = some (atoi s) := by
        rw [atoiAt_of_nul_mem (List.mem_append_right _ List.mem_cons_self), atoi_nul]
      by_cases hdot : byte '.' ∈ s
      · obtain ⟨u, rest, rfl, hu⟩ := List.eq_append_cons_of_mem hdot
        have hstop := endsPart_eq_false hu fun hmem => hnul (List.mem_append_left _ hmem)
        have hpast : past (endsPart (byte '.')) (u ++ byte '.' :: rest ++ 0 :: behind :: more) =
            some (rest ++ 0 :: behind :: more) := by
          rw [List.append_assoc, List.cons_append, past_append_cons hstop (by decide)]
        have hrest : 0 ∉ rest := fun hmem =>
          hnul (List.mem_append_right _ (List.mem_cons_of_mem _ hmem))
        simp only [octets, dropWhile_dot hu] at h
        split at h
        · cases h
        · rename_i hmore
          obtain ⟨octs, hoctets, rfl⟩ := Option.map_eq_some_iff.mp h
          refine octetsIn_succ_iff.mpr ⟨_, _, (rest ++ [0]).head (by simp), hpast, hvalue, ?_, ?_⟩
          · cases rest with
            | nil => rfl
            | cons c rest => rfl
          · cases rest with
            | nil =>
                have hn : n = 0 := by simpa using hmore
                subst hn
                cases hoctets
                exact .inl ⟨rfl, rfl⟩
            | cons c rest =>
                exact .inr ⟨fun heq => hrest (heq ▸ List.mem_cons_self), octs,
                  ih hrest hoctets, rfl⟩
      · have hstop := endsPart_eq_false hdot hnul
        have hdrop : s.dropWhile (· ≠ byte '.') = [] := by
          rw [List.dropWhile_eq_nil_iff]
          intro x hx
          simpa using fun heq : x = byte '.' => hdot (heq ▸ hx)
        simp only [octets, hdrop] at h
        split at h
        · rename_i hn
          subst hn
          cases h
          refine octetsIn_succ_iff.mpr
            ⟨_, _, behind, past_append_cons hstop (by decide) _, hvalue, rfl, ?_⟩
          rcases eq_or_ne behind 0 with hbehind | hbehind
          · exact .inl ⟨hbehind, rfl⟩
          · exact .inr ⟨hbehind, [], rfl, rfl⟩
        · cases h

theorem toNat_wordByte (d : BitVec 32) (i : Nat) :
    (wordByte d i).toNat = d.toNat / 2 ^ (8 * i) % 256 := by
  rw [wordByte, BitVec.extractLsb'_toNat, Nat.shiftRight_eq_div_pow]

theorem printedOctets_eq (ip : BitVec 32) :
    printedOctets ip = [ip.toNat / 2 ^ 24, ip.toNat / 2 ^ 16 % 256, ip.toNat / 2 ^ 8 % 256,
      ip.toNat % 256] := by
  have hlt := ip.isLt
  simp only [printedOctets, toNat_wordByte, Nat.reduceMul, Nat.pow_zero, Nat.div_one,
    List.cons.injEq, and_true]
  omega

theorem ipIntToString_eq (ip : BitVec 32) : ipIntToString ip = some (quadText ip.toNat) := by
  have hlt := ip.isLt
  have hprinted (a b c d : Nat) :
      printfText (bytes "%d.%d.%d.%d") ([a, b, c, d].map fun octet => .int octet) =
        some (Url.intToString a ++ byte '.' :: (Url.intToString b ++ byte '.' ::
          (Url.intToString c ++ byte '.' :: (Url.intToString d ++ [])))) := rfl
  have hlength : (quadText ip.toNat).length < 16 := by
    have hoctet (n : Nat) (h : n < 256) : (decimal n).length ≤ 3 :=
      length_decimal_le (by omega) (by omega)
    have ha := hoctet (ip.toNat / 2 ^ 24) (by omega)
    have hb := hoctet (ip.toNat / 2 ^ 16 % 256) (by omega)
    have hc := hoctet (ip.toNat / 2 ^ 8 % 256) (by omega)
    have hd := hoctet (ip.toNat % 256) (by omega)
    simp only [quadText, List.length_append, List.length_cons]
    omega
  simp only [ipIntToString, printedOctets_eq, hprinted, Url.intToString_natCast, List.append_nil,
    Option.bind_some]
  exact if_pos hlength

theorem wordOf_four (a b c d : BitVec 8) (unset : BitVec 32) :
    wordOf [a, b, c, d] unset = a ++ b ++ c ++ d := rfl

/-- What the loop leaves in the word is the value of the text, if it has all its parts. -/
theorem ipStringToIntIn_of_ipStringToInt {s : Bytes} {ip : BitVec 32} (hnul : 0 ∉ s)
    (h : ipStringToInt s = some ip) (behind : UInt8) (more : Bytes) (unset : BitVec 32) :
    ipStringToIntIn (s ++ 0 :: behind :: more) unset = some ip := by
  rw [ipStringToInt, Url.cString_of_notMem hnul] at h
  split at h
  · rename_i a b c d hoctets
    rw [ipStringToIntIn, octetsIn_of_octets hnul hoctets, Option.map_some, wordOf_four, h]
  · cases h

/-- A printed address is read back whatever stands behind the terminator, and the addresses are
in the order of their octets. -/
theorem ipText_agrees (x y : BitVec 32) (behind : UInt8) (more : Bytes) (unset : BitVec 32) :
    (∃ text, ipIntToString x = some text ∧ 0 ∉ text ∧
      ipStringToIntIn (text ++ 0 :: behind :: more) unset = some x) ∧
    (x.toNat < y.toNat ↔ printedOctets x < printedOctets y) := by
  refine ⟨⟨_, ipIntToString_eq x, ?_, ?_⟩, ?_⟩
  · exact (dottedQuad_quadText x.isLt).notMem (by decide) (by decide)
  · have hquad := dottedQuad_quadText x.isLt
    obtain ⟨ip, hip, hvalue⟩ := Option.map_eq_some_iff.mp hquad.ipValue
    rw [ipStringToIntIn_of_ipStringToInt (hquad.notMem (by decide) (by decide)) hip,
      BitVec.eq_of_toNat_eq hvalue]
  · have hx := x.isLt
    have hy := y.isLt
    simp only [printedOctets_eq, List.cons_lt_cons_iff, List.not_lt_nil, and_false, or_false]
    omega

/-- The text has `n` separators, and none of them but the last stands in front of a NUL. -/
def Separated : Nat → Bytes → Prop
  | 0, _ => True
  | n + 1, s =>
    ∃ v, past (endsPart (byte '.')) s = some v ∧ (n = 0 ∨ v.head? ≠ some 0 ∧ Separated n v)

theorem Separated.ne_nil {n : Nat} {s : Bytes} (h : Separated (n + 1) s) : s ≠ [] := by
  obtain ⟨v, hpast, -⟩ := h
  rintro rfl
  cases hpast

/-- In the memory of the text and its terminator all octets are set exactly if the separators
are there. -/
theorem exists_octetsIn_iff (n : Nat) (s : Bytes) :
    (∃ octs, octetsIn n (s ++ [0]) = some octs ∧ octs.length = n) ↔ Separated n s := by
  induction n generalizing s with
  | zero => exact iff_of_true ⟨[], rfl, rfl⟩ trivial
  | succ n ih =>
      have hvalue := atoiAt_of_nul_mem (List.mem_append_right s (List.mem_singleton_self 0))
      constructor
      · rintro ⟨octs, hoctets, hlength⟩
        obtain ⟨q, value, c, hpast, -, hc, hrest⟩ := octetsIn_succ_iff.mp hoctets
        cases hs : past (endsPart (byte '.')) s with
        | none =>
            -- the terminator is the separator, and the byte behind it is not there
            rw [past_append_of_none hs] at hpast
            cases hpast
            cases hc
        | some v =>
            rw [past_append hs] at hpast
            cases hpast
            refine ⟨v, hs, ?_⟩
            obtain ⟨-, rfl⟩ | ⟨hne, rest, hrest, rfl⟩ := hrest
            · exact .inl (Nat.succ.inj hlength).symm
            · refine .inr ⟨fun hnul => hne ?_, (ih v).mp ⟨rest, hrest, Nat.succ.inj hlength⟩⟩
              rw [List.head?_append, hnul] at hc
              exact (Option.some.inj hc).symm
      · rintro ⟨v, hs, hrest⟩
        have hpast := past_append hs [0]
        cases n with
        | zero =>
            refine ⟨[octet (s ++ [0])], octetsIn_succ_iff.mpr
              ⟨_, _, _, hpast, hvalue, List.head?_eq_some_head (by simp), ?_⟩, rfl⟩
            rcases eq_or_ne ((v ++ [0]).head (by simp)) 0 with hnul | hne
            · exact .inl ⟨hnul, rfl⟩
            · exact .inr ⟨hne, [], rfl, rfl⟩
        | succ n =>
            obtain ⟨hhead, hsep⟩ := hrest.resolve_left (Nat.succ_ne_zero n)
            obtain ⟨c, rest, rfl⟩ := List.exists_cons_of_ne_nil hsep.ne_nil
            obtain ⟨octs, hoctets, hlength⟩ := (ih _).mpr hsep
            refine ⟨octet (s ++ [0]) :: octs, octetsIn_succ_iff.mpr
              ⟨_, _, c, hpast, hvalue, rfl, .inr ⟨?_, octs, hoctets, rfl⟩⟩,
              congrArg Nat.succ hlength⟩
            rintro rfl
            exact hhead rfl

/-- A text without a NUL needs as many dots. -/
theorem separated_iff_count {n : Nat} {s : Bytes} (hnul : 0 ∉ s) :
    Separated n s ↔ n ≤ s.count (byte '.') := by
  induction n generalizing s with
  | zero => exact iff_of_true trivial (Nat.zero_le _)
  | succ n ih =>
      by_cases hdot : byte '.' ∈ s
      · obtain ⟨u, v, rfl, hu⟩ := List.eq_append_cons_of_mem hdot
        have hv : 0 ∉ v := fun hmem =>
          hnul (List.mem_append_right _ (List.mem_cons_of_mem _ hmem))
        have hhead : v.head? ≠ some 0 := fun h => hv (List.mem_of_mem_head? h)
        have hstop := endsPart_eq_false hu fun hmem => hnul (List.mem_append_left _ hmem)
        rw [Separated, past_append_cons hstop (by decide), List.count_append,
          List.count_eq_zero_of_not_mem hu, List.count_cons_self, Nat.zero_add,
          Nat.add_le_add_iff_right, ← ih hv]
        constructor
        · rintro ⟨w, hw, hrest⟩
          cases hw
          obtain rfl | ⟨-, hsep⟩ := hrest
          · exact trivial
          · exact hsep
        · intro hsep
          exact ⟨v, rfl, .inr ⟨hhead, hsep⟩⟩
      · rw [Separated, past_eq_none (endsPart_eq_false hdot hnul),
          List.count_eq_zero_of_not_mem hdot]
        exact iff_of_false (fun ⟨_, h, _⟩ => by cases h) (Nat.not_succ_le_zero n)

theorem toNat_wordOf_mod {octs : List (BitVec 8)} (h : octs.length < 4) (unset : BitVec 32) :
    (wordOf octs unset).toNat % 256 = unset.toNat % 256 := by
  have hlast : octs.getD 3 (wordByte unset 0) = wordByte unset 0 :=
    by
    rw [List.getD_eq_getElem?_getD, List.getElem?_eq_none (Nat.le_of_lt_succ h), Option.getD_none]
  rw [wordOf, hlast, toNat_append_add, toNat_wordByte]
  omega

theorem wordOf_congr {octs : List (BitVec 8)} (h : octs.length = 4) (unset unset' : BitVec 32) :
    wordOf octs unset = wordOf octs unset' := by
  obtain ⟨a, b, c, d, rfl⟩ := List.length_eq_four.mp h
  rfl

/-- The text is read without a byte behind its terminator, and with one value, exactly if it has
four separators; without a NUL in it these are four dots. -/
theorem ipStringToInt_wellDefined_iff (s : Bytes) :
    (((∀ unset, (ipStringToIntIn (s ++ [0]) unset).isSome) ∧
      ∀ behind behind' unset unset', ipStringToIntIn (s ++ 0 :: behind) unset =
        ipStringToIntIn (s ++ 0 :: behind') unset') ↔ Separated 4 s) ∧
    (0 ∉ s → (Separated 4 s ↔ 4 ≤ s.count (byte '.'))) := by
  refine ⟨?_, fun hnul => separated_iff_count hnul⟩
  rw [← exists_octetsIn_iff]
  constructor
  · rintro ⟨hinside, hsame⟩
    have hsome := hinside 0
    rw [ipStringToIntIn, Option.isSome_map] at hsome
    obtain ⟨octs, hoctets⟩ := Option.isSome_iff_exists.mp hsome
    refine ⟨octs, hoctets, (length_le_of_octetsIn hoctets).antisymm (not_lt.mp fun hlt => ?_)⟩
    have hword := hsame [] [] 0 1
    simp only [ipStringToIntIn, hoctets, Option.map_some, Option.some.injEq] at hword
    have hmod := toNat_wordOf_mod hlt 0
    rw [hword, toNat_wordOf_mod hlt 1] at hmod
    cases hmod
  · rintro ⟨octs, hoctets, hlength⟩
    have hbehind (behind : Bytes) : octetsIn 4 (s ++ 0 :: behind) = some octs := by
      rw [← octetsIn_append hoctets behind, List.append_assoc, List.singleton_append]
    refine ⟨fun unset => ?_, fun behind behind' unset unset' => ?_⟩
    · rw [ipStringToIntIn, hoctets]
      rfl
    · rw [ipStringToIntIn, ipStringToIntIn, hbehind, hbehind, Option.map_some, Option.map_some,
        wordOf_congr hlength]

/-- An address reads the byte behind the terminator; one that ends in a dot leaves octets unset. -/
theorem address_reads_behind :
    ipStringToIntIn (bytes "1.2.3.4" ++ [0]) 0 = none ∧
      ipStringToIntIn (bytes "1.2." ++ [0]) 0 ≠ ipStringToIntIn (bytes "1.2." ++ [0]) 1 := by
  decide +kernel

end AdServer.Scenario
