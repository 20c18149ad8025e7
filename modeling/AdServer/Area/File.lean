import AdServer.Area.Lookup

/-!
The lines of the area file. `fgets` cuts the file into lines and fragments of at most 255 bytes,
with a NUL behind each. `processAreaFileLine` looks for a blank, then for the end of the line or a
dash, and behind a dash once more; the NUL stops none of the three scans.
-/
namespace AdServer.Area

open Billing Cursor Scenario

/-- What `fgets` still gives of a file, with what it has already put into `buffer`. -/
def fgetsFrom (line : Bytes) : Bytes → List Bytes
  | [] => if line = [] then [] else [line]
  | c :: rest =>
    if c = byte '\n' ∨ line.length + 1 = 255 then (line ++ [c]) :: fgetsFrom [] rest
    else fgetsFrom (line ++ [c]) rest

def fgetsLines (content : Bytes) : List Bytes := fgetsFrom [] content

def endsNumber (c : UInt8) : Bool := c = byte '\n' ∨ c = byte '-'

/-- The number at `p`, what ends it and the pointer behind that. -/
def codeAt (p : Bytes) : Option (Int × UInt8 × Bytes) := do
  let code ← atoiAt p
  let (_, c, p) ← cut endsNumber p
  some (code, c, p)

/-- The codes that `processAreaFileLine` reads behind the name. `none` is a read behind the
memory. -/
def areaCodes (p : Bytes) : Option GeoInfo := do
  let (country, c, p) ← codeAt p
  if c = byte '\n' then some ⟨country, 0, 0⟩
  else
    let (province, c, p) ← codeAt p
    if c = byte '\n' then some ⟨country, province, 0⟩
    else
      let city ← atoiAt p
      some ⟨country, province, city⟩

def processAreaFileLine (line : Bytes) : Option (Bytes × GeoInfo) := do
  let (name, _, p) ← cut isBlank line
  let codes ← areaCodes p
  some (name, codes)

/-- What stands behind the first blank of a line. -/
def codesPart (line : Bytes) : Bytes := (line.dropWhile fun c => !isBlank c).tail

/-- There is a blank, and behind the first one the end of the line or two dashes. -/
def Delimited (line : Bytes) : Prop :=
  (∃ c ∈ line, isBlank c = true) ∧
    (byte '\n' ∈ codesPart line ∨ 2 ≤ (codesPart line).count (byte '-'))

theorem codesPart_append_cons {u : Bytes} {c : UInt8} (hu : ∀ x ∈ u, isBlank x = false)
    (hc : isBlank c = true) (q : Bytes) : codesPart (u ++ c :: q) = q := by
  rw [codesPart, List.dropWhile_append_of_pos (by simpa using hu),
    List.dropWhile_cons_of_neg (by simp [hc]), List.tail_cons]

theorem endsNumber_eq_false {u : Bytes} (hnewline : byte '\n' ∉ u) (hdash : byte '-' ∉ u) :
    ∀ x ∈ u, endsNumber x = false := by
  intro x hx
  refine decide_eq_false fun h => ?_
  obtain rfl | rfl := h
  · exact hnewline hx
  · exact hdash hx

theorem codeAt_append_cons {u rest : Bytes} {c : UInt8} (hu : ∀ x ∈ u, endsNumber x = false)
    (hc : endsNumber c = true) (hnul : 0 ∈ rest) :
    codeAt (u ++ c :: rest) = some (atoi (u ++ c :: rest), c, rest) := by
  have hmem : 0 ∈ u ++ c :: rest := List.mem_append_right u (List.mem_cons_of_mem c hnul)
  rw [codeAt, atoiAt_of_nul_mem hmem, cut_append_cons hu hc]
  rfl

theorem codeAt_eq_none {p : Bytes} (hp : ∀ x ∈ p, endsNumber x = false) :
    codeAt (p ++ [0]) = none := by
  have hstop : ∀ x ∈ p ++ [0], endsNumber x = false := by
    intro x hx
    obtain hx | hx := List.mem_append.mp hx
    · exact hp x hx
    · rw [List.mem_singleton.mp hx]
      decide
  rw [codeAt, atoiAt_of_nul_mem (by simp), cut_eq_none hstop]
  rfl

section
variable {u v rest : Bytes} (hu : ∀ x ∈ u, endsNumber x = false)
  (hv : ∀ x ∈ v, endsNumber x = false) (hnul : 0 ∈ rest)

include hu hnul in
theorem areaCodes_newline :
    areaCodes (u ++ byte '\n' :: rest) = some ⟨atoi (u ++ byte '\n' :: rest), 0, 0⟩ := by
  rw [areaCodes, codeAt_append_cons hu (by decide) hnul]
  rfl

include hu hv in
theorem areaCodes_dash : areaCodes (u ++ byte '-' :: (v ++ [0])) = none := by
  rw [areaCodes, codeAt_append_cons hu (by decide) (by simp)]
  change codeAt (v ++ [0]) >>= _ = none
  rw [codeAt_eq_none hv]
  rfl

include hu hv hnul

theorem areaCodes_dash_newline :
    areaCodes (u ++ byte '-' :: (v ++ byte '\n' :: rest)) =
      some ⟨atoi (u ++ byte '-' :: (v ++ byte '\n' :: rest)), atoi (v ++ byte '\n' :: rest),
        0⟩ := by
  rw [areaCodes, codeAt_append_cons hu (by decide) (by simp [hnul])]
  change codeAt (v ++ byte '\n' :: rest) >>= _ = _
  rw [codeAt_append_cons hv (by decide) hnul]
  rfl

theorem areaCodes_dash_dash :
    areaCodes (u ++ byte '-' :: (v ++ byte '-' :: rest)) =
      some ⟨atoi (u ++ byte '-' :: (v ++ byte '-' :: rest)), atoi (v ++ byte '-' :: rest),
        atoi rest⟩ := by
  rw [areaCodes, codeAt_append_cons hu (by decide) (by simp [hnul])]
  change codeAt (v ++ byte '-' :: rest) >>= _ = _
  rw [codeAt_append_cons hv (by decide) hnul]
  change atoiAt rest >>= _ = _
  rw [atoiAt_of_nul_mem hnul]
  rfl

end

theorem newline_or_dash {c : UInt8} (hc : endsNumber c = true) : c = byte '\n' ∨ c = byte '-' :=
  of_decide_eq_true hc

theorem notMem_of_endsNumber {u : Bytes} (hu : ∀ x ∈ u, endsNumber x = false) {c : UInt8}
    (hc : endsNumber c = true) : c ∉ u := by
  intro hmem
  cases (hu c hmem).symm.trans hc

theorem areaCodes_isSome_iff (p : Bytes) :
    (areaCodes (p ++ [0])).isSome = true ↔ byte '\n' ∈ p ∨ 2 ≤ p.count (byte '-') := by
  obtain hp | ⟨u, c, q, rfl, hc, hu⟩ := forall_or_exists_append endsNumber p
  · have hnewline := notMem_of_endsNumber hp (c := byte '\n') (by decide)
    have hdash := notMem_of_endsNumber hp (c := byte '-') (by decide)
    rw [areaCodes, codeAt_eq_none hp, List.count_eq_zero_of_not_mem hdash]
    refine iff_of_false Bool.false_ne_true fun h => ?_
    exact h.elim hnewline (by decide)
  · rw [List.append_assoc, List.cons_append]
    obtain rfl | rfl := newline_or_dash hc
    · rw [areaCodes_newline hu (by simp)]
      exact iff_of_true rfl (.inl (by simp))
    · have hdash := notMem_of_endsNumber hu hc
      obtain hq | ⟨v, d, r, rfl, hd, hv⟩ := forall_or_exists_append endsNumber q
      · have hnewline := notMem_of_endsNumber hq (c := byte '\n') (by decide)
        have hcount : (u ++ byte '-' :: q).count (byte '-') = 1 := by
          rw [List.count_append, List.count_cons_self, List.count_eq_zero_of_not_mem hdash,
            List.count_eq_zero_of_not_mem (notMem_of_endsNumber hq hc)]
        rw [areaCodes_dash hu hq, hcount]
        refine iff_of_false Bool.false_ne_true fun h => ?_
        obtain h | h := h
        · obtain h | h := List.mem_append.mp h
          · exact notMem_of_endsNumber hu (by decide) h
          · exact (List.mem_cons.mp h).elim (by decide) hnewline
        · omega
      · rw [List.append_assoc, List.cons_append]
        obtain rfl | rfl := newline_or_dash hd
        · rw [areaCodes_dash_newline hu hv (by simp)]
          exact iff_of_true rfl (.inl (by simp))
        · rw [areaCodes_dash_dash hu hv (by simp)]
          refine iff_of_true rfl (.inr ?_)
          rw [List.count_append, List.count_cons_self, List.count_append, List.count_cons_self]
          omega

theorem processAreaFileLine_append_cons {u : Bytes} {c : UInt8} (hu : ∀ x ∈ u, isBlank x = false)
    (hc : isBlank c = true) (q : Bytes) :
    processAreaFileLine (u ++ c :: q) = (areaCodes q).map fun codes => (u, codes) := by
  rw [processAreaFileLine, cut_append_cons hu hc]
  change areaCodes q >>= _ = _
  cases areaCodes q with
  | none => rfl
  | some codes => rfl

theorem processAreaFileLine_isSome_iff (line : Bytes) :
    (processAreaFileLine (line ++ [0])).isSome = true ↔ Delimited line := by
  obtain hline | ⟨u, c, q, rfl, hc, hu⟩ := forall_or_exists_append isBlank line
  · have hstop : ∀ x ∈ line ++ [0], isBlank x = false := by
      intro x hx
      obtain hx | hx := List.mem_append.mp hx
      · exact hline x hx
      · rw [List.mem_singleton.mp hx]
        decide
    rw [processAreaFileLine, cut_eq_none hstop]
    refine iff_of_false Bool.false_ne_true fun h => ?_
    obtain ⟨c, hc, hblank⟩ := h.1
    cases (hline c hc).symm.trans hblank
  · have hblank : ∃ x ∈ u ++ c :: q, isBlank x = true :=
      ⟨c, List.mem_append_right u List.mem_cons_self, hc⟩
    rw [Delimited, and_iff_right hblank, codesPart_append_cons hu hc, ← areaCodes_isSome_iff,
      List.append_assoc, List.cons_append, processAreaFileLine_append_cons hu hc,
      Option.isSome_map]

/-- No scan of a line leaves it if and only if each line has a blank, and behind the first one the
end of the line or two dashes. -/
theorem processAreaFileLine_inside_iff (content : Bytes) :
    (∀ line ∈ fgetsLines content, (processAreaFileLine (line ++ [0])).isSome = true) ↔
      ∀ line ∈ fgetsLines content, Delimited line :=
  forall₂_congr fun line _ => processAreaFileLine_isSome_iff line

/-- A blank line. -/
theorem processAreaFileLine_newline :
    bytes "\n" ∈ fgetsLines (bytes "\n") ∧
      processAreaFileLine (bytes "\n" ++ [0]) = none := by
  decide +kernel

end AdServer.Area
