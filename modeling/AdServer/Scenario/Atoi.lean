import AdServer.Library.Cursor
import AdServer.Scenario.Address

/-!
Numbers in a text of parts. A part ends at its separator or at the terminator. `atoi` at the
start of a part skips spaces, takes a sign and goes on to the first byte that is not a digit,
which a NUL is; what stands behind that byte is not read.
-/
namespace AdServer.Scenario

def endsPart (separator c : UInt8) : Bool := c = separator ∨ c = 0

theorem endsPart_eq_false {separator : UInt8} {u : Bytes} (hseparator : separator ∉ u)
    (hnul : 0 ∉ u) : ∀ x ∈ u, endsPart separator x = false := by
  intro x hx
  have hxseparator : x ≠ separator := fun heq => hseparator (heq ▸ hx)
  have hxnul : x ≠ 0 := fun heq => hnul (heq ▸ hx)
  simp [endsPart, hxseparator, hxnul]

/-- `atoi` at a pointer; `none` is a number that reaches the end of the memory. -/
def atoiAt (memory : Bytes) : Option Int :=
  if (splitSign (memory.dropWhile isSpace)).2.dropWhile isDigit = [] then none
  else some (atoi memory)

theorem splitSign_append {p : Bytes} (hp : p ≠ []) (more : Bytes) :
    splitSign (p ++ more) = ((splitSign p).1, (splitSign p).2 ++ more) := by
  cases p with
  | nil => exact absurd rfl hp
  | cons c p =>
      simp only [List.cons_append, splitSign]
      split
      · rfl
      · split
        · rfl
        · rfl

theorem dropWhile_append_of_ne {stop : UInt8 → Bool} {p : Bytes} (hp : p.dropWhile stop ≠ [])
    (more : Bytes) : (p ++ more).dropWhile stop = p.dropWhile stop ++ more := by
  rw [List.dropWhile_append, if_neg (by simpa using hp)]

theorem takeWhile_append_of_ne {stop : UInt8 → Bool} {p : Bytes} (hp : p.dropWhile stop ≠ [])
    (more : Bytes) : (p ++ more).takeWhile stop = p.takeWhile stop := by
  rw [List.takeWhile_append, if_neg]
  intro hlength
  refine hp (List.eq_nil_of_length_eq_zero ?_)
  have hsum := congrArg List.length (List.takeWhile_append_dropWhile (p := stop) (l := p))
  rw [List.length_append] at hsum
  omega

/-- A number that ends inside the memory is read as it is in every longer memory. -/
theorem atoiAt_append {p : Bytes} {value : Int} (h : atoiAt p = some value) (more : Bytes) :
    atoiAt (p ++ more) = some value := by
  rw [atoiAt] at h
  split at h
  · cases h
  · rename_i hbody
    cases h
    have hspaces : p.dropWhile isSpace ≠ [] := by
      intro hnil
      exact hbody (by rw [hnil]; rfl)
    have hsplit := splitSign_append hspaces more
    rw [← dropWhile_append_of_ne hspaces] at hsplit
    rw [atoiAt, if_neg, atoi, atoi, strtol, strtol, hsplit]
    · simp only [takeWhile_append_of_ne hbody]
    · rw [hsplit, dropWhile_append_of_ne hbody]
      exact List.append_ne_nil_of_left_ne_nil hbody more

theorem mem_dropWhile_of_mem (stop : UInt8 → Bool) {c : UInt8} (hc : stop c = false)
    {p : Bytes} (hmem : c ∈ p) : c ∈ p.dropWhile stop := by
  rw [← List.takeWhile_append_dropWhile (p := stop) (l := p), List.mem_append] at hmem
  refine hmem.resolve_left fun htake => ?_
  cases hc.symm.trans (List.mem_takeWhile_imp htake)

theorem mem_splitSign_of_mem {c : UInt8} (hminus : c ≠ byte '-') (hplus : c ≠ byte '+')
    {p : Bytes} (hmem : c ∈ p) : c ∈ (splitSign p).2 := by
  cases p with
  | nil => cases hmem
  | cons x p =>
      simp only [splitSign]
      split
      · rename_i hx
        exact (List.mem_cons.mp hmem).resolve_left fun h => hminus (h.trans hx)
      · split
        · rename_i hx
          exact (List.mem_cons.mp hmem).resolve_left fun h => hplus (h.trans hx)
        · exact hmem

/-- A NUL ends every number. -/
theorem atoiAt_of_nul_mem {p : Bytes} (hnul : 0 ∈ p) : atoiAt p = some (atoi p) := by
  rw [atoiAt, if_neg]
  have hspaces : 0 ∈ p.dropWhile isSpace := mem_dropWhile_of_mem isSpace (by decide) hnul
  have hbody := mem_splitSign_of_mem (by decide) (by decide) hspaces
  exact List.ne_nil_of_mem (mem_dropWhile_of_mem isDigit (by decide) hbody)

/-- A byte that belongs to no number ends the text that `atoi` reads. -/
theorem atoi_append_cons {c : UInt8} (hspace : isSpace c = false) (hminus : c ≠ byte '-')
    (hplus : c ≠ byte '+') (hdigit : isDigit c = false) (p more : Bytes) :
    atoi (p ++ c :: more) = atoi p := by
  have hspaces : (p ++ c :: more).dropWhile isSpace = p.dropWhile isSpace ++ c :: more := by
    by_cases hp : p.dropWhile isSpace = []
    · rw [List.dropWhile_append, hp, List.dropWhile_cons_of_neg (by simp [hspace])]
      rfl
    · exact dropWhile_append_of_ne hp _
  have hsplit : splitSign (p.dropWhile isSpace ++ c :: more) =
      ((splitSign (p.dropWhile isSpace)).1, (splitSign (p.dropWhile isSpace)).2 ++ c :: more) := by
    by_cases hp : p.dropWhile isSpace = []
    · rw [hp, List.nil_append, splitSign, if_neg hminus, if_neg hplus]
      rfl
    · exact splitSign_append hp _
  have hdigits (body : Bytes) : (body ++ c :: more).takeWhile isDigit = body.takeWhile isDigit := by
    rw [List.takeWhile_append]
    split
    · rename_i hall
      rw [List.takeWhile_cons_of_neg (by simp [hdigit]), List.append_nil,
        (List.takeWhile_prefix _).eq_of_length hall]
    · rfl
  rw [atoi, atoi, strtol, strtol, hspaces, hsplit]
  simp only [hdigits]

theorem atoi_nul (p more : Bytes) : atoi (p ++ 0 :: more) = atoi p :=
  atoi_append_cons (by decide) (by decide) (by decide) (by decide) p more

end AdServer.Scenario
