import AdServer.Library.Rewriting
import AdServer.Url.Cipher

/-!
`url_replace` and `url_replace_all`. The second looks for the next occurrence from where it has
just replaced one, so what it has put there is read once more. Every round still uses up a part
of the text that it has not touched, and for the pairs of texts that the program replaces the
rounds make up one pass.
-/
namespace AdServer.Url

open Rewriting

def urlReplace (str pattern replacement : Bytes) : Bytes :=
  match findFrom str pattern 0 with
  | none => str
  | some i => str.take i ++ replacement ++ str.drop (i + pattern.length)

/-- One round of the loop of `url_replace_all` on the text and `start_pos`; `none` is the
`break`. -/
def replaceRound (pattern replacement : Bytes) (st : Bytes × Nat) : Option (Bytes × Nat) :=
  (findFrom st.1 pattern st.2).map fun i =>
    (st.1.take i ++ replacement ++ st.1.drop (i + pattern.length), i)

/-- That many replacements, one after the other. -/
def replaceRounds (pattern replacement : Bytes) : Nat → Bytes × Nat → Option (Bytes × Nat)
  | 0, st => some st
  | k + 1, st => (replaceRound pattern replacement st).bind (replaceRounds pattern replacement k)

section
variable {pattern replacement front back before after : Bytes}

theorem drop_length_add (front back : Bytes) (i : Nat) :
    (front ++ back).drop (front.length + i) = back.drop i := by
  rw [← List.drop_drop, List.drop_left]

theorem findFrom_eq_none (h : ¬pattern <:+: back) :
    findFrom (front ++ back) pattern front.length = none := by
  rw [findFrom, List.find?_eq_none]
  intro i _ hi
  obtain ⟨hle, hoccurs⟩ := of_decide_eq_true hi
  obtain ⟨j, rfl⟩ := Nat.exists_eq_add_of_le hle
  rw [drop_length_add] at hoccurs
  exact h (infix_iff_exists_drop.mpr ⟨j, hoccurs⟩)

theorem findFrom_eq_first (h : FirstAt pattern back before after) :
    findFrom (front ++ back) pattern front.length = some (front.length + before.length) := by
  rw [findFrom, List.find?_range_eq_some]
  refine ⟨?_, ?_, ?_⟩
  · rw [decide_eq_true_eq, drop_length_add, h.split, List.drop_left]
    exact ⟨Nat.le_add_right _ _, List.prefix_append pattern after⟩
  · rw [List.mem_range, h.split, List.length_append, List.length_append]
    omega
  · intro i hi
    rw [Bool.not_eq_true', decide_eq_false_iff_not]
    rintro ⟨hle, hoccurs⟩
    obtain ⟨j, rfl⟩ := Nat.exists_eq_add_of_le hle
    rw [drop_length_add] at hoccurs
    exact h.earlier j (by omega) hoccurs

theorem findFrom_none {a : UInt8} (h : a ∉ back) :
    findFrom (front ++ back) [a] front.length = none :=
  findFrom_eq_none fun hoccurs => h (hoccurs.subset (List.mem_singleton_self a))

theorem findFrom_some {a : UInt8} {middle : Bytes} (h : a ∉ middle) :
    findFrom (front ++ (middle ++ a :: back)) [a] front.length =
      some (front.length + middle.length) :=
  findFrom_eq_first (firstAt_singleton h back)

theorem findFrom_zero_eq_none {str : Bytes} (h : ¬pattern <:+: str) :
    findFrom str pattern 0 = none := by
  have hfind : findFrom ([] ++ str) pattern ([] : Bytes).length = none := findFrom_eq_none h
  exact hfind

theorem urlReplace_of_absent {str : Bytes} (h : ¬pattern <:+: str) :
    urlReplace str pattern replacement = str := by
  rw [urlReplace, findFrom_zero_eq_none h]

theorem replaceRound_eq_none (h : ¬pattern <:+: back) :
    replaceRound pattern replacement (front ++ back, front.length) = none := by
  rw [replaceRound, findFrom_eq_none h, Option.map_none]

theorem replaceRound_eq_first (h : FirstAt pattern back before after) :
    replaceRound pattern replacement (front ++ back, front.length) =
      some (front ++ before ++ (replacement ++ after), (front ++ before).length) := by
  have htake : (front ++ back).take (front.length + before.length) = front ++ before := by
    rw [h.split, ← List.append_assoc, ← List.length_append, List.take_left]
  have hdrop : (front ++ back).drop (front.length + before.length + pattern.length) = after := by
    rw [Nat.add_assoc, drop_length_add, h.split, ← List.append_assoc, ← List.length_append,
      List.drop_left]
  rw [replaceRound, findFrom_eq_first h, Option.map_some, htake, hdrop, List.append_assoc,
    List.length_append]

/-- The loop ends: `middle` is what the last round has put in, and every round ends behind it.
If the texts are apart, the result is that of one pass over the rest. -/
theorem exists_replaceRounds (hne : pattern ≠ []) (hreplacement : ¬pattern <:+: replacement)
    (front middle rest : Bytes) (hmiddle : ¬pattern <:+: middle) :
    ∃ k ≤ rest.length, ∃ st,
      replaceRounds pattern replacement k (front ++ (middle ++ rest), front.length) = some st ∧
      replaceRound pattern replacement st = none ∧
      (Apart pattern replacement →
        (∀ i < middle.length, ¬pattern <+: (middle ++ rest).drop i) →
        st.1 = front ++ (middle ++ onePass pattern replacement 0 rest)) := by
  induction hn : rest.length using Nat.strong_induction_on generalizing front middle rest with
  | _ n ih =>
      by_cases hoccurs : pattern <:+: middle ++ rest
      · obtain ⟨before, after, hfirst⟩ := exists_firstAt hoccurs
        have hshort := hfirst.length_after_lt hmiddle
        obtain ⟨k, hk, st, hrounds, hend, hpass⟩ :=
          ih _ (hn ▸ hshort) (front ++ before) replacement after hreplacement rfl
        refine ⟨k + 1, by omega, st, ?_, hend, ?_⟩
        · rw [replaceRounds, replaceRound_eq_first hfirst, Option.bind_some, hrounds]
        · intro hapart hinside
          obtain ⟨before', rfl, hrest⟩ := hfirst.of_append hinside
          rw [hpass hapart fun i hi => hapart.not_prefix_drop after hi, hrest.onePass_eq hne]
          simp only [List.append_assoc]
      · refine ⟨0, Nat.zero_le _, _, rfl, replaceRound_eq_none hoccurs, ?_⟩
        intro _ _
        have hrest : ¬pattern <:+: rest := fun h =>
          hoccurs (h.trans (List.suffix_append middle rest).isInfix)
        rw [onePass_of_absent hrest]

/-- A run of the loop that ends is found with one more unit of fuel than replacements. -/
theorem urlReplaceAllLoop_eq {k fuel : Nat} {st st' : Bytes × Nat}
    (hrounds : replaceRounds pattern replacement k st = some st')
    (hend : replaceRound pattern replacement st' = none) (hfuel : k < fuel) :
    urlReplaceAllLoop pattern replacement fuel st.1 st.2 = some st'.1 := by
  induction k generalizing fuel st with
  | zero =>
      obtain ⟨fuel, rfl⟩ := Nat.exists_eq_succ_of_ne_zero (Nat.ne_of_gt hfuel)
      cases hrounds
      rw [urlReplaceAllLoop, Option.map_eq_none_iff.mp hend]
  | succ k ih =>
      obtain ⟨fuel, rfl⟩ := Nat.exists_eq_succ_of_ne_zero (Nat.ne_of_gt (Nat.zero_lt_of_lt hfuel))
      obtain ⟨next, hnext, hrounds⟩ := Option.bind_eq_some_iff.mp hrounds
      obtain ⟨i, hi, rfl⟩ := Option.map_eq_some_iff.mp hnext
      rw [urlReplaceAllLoop, hi]
      exact ih hrounds (Nat.lt_of_succ_lt_succ hfuel)

theorem urlReplaceAll_of_apart (hne : pattern ≠ []) (hapart : Apart pattern replacement)
    (str : Bytes) :
    urlReplaceAll str pattern replacement = some (onePass pattern replacement 0 str) := by
  obtain ⟨k, hk, st, hrounds, hend, hpass⟩ :=
    exists_replaceRounds hne (hapart.absent hne) [] [] str (mt List.infix_nil.mp hne)
  have hresult : st.1 = onePass pattern replacement 0 str := hpass hapart (by simp)
  rw [← hresult]
  exact urlReplaceAllLoop_eq hrounds hend (Nat.lt_succ_of_le hk)

theorem urlReplaceAll_singleton {a b : UInt8} (hab : a ≠ b) (str : Bytes) :
    urlReplaceAll str [a] [b] = some (str.map fun c => if c = a then b else c) := by
  rw [urlReplaceAll_of_apart (List.cons_ne_nil a []) (Apart.singleton hab), onePass_singleton]

end

/-- The texts that the program replaces with `url_replace_all`. -/
def replacedTexts : List (Bytes × Bytes) :=
  [(bytes "-", bytes "%"), (bytes "|", bytes ","), (bytes "http://", bytes "https://")]

theorem apart_replacedTexts :
    ∀ entry ∈ replacedTexts, entry.1 ≠ [] ∧ Apart entry.1 entry.2 := by
  simp only [replacedTexts, List.forall_mem_cons]
  refine ⟨⟨by decide, by decide +kernel, by decide +kernel, by decide +kernel⟩,
    ⟨by decide, by decide +kernel, by decide +kernel, by decide +kernel⟩,
    ⟨by decide, by decide +kernel, by decide +kernel, by decide +kernel⟩, fun entry hentry => ?_⟩
  cases hentry

/-- `url_replace_all` ends after at most one replacement for each byte, and for the texts of the
program it does what one pass does and leaves no occurrence. -/
theorem urlReplaceAll_exact :
    (∀ str pattern replacement : Bytes, pattern ≠ [] → ¬pattern <:+: replacement →
      ∃ k ≤ str.length, ∃ st, replaceRounds pattern replacement k (str, 0) = some st ∧
        replaceRound pattern replacement st = none ∧
        urlReplaceAll str pattern replacement = some st.1) ∧
    ∀ entry ∈ replacedTexts, ∀ str,
      urlReplaceAll str entry.1 entry.2 = some (onePass entry.1 entry.2 0 str) ∧
        ¬entry.1 <:+: onePass entry.1 entry.2 0 str := by
  refine ⟨?_, ?_⟩
  · intro str pattern replacement hne hreplacement
    obtain ⟨k, hk, st, hrounds, hend, -⟩ :=
      exists_replaceRounds hne hreplacement [] [] str (mt List.infix_nil.mp hne)
    exact ⟨k, hk, st, hrounds, hend,
      urlReplaceAllLoop_eq hrounds hend (Nat.lt_succ_of_le hk)⟩
  · intro entry hentry str
    obtain ⟨hne, hapart⟩ := apart_replacedTexts entry hentry
    exact ⟨urlReplaceAll_of_apart hne hapart str, hapart.absent_onePass hne str⟩

/-- A replacement that the next round joins with what follows, and an address. -/
theorem urlReplaceAll_exact_sample :
    (∃ k ≤ 3, ∃ st, replaceRounds (bytes "ab") (bytes "a") k (bytes "abb", 0) = some st ∧
      replaceRound (bytes "ab") (bytes "a") st = none ∧
      urlReplaceAll (bytes "abb") (bytes "ab") (bytes "a") = some st.1) ∧
    urlReplaceAll (bytes "http://a") (bytes "http://") (bytes "https://") =
      some (bytes "https://a") := by
  refine ⟨urlReplaceAll_exact.1 (bytes "abb") _ _ (by decide) (by decide), ?_⟩
  rw [(urlReplaceAll_exact.2 (bytes "http://", bytes "https://") (by simp [replacedTexts])
    (bytes "http://a")).1]
  decide +kernel

end AdServer.Url
