import Mathlib.Data.List.Infix
import Mathlib.Data.List.Nodup
import Mathlib.Data.List.Perm.Basic
import Mathlib.Data.List.Perm.Subperm
import Mathlib.Data.List.Range

/-!
Words of a dictionary that start a text. The scan goes along the text as long as what it has
read begins a word, and lists the words that it completes on the way, by their positions. The
second part is the tree of nodes in which such a scan moves.
-/
namespace Dictionary

universe u

variable {κ : Type u}

section
variable [DecidableEq κ]

def isPath (words : List (List κ)) (w : List κ) : Bool := words.any fun x => w.isPrefixOf x

def scan (words : List (List κ)) : List κ → List κ → List Nat
  | _, [] => []
  | w, c :: cs =>
    if isPath words (w ++ [c]) then (words.idxOf? (w ++ [c])).toList ++ scan words (w ++ [c]) cs
    else []

def starting (words : List (List κ)) (u : List κ) : List Nat :=
  (List.range words.length).filter fun i => (words[i]?).any fun x => x.isPrefixOf u

variable {words : List (List κ)} {w u : List κ} {i : Nat}

theorem isPath_iff : isPath words w = true ↔ ∃ x ∈ words, w <+: x := by
  simp only [isPath, List.any_eq_true, List.isPrefixOf_iff_prefix]

theorem isPath_of_getElem? {v : List κ} (h : words[i]? = some (w ++ v)) : isPath words w = true :=
  isPath_iff.mpr ⟨_, List.mem_of_getElem? h, List.prefix_append w v⟩

theorem idxOf?_eq_some (hnodup : words.Nodup) : words.idxOf? w = some i ↔ words[i]? = some w := by
  rw [List.idxOf?_eq_some_iff, List.getElem?_eq_some_iff]
  refine ⟨fun ⟨hi, hget, _⟩ => ⟨hi, hget⟩, fun ⟨hi, hget⟩ => ⟨hi, hget, ?_⟩⟩
  intro j hj heq
  exact Nat.ne_of_lt hj ((hnodup.getElem_inj_iff).mp (heq.trans hget.symm))

theorem isPath_concat {x : List κ} :
    isPath (words ++ [x]) w = true ↔ isPath words w = true ∨ w <+: x := by
  simp [isPath]

theorem isPath_shorter (hw : w <+: u) (hu : isPath words u = true) : isPath words w = true := by
  obtain ⟨x, hx, hux⟩ := isPath_iff.mp hu
  exact isPath_iff.mpr ⟨x, hx, hw.trans hux⟩

/-- Paths up to a word: from the end of an old path the new ones go on along the rest. -/
theorem isPath_concat_append {read rest : List κ} (hread : read = [] ∨ isPath words read = true) :
    w = [] ∨ isPath (words ++ [read ++ rest]) w = true ↔
      (w = [] ∨ isPath words w = true) ∨ ∃ v, v ≠ [] ∧ v <+: rest ∧ w = read ++ v := by
  refine ⟨?_, ?_⟩
  · rintro (hnil | hw)
    · exact .inl (.inl hnil)
    rcases isPath_concat.mp hw with hold | hnew
    · exact .inl (.inr hold)
    rcases List.prefix_or_prefix_of_prefix hnew (List.prefix_append read rest) with hw' | ⟨v, rfl⟩
    · refine .inl (hread.imp ?_ (isPath_shorter hw'))
      rintro rfl
      exact List.prefix_nil.mp hw'
    · by_cases hnil : v = []
      · rw [hnil, List.append_nil]
        exact .inl hread
      · exact .inr ⟨v, hnil, (List.prefix_append_right_inj read).mp hnew, rfl⟩
  · rintro ((hnil | hold) | ⟨v, -, hv, rfl⟩)
    · exact .inl hnil
    · exact .inr (isPath_concat.mpr (.inl hold))
    · exact .inr (isPath_concat.mpr (.inr ((List.prefix_append_right_inj read).mpr hv)))

/-- The scan from a path lists the words that go on from it along the text. -/
theorem mem_scan (hnodup : words.Nodup) :
    i ∈ scan words w u ↔ ∃ v, v ≠ [] ∧ v <+: u ∧ words[i]? = some (w ++ v) := by
  induction u generalizing w with
  | nil =>
      refine iff_of_false List.not_mem_nil ?_
      rintro ⟨v, hne, hv, -⟩
      exact hne (List.prefix_nil.mp hv)
  | cons c cs ih =>
      rw [scan]
      split
      · rw [List.mem_append, Option.mem_toList, idxOf?_eq_some hnodup, ih]
        refine ⟨?_, ?_⟩
        · rintro (hword | ⟨v, -, hv, hword⟩)
          · exact ⟨[c], by simp, by simp, hword⟩
          · refine ⟨c :: v, by simp, List.cons_prefix_cons.mpr ⟨rfl, hv⟩, ?_⟩
            rwa [List.append_assoc] at hword
        · rintro ⟨v, hne, hv, hword⟩
          cases v with
          | nil => exact absurd rfl hne
          | cons d v =>
              obtain ⟨rfl, hrest⟩ := List.cons_prefix_cons.mp hv
              by_cases hnil : v = []
              · subst hnil
                exact .inl hword
              · exact .inr ⟨v, hnil, hrest, by rwa [List.append_assoc]⟩
      · rename_i hpath
        refine iff_of_false List.not_mem_nil ?_
        rintro ⟨v, hne, hv, hword⟩
        cases v with
        | nil => exact hne rfl
        | cons d v =>
            obtain ⟨rfl, -⟩ := List.cons_prefix_cons.mp hv
            refine hpath (isPath_of_getElem? (v := v) (i := i) ?_)
            rwa [List.append_assoc]

theorem nodup_scan (hnodup : words.Nodup) (w u : List κ) : (scan words w u).Nodup := by
  induction u generalizing w with
  | nil => exact List.nodup_nil
  | cons c cs ih =>
      rw [scan]
      split
      · refine List.nodup_append.mpr ⟨by cases words.idxOf? (w ++ [c]) <;> simp, ih _, ?_⟩
        rintro i hi j hj rfl
        rw [Option.mem_toList, idxOf?_eq_some hnodup] at hi
        obtain ⟨v, hne, -, hword⟩ := (mem_scan hnodup).mp hj
        have heq := Option.some.inj (hi.symm.trans hword)
        exact hne (List.self_eq_append_right.mp heq)
      · exact List.nodup_nil

/-- The scan from the start finds each word that starts the text once. -/
theorem scan_perm (hnodup : words.Nodup) (hempty : [] ∉ words) (u : List κ) :
    (scan words [] u).Perm (starting words u) := by
  unfold starting
  rw [List.perm_ext_iff_of_nodup (nodup_scan hnodup [] u) (List.nodup_range.filter _)]
  intro i
  rw [mem_scan hnodup, List.mem_filter, List.mem_range]
  refine ⟨?_, ?_⟩
  · rintro ⟨v, -, hv, hword⟩
    rw [List.nil_append] at hword
    refine ⟨(List.getElem?_eq_some_iff.mp hword).1, ?_⟩
    rw [hword, Option.any_some, List.isPrefixOf_iff_prefix]
    exact hv
  · rintro ⟨hi, hany⟩
    rw [List.getElem?_eq_getElem hi, Option.any_some, List.isPrefixOf_iff_prefix] at hany
    refine ⟨words[i], ?_, hany, by rw [List.nil_append, List.getElem?_eq_getElem hi]⟩
    intro hnil
    exact hempty (hnil ▸ List.getElem_mem hi)

theorem filterMap_getElem?_range {α : Type*} (table : List α) :
    (List.range table.length).filterMap (table[·]?) = table := by
  induction table with
  | nil => rfl
  | cons a l ih =>
      rw [List.length_cons, List.range_succ_eq_map, List.filterMap_cons, List.filterMap_map]
      simpa [Function.comp_def] using ih

/-- The entries of a table whose words start the text. -/
theorem filterMap_starting {α : Type*} (table : List α) (word : α → List κ) (u : List κ) :
    (starting (table.map word) u).filterMap (table[·]?) =
      table.filter fun x => (word x).isPrefixOf u := by
  conv_rhs => rw [← filterMap_getElem?_range table, List.filter_filterMap]
  rw [starting, List.length_map, List.filterMap_filter]
  refine congrArg (List.filterMap · _) (funext fun i => ?_)
  cases h : table[i]? with
  | none => simp
  | some x => simp [h, Option.filter]

end

/-- The nodes of a tree are numbered in the order of their creation, `paths` gives the way from
the root to each. A symbol leads to the child for its `key`. -/
structure Tree (child : Nat → κ → Option Nat) (key : κ → κ) (paths : List (List κ)) : Prop where
  start : paths[0]? = some []
  nodup : paths.Nodup
  closed : ∀ w c, w ++ [c] ∈ paths → w ∈ paths
  child : ∀ p w, paths[p]? = some w → ∀ c q,
    child p c = some q ↔ paths[q]? = some (w ++ [key c])

section
variable {child child' : Nat → κ → Option Nat} {key : κ → κ} {paths : List (List κ)}
variable {p : Nat} {w : List κ} {k : κ}

theorem getElem?_concat_eq_some {α : Type u} {l : List α} {x y : α} {i : Nat} :
    (l ++ [x])[i]? = some y ↔ l[i]? = some y ∨ i = l.length ∧ y = x := by
  grind

theorem Tree.child_eq_none (h : Tree child key paths) (hp : paths[p]? = some w) (c : κ) :
    child p c = none ↔ w ++ [key c] ∉ paths := by
  rw [Option.eq_none_iff_forall_ne_some, List.mem_iff_getElem?, not_exists]
  exact forall_congr' fun q => not_congr (h.child p w hp c q)

theorem Tree.mem_of_append (h : Tree child key paths) {u v : List κ} (hmem : u ++ v ∈ paths) :
    u ∈ paths := by
  induction v using List.reverseRecOn with
  | nil => rwa [List.append_nil] at hmem
  | append_singleton v c ih =>
      rw [← List.append_assoc] at hmem
      exact ih (h.closed _ _ hmem)

/-- The beginnings of a path are as many nodes. -/
theorem Tree.length_lt (h : Tree child key paths) (hw : w ∈ paths) : w.length < paths.length := by
  have hnodup : ((List.range (w.length + 1)).map (w.take ·)).Nodup := by
    refine List.nodup_range.map_on fun i hi j hj heq => ?_
    have hlen := congrArg List.length heq
    rw [List.mem_range] at hi hj
    rw [List.length_take, List.length_take] at hlen
    omega
  have hsubset : (List.range (w.length + 1)).map (w.take ·) ⊆ paths := by
    intro u hu
    obtain ⟨i, -, rfl⟩ := List.mem_map.mp hu
    refine h.mem_of_append (v := w.drop i) ?_
    rwa [List.take_append_drop]
  have hle := (hnodup.subperm hsubset).length_le
  rwa [List.length_map, List.length_range] at hle

/-- A new node below another one, for a key that had no child there. -/
theorem Tree.grow [DecidableEq κ] (h : Tree child key paths) (hp : paths[p]? = some w)
    (hnew : w ++ [k] ∉ paths)
    (hparent : ∀ c, child' p c = if key c = k then some paths.length else child p c)
    (hfresh : ∀ c, child' paths.length c = none)
    (hother : ∀ x, x < paths.length → x ≠ p → child' x = child x) :
    Tree child' key (paths ++ [w ++ [k]]) where
  start := getElem?_concat_eq_some.mpr (.inl h.start)
  nodup := by
    rw [List.nodup_append]
    refine ⟨h.nodup, List.nodup_singleton _, ?_⟩
    rintro u hu v hv rfl
    rw [List.mem_singleton.mp hv] at hu
    exact hnew hu
  closed := by
    intro u c hmem
    rw [List.mem_append, List.mem_singleton] at hmem ⊢
    rcases hmem with hold | heq
    · exact .inl (h.closed u c hold)
    · rw [List.append_inj_left' heq rfl]
      exact .inl (List.mem_of_getElem? hp)
  child := by
    intro x v hx c q
    rw [getElem?_concat_eq_some] at hx ⊢
    rcases hx with hx | ⟨rfl, rfl⟩
    · by_cases hxp : x = p
      · subst hxp
        obtain rfl : v = w := Option.some.inj (hx.symm.trans hp)
        rw [hparent]
        split
        · rename_i hkey
          rw [hkey]
          have hnone : paths[q]? ≠ some (v ++ [k]) := fun hq => hnew (List.mem_of_getElem? hq)
          simp [hnone, eq_comm]
        · rename_i hkey
          rw [h.child x v hx]
          simp [hkey]
      · have hlt := (List.getElem?_eq_some_iff.mp hx).1
        rw [hother x hlt hxp, h.child x v hx]
        refine ⟨.inl, ?_⟩
        rintro (hq | ⟨-, heq⟩)
        · exact hq
        · rw [List.append_inj_left' heq rfl] at hx
          exact absurd ((List.getElem?_inj hlt h.nodup).mp (hx.trans hp.symm)) hxp
    · rw [hfresh]
      refine iff_of_false (by simp) ?_
      rintro (hq | ⟨-, heq⟩)
      · exact hnew (h.closed _ _ (List.mem_of_getElem? hq))
      · simp at heq

end

end Dictionary
