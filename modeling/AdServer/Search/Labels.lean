import AdServer.Library.FirstSeen
import AdServer.Search.Exact
import AdServer.Search.GoodSuffix

/-!
The labels of a tree to which patterns are added more than once. A label is the number of a
pattern among the different ones, but every call appends its text, so the text at the label is
that of the pattern only as long as nothing new follows a repetition.
-/
namespace AdServer.Search

open Dictionary FirstSeen

section
variable {δ : Type}

/-- The label of the node that a way spells. -/
def labelAt (tree : AcbmTree δ) (way : Bytes) : Option Int := do
  let root ← tree.root
  let node ← descend tree.heap root way
  some (tree.heap node).label

/-- The labels are in step with the calls of `AdAcbmTreeAdd`. -/
structure InStep (tree : AcbmTree δ) (calls : List (Bytes × δ)) : Prop where
  text : ∀ way (l : Nat), labelAt tree way = some (l : Int) →
    tree.vStr[l]?.map fold = some (fold way)
  count : tree.ptnCount = (folded calls).eraseDups.length
  labels : ∀ l : Nat, (∃ way, labelAt tree way = some (l : Int)) ↔
    l < (folded calls).eraseDups.length
  data : ∀ way (l : Nat), labelAt tree way = some (l : Int) →
    tree.mData l = (calls.filter fun p => fold p.1 = fold way).map (·.2)

/-- Each text that a search lists for some data is that of a pattern with these data, and it occurs
in the searched text. -/
def ReportsMatched [DecidableEq δ] (tree : AcbmTree δ) (calls : List (Bytes × δ)) : Prop :=
  ∀ text mResult found, acbmSearch tree text mResult = some found →
    ∀ d, ∃ listed, found.mResult d = mResult d ++ listed ∧
      ∀ s ∈ listed, (∃ b, occursAt text s b = true) ∧ ∃ p ∈ calls, fold p.1 = fold s ∧ p.2 = d

/-- The patterns as the nodes spell them. -/
def words (calls : List (Bytes × δ)) : List Bytes := calls.map fun p => spelled p.1

/-- The data of the calls for a word. -/
def dataOf (calls : List (Bytes × δ)) (word : Option Bytes) : List δ :=
  (calls.filter fun p => some (spelled p.1) = word).map (·.2)

/-- The tables after some calls, where the patterns are numbered by their first calls. -/
structure Tables (tree : AcbmTree δ) (calls : List (Bytes × δ)) : Prop where
  ptnCount : tree.ptnCount = wrapInt32 (words calls).eraseDups.length
  vStr : tree.vStr = calls.map (·.1)
  mData : ∀ i : Nat, tree.mData i = dataOf calls (words calls).eraseDups[i]?

structure Numbered (tree : AcbmTree δ) (paths : List Bytes) (calls : List (Bytes × δ)) :
    Prop where
  shape : Shape tree paths
  covers : ∀ w, w ∈ paths ↔ w = [] ∨ isPath (words calls) w = true
  numbering : Numbering tree paths (words calls).eraseDups
  tables : Tables tree calls

variable {tree : AcbmTree δ} {paths : List Bytes} {calls : List (Bytes × δ)} {sStr : Bytes}

theorem words_concat (calls : List (Bytes × δ)) (sStr : Bytes) (pData : δ) :
    words (calls ++ [(sStr, pData)]) = words calls ++ [spelled sStr] := by
  simp [words]

theorem words_of_lt (h : ∀ p ∈ calls, p.1.length < 2 ^ 31) : words calls = folded calls :=
  List.map_congr_left fun p hp => spelled_of_lt (h p hp)

theorem dataOf_none (calls : List (Bytes × δ)) : dataOf calls none = [] := by
  simp [dataOf]

theorem dataOf_of_notMem {w : Bytes} (h : w ∉ words calls) : dataOf calls (some w) = [] := by
  rw [dataOf, List.map_eq_nil_iff, List.filter_eq_nil_iff]
  intro p hp heq
  refine h (List.mem_map.mpr ⟨p, hp, ?_⟩)
  simpa using heq

theorem dataOf_concat (calls : List (Bytes × δ)) (sStr : Bytes) (pData : δ)
    (word : Option Bytes) :
    dataOf (calls ++ [(sStr, pData)]) word =
      dataOf calls word ++ if some (spelled sStr) = word then [pData] else [] := by
  rw [dataOf, List.filter_append, List.map_append, ← dataOf]
  by_cases h : some (spelled sStr) = word
  · simp [h]
  · simp [h]

theorem enter_of_labelled {node i : Nat} (hlabel : (tree.heap node).label = i) (sStr : Bytes)
    (pData : δ) :
    enter tree node sStr pData =
      { tree with
        vStr := tree.vStr ++ [sStr]
        mData := Function.update tree.mData i (tree.mData i ++ [pData]) } := by
  have hnot : ¬ (tree.heap node).label < 0 := by omega
  unfold enter
  rw [if_neg hnot]
  simp only [hlabel]

/-- A pattern that is there keeps its number, and its data go behind those it has. -/
theorem Tables.enter_known (h : Tables tree calls) {node i : Nat}
    (hlabel : (tree.heap node).label = i)
    (hi : (words calls).eraseDups[i]? = some (spelled sStr)) (pData : δ) :
    Tables (enter tree node sStr pData) (calls ++ [(sStr, pData)]) := by
  have hmem : spelled sStr ∈ words calls := List.mem_eraseDups.mp (List.mem_of_getElem? hi)
  have hsame : (words (calls ++ [(sStr, pData)])).eraseDups = (words calls).eraseDups := by
    rw [words_concat, eraseDups_concat_of_mem hmem]
  rw [enter_of_labelled hlabel]
  refine ⟨?_, ?_, ?_⟩ <;> dsimp only
  · rw [hsame]
    exact h.ptnCount
  · rw [h.vStr, List.map_append, List.map_singleton]
  · intro j
    rw [hsame, dataOf_concat, Function.update_apply]
    by_cases hj : j = i
    · subst hj
      rw [if_pos rfl, if_pos hi.symm, h.mData]
    · have hother : some (spelled sStr) ≠ (words calls).eraseDups[j]? := by
        intro heq
        have hlt := (List.getElem?_eq_some_iff.mp hi).1
        exact hj ((List.getElem?_inj hlt (nodup_eraseDups _)).mp (hi.trans heq)).symm
      rw [if_neg (by omega), if_neg hother, List.append_nil, h.mData]

/-- A new pattern has the next number. -/
theorem Tables.enter_new (h : Tables tree calls) {node : Nat}
    (hlabel : (tree.heap node).label < 0) (hnew : spelled sStr ∉ words calls)
    (hcount : tree.ptnCount = (words calls).eraseDups.length) (pData : δ) :
    Tables (enter tree node sStr pData) (calls ++ [(sStr, pData)]) := by
  have hgrown : (words (calls ++ [(sStr, pData)])).eraseDups =
      (words calls).eraseDups ++ [spelled sStr] := by
    rw [words_concat, eraseDups_concat_of_notMem hnew]
  rw [enter_of_unlabelled hlabel, hcount]
  refine ⟨?_, ?_, ?_⟩ <;> dsimp only
  · rw [hgrown, List.length_append, List.length_singleton]
    rfl
  · rw [h.vStr, List.map_append, List.map_singleton]
  · intro j
    rw [hgrown, dataOf_concat, Function.update_apply]
    by_cases hj : j = (words calls).eraseDups.length
    · subst hj
      rw [if_pos rfl, List.getElem?_concat_length, if_pos rfl, dataOf_of_notMem hnew, h.mData,
        List.getElem?_eq_none (Nat.le_refl _), dataOf_none]
    · have hsame : ((words calls).eraseDups ++ [spelled sStr])[j]? =
          (words calls).eraseDups[j]? := by
        grind
      have hother : some (spelled sStr) ≠ (words calls).eraseDups[j]? := fun heq =>
        hnew (List.mem_eraseDups.mp (List.mem_of_getElem? heq.symm))
      rw [if_neg (by omega), hsame, if_neg hother, List.append_nil, h.mData]

/-- One call keeps the numbers by first calls, whether its pattern is new or not. -/
theorem Numbered.treeAdd (h : Numbered tree paths calls) (hpos : 0 < toInt32 sStr.length)
    (hcount : (words calls).eraseDups.length < 2 ^ 31) (pData : δ) :
    ∃ paths', Numbered (treeAdd tree sStr pData).1 paths' (calls ++ [(sStr, pData)]) := by
  obtain ⟨tree', paths', node, hadd, hshape, hnode, hcovers, hkept, hptn, -, hstr, hdata⟩ :=
    treeAdd_reaches h.shape h.covers hpos pData
  have hwords : ∀ w ∈ (words calls).eraseDups, w ∈ paths := fun w hw =>
    (h.covers w).mpr (.inr (isPath_iff.mpr ⟨w, List.mem_eraseDups.mp hw, List.prefix_rfl⟩))
  have hnumbers := h.numbering.kept hwords hkept
  have htables : Tables tree' calls :=
    ⟨hptn ▸ h.tables.ptnCount, hstr ▸ h.tables.vStr, hdata ▸ h.tables.mData⟩
  rw [hadd]
  refine ⟨paths', ?_⟩
  by_cases hmem : spelled sStr ∈ words calls
  · obtain ⟨i, hi⟩ := List.mem_iff_getElem?.mp (List.mem_eraseDups.mpr hmem)
    have hlabel := hnumbers.labelled node _ i hnode hi
    refine ⟨?_, ?_, ?_, htables.enter_known hlabel hi pData⟩
    · rw [enter_of_labelled hlabel]
      exact hshape.relabel rfl rfl fun x => ⟨_, rfl⟩
    · rw [words_concat]
      exact hcovers
    · rw [words_concat, eraseDups_concat_of_mem hmem, enter_of_labelled hlabel]
      exact ⟨hnumbers.labelled, hnumbers.unlabelled⟩
  · have hnew : spelled sStr ∉ (words calls).eraseDups := fun hw =>
      hmem (List.mem_eraseDups.mp hw)
    have hlabel := hnumbers.unlabelled node _ hnode hnew
    have hcount' : tree'.ptnCount = (words calls).eraseDups.length :=
      htables.ptnCount.trans (wrapInt32_eq_self_iff.mpr (by omega))
    refine ⟨hshape.enter hlabel sStr pData, ?_, ?_, htables.enter_new hlabel hmem hcount' pData⟩
    · rw [words_concat]
      exact hcovers
    · rw [words_concat, eraseDups_concat_of_notMem hmem]
      exact hnumbers.enter hshape.nodes.nodup hnode hnew hcount' sStr pData

theorem numbered_create (bcShift : UInt8 → Int) :
    Numbered (withRoot (AcbmTree.create bcShift : AcbmTree δ)).1 [[]] [] := by
  have hrep := represents_create (δ := δ) bcShift
  exact ⟨hrep.shape, hrep.covers, hrep.labels.toNumbering, rfl, rfl, fun i => rfl⟩

theorem treeOf_concat (bcShift : UInt8 → Int) (calls : List (Bytes × δ)) (sStr : Bytes)
    (pData : δ) :
    treeOf bcShift (calls ++ [(sStr, pData)]) =
      (treeAdd (withRoot (treeOf bcShift calls)).1 sStr pData).1 := by
  rw [treeOf, List.foldl_append, treeAdd_withRoot]
  rfl

/-- A node has a label where its way spells a pattern, and then it is the number of this one. -/
theorem Numbered.labelAt_eq_some_iff (h : Numbered tree paths calls) {way : Bytes} {l : Nat} :
    labelAt tree way = some (l : Int) ↔ (words calls).eraseDups[l]? = some (fold way) := by
  have hat : ∀ node, descend tree.heap 0 way = some node ↔ paths[node]? = some (fold way) :=
    fun node => descend_eq_some_iff h.shape.nodes h.shape.nodes.start way
  simp only [labelAt, h.shape.root, Option.bind_eq_bind, Option.bind_some,
    Option.bind_eq_some_iff, Option.some_inj]
  refine ⟨?_, fun hl => ?_⟩
  · rintro ⟨node, hnode, hlabel⟩
    by_cases hmem : fold way ∈ (words calls).eraseDups
    · obtain ⟨i, hi⟩ := List.mem_iff_getElem?.mp hmem
      have hi' := h.numbering.labelled node _ i ((hat node).mp hnode) hi
      have heq : i = l := by omega
      rwa [heq] at hi
    · have hnone := h.numbering.unlabelled node _ ((hat node).mp hnode) hmem
      omega
  · have hmem := List.mem_eraseDups.mp (List.mem_of_getElem? hl)
    have hpath := (h.covers _).mpr (.inr (isPath_iff.mpr ⟨_, hmem, List.prefix_rfl⟩))
    obtain ⟨node, hnode⟩ := List.mem_iff_getElem?.mp hpath
    exact ⟨node, (hat node).mpr hnode, h.numbering.labelled node _ l hnode hl⟩

/-- The calls after which the texts stand at the labels. -/
structure Fits (calls : List (Bytes × δ)) : Prop where
  short : ∀ p ∈ calls, p.1.length < 2 ^ 31
  few : (folded calls).eraseDups.length < 2 ^ 31
  newFirst : NewFirst (folded calls)

theorem getElem?_texts (h : Tables tree calls) (l : Nat) :
    tree.vStr[l]?.map fold = (folded calls)[l]? := by
  rw [h.vStr, folded, List.getElem?_map, List.getElem?_map, Option.map_map]
  rfl

theorem fold_fold (text : Bytes) : fold (fold text) = fold text := by
  rw [fold, fold, List.map_map]
  exact List.map_congr_left fun c _ => tolower_tolower c

theorem Numbered.inStep (h : Numbered tree paths calls) (hfits : Fits calls) :
    InStep tree calls := by
  have hwords := words_of_lt hfits.short
  refine ⟨?_, ?_, ?_, ?_⟩
  · intro way l hl
    rw [h.labelAt_eq_some_iff, hwords] at hl
    rw [getElem?_texts h.tables]
    exact hfits.newFirst.getElem? hl
  · have hfew := hfits.few
    rw [h.tables.ptnCount, hwords]
    exact wrapInt32_eq_self_iff.mpr (by omega)
  · intro l
    simp only [h.labelAt_eq_some_iff, hwords]
    refine ⟨?_, fun hl => ?_⟩
    · rintro ⟨way, hl⟩
      exact (List.getElem?_eq_some_iff.mp hl).1
    · have hmem := List.mem_eraseDups.mp (List.getElem_mem hl)
      obtain ⟨p, -, hp⟩ := List.mem_map.mp hmem
      exact ⟨p.1, (List.getElem?_eq_getElem hl).trans (congrArg some hp.symm)⟩
  · intro way l hl
    rw [h.tables.mData, h.labelAt_eq_some_iff.mp hl, dataOf]
    refine congrArg (List.map Prod.snd) (List.filter_congr fun p hp => ?_)
    simp only [spelled_of_lt (hfits.short p hp), Option.some_inj]

theorem length_spelled (sStr : Bytes) :
    (spelled sStr).length = min (toInt32 sStr.length).toNat sStr.length := by
  rw [spelled, fold, List.length_map, List.length_take]

theorem lt_of_spelled_eq_fold (h : spelled sStr = fold sStr) (hpos : 0 < toInt32 sStr.length) :
    sStr.length < 2 ^ 31 := by
  have hlen := length_spelled sStr
  have hlt := toInt32_lt sStr.length
  rw [h, fold, List.length_map] at hlen
  omega

theorem Fits.length_lt_of_mem (hfits : Fits calls) (h : fold sStr ∈ folded calls) :
    sStr.length < 2 ^ 31 := by
  obtain ⟨p, hp, heq⟩ := List.mem_map.mp h
  have hlen := congrArg List.length heq
  simp only [fold, List.length_map] at hlen
  exact hlen ▸ hfits.short p hp

/-- One more call is a repetition, or it is a new pattern and there was no repetition so far. -/
theorem fits_concat {pData : δ} :
    Fits (calls ++ [(sStr, pData)]) ↔ Fits calls ∧ sStr.length < 2 ^ 31 ∧
      (fold sStr ∈ folded calls ∨
        (folded calls).Nodup ∧ (folded calls).eraseDups.length + 1 < 2 ^ 31) := by
  have hshort : (∀ p ∈ calls ++ [(sStr, pData)], p.1.length < 2 ^ 31) ↔
      (∀ p ∈ calls, p.1.length < 2 ^ 31) ∧ sStr.length < 2 ^ 31 := by
    simp [or_imp, forall_and]
  refine ⟨?_, ?_⟩
  · rintro ⟨hshort', hfew, hfirst⟩
    obtain ⟨hold, hlast⟩ := hshort.mp hshort'
    rw [folded_concat] at hfew hfirst
    obtain ⟨hfirst', hmem | hnodup⟩ := newFirst_concat.mp hfirst
    · rw [eraseDups_concat_of_mem hmem] at hfew
      exact ⟨⟨hold, hfew, hfirst'⟩, hlast, .inl hmem⟩
    · by_cases hmem : fold sStr ∈ folded calls
      · rw [eraseDups_concat_of_mem hmem] at hfew
        exact ⟨⟨hold, hfew, hfirst'⟩, hlast, .inl hmem⟩
      · rw [eraseDups_concat_of_notMem hmem, List.length_append, List.length_singleton] at hfew
        exact ⟨⟨hold, by omega, hfirst'⟩, hlast, .inr ⟨hnodup, hfew⟩⟩
  · rintro ⟨hfits, hlast, hcall⟩
    refine ⟨hshort.mpr ⟨hfits.short, hlast⟩, ?_, ?_⟩ <;> rw [folded_concat]
    · by_cases hmem : fold sStr ∈ folded calls
      · rw [eraseDups_concat_of_mem hmem]
        exact hfits.few
      · rw [eraseDups_concat_of_notMem hmem, List.length_append, List.length_singleton]
        exact (hcall.resolve_left hmem).2
    · exact newFirst_concat.mpr ⟨hfits.newFirst, hcall.imp_right (·.1)⟩

/-- A string whose length is not positive as an `int` clears the tree. -/
theorem treeAdd_of_not_pos (h : ¬ 0 < toInt32 sStr.length) (pData : δ) :
    (treeAdd tree sStr pData).1.ptnCount = 0 := by
  simp only [treeAdd, if_neg h]
  rfl

/-- The text at the label of a new pattern is its own only if there was no repetition. -/
theorem Numbered.nodup_of_new {pData : δ} (h : Numbered tree paths (calls ++ [(sStr, pData)]))
    (hstep : InStep tree (calls ++ [(sStr, pData)])) (hwords : words calls = folded calls)
    (hnew : spelled sStr ∉ folded calls) :
    (folded calls).Nodup ∧ spelled sStr = fold sStr := by
  have hlabel : labelAt tree (spelled sStr) =
      some (((folded calls).eraseDups.length : Nat) : Int) := by
    rw [h.labelAt_eq_some_iff, words_concat, hwords, eraseDups_concat_of_notMem hnew,
      List.getElem?_concat_length, spelled, fold_fold]
  have htext := hstep.text _ _ hlabel
  rw [getElem?_texts h.tables, folded_concat, getElem?_concat_eq_some, spelled, fold_fold] at htext
  rcases htext with hold | ⟨hlength, hspelled⟩
  · exact absurd (List.mem_of_getElem? hold) hnew
  · exact ⟨length_eraseDups_eq_iff.mp hlength, hspelled⟩

/-- A call that leaves the labels in step is one that the condition allows. -/
theorem Numbered.fits_concat (h : Numbered tree paths calls) (hfits : Fits calls) {pData : δ}
    (hstep : InStep (Search.treeAdd tree sStr pData).1 (calls ++ [(sStr, pData)])) :
    Fits (calls ++ [(sStr, pData)]) := by
  have hwords := words_of_lt hfits.short
  have hfew := hfits.few
  by_cases hpos : 0 < toInt32 sStr.length
  · refine Search.fits_concat.mpr ⟨hfits, ?_⟩
    by_cases hmem : fold sStr ∈ folded calls
    · exact ⟨hfits.length_lt_of_mem hmem, .inl hmem⟩
    obtain ⟨paths', hadded⟩ := h.treeAdd hpos (hwords ▸ hfew) pData
    have hcount := hadded.tables.ptnCount.symm.trans hstep.count
    rw [words_concat, hwords, folded_concat, eraseDups_concat_of_notMem hmem, List.length_append,
      List.length_singleton] at hcount
    have hnew : spelled sStr ∉ folded calls := by
      intro hold
      rw [eraseDups_concat_of_mem hold, wrapInt32_eq_self_iff.mpr (by omega)] at hcount
      omega
    rw [eraseDups_concat_of_notMem hnew, List.length_append, List.length_singleton,
      wrapInt32_eq_self_iff] at hcount
    obtain ⟨hnodup, hspelled⟩ := hadded.nodup_of_new hstep hwords hnew
    exact ⟨lt_of_spelled_eq_fold hspelled hpos, .inr ⟨hnodup, by omega⟩⟩
  · have hcount := hstep.count
    rw [treeAdd_of_not_pos hpos, folded_concat] at hcount
    have hmem : fold sStr ∈ (folded calls ++ [fold sStr]).eraseDups :=
      List.mem_eraseDups.mpr (List.mem_append_right _ (List.mem_singleton_self _))
    have hlength := List.length_pos_of_mem hmem
    omega

theorem Numbered.treeOf_concat {bcShift : UInt8 → Int}
    (h : Numbered (withRoot (treeOf bcShift calls)).1 paths calls) {pData : δ} (hne : sStr ≠ [])
    (hfits : Fits (calls ++ [(sStr, pData)])) :
    ∃ paths', Numbered (treeOf bcShift (calls ++ [(sStr, pData)])) paths'
      (calls ++ [(sStr, pData)]) := by
  obtain ⟨hfits', hlast, -⟩ := Search.fits_concat.mp hfits
  have hlength := List.length_pos_iff.mpr hne
  have hpos : 0 < toInt32 sStr.length := by
    rw [toInt32_of_lt hlast]
    omega
  rw [Search.treeOf_concat]
  exact h.treeAdd hpos (words_of_lt hfits'.short ▸ hfits'.few) pData

theorem numbered_treeOf (bcShift : UInt8 → Int) (hne : ∀ p ∈ calls, p.1 ≠ [])
    (hfits : Fits calls) : ∃ paths, Numbered (withRoot (treeOf bcShift calls)).1 paths calls := by
  induction calls using List.reverseRecOn with
  | nil => exact ⟨[[]], numbered_create bcShift⟩
  | append_singleton calls p ih =>
      obtain ⟨paths, hnumbered⟩ := ih (fun q hq => hne q (List.mem_append_left _ hq))
        (Search.fits_concat.mp hfits).1
      obtain ⟨paths', hadded⟩ := hnumbered.treeOf_concat
        (hne p (List.mem_append_right _ List.mem_cons_self)) hfits
      exact ⟨paths', by rwa [withRoot_of_root hadded.shape.root]⟩

theorem inStep_create (bcShift : UInt8 → Int) :
    InStep (AcbmTree.create bcShift : AcbmTree δ) [] := by
  refine ⟨?_, rfl, ?_, ?_⟩
  · intro way l hl
    cases hl
  · intro l
    refine iff_of_false ?_ (Nat.not_lt_zero l)
    rintro ⟨way, hl⟩
    cases hl
  · intro way l hl
    cases hl

/-- The labels are in step after every call just as long as the calls fit. -/
theorem forall_inStep_iff (bcShift : UInt8 → Int) (hne : ∀ p ∈ calls, p.1 ≠ []) :
    (∀ earlier, earlier <+: calls → InStep (treeOf bcShift earlier) earlier) ↔ Fits calls := by
  induction calls using List.reverseRecOn with
  | nil =>
      refine iff_of_true ?_ ⟨by simp, by simp [folded], .of_nodup (by simp [folded])⟩
      intro earlier hearlier
      rw [List.prefix_nil.mp hearlier]
      exact inStep_create bcShift
  | append_singleton calls p ih =>
      have hne' : ∀ q ∈ calls, q.1 ≠ [] := fun q hq => hne q (List.mem_append_left _ hq)
      have hnep := hne p (List.mem_append_right _ List.mem_cons_self)
      refine ⟨fun hall => ?_, fun hfits => ?_⟩
      · have hfits := (ih hne').mp fun earlier hearlier =>
          hall earlier (hearlier.trans (List.prefix_append calls [p]))
        obtain ⟨paths, hnumbered⟩ := numbered_treeOf bcShift hne' hfits
        have hstep := hall _ List.prefix_rfl
        rw [treeOf_concat] at hstep
        exact hnumbered.fits_concat hfits hstep
      · have hfits' := (Search.fits_concat.mp hfits).1
        obtain ⟨paths, hnumbered⟩ := numbered_treeOf bcShift hne' hfits'
        obtain ⟨paths', hadded⟩ := hnumbered.treeOf_concat hnep hfits
        intro earlier hearlier
        rcases List.prefix_concat_iff.mp hearlier with heq | hold
        · rw [heq]
          exact hadded.inStep hfits
        · exact (ih hne').mpr hfits' earlier hold

section
variable [DecidableEq δ]

/-- What the search has listed so far for each data, behind what it was given. -/
def Lists (Good : δ → Bytes → Prop) (mResult : δ → List Bytes) (found : Found δ) : Prop :=
  ∀ d, ∃ listed, found.mResult d = mResult d ++ listed ∧ ∀ s ∈ listed, Good d s

variable {Good : δ → Bytes → Prop} {mResult : δ → List Bytes} {found : Found δ}

theorem Lists.push (h : Lists Good mResult found) {s : Bytes} {d : δ} (hgood : Good d s) :
    Lists Good mResult (found.push s d) := by
  intro e
  obtain ⟨listed, hlisted, hall⟩ := h e
  simp only [Found.push, Function.update_apply]
  split
  · rename_i heq
    subst heq
    refine ⟨listed ++ [s], by rw [hlisted, List.append_assoc], ?_⟩
    intro t ht
    rcases List.mem_append.mp ht with hold | hlast
    · exact hall t hold
    · rwa [List.mem_singleton.mp hlast]
  · exact ⟨listed, hlisted, hall⟩

theorem Lists.foldl_push (h : Lists Good mResult found) {s : Bytes} (ds : List δ)
    (hgood : ∀ d ∈ ds, Good d s) :
    Lists Good mResult (ds.foldl (fun found d => found.push s d) found) := by
  induction ds generalizing found with
  | nil => exact h
  | cons d ds ih =>
      exact ih (h.push (hgood d List.mem_cons_self)) fun e he => hgood e (List.mem_cons_of_mem d he)

theorem descend_concat (heap : Nat → AcbmNode) (node : Nat) (way : Bytes) (c : UInt8) :
    descend heap node (way ++ [c]) =
      (descend heap node way).bind fun last => (heap last).child c := by
  induction way generalizing node with
  | nil => simp [descend]
  | cons d way ih =>
      rw [List.cons_append, descend, descend, Option.bind_assoc]
      exact Option.bind_congr fun next _ => ih next

theorem Lists.visit (h : Lists Good mResult found) {node : Nat}
    (hgood : ∀ l : Nat, (tree.heap node).label = l →
      ∀ d ∈ tree.mData l, Good d (tree.vStr.getD l [])) :
    Lists Good mResult (visit tree node found) := by
  unfold Search.visit
  dsimp only
  split
  · rename_i hlabel
    obtain ⟨l, hl⟩ := Int.eq_ofNat_of_zero_le hlabel
    rw [hl, Int.toNat_natCast]
    exact h.foldl_push _ (hgood l hl)
  · exact h

/-- The inner loop lists what is at the labels of the ways that the text begins with. -/
theorem Lists.walk {root node : Nat} (hroot : tree.root = some root) {read : Bytes}
    (hnode : descend tree.heap root read = some node) (suffix : Bytes)
    (hgood : ∀ way (l : Nat), way <+: read ++ suffix → labelAt tree way = some (l : Int) →
      ∀ d ∈ tree.mData l, Good d (tree.vStr.getD l []))
    (length : Nat) (ucValue : UInt8) (h : Lists Good mResult found) :
    Lists Good mResult (walk tree node length ucValue suffix found).2 := by
  induction suffix generalizing node read length ucValue found with
  | nil => exact h
  | cons c cs ih =>
      rw [Search.walk]
      cases hchild : (tree.heap node).child c with
      | none => exact h
      | some next =>
          have hnext : descend tree.heap root (read ++ [c]) = some next := by
            rw [descend_concat, hnode]
            exact hchild
          rw [List.append_cons] at hgood
          refine ih hnext hgood (length + 1) c (h.visit fun l hl => ?_)
          refine hgood (read ++ [c]) l (List.prefix_append _ cs) ?_
          simp [labelAt, hroot, hnext, hl]

theorem Lists.searchLoop {root : Nat} (hroot : tree.root = some root) {text : Bytes}
    (hgood : ∀ b way (l : Nat), way <+: text.drop b → labelAt tree way = some (l : Int) →
      ∀ d ∈ tree.mData l, Good d (tree.vStr.getD l []))
    (iBase : Int) (h : Lists Good mResult found) :
    Lists Good mResult (searchLoop tree root text iBase found) := by
  fun_induction Search.searchLoop tree root text iBase found with
  | case1 iBase found hbase ended ih =>
      have hstart : descend tree.heap root [] = some root := rfl
      exact ih (h.walk hroot hstart (text.drop iBase.toNat) (hgood iBase.toNat) 0 0)
  | case2 => exact h

/-- With the labels in step the search reports the pattern that matched. -/
theorem InStep.reportsMatched (h : InStep tree calls) : ReportsMatched tree calls := by
  intro text mResult found hfound
  have hstart : Lists (fun d s => (∃ b, occursAt text s b = true) ∧
      ∃ p ∈ calls, fold p.1 = fold s ∧ p.2 = d) mResult ⟨0, mResult⟩ := fun d =>
    ⟨[], (List.append_nil _).symm, by simp⟩
  unfold acbmSearch at hfound
  split at hfound
  · obtain rfl := Option.some.inj hfound
    exact hstart
  obtain ⟨root, hroot, hloop⟩ := Option.bind_eq_some_iff.mp hfound
  obtain rfl := Option.some.inj hloop
  refine hstart.searchLoop hroot ?_ _
  intro b way l hway hlabel d hd
  obtain ⟨s, hs, hfold⟩ := Option.map_eq_some_iff.mp (h.text way l hlabel)
  rw [List.getD_eq_getElem?_getD, hs, Option.getD_some]
  refine ⟨⟨b, ?_⟩, ?_⟩
  · rw [List.drop_take] at hway
    rw [occursAt, List.isPrefixOf_iff_prefix, hfold]
    exact (hway.trans (List.take_prefix _ _)).map tolower
  · rw [h.data way l hlabel] at hd
    obtain ⟨p, hp, rfl⟩ := List.mem_map.mp hd
    obtain ⟨hmem, hsame⟩ := List.mem_filter.mp hp
    exact ⟨p, hmem, (of_decide_eq_true hsame).trans hfold.symm, rfl⟩

end

/-- After every call with a string that is not empty the label of a node gives the text of its
pattern and the data that it was added with, and there are as many labels as patterns, just as long
as no new pattern follows a repetition. The lengths and the number of patterns must be an `int`. -/
theorem labels_inStep_iff [DecidableEq δ] (bcShift : UInt8 → Int) (calls : List (Bytes × δ))
    (hne : ∀ p ∈ calls, p.1 ≠ []) :
    (∀ earlier, earlier <+: calls → InStep (treeOf bcShift earlier) earlier ∧
      ReportsMatched (treeOf bcShift earlier) earlier) ↔ Fits calls := by
  rw [← forall_inStep_iff bcShift hne]
  refine forall₂_congr fun earlier _ => ?_
  exact and_iff_left_of_imp InStep.reportsMatched

theorem labels_inStep_repeated :
    ReportsMatched (treeOf (fun _ => 0) [(bytes "ab", 1), (bytes "b", 2), (bytes "AB", 3)])
      [(bytes "ab", 1), (bytes "b", 2), (bytes "AB", 3)] :=
  ((labels_inStep_iff (fun _ => 0) [(bytes "ab", 1), (bytes "b", 2), (bytes "AB", 3)]
    (by decide)).mpr ⟨by decide, by decide,
      [bytes "ab", bytes "b"], [bytes "ab"], by decide, by decide, by decide⟩
    _ List.prefix_rfl).2

/-- The second call for "a" appends its text, so "b" has the label 1 and is reported as "a". -/
theorem label_of_repeated_text :
    ¬ InStep (treeOf (fun _ => 0) [(bytes "a", 1), (bytes "a", 2), (bytes "b", 3)])
        [(bytes "a", 1), (bytes "a", 2), (bytes "b", 3)] ∧
      (acbmSearch (treeOf (fun _ => 0) [(bytes "a", 1), (bytes "a", 2), (bytes "b", 3)])
        (bytes "b") (fun _ => [])).map (·.mResult 3) = some [bytes "a"] := by
  refine ⟨fun hstep => ?_, ?_⟩
  · have htext := hstep.text (bytes "b") 1 (by decide)
    revert htext
    decide
  · decide +kernel

end

end AdServer.Search
