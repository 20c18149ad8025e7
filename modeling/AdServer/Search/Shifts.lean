import AdServer.Search.Exact
import AdServer.Search.GoodSuffix

/-!
The search after `AdAcbmTreeBuild`. The bad character shift alone never passes an occurrence,
since a pattern that occurs there would have the byte at which the walk stopped. The two capital
letters without an entry are the exception: before an `A` or a `Z` only the good suffix shift
holds the search back.
-/
namespace AdServer.Search

open Dictionary

variable {δ : Type}

/-- Where the inner loop stops. -/
def walkEnd (tree : AcbmTree δ) : Nat → Nat → UInt8 → Bytes → WalkEnd
  | node, length, ucValue, [] => ⟨node, length, ucValue⟩
  | node, length, _, c :: cs =>
    match (tree.heap node).child c with
    | some next => walkEnd tree next (length + 1) c cs
    | none => ⟨node, length, c⟩

def shiftAt (tree : AcbmTree δ) (root : Nat) (text : Bytes) (iBase : Int) : Int :=
  shift tree (toInt32 text.length) iBase (walkEnd tree root 0 0 (text.drop iBase.toNat))

/-- The positions that the outer loop starts the inner one from. -/
def bases (tree : AcbmTree δ) (root : Nat) (text : Bytes) (iBase : Int) : List Nat :=
  if 0 ≤ iBase then iBase.toNat :: bases tree root text (iBase - shiftAt tree root text iBase)
  else []
termination_by (iBase + 1).toNat
decreasing_by
  have := one_le_shift tree (toInt32 text.length) iBase
    (walkEnd tree root 0 0 (text.drop iBase.toNat))
  unfold shiftAt
  omega

/-- The positions that a shift passes. -/
def gap (tree : AcbmTree δ) (root : Nat) (text : Bytes) (b : Nat) : List Nat :=
  (List.range b).filter fun x => (b : Int) < x + shiftAt tree root text b

section
variable {tree : AcbmTree δ} {root : Nat} {text : Bytes}

theorem one_le_shiftAt (tree : AcbmTree δ) (root : Nat) (text : Bytes) (iBase : Int) :
    1 ≤ shiftAt tree root text iBase := one_le_shift ..

theorem mem_gap {b x : Nat} :
    x ∈ gap tree root text b ↔ x < b ∧ (b : Int) < x + shiftAt tree root text b := by
  rw [gap, List.mem_filter, List.mem_range, decide_eq_true_eq]

theorem range_perm_gap (b : Nat) :
    (List.range b).Perm (gap tree root text b ++
      List.range ((b : Int) - shiftAt tree root text b + 1).toNat) := by
  have hshift := one_le_shiftAt tree root text b
  refine (List.filter_append_perm _ (List.range b)).symm.trans (List.Perm.append_left _ ?_)
  rw [List.perm_ext_iff_of_nodup (List.nodup_range.filter _) List.nodup_range]
  intro x
  simp only [List.mem_filter, List.mem_range, Bool.not_eq_true', decide_eq_false_iff_not]
  omega

/-- Every position is started from or passed. -/
theorem range_perm_bases (tree : AcbmTree δ) (root : Nat) (text : Bytes) (iBase : Int) :
    (List.range (iBase + 1).toNat).Perm
      (bases tree root text iBase ++
        (bases tree root text iBase).flatMap (gap tree root text)) := by
  fun_induction bases tree root text iBase with
  | case1 iBase hbase ih =>
      obtain ⟨b, rfl⟩ := Int.eq_ofNat_of_zero_le hbase
      have hpassed := (range_perm_gap b).trans (ih.append_left (gap tree root text b))
      have hsorted := (hpassed.trans (List.perm_append_comm_assoc _ _ _)).cons b
      rw [Int.toNat_natCast, Int.toNat_natCast_add_one, List.range_succ, List.flatMap_cons]
      exact List.perm_append_comm.trans hsorted
  | case2 iBase hbase =>
      rw [show (iBase + 1).toNat = 0 by omega]
      exact .refl _

/-- Without the preprocessing no position is passed. -/
theorem range_perm_bases_of_shape {paths : List Bytes} (hshape : Shape tree paths) (text : Bytes)
    (iBase : Int) :
    (List.range (iBase + 1).toNat).Perm (bases tree 0 text iBase) := by
  have hnone : (bases tree 0 text iBase).flatMap (gap tree 0 text) = [] := by
    rw [List.flatMap_eq_nil_iff]
    intro b _
    rw [List.eq_nil_iff_forall_not_mem]
    intro x hx
    have hone : shiftAt tree 0 text b = 1 := shift_eq_one hshape ..
    obtain ⟨hlt, hpassed⟩ := mem_gap.mp hx
    omega
  have hperm := range_perm_bases tree 0 text iBase
  rwa [hnone, List.append_nil] at hperm

/-- The walk stops at the end of the text or before the byte that it reports. -/
theorem walkEnd_spec (node length : Nat) (ucValue : UInt8) (suffix : Bytes) :
    ∃ read rest, suffix = read ++ rest ∧
      (walkEnd tree node length ucValue suffix).length = length + read.length ∧
      (rest = [] ∨ ∃ cs, rest = (walkEnd tree node length ucValue suffix).ucValue :: cs) := by
  induction suffix generalizing node length ucValue with
  | nil => exact ⟨[], [], rfl, rfl, .inl rfl⟩
  | cons c cs ih =>
      rw [walkEnd]
      split
      · rename_i next hnext
        obtain ⟨read, rest, hsuffix, hlength, hend⟩ := ih next (length + 1) c
        refine ⟨c :: read, rest, congrArg (c :: ·) hsuffix, ?_, hend⟩
        rw [hlength, List.length_cons]
        omega
      · exact ⟨[], c :: cs, rfl, rfl, .inr ⟨cs, rfl⟩⟩

theorem walk_fst [DecidableEq δ] (node length : Nat) (ucValue : UInt8) (suffix : Bytes)
    (found : Found δ) :
    (walk tree node length ucValue suffix found).1 = walkEnd tree node length ucValue suffix := by
  induction suffix generalizing node length ucValue found with
  | nil => rfl
  | cons c cs ih =>
      rw [walk, walkEnd]
      cases (tree.heap node).child c with
      | some next => exact ih next (length + 1) c _
      | none => rfl

end

/-- `iGSShift` and `iBCShift` of the search. -/
def goodSuffix (tree : AcbmTree δ) (node : Nat) : Int :=
  (((tree.heap node).child (tree.heap node).ucChild).map fun p => (tree.heap p).gsShift).getD 0

theorem lt_shift_iff (tree : AcbmTree δ) (size iBase : Int) (last : WalkEnd) {s : Int}
    (hs : 1 ≤ s) :
    s < shift tree size iBase last ↔
      0 < (tree.heap last.node).childCount ∧ s < goodSuffix tree last.node ∧
        iBase + last.length < size ∧
        s < wrapInt32 (tree.bcShift last.ucValue + iBase - (iBase + last.length)) := by
  unfold shift goodSuffix atLeastOne
  dsimp only
  split
  · split <;> split <;> split <;> omega
  · omega

/-- Before an `A` or a `Z`, which have no entry, the shift passes an occurrence. -/
structure Overlooked (tree : AcbmTree δ) (root : Nat) (patterns : List (Bytes × δ)) (text : Bytes)
    (b s : Nat) : Prop where
  before : ∃ c, text[b + (walkEnd tree root 0 0 (text.drop b)).length]? = some c ∧ forgotten c
  children : 0 < (tree.heap (walkEnd tree root 0 0 (text.drop b)).node).childCount
  suffix : (s : Int) < goodSuffix tree (walkEnd tree root 0 0 (text.drop b)).node
  short : (s : Int) + (walkEnd tree root 0 0 (text.drop b)).length < tree.minPtnSize
  positive : 1 ≤ s
  inside : s ≤ b
  occurs : occurring patterns text (b - s) ≠ []

section
variable {tree tree' : AcbmTree δ} {paths : List Bytes} {patterns : List (Bytes × δ)} {text : Bytes}

/-- A pattern that occurs has the byte of the text at each of its places. -/
theorem tolower_of_occursAt {pattern : Bytes} {b k : Nat} (h : occursAt text pattern b = true)
    (hk : k < pattern.length) {c : UInt8} (hc : text[b + k]? = some c) :
    tolower c = tolower (pattern.getD k 0) := by
  obtain ⟨rest, hrest⟩ := List.isPrefixOf_iff_prefix.mp h
  have hat := congrArg (·[k]?) hrest
  simp only [fold] at hat
  rw [List.getElem?_append_left (by rwa [List.length_map]), List.getElem?_map, List.getElem?_map,
    List.getElem?_drop, hc, List.getElem?_eq_getElem hk] at hat
  rw [List.getD_eq_getElem?_getD, List.getElem?_eq_getElem hk]
  exact (Option.some.inj hat).symm

theorem stop_byte (tree : AcbmTree δ) (root : Nat) {b : Nat} {last : WalkEnd}
    (hlast : walkEnd tree root 0 0 (text.drop b) = last) (h : b + last.length < text.length) :
    text[b + last.length]? = some last.ucValue := by
  obtain ⟨read, rest, hsuffix, hlength, hend⟩ := @walkEnd_spec δ tree root 0 0 (text.drop b)
  rw [hlast, Nat.zero_add] at hlength
  rw [hlast] at hend
  have hcount := congrArg List.length hsuffix
  rw [List.length_drop, List.length_append] at hcount
  rcases hend with rfl | ⟨cs, rfl⟩
  · rw [List.length_nil] at hcount
    omega
  · rw [← List.getElem?_drop, hsuffix, hlength, List.getElem?_append_right (Nat.le_refl _),
      Nat.sub_self, List.getElem?_cons_zero]

theorem exists_occursAt {b : Nat} (h : occurring patterns text b ≠ []) :
    ∃ p ∈ patterns, occursAt text p.1 b = true := by
  obtain ⟨p, hp⟩ := List.exists_mem_of_ne_nil _ h
  exact ⟨p, List.mem_of_mem_filter hp, (List.mem_filter.mp hp).2⟩

theorem length_le_of_occursAt {pattern : Bytes} {b : Nat} (h : occursAt text pattern b = true) :
    pattern.length ≤ text.length - b := by
  have hlen := (List.isPrefixOf_iff_prefix.mp h).length_le
  rwa [fold, fold, List.length_map, List.length_map, List.length_drop] at hlen

/-- The shift passes an occurrence exactly if the search stopped before a forgotten letter. -/
theorem overlooked_iff (hrep : Represents tree paths patterns)
    (hbuilt : Reshifted (acbmBCShift tree) tree') (htext : text.length < 2 ^ 31) {b s : Nat}
    (hs : 1 ≤ s) (hb : s ≤ b) :
    (s : Int) < shiftAt tree' 0 text b ∧ occurring patterns text (b - s) ≠ [] ↔
      Overlooked tree' 0 patterns text b s := by
  obtain ⟨last, hlast⟩ : ∃ last, walkEnd tree' 0 0 0 (text.drop b) = last := ⟨_, rfl⟩
  have hbyte := stop_byte tree' 0 hlast
  obtain ⟨hnonneg, hle⟩ := hrep.bcShift_range last.ucValue
  rw [shiftAt, lt_shift_iff _ _ _ _ (by omega), Int.toNat_natCast, hlast, hbuilt.bcShift,
    toInt32_of_lt htext]
  refine ⟨?_, ?_⟩
  · rintro ⟨⟨hchildren, hsuffix, hinside, hbad⟩, hoccurs⟩
    obtain ⟨p, hp, hat⟩ := exists_occursAt hoccurs
    have hmin := hrep.minPtnSize.2 p hp
    have hlen := length_le_of_occursAt hat
    rw [wrapInt32_eq_self_iff.mpr (by omega)] at hbad
    have hstop := hbyte (by omega)
    have hplace : text[b - s + (s + last.length)]? = some last.ucValue := by
      rw [← hstop]
      congr 1
      omega
    refine ⟨⟨last.ucValue, hlast ▸ hstop, ?_⟩, hlast ▸ hchildren, hlast ▸ hsuffix, ?_, hs, hb,
      hoccurs⟩
    · by_contra hnoted
      have hpassed := hrep.bcShift_le hnoted hp (k := s + last.length) (by omega) (by omega)
        (tolower_of_occursAt hat (by omega) hplace)
      omega
    · rw [hlast, hbuilt.minPtnSize]
      have : (acbmBCShift tree).minPtnSize = tree.minPtnSize := rfl
      omega
  · rintro ⟨⟨c, hc, hforgotten⟩, hchildren, hsuffix, hshort, -, -, hoccurs⟩
    rw [hlast] at hc hchildren hsuffix hshort
    obtain ⟨p, hp, hat⟩ := exists_occursAt hoccurs
    have hmin := hrep.minPtnSize.2 p hp
    have hlen := length_le_of_occursAt hat
    have hinside := (List.getElem?_eq_some_iff.mp hc).1
    obtain rfl : last.ucValue = c := Option.some.inj ((hbyte hinside).symm.trans hc)
    have hminEq : tree'.minPtnSize = tree.minPtnSize := hbuilt.minPtnSize
    refine ⟨⟨hchildren, hsuffix, by omega, ?_⟩, hoccurs⟩
    rw [bcShift_of_forgotten hforgotten, wrapInt32_eq_self_iff.mpr (by omega)]
    omega

theorem gap_occurring_iff (hrep : Represents tree paths patterns)
    (hbuilt : Reshifted (acbmBCShift tree) tree') (htext : text.length < 2 ^ 31) (b : Nat) :
    (∀ x ∈ gap tree' 0 text b, occurring patterns text x = []) ↔
      ∀ s, ¬Overlooked tree' 0 patterns text b s := by
  refine ⟨fun hnone s hover => ?_, fun hnone x hx => ?_⟩
  · obtain ⟨hlt, hoccurs⟩ :=
      (overlooked_iff hrep hbuilt htext hover.positive hover.inside).mpr hover
    have hpositive := hover.positive
    have hinside := hover.inside
    exact hoccurs (hnone (b - s) (mem_gap.mpr (by omega)))
  · obtain ⟨hlt, hshift⟩ := mem_gap.mp hx
    by_contra hoccurs
    refine hnone (b - x)
      ((overlooked_iff hrep hbuilt htext (by omega) (by omega)).mp ⟨by omega, ?_⟩)
    rwa [show b - (b - x) = x by omega]

/-- The part of the text that the search sees. -/
def searched (text : Bytes) : Bytes := text.take (toInt32 text.length).toNat

theorem length_searched_lt (text : Bytes) : (searched text).length < 2 ^ 31 := by
  have hlt := toInt32_lt text.length
  rw [searched, List.length_take]
  omega

/-- No occurrence has an `A` or a `Z` of the text behind its first byte, as far as the shortest
pattern goes. -/
def CapitalsOutside (patterns : List (Bytes × δ)) (text : Bytes) : Prop :=
  ∀ p ∈ patterns, ∀ b, occursAt text p.1 b = true →
    ∀ k, 1 ≤ k → (∀ q ∈ patterns, k < q.1.length) → ∀ c, text[b + k]? = some c → ¬forgotten c

theorem occursAt_of_searched {pattern : Bytes} {b : Nat}
    (h : occursAt (searched text) pattern b = true) : occursAt text pattern b = true := by
  refine List.isPrefixOf_iff_prefix.mpr ((List.isPrefixOf_iff_prefix.mp h).trans ?_)
  exact ((List.take_prefix _ text).drop b).map tolower

/-- An occurrence that is overlooked has a forgotten letter within the shortest pattern. -/
theorem CapitalsOutside.not_overlooked (hcapitals : CapitalsOutside patterns text)
    (hrep : Represents tree paths patterns)
    (hbuilt : Reshifted (acbmBCShift tree) tree') (b s : Nat) :
    ¬Overlooked tree' 0 patterns (searched text) b s := by
  intro hover
  obtain ⟨c, hc, hforgotten⟩ := hover.before
  obtain ⟨p, hp, hat⟩ := exists_occursAt hover.occurs
  have hshort := hover.short
  have hpositive := hover.positive
  have hinside := hover.inside
  generalize (walkEnd tree' 0 0 0 ((searched text).drop b)).length = d at hc hshort
  have hmin : tree'.minPtnSize = tree.minPtnSize := hbuilt.minPtnSize
  have hplace : text[b - s + (s + d)]? = some c := by
    rw [show b - s + (s + d) = b + d by omega]
    rw [searched, List.getElem?_take] at hc
    exact (Option.ite_none_right_eq_some.mp hc).2
  refine hcapitals p hp (b - s) (occursAt_of_searched hat) (s + d) (by omega) ?_ c hplace hforgotten
  intro q hq
  have := hrep.minPtnSize.2 q hq
  omega

variable [DecidableEq δ]

/-- The inner loop does not look at the shifts. -/
theorem walk_reshifted (hbuilt : Reshifted (acbmBCShift tree) tree') (node length : Nat)
    (ucValue : UInt8) (suffix : Bytes) (found : Found δ) :
    walk tree' node length ucValue suffix found = walk tree node length ucValue suffix found := by
  have hvisit : ∀ p found, visit tree' p found = visit tree p found := by
    intro p found
    rw [visit, hbuilt.label, hbuilt.mData, hbuilt.vStr]
    rfl
  induction suffix generalizing node length ucValue found with
  | nil => rfl
  | cons c cs ih =>
      rw [walk, walk, hbuilt.child]
      cases hchild : ((acbmBCShift tree).heap node).child c with
      | some next =>
          rw [show (tree.heap node).child c = some next from hchild]
          exact (ih next (length + 1) c _).trans (by rw [hvisit])
      | none =>
          rw [show (tree.heap node).child c = none from hchild]

/-- The outer loop lists what occurs at the positions it starts from. -/
theorem searchLoop_bases (hrep : Represents tree paths patterns) (hnodup : (folded patterns).Nodup)
    (hempty : [] ∉ folded patterns)
    (hwalk : ∀ node length ucValue suffix found,
      walk tree' node length ucValue suffix found = walk tree node length ucValue suffix found)
    (text : Bytes) (iBase : Int) (found : Found δ) :
    ∃ matched : List (Bytes × δ), searchLoop tree' 0 text iBase found = matched.foldl record found ∧
      matched.Perm ((bases tree' 0 text iBase).flatMap (occurring patterns text)) := by
  refine ⟨_, ?_, scan_bases_perm hnodup hempty text (bases tree' 0 text iBase)⟩
  fun_induction bases tree' 0 text iBase generalizing found with
  | case1 iBase hbase ih =>
      rw [searchLoop, if_pos hbase]
      dsimp only
      rw [walk_fst, hwalk, walk_eq hrep hnodup hrep.shape.nodes.start, List.flatMap_cons,
        List.filterMap_append, List.foldl_append]
      exact ih _
  | case2 iBase hbase =>
      rw [searchLoop, if_neg hbase]
      rfl

end

/-- The same number of matches, and for each data pointer the same patterns equally often. -/
structure SameFound (found found' : Found δ) : Prop where
  iMatch : found'.iMatch = found.iMatch
  mResult : ∀ d, (found'.mResult d).Perm (found.mResult d)

section
variable {patterns : List (Bytes × δ)} [DecidableEq δ]

theorem iMatch_foldl_record_eq (l : List (Bytes × δ)) (found : Found δ) :
    (l.foldl record found).iMatch = (fun i => wrapInt32 (i + 1))^[l.length] found.iMatch := by
  induction l generalizing found with
  | nil => rfl
  | cons p l ih => rw [List.foldl_cons, ih, List.length_cons, Function.iterate_succ_apply]; rfl

theorem sameFound_record_iff {l l' extra : List (Bytes × δ)} (h : l.Perm (l' ++ extra))
    (found : Found δ) :
    SameFound (l.foldl record found) (l'.foldl record found) ↔ extra = [] := by
  refine ⟨fun hsame => ?_, ?_⟩
  · by_contra hne
    obtain ⟨p, hp⟩ := List.exists_mem_of_ne_nil _ hne
    have hlisted := hsame.mResult p.2
    rw [mResult_foldl_record, mResult_foldl_record, List.perm_append_left_iff] at hlisted
    have hcount := hlisted.length_eq
    have hall := (h.filter fun q => q.2 = p.2).length_eq
    have hpos : 0 < (extra.filter fun q => q.2 = p.2).length :=
      List.length_pos_of_mem (List.mem_filter.mpr ⟨hp, by simp⟩)
    rw [List.filter_append, List.length_append] at hall
    rw [List.length_map, List.length_map] at hcount
    omega
  · rintro rfl
    rw [List.append_nil] at h
    refine ⟨?_, fun d => ?_⟩
    · rw [iMatch_foldl_record_eq, iMatch_foldl_record_eq, h.length_eq]
    · rw [mResult_foldl_record, mResult_foldl_record]
      exact ((h.symm.filter _).map _).append_left _

theorem acbmSearch_eq_searchLoop {tree : AcbmTree δ} (hroot : tree.root = some 0) (text : Bytes)
    (mResult : δ → List Bytes) :
    acbmSearch tree text mResult = some (searchLoop tree 0 (searched text)
      (toInt32 text.length - tree.minPtnSize) ⟨0, mResult⟩) := by
  rw [acbmSearch, hroot]
  split
  · rw [searchLoop, if_neg (by omega)]
  · rfl

/-- The two searches agree unless the one with shifts overlooks an occurrence. -/
theorem sameFound_iff_of_represents {tree tree' : AcbmTree δ} {paths : List Bytes}
    (hrep : Represents tree paths patterns) (hnodup : (folded patterns).Nodup)
    (hempty : [] ∉ folded patterns) (hbuilt : Reshifted (acbmBCShift tree) tree') (text : Bytes)
    (mResult : δ → List Bytes) :
    ∃ found found', acbmSearch tree text mResult = some found ∧
      acbmSearch tree' text mResult = some found' ∧
      (SameFound found found' ↔
        ∀ b ∈ bases tree' 0 (searched text) (toInt32 text.length - tree'.minPtnSize),
          ∀ s, ¬Overlooked tree' 0 patterns (searched text) b s) := by
  have hmin : tree'.minPtnSize = tree.minPtnSize := hbuilt.minPtnSize
  refine ⟨_, _, acbmSearch_eq_searchLoop hrep.shape.root text mResult,
    acbmSearch_eq_searchLoop (hbuilt.root.trans hrep.shape.root) text mResult, ?_⟩
  rw [hmin]
  generalize toInt32 text.length - tree.minPtnSize = iBase
  obtain ⟨matched, hmatched, hperm⟩ := searchLoop_bases hrep hnodup hempty (fun _ _ _ _ _ => rfl)
    (searched text) iBase ⟨0, mResult⟩
  obtain ⟨matched', hmatched', hperm'⟩ := searchLoop_bases hrep hnodup hempty
    (walk_reshifted hbuilt) (searched text) iBase ⟨0, mResult⟩
  have hbases := (range_perm_bases_of_shape hrep.shape (searched text) iBase).symm.trans
    (range_perm_bases tree' 0 (searched text) iBase)
  have hsplit := hperm.trans (hbases.flatMap_right (occurring patterns (searched text)))
  rw [List.flatMap_append] at hsplit
  rw [hmatched, hmatched', sameFound_record_iff (hsplit.trans (hperm'.symm.append_right _)),
    List.flatMap_eq_nil_iff]
  simp only [List.mem_flatMap, ← gap_occurring_iff hrep hbuilt (length_searched_lt text)]
  exact ⟨fun hall b hb x hx => hall x ⟨b, hb, hx⟩, fun hall x ⟨b, hb, hx⟩ => hall b hb x hx⟩

/-- If no occurrence has an `A` or a `Z` in the text, except for its first byte or behind the size
of the shortest pattern, then the preprocessing does not change what is found. -/
theorem acbmSearch_treeBuild (bcShift : UInt8 → Int) (patterns : List (Bytes × δ))
    (text : Bytes) (mResult : δ → List Bytes) (hne : patterns ≠ [])
    (hlen : ∀ p ∈ patterns, 0 < p.1.length ∧ p.1.length < 512)
    (hdifferent : (patterns.map fun p => fold p.1).Nodup) (hcount : patterns.length < 2 ^ 31)
    (hcapitals : CapitalsOutside patterns text) :
    ∃ tree found found', treeBuild (treeOf bcShift patterns) = some tree ∧
      acbmSearch (treeOf bcShift patterns) text mResult = some found ∧
      acbmSearch tree text mResult = some found' ∧ SameFound found found' := by
  obtain ⟨paths, hrep⟩ := represents_treeOf bcShift hne hlen hdifferent hcount
  obtain ⟨tree, hbuild, hbuilt⟩ := reshifted_treeBuild hrep.shape.root
  obtain ⟨found, found', hfound, hfound', hsame⟩ := sameFound_iff_of_represents hrep hdifferent
    (nil_notMem_folded fun p hp => (hlen p hp).1) hbuilt text mResult
  exact ⟨tree, found, found', hbuild, hfound, hfound',
    hsame.mpr fun b _ s => hcapitals.not_overlooked hrep hbuilt b s⟩

theorem acbmSearch_treeBuild_sample :
    ∃ tree found found',
      treeBuild (treeOf (fun _ => 7) [(bytes "Edge", 1), (bytes "azure", 2)]) = some tree ∧
      acbmSearch (treeOf (fun _ => 7) [(bytes "Edge", 1), (bytes "azure", 2)])
        (bytes "ZA Azure EDGE/AZ") (fun _ => []) = some found ∧
      acbmSearch tree (bytes "ZA Azure EDGE/AZ") (fun _ => []) = some found' ∧
      SameFound found found' := by
  refine acbmSearch_treeBuild (fun _ => 7) _ _ (fun _ => []) (by decide) (by decide) (by decide)
    (by decide) ?_
  intro p hp b hat k hk hsize c hc
  have hplaces : ∀ p ∈ [(bytes "Edge", 1), (bytes "azure", 2)], ∀ b < 16,
      occursAt (bytes "ZA Azure EDGE/AZ") p.1 b = true → ∀ k < p.1.length, 1 ≤ k →
        ∀ c ∈ (bytes "ZA Azure EDGE/AZ")[b + k]?, ¬forgotten c := by decide +kernel
  have hinside : b + k < 16 := (List.getElem?_eq_some_iff.mp hc).1
  exact hplaces p hp b (by omega) hat k (hsize p hp) hk c hc

theorem walkEnd_reshifted {tree tree' : AcbmTree δ} (hbuilt : Reshifted (acbmBCShift tree) tree')
    (node length : Nat) (ucValue : UInt8) (suffix : Bytes) :
    walkEnd tree' node length ucValue suffix = walkEnd tree node length ucValue suffix := by
  rw [← walk_fst node length ucValue suffix ⟨0, fun _ => []⟩, walk_reshifted hbuilt, walk_fst]

end

/-- The patterns and the text of a missed occurrence. -/
def missedPatterns : List (Bytes × Nat) := [(bytes "bxa", 1), (bytes "xyz", 2)]

def missedText : Bytes := bytes "bxAc"

/-- At `xA` no shift holds the search back, although `bxa` starts one byte before. -/
theorem missed_overlooked :
    ∃ paths tree, Represents (treeOf (fun _ => 7) missedPatterns) paths missedPatterns ∧
      treeBuild (treeOf (fun _ => 7) missedPatterns) = some tree ∧
      Reshifted (acbmBCShift (treeOf (fun _ => 7) missedPatterns)) tree ∧
      Overlooked tree 0 missedPatterns missedText 1 1 := by
  obtain ⟨paths, hrep, hmarked⟩ := rootMarked_treeOf (fun _ => 7) (by decide : missedPatterns ≠ [])
    (by decide) (by decide) (by decide)
  obtain ⟨tree, hbuild, hbuilt⟩ := reshifted_treeBuild hrep.shape.root
  have hwalk : walkEnd tree 0 0 0 (missedText.drop 1) = ⟨4, 1, byte 'A'⟩ := by
    rw [walkEnd_reshifted hbuilt]
    rfl
  have hmin : (treeOf (fun _ => 7) missedPatterns).minPtnSize = 3 := rfl
  have hfirst : paths[4]? = some (bytes "x") :=
    (hrep.shape.nodes.child 0 [] hrep.shape.nodes.start (byte 'x') 4).mp rfl
  have hsecond : paths[5]? = some (bytes "xy") :=
    (hrep.shape.nodes.child 4 (bytes "x") hfirst (byte 'y') 5).mp rfl
  have hchild : (tree.heap 4).child (tree.heap 4).ucChild = some 5 := by
    rw [hbuilt.child, hbuilt.ucChild]
    rfl
  have hsuffix : 1 < (tree.heap 5).gsShift := by
    rw [hrep.lt_gsShift_iff hmarked hbuild hsecond (by decide), hmin]
    decide
  refine ⟨paths, tree, hrep, hbuild, hbuilt, ?_⟩
  refine ⟨⟨byte 'A', ?_, .inl rfl⟩, ?_, ?_, ?_, by decide, by decide, by decide⟩
  · rw [hwalk]
    rfl
  · rw [hwalk, hbuilt.childCount]
    decide
  · rw [hwalk, goodSuffix, hchild]
    exact hsuffix
  · rw [hwalk, hbuilt.minPtnSize]
    decide

/-- Before the `A` the search goes back two bytes at once, over the first pattern. -/
theorem capital_overlooked :
    ∃ tree found found', treeBuild (treeOf (fun _ => 7) missedPatterns) = some tree ∧
      acbmSearch (treeOf (fun _ => 7) missedPatterns) missedText (fun _ => []) = some found ∧
      acbmSearch tree missedText (fun _ => []) = some found' ∧ ¬SameFound found found' := by
  obtain ⟨paths, tree, hrep, hbuild, hbuilt, hover⟩ := missed_overlooked
  obtain ⟨found, found', hfound, hfound', hsame⟩ := sameFound_iff_of_represents hrep (by decide)
    (by decide) hbuilt missedText fun _ => []
  refine ⟨tree, found, found', hbuild, hfound, hfound', fun hall => ?_⟩
  have hstart : toInt32 missedText.length - tree.minPtnSize = 1 := by
    rw [hbuilt.minPtnSize]
    decide
  refine hsame.mp hall 1 ?_ 1 hover
  rw [hstart, bases, if_pos (by decide)]
  exact List.mem_cons_self

end AdServer.Search
