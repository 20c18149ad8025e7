import AdServer.Search.Trie

/-!
What `AdAcbmSearch` finds in a tree that was only added to. The good suffix shifts are 0 then, so
the search goes back one byte at a time whatever the bad character table holds, and from each
position it meets the patterns that occur there.
-/
namespace AdServer.Search

open Dictionary

variable {δ : Type}

/-- The pattern stands in the text from the position on, up to the case of letters. -/
def occursAt (text pattern : Bytes) (b : Nat) : Bool :=
  (fold pattern).isPrefixOf (fold (text.drop b))

def occurring (patterns : List (Bytes × δ)) (text : Bytes) (b : Nat) : List (Bytes × δ) :=
  patterns.filter fun p => occursAt text p.1 b

/-- The pairs of a position and a pattern that occurs there. -/
def occurrences (patterns : List (Bytes × δ)) (text : Bytes) : List (Nat × Bytes × δ) :=
  (List.range text.length).flatMap fun b => (occurring patterns text b).map fun p => (b, p)

theorem shift_eq_one {tree : AcbmTree δ} {paths : List Bytes} (hshape : Shape tree paths)
    (size iBase : Int) (last : WalkEnd) : shift tree size iBase last = 1 := by
  simp only [shift]
  split
  · rename_i hcount
    obtain ⟨q, hq⟩ := hshape.ucChild _ hcount
    rw [hq, Option.map_some, Option.getD_some, hshape.gsShift]
    refine if_pos ?_
    split <;> omega
  · rfl

variable {tree : AcbmTree δ} {paths : List Bytes} {patterns : List (Bytes × δ)}

/-- Behind the last position that the search starts from, no pattern has room. -/
theorem occurring_eq_nil (hrep : Represents tree paths patterns) {text : Bytes} {b : Nat}
    (hb : (text.length : Int) < b + tree.minPtnSize) (hlt : b ≤ text.length) :
    occurring patterns text b = [] := by
  rw [occurring, List.filter_eq_nil_iff]
  intro p hp hoccurs
  have hlen := (List.isPrefixOf_iff_prefix.mp hoccurs).length_le
  simp only [fold, List.length_map, List.length_drop] at hlen
  have hmin := hrep.minPtnSize.2 p hp
  omega

theorem flatMap_occurring (hrep : Represents tree paths patterns) (text : Bytes) {n : Nat}
    (hn : (text.length : Int) < n + tree.minPtnSize) (hle : n ≤ text.length) :
    (List.range text.length).flatMap (occurring patterns text) =
      (List.range n).flatMap (occurring patterns text) := by
  obtain ⟨k, hk⟩ := Nat.exists_eq_add_of_le hle
  rw [hk, List.range_add, List.flatMap_append, List.append_right_eq_self, List.flatMap_eq_nil_iff]
  intro b hb
  obtain ⟨i, hi, rfl⟩ := List.mem_map.mp hb
  rw [List.mem_range] at hi
  exact occurring_eq_nil hrep (by omega) (by omega)

theorem map_snd_occurrences (patterns : List (Bytes × δ)) (text : Bytes) :
    (occurrences patterns text).map (·.2) =
      (List.range text.length).flatMap (occurring patterns text) := by
  simp [occurrences, List.map_flatMap, Function.comp_def]

theorem nil_notMem_folded (hlen : ∀ p ∈ patterns, 0 < p.1.length) : [] ∉ folded patterns := by
  intro hmem
  obtain ⟨p, hp, hnil⟩ := List.mem_map.mp hmem
  have hpos := hlen p hp
  rw [List.map_eq_nil_iff.mp hnil] at hpos
  exact Nat.lt_irrefl 0 hpos

theorem scan_bases_perm (hnodup : (folded patterns).Nodup) (hempty : [] ∉ folded patterns)
    (text : Bytes) (bs : List Nat) :
    ((bs.flatMap fun b => scan (folded patterns) [] (fold (text.drop b)))
        |>.filterMap (patterns[·]?)).Perm (bs.flatMap (occurring patterns text)) := by
  have hperm := (List.Perm.refl bs).flatMap fun b _ =>
    scan_perm hnodup hempty (fold (text.drop b))
  refine (hperm.filterMap (patterns[·]?)).trans ?_
  rw [List.filterMap_flatMap]
  simp only [folded, filterMap_starting]
  exact .refl _

theorem scan_positions_perm (hnodup : (folded patterns).Nodup) (hempty : [] ∉ folded patterns)
    (text : Bytes) (n : Nat) :
    (((List.range n).reverse.flatMap fun b => scan (folded patterns) [] (fold (text.drop b)))
        |>.filterMap (patterns[·]?)).Perm ((List.range n).flatMap (occurring patterns text)) :=
  (scan_bases_perm hnodup hempty text _).trans ((List.reverse_perm (List.range n)).flatMap_right _)

section
variable [DecidableEq δ]

def record (found : Found δ) (p : Bytes × δ) : Found δ :=
  { found.push p.1 p.2 with iMatch := wrapInt32 (found.iMatch + 1) }

theorem iMatch_foldl_record (l : List (Bytes × δ)) (found : Found δ) (h0 : 0 ≤ found.iMatch)
    (hlt : found.iMatch + l.length < 2 ^ 31) :
    (l.foldl record found).iMatch = found.iMatch + l.length := by
  induction l generalizing found with
  | nil => simp
  | cons p l ih =>
      rw [List.length_cons] at hlt
      have hstep : (record found p).iMatch = found.iMatch + 1 :=
        wrapInt32_eq_self_iff.mpr (by omega)
      rw [List.foldl_cons, ih _ (by omega) (by omega), hstep, List.length_cons]
      omega

theorem mResult_foldl_record (l : List (Bytes × δ)) (found : Found δ) (d : δ) :
    (l.foldl record found).mResult d =
      found.mResult d ++ (l.filter fun p => p.2 = d).map (·.1) := by
  induction l generalizing found with
  | nil => simp
  | cons p l ih =>
      have hstep : (record found p).mResult d =
          found.mResult d ++ if p.2 = d then [p.1] else [] := by
        simp only [record, Found.push, Function.update_apply]
        split <;> grind
      rw [List.foldl_cons, ih, hstep]
      by_cases hd : p.2 = d
      · simp [hd]
      · simp [hd]

theorem visit_eq (hrep : Represents tree paths patterns) (hnodup : (folded patterns).Nodup)
    {p : Nat} {w : Bytes} (hp : paths[p]? = some w) (found : Found δ) :
    visit tree p found =
      (((folded patterns).idxOf? w).toList.filterMap (patterns[·]?)).foldl record found := by
  cases hidx : (folded patterns).idxOf? w with
  | none =>
      have hlabel := hrep.labels.unlabelled p w hp (List.idxOf?_eq_none_iff.mp hidx)
      exact if_neg (Int.not_le.mpr hlabel)
  | some i =>
      have hword := (idxOf?_eq_some hnodup).mp hidx
      obtain ⟨q, hq, -⟩ : ∃ q, patterns[i]? = some q ∧ fold q.1 = w := by
        simpa [folded] using hword
      simp [visit, hrep.labels.labelled p w i hp hword, hrep.labels.mData, hrep.labels.vStr, hq,
        record, Found.push]

/-- The inner loop finds what the scan of the dictionary lists. -/
theorem walk_eq (hrep : Represents tree paths patterns) (hnodup : (folded patterns).Nodup)
    {p : Nat} {w : Bytes} (hp : paths[p]? = some w) (length : Nat) (ucValue : UInt8)
    (suffix : Bytes) (found : Found δ) :
    (walk tree p length ucValue suffix found).2 =
      ((scan (folded patterns) w (fold suffix)).filterMap (patterns[·]?)).foldl record found := by
  induction suffix generalizing p w length ucValue found with
  | nil => rfl
  | cons c cs ih =>
      have hcovers := hrep.covers (w ++ [tolower c])
      rw [walk, fold, List.map_cons, scan]
      cases hchild : (tree.heap p).child c with
      | some q =>
          have hq := (hrep.shape.nodes.child p w hp c q).mp hchild
          have hpath : isPath (folded patterns) (w ++ [tolower c]) = true := by
            simpa using hcovers.mp (List.mem_of_getElem? hq)
          rw [if_pos hpath, List.filterMap_append, List.foldl_append, ← visit_eq hrep hnodup hq]
          exact ih hq (length + 1) c (visit tree q found)
      | none =>
          have hnone := (hrep.shape.nodes.child_eq_none hp c).mp hchild
          rw [if_neg fun hpath => hnone (hcovers.mpr (.inr hpath))]
          rfl

/-- The outer loop meets every position from its start down to the first byte. -/
theorem searchLoop_eq (hrep : Represents tree paths patterns) (hnodup : (folded patterns).Nodup)
    (text : Bytes) (n : Nat) (found : Found δ) :
    searchLoop tree 0 text (n - 1) found =
      (((List.range n).reverse.flatMap fun b => scan (folded patterns) [] (fold (text.drop b)))
        |>.filterMap (patterns[·]?)).foldl record found := by
  induction n generalizing found with
  | zero => rw [searchLoop]; rfl
  | succ n ih =>
      have hbase : ((n + 1 : Nat) : Int) - 1 = n := by omega
      rw [hbase, searchLoop, if_pos (Int.natCast_nonneg n)]
      dsimp only
      rw [shift_eq_one hrep.shape, walk_eq hrep hnodup hrep.shape.nodes.start, Int.toNat_natCast,
        ih, List.range_succ, List.reverse_append, List.reverse_singleton, List.singleton_append,
        List.flatMap_cons, List.filterMap_append, List.foldl_append]

theorem acbmSearch_eq (hrep : Represents tree paths patterns) (hnodup : (folded patterns).Nodup)
    (hempty : [] ∉ folded patterns) {text : Bytes} (htext : text.length < 2 ^ 31)
    (mResult : δ → List Bytes) :
    ∃ matched : List (Bytes × δ), matched.Perm ((occurrences patterns text).map (·.2)) ∧
      acbmSearch tree text mResult = some (matched.foldl record ⟨0, mResult⟩) := by
  obtain ⟨n, hn⟩ : ∃ n : Nat, n = (text.length + 1 - tree.minPtnSize).toNat := ⟨_, rfl⟩
  have hmin := hrep.minPtnSize.1
  refine ⟨_, (scan_positions_perm hnodup hempty text n).trans ?_, ?_⟩
  · rw [map_snd_occurrences, flatMap_occurring hrep text (n := n) (by omega) (by omega)]
  · rw [acbmSearch, toInt32_of_lt htext, hrep.shape.root, Int.toNat_natCast, List.take_length]
    split
    · have hzero : n = 0 := by omega
      rw [hzero]
      rfl
    · have hstart : (text.length : Int) - tree.minPtnSize = n - 1 := by omega
      rw [hstart]
      exact congrArg some (searchLoop_eq hrep hnodup text n _)

/-- Without the preprocessing the search still returns the number of occurrences and lists each
one for the data of its pattern. -/
theorem acbmSearch_exact (bcShift : UInt8 → Int) (patterns : List (Bytes × δ)) (text : Bytes)
    (mResult : δ → List Bytes) (hne : patterns ≠ [])
    (hlen : ∀ p ∈ patterns, 0 < p.1.length ∧ p.1.length < 512)
    (hdifferent : (patterns.map fun p => fold p.1).Nodup) (hcount : patterns.length < 2 ^ 31)
    (htext : text.length < 2 ^ 31) (hmatches : (occurrences patterns text).length < 2 ^ 31) :
    ∃ found, acbmSearch (treeOf bcShift patterns) text mResult = some found ∧
      found.iMatch = (occurrences patterns text).length ∧
      ∀ d, ∃ listed, found.mResult d = mResult d ++ listed ∧
        listed.Perm (((occurrences patterns text).filter fun o => o.2.2 = d).map (·.2.1)) := by
  obtain ⟨paths, hrep⟩ := represents_treeOf bcShift hne hlen hdifferent hcount
  have hempty := nil_notMem_folded fun p hp => (hlen p hp).1
  obtain ⟨matched, hperm, hfound⟩ := acbmSearch_eq hrep hdifferent hempty htext mResult
  have hlength : matched.length = (occurrences patterns text).length := by
    rw [hperm.length_eq, List.length_map]
  refine ⟨_, hfound, ?_, ?_⟩
  · rw [iMatch_foldl_record matched _ (Int.le_refl 0) (by dsimp only; omega), hlength]
    exact Int.zero_add _
  · intro d
    refine ⟨_, mResult_foldl_record matched _ d, ?_⟩
    have hlisted := (hperm.filter fun p => p.2 = d).map (·.1)
    rwa [List.filter_map, List.map_map] at hlisted

theorem acbmSearch_exact_sample :
    ∃ found, acbmSearch (treeOf (fun _ => 7) [(bytes "Edge", 1), (bytes "Chrome", 2)])
        (bytes "chrome EDGE/chrome") (fun _ => []) = some found ∧
      found.iMatch = 3 ∧ found.mResult 1 = [bytes "Edge"] := by
  obtain ⟨found, hfound, hmatch, hlisted⟩ := acbmSearch_exact (fun _ => 7)
    [(bytes "Edge", 1), (bytes "Chrome", 2)] (bytes "chrome EDGE/chrome") (fun _ => [])
    (by decide) (by decide) (by decide) (by decide) (by decide) (by decide)
  refine ⟨found, hfound, hmatch, ?_⟩
  obtain ⟨listed, hresult, hperm⟩ := hlisted 1
  rw [hresult, List.nil_append]
  exact List.perm_singleton.mp hperm

/-- A text of 2^31 bytes has a negative length as an `int`. -/
theorem long_text_unsearched :
    acbmSearch (treeOf (fun _ => 0) [(bytes "a", ())]) (List.replicate (2 ^ 31) (byte 'a'))
        (fun _ => []) = some ⟨0, fun _ => []⟩ ∧
      (occurrences [(bytes "a", ())] (List.replicate (2 ^ 31) (byte 'a'))).length ≠ 0 := by
  refine ⟨?_, ?_⟩
  · have hmin : (treeOf (fun _ => 0) [(bytes "a", ())]).minPtnSize = 1 := rfl
    rw [acbmSearch, List.length_replicate, hmin, if_pos (by rw [toInt32_eq]; omega)]
  · obtain ⟨n, hn⟩ : ∃ n, 2 ^ 31 = n + 1 := ⟨2 ^ 31 - 1, by omega⟩
    have hoccurs : occursAt (List.replicate (n + 1) (byte 'a')) (bytes "a") 0 = true :=
      List.isPrefixOf_iff_prefix.mpr ⟨fold (List.replicate n (byte 'a')), rfl⟩
    rw [hn]
    refine (List.length_pos_of_mem (a := (0, bytes "a", ())) ?_).ne'
    simp [occurrences, occurring, hoccurs]

end

end AdServer.Search
