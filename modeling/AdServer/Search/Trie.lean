import AdServer.Library.Dictionary
import AdServer.Search.Acbm

/-!
The tree that `AdAcbmTreeAdd` builds. Each node stands for the small letters on the way to it,
its label is the position of its pattern, and both stay so while patterns are added.
-/
namespace AdServer.Search

open Dictionary

theorem toNat_tolower (c : UInt8) :
    (tolower c).toNat = if 65 ≤ c.toNat ∧ c.toNat ≤ 90 then c.toNat + 32 else c.toNat := by
  simp only [tolower, UInt8.le_iff_toNat_le, UInt8.reduceToNat]
  split
  · simp only [UInt8.toNat_add, UInt8.reduceToNat]
    omega
  · rfl

theorem tolower_tolower (c : UInt8) : tolower (tolower c) = tolower c := by
  rw [← UInt8.toNat_inj, toNat_tolower (tolower c), toNat_tolower]
  split
  · exact if_neg (by omega)
  · rfl

theorem tolower_eq_iff {c u : UInt8} (hu : tolower u = u) :
    tolower c = u ↔ c = u ∨ (97 ≤ u ∧ u ≤ 122) ∧ c = u - 32 := by
  have hc := c.toNat_lt
  have hu' := u.toNat_lt
  rw [← UInt8.toNat_inj, toNat_tolower] at hu ⊢
  rw [← UInt8.toNat_inj, ← UInt8.toNat_inj, UInt8.toNat_sub]
  simp only [UInt8.le_iff_toNat_le, UInt8.reduceToNat]
  split at hu <;> split <;> omega

theorem child_link {u : UInt8} (hu : tolower u = u) (q : Nat) (parent : AcbmNode) (c : UInt8) :
    (AcbmNode.link u q parent).child c = if tolower c = u then some q else parent.child c := by
  simp only [AcbmNode.link, tolower_eq_iff hu]
  split <;> simp only [Function.update_apply] <;> grind

section
variable {δ : Type} {tree : AcbmTree δ} {paths : List Bytes} {p : Nat} {w : Bytes}

/-- The nodes of the heap form the tree of `paths`. No good suffix shift is set, and a node that
counts children keeps the letter of one of them. -/
structure Shape (tree : AcbmTree δ) (paths : List Bytes) : Prop where
  root : tree.root = some 0
  size : tree.size = paths.length
  nodes : Tree (fun p => (tree.heap p).child) tolower paths
  gsShift : ∀ p, (tree.heap p).gsShift = 0
  ucChild : ∀ p, 0 < (tree.heap p).childCount →
    ∃ q, (tree.heap p).child (tree.heap p).ucChild = some q

/-- The first loop stops at the end of the pattern or where its next letter has no node. -/
theorem follow_spec (hshape : Shape tree paths) (hp : paths[p]? = some w) (sStr : Bytes) :
    ∃ read, sStr = read ++ (follow tree.heap p sStr).2 ∧
      paths[(follow tree.heap p sStr).1]? = some (w ++ fold read) ∧
      ∀ c cs, (follow tree.heap p sStr).2 = c :: cs → w ++ fold read ++ [tolower c] ∉ paths := by
  induction sStr generalizing p w with
  | nil => exact ⟨[], rfl, by simpa [follow, fold] using hp, by simp [follow]⟩
  | cons c cs ih =>
      rw [follow]
      cases hchild : (tree.heap p).child (tolower c) with
      | some q =>
          have hq := (hshape.nodes.child p w hp (tolower c) q).mp hchild
          rw [tolower_tolower] at hq
          obtain ⟨read, hread, hend, hstop⟩ := ih hq
          refine ⟨c :: read, congrArg (c :: ·) hread, ?_, ?_⟩
          · simpa [fold] using hend
          · simpa [fold] using hstop
      | none =>
          have hnone := (hshape.nodes.child_eq_none hp (tolower c)).mp hchild
          rw [tolower_tolower] at hnone
          refine ⟨[], rfl, by simpa [fold] using hp, ?_⟩
          rintro d ds heq
          obtain ⟨rfl, -⟩ := List.cons_eq_cons.mp heq
          simpa [fold] using hnone

section
variable (tree p) (u : UInt8)

@[simp] theorem addNode_size : (addNode tree p u).size = tree.size + 1 := rfl

theorem addNode_heap (hp : p < tree.size) (x : Nat) :
    (addNode tree p u).heap x =
      if x = p then .link u tree.size (tree.heap p)
      else if x = tree.size then { AcbmNode.zero with label := -1 } else tree.heap x := by
  simp only [addNode, AcbmTree.modify, AcbmTree.allocate, Function.update_apply,
    if_neg (Nat.ne_of_lt hp)]

end

theorem Shape.lt_size (hshape : Shape tree paths) (hp : paths[p]? = some w) : p < tree.size :=
  hshape.size ▸ (List.getElem?_eq_some_iff.mp hp).1

theorem Shape.addNode (hshape : Shape tree paths) (hp : paths[p]? = some w) {u : UInt8}
    (hu : tolower u = u) (hnew : w ++ [u] ∉ paths) :
    Shape (addNode tree p u) (paths ++ [w ++ [u]]) := by
  have hlt := hshape.lt_size hp
  have hheap := addNode_heap tree p u hlt
  refine ⟨hshape.root, by simp [hshape.size], ?_, ?_, ?_⟩
  · refine hshape.nodes.grow hp hnew ?_ ?_ ?_
    · intro c
      rw [hheap, if_pos rfl, child_link hu, hshape.size]
    · intro c
      rw [← hshape.size, hheap, if_neg (Nat.ne_of_gt hlt), if_pos rfl]
      rfl
    · intro x hx hne
      rw [hheap, if_neg hne, if_neg (hshape.size ▸ Nat.ne_of_lt hx)]
  · intro x
    rw [hheap]
    split_ifs
    · exact hshape.gsShift p
    · rfl
    · exact hshape.gsShift x
  · intro x
    rw [hheap]
    split_ifs
    · exact fun _ => ⟨tree.size, by rw [child_link hu]; exact if_pos hu⟩
    · exact fun hzero => absurd hzero (Int.lt_irrefl 0)
    · exact hshape.ucChild x

/-- The labels after new nodes: the old nodes keep theirs and the new ones have none. -/
def LabelsKept (tree : AcbmTree δ) (paths : List Bytes) (tree' : AcbmTree δ)
    (paths' : List Bytes) : Prop :=
  ∀ x v, paths'[x]? = some v →
    (paths[x]? = some v ∧ (tree'.heap x).label = (tree.heap x).label) ∨
      (v ∉ paths ∧ (tree'.heap x).label < 0)

theorem labelsKept_addNode (hshape : Shape tree paths) (hp : paths[p]? = some w) {u : UInt8}
    (hnew : w ++ [u] ∉ paths) :
    LabelsKept tree paths (addNode tree p u) (paths ++ [w ++ [u]]) := by
  have hlt := hshape.lt_size hp
  intro x v hx
  rw [addNode_heap tree p u hlt]
  rcases getElem?_concat_eq_some.mp hx with hold | ⟨rfl, rfl⟩
  · refine .inl ⟨hold, ?_⟩
    rw [if_neg (Nat.ne_of_lt (hshape.lt_size hold))]
    split
    · rename_i heq
      rw [heq]
      rfl
    · rfl
  · refine .inr ⟨hnew, ?_⟩
    rw [← hshape.size, if_neg (Nat.ne_of_gt hlt), if_pos rfl]
    exact Int.negSucc_lt_zero 0

/-- The second loop makes a node for each letter that is left. -/
theorem extend_spec (hshape : Shape tree paths) (hp : paths[p]? = some w) (rest : Bytes)
    (hnew : ∀ c cs, rest = c :: cs → w ++ [tolower c] ∉ paths) :
    ∃ paths', Shape (extend tree p rest).1 paths' ∧
      paths'[(extend tree p rest).2]? = some (w ++ fold rest) ∧
      (∀ u, u ∈ paths' ↔ u ∈ paths ∨ ∃ v, v ≠ [] ∧ v <+: fold rest ∧ u = w ++ v) ∧
      LabelsKept tree paths (extend tree p rest).1 paths' := by
  induction rest generalizing tree paths p w with
  | nil =>
      refine ⟨paths, hshape, by simpa [extend, fold] using hp, ?_, fun x v hx => .inl ⟨hx, rfl⟩⟩
      intro u
      refine ⟨.inl, ?_⟩
      rintro (hu | ⟨v, hne, hv, -⟩)
      · exact hu
      · exact absurd (List.prefix_nil.mp hv) hne
  | cons c cs ih =>
      have hfresh := hnew c cs rfl
      have hgrown := hshape.addNode hp (tolower_tolower c) hfresh
      have hat : (paths ++ [w ++ [tolower c]])[tree.size]? = some (w ++ [tolower c]) :=
        getElem?_concat_eq_some.mpr (.inr ⟨hshape.size, rfl⟩)
      have hbelow : ∀ d ds, cs = d :: ds →
          w ++ [tolower c] ++ [tolower d] ∉ paths ++ [w ++ [tolower c]] := by
        intro d ds _ hmem
        rcases List.mem_append.mp hmem with hold | heq
        · exact hfresh (hshape.nodes.closed _ _ hold)
        · simp at heq
      obtain ⟨paths', hshape', hend, hmem, hlabels⟩ := ih hgrown hat hbelow
      refine ⟨paths', hshape', by simpa [extend, fold] using hend, ?_, ?_⟩
      · intro u
        rw [hmem, List.mem_append, List.mem_singleton, or_assoc]
        refine or_congr_right ⟨?_, ?_⟩
        · rintro (rfl | ⟨v, -, hv, rfl⟩)
          · exact ⟨[tolower c], by simp, by simp [fold], rfl⟩
          · exact ⟨tolower c :: v, by simp, List.cons_prefix_cons.mpr ⟨rfl, hv⟩, by simp⟩
        · rintro ⟨v, hne, hv, rfl⟩
          cases v with
          | nil => exact absurd rfl hne
          | cons d v =>
              obtain ⟨rfl, hv'⟩ := List.cons_prefix_cons.mp hv
              by_cases hnil : v = []
              · subst hnil
                exact .inl rfl
              · exact .inr ⟨v, hnil, hv', by simp⟩
      · intro x v hx
        rcases hlabels x v hx with ⟨hx', hlabel⟩ | ⟨hnone, hlabel⟩
        · rcases labelsKept_addNode hshape hp hfresh x v hx' with ⟨hold, hkept⟩ | ⟨hnone, hkept⟩
          · exact .inl ⟨hold, hlabel.trans hkept⟩
          · exact .inr ⟨hnone, hlabel ▸ hkept⟩
        · exact .inr ⟨fun hold => hnone (List.mem_append_left _ hold), hlabel⟩

theorem extend_frame (tree : AcbmTree δ) (p : Nat) (rest : Bytes) :
    (extend tree p rest).1.ptnCount = tree.ptnCount ∧
      (extend tree p rest).1.minPtnSize = tree.minPtnSize ∧
      (extend tree p rest).1.vStr = tree.vStr ∧ (extend tree p rest).1.mData = tree.mData := by
  induction rest generalizing tree p with
  | nil => exact ⟨rfl, rfl, rfl, rfl⟩
  | cons c cs ih => exact ih (addNode tree p (tolower c)) tree.size

theorem Shape.relabel {tree' : AcbmTree δ} (hshape : Shape tree paths)
    (hroot : tree'.root = tree.root) (hsize : tree'.size = tree.size)
    (hheap : ∀ x, ∃ label, tree'.heap x = { tree.heap x with label := label }) :
    Shape tree' paths := by
  have hchild : ∀ x, (tree'.heap x).child = (tree.heap x).child := by
    intro x
    obtain ⟨label, hx⟩ := hheap x
    rw [hx]
  refine ⟨hroot.trans hshape.root, hsize.trans hshape.size, ?_, ?_, ?_⟩
  · simpa only [hchild] using hshape.nodes
  · intro x
    obtain ⟨label, hx⟩ := hheap x
    rw [hx]
    exact hshape.gsShift x
  · intro x
    obtain ⟨label, hx⟩ := hheap x
    rw [hx]
    exact hshape.ucChild x

theorem enter_of_unlabelled {node : Nat} (hlabel : (tree.heap node).label < 0) (sStr : Bytes)
    (pData : δ) :
    enter tree node sStr pData =
      { tree with
        heap := Function.update tree.heap node { tree.heap node with label := tree.ptnCount }
        ptnCount := wrapInt32 (tree.ptnCount + 1)
        vStr := tree.vStr ++ [sStr]
        mData := Function.update tree.mData tree.ptnCount
          (tree.mData tree.ptnCount ++ [pData]) } := by
  simp only [enter, if_pos hlabel, AcbmTree.modify, Function.update_self]

theorem Shape.enter (hshape : Shape tree paths) {node : Nat}
    (hlabel : (tree.heap node).label < 0) (sStr : Bytes) (pData : δ) :
    Shape (enter tree node sStr pData) paths := by
  rw [enter_of_unlabelled hlabel]
  refine hshape.relabel rfl rfl fun x => ?_
  by_cases hx : x = node
  · subst hx
    exact ⟨_, Function.update_self ..⟩
  · exact ⟨_, Function.update_of_ne hx ..⟩

theorem withRoot_of_root {root : Nat} (hroot : tree.root = some root) :
    withRoot tree = (tree, root) := by
  simp only [withRoot, hroot]

theorem withRoot_withRoot (tree : AcbmTree δ) : withRoot (withRoot tree).1 = withRoot tree := by
  cases hroot : tree.root with
  | some root => rw [withRoot_of_root hroot]; exact withRoot_of_root hroot
  | none => simp only [withRoot, hroot]

theorem treeAdd_withRoot (tree : AcbmTree δ) (sStr : Bytes) (pData : δ) :
    treeAdd (withRoot tree).1 sStr pData = treeAdd tree sStr pData := by
  simp only [treeAdd, withRoot_withRoot]

/-- The letters on the way to the node of a string, of which the code reads as many as the length
says as an `int`. -/
def spelled (sStr : Bytes) : Bytes := fold (sStr.take (toInt32 sStr.length).toNat)

theorem spelled_of_lt {sStr : Bytes} (h : sStr.length < 2 ^ 31) : spelled sStr = fold sStr := by
  rw [spelled, toInt32_of_lt h, Int.toNat_natCast, List.take_length]

/-- The two loops lead to the node of the string, and the paths are those up to one more word. -/
theorem treeAdd_reaches {words : List Bytes} {sStr : Bytes} (hshape : Shape tree paths)
    (hcovers : ∀ w, w ∈ paths ↔ w = [] ∨ isPath words w = true)
    (hpos : 0 < toInt32 sStr.length) (pData : δ) :
    ∃ tree' paths' node, treeAdd tree sStr pData = (enter tree' node sStr pData, true) ∧
      Shape tree' paths' ∧ paths'[node]? = some (spelled sStr) ∧
      (∀ w, w ∈ paths' ↔ w = [] ∨ isPath (words ++ [spelled sStr]) w = true) ∧
      LabelsKept tree paths tree' paths' ∧ tree'.ptnCount = tree.ptnCount ∧
      tree'.minPtnSize = min (toInt32 sStr.length) tree.minPtnSize ∧
      tree'.vStr = tree.vStr ∧ tree'.mData = tree.mData := by
  obtain ⟨read, hread, hend, hstop⟩ :=
    follow_spec hshape hshape.nodes.start (sStr.take (toInt32 sStr.length).toNat)
  have hmin : Shape { tree with minPtnSize := min (toInt32 sStr.length) tree.minPtnSize } paths :=
    hshape.relabel rfl rfl fun x => ⟨_, rfl⟩
  obtain ⟨paths', hshape', hnode, hmem, hkept⟩ := extend_spec hmin hend _ hstop
  have hspelled : spelled sStr = fold read ++ fold (follow tree.heap 0
      (sStr.take (toInt32 sStr.length).toNat)).2 := by
    rw [spelled]
    nth_rewrite 1 [hread]
    exact List.map_append
  rw [List.nil_append] at hend hmem hnode
  rw [← hspelled] at hnode
  refine ⟨_, paths', _, ?_, hshape', hnode, ?_, hkept, extend_frame _ _ _⟩
  · simp only [treeAdd, withRoot_of_root hshape.root, if_pos hpos]
  · intro w
    rw [hmem, hcovers, hspelled]
    exact (isPath_concat_append ((hcovers _).mp (List.mem_of_getElem? hend))).symm

/-- The label of a node is the position of its path among the words. -/
structure Numbering (tree : AcbmTree δ) (paths words : List Bytes) : Prop where
  labelled : ∀ p w (i : Nat), paths[p]? = some w → words[i]? = some w → (tree.heap p).label = i
  unlabelled : ∀ p w, paths[p]? = some w → w ∉ words → (tree.heap p).label < 0

theorem Numbering.kept {words : List Bytes} {tree' : AcbmTree δ} {paths' : List Bytes}
    (h : Numbering tree paths words) (hwords : ∀ w ∈ words, w ∈ paths)
    (hkept : LabelsKept tree paths tree' paths') : Numbering tree' paths' words := by
  refine ⟨?_, ?_⟩
  · intro x w i hx hi
    rcases hkept x w hx with ⟨hold, hlabel⟩ | ⟨hnone, -⟩
    · exact hlabel.trans (h.labelled x w i hold hi)
    · exact absurd (hwords w (List.mem_of_getElem? hi)) hnone
  · intro x w hx hw
    rcases hkept x w hx with ⟨hold, hlabel⟩ | ⟨-, hlabel⟩
    · exact hlabel ▸ h.unlabelled x w hold hw
    · exact hlabel

theorem Numbering.enter {words : List Bytes} (h : Numbering tree paths words)
    (hnodup : paths.Nodup) {node : Nat} (hnode : paths[node]? = some w) (hnew : w ∉ words)
    (hcount : tree.ptnCount = words.length) (sStr : Bytes) (pData : δ) :
    Numbering (enter tree node sStr pData) paths (words ++ [w]) := by
  have hother : ∀ x v, paths[x]? = some v → v ≠ w → x ≠ node := by
    rintro x v hx hv rfl
    exact hv (Option.some.inj (hx.symm.trans hnode))
  rw [enter_of_unlabelled (h.unlabelled node _ hnode hnew), hcount]
  refine ⟨?_, ?_⟩ <;> dsimp only
  · intro x v i hx hi
    rcases getElem?_concat_eq_some.mp hi with hold | ⟨rfl, rfl⟩
    · have hne := hother x v hx fun heq => hnew (heq ▸ List.mem_of_getElem? hold)
      rw [Function.update_of_ne hne]
      exact h.labelled x v i hx hold
    · have hlt := (List.getElem?_eq_some_iff.mp hx).1
      rw [(List.getElem?_inj hlt hnodup).mp (hx.trans hnode.symm), Function.update_self]
  · intro x v hx hv
    rw [List.mem_append, List.mem_singleton, not_or] at hv
    rw [Function.update_of_ne (hother x v hx hv.2)]
    exact h.unlabelled x v hx hv.1

def folded (patterns : List (Bytes × δ)) : List Bytes := patterns.map fun p => fold p.1

theorem folded_concat (patterns : List (Bytes × δ)) (sStr : Bytes) (pData : δ) :
    folded (patterns ++ [(sStr, pData)]) = folded patterns ++ [fold sStr] := by
  simp [folded]

/-- The label at the end of a pattern is its position, and the tables have the patterns and their
data in this order. -/
structure Labels (tree : AcbmTree δ) (paths : List Bytes) (patterns : List (Bytes × δ)) : Prop
    extends Numbering tree paths (folded patterns) where
  ptnCount : tree.ptnCount = patterns.length
  vStr : tree.vStr = patterns.map (·.1)
  mData : ∀ i : Nat, tree.mData i = (patterns[i]?.map (·.2)).toList

/-- The tree after some patterns. Its paths are their beginnings. -/
structure Represents (tree : AcbmTree δ) (paths : List Bytes) (patterns : List (Bytes × δ)) :
    Prop where
  shape : Shape tree paths
  covers : ∀ w, w ∈ paths ↔ w = [] ∨ isPath (folded patterns) w = true
  labels : Labels tree paths patterns
  minPtnSize : 0 < tree.minPtnSize ∧ ∀ p ∈ patterns, tree.minPtnSize ≤ p.1.length

section
variable {patterns : List (Bytes × δ)} {sStr : Bytes}

theorem Labels.enter (hlabels : Labels tree paths patterns) (hnodup : paths.Nodup) {node : Nat}
    (hnode : paths[node]? = some (fold sStr)) (hnew : fold sStr ∉ folded patterns)
    (hcount : patterns.length + 1 < 2 ^ 31) (pData : δ) :
    Labels (enter tree node sStr pData) paths (patterns ++ [(sStr, pData)]) := by
  have hlength : tree.ptnCount = (folded patterns).length := by
    rw [folded, List.length_map]
    exact hlabels.ptnCount
  have hnumbers := hlabels.toNumbering.enter hnodup hnode hnew hlength sStr pData
  rw [← folded_concat patterns sStr pData] at hnumbers
  refine ⟨hnumbers, ?_, ?_, ?_⟩ <;>
    rw [enter_of_unlabelled (hlabels.unlabelled node _ hnode hnew), hlabels.ptnCount] <;>
    dsimp only
  · rw [List.length_append, List.length_singleton]
    exact wrapInt32_eq_self_iff.mpr (by omega)
  · simp [hlabels.vStr]
  · intro i
    by_cases hi : i = patterns.length
    · subst hi
      simp [hlabels.mData]
    · rw [Function.update_of_ne (by omega), hlabels.mData]
      grind

theorem Represents.treeAdd (hrep : Represents tree paths patterns) (hpos : 0 < sStr.length)
    (hshort : sStr.length < 512) (hnew : fold sStr ∉ folded patterns)
    (hcount : patterns.length + 1 < 2 ^ 31) (pData : δ) :
    ∃ paths', Represents (treeAdd tree sStr pData).1 paths' (patterns ++ [(sStr, pData)]) := by
  have hlen : toInt32 sStr.length = sStr.length := toInt32_of_lt (by omega)
  have hspelled : spelled sStr = fold sStr := spelled_of_lt (by omega)
  have hpos' : 0 < toInt32 sStr.length := by omega
  obtain ⟨tree', paths', node, hadd, hshape, hnode, hcovers, hkept, hptn, hmin, hstr, hdata⟩ :=
    treeAdd_reaches hrep.shape hrep.covers hpos' pData
  rw [hspelled] at hnode hcovers
  have hwords : ∀ w ∈ folded patterns, w ∈ paths := fun w hw =>
    (hrep.covers w).mpr (.inr (isPath_iff.mpr ⟨w, hw, List.prefix_rfl⟩))
  have hnumbers := hrep.labels.toNumbering.kept hwords hkept
  have hlabels : Labels tree' paths' patterns :=
    ⟨hnumbers, hptn ▸ hrep.labels.ptnCount, hstr ▸ hrep.labels.vStr,
      hdata ▸ hrep.labels.mData⟩
  have hlabel := hnumbers.unlabelled node _ hnode hnew
  rw [hadd]
  refine ⟨paths', hshape.enter hlabel sStr pData, ?_,
    hlabels.enter hshape.nodes.nodup hnode hnew hcount pData, ?_⟩
  · rw [folded_concat]
    exact hcovers
  · rw [enter_of_unlabelled hlabel]
    dsimp only
    rw [hmin]
    refine ⟨lt_min hpos' hrep.minPtnSize.1, ?_⟩
    intro p hp
    rcases List.mem_append.mp hp with hold | hlast
    · exact (min_le_right ..).trans (hrep.minPtnSize.2 p hold)
    · rw [List.mem_singleton.mp hlast, ← hlen]
      exact min_le_left ..

theorem represents_create (bcShift : UInt8 → Int) :
    Represents (withRoot (AcbmTree.create bcShift : AcbmTree δ)).1 [[]] [] := by
  have hheap : ∀ x, ∃ label, (withRoot (AcbmTree.create bcShift : AcbmTree δ)).1.heap x =
      { AcbmNode.zero with label := label } := by
    intro x
    by_cases hx : x = 0
    · subst hx
      exact ⟨-2, rfl⟩
    · exact ⟨0, Function.update_of_ne hx ..⟩
  have honly : ∀ p (w : Bytes), [([] : Bytes)][p]? = some w → p = 0 ∧ w = [] := by
    intro p w hp
    cases p with
    | zero => exact ⟨rfl, (Option.some.inj hp).symm⟩
    | succ p => simp at hp
  refine ⟨⟨rfl, rfl, ⟨rfl, List.nodup_singleton _, by simp, ?_⟩, ?_, ?_⟩, by simp [folded, isPath],
    ⟨⟨by simp [folded], ?_⟩, rfl, rfl, fun i => rfl⟩, ?_, by simp⟩
  · intro p w hp c q
    obtain ⟨label, hlabel⟩ := hheap p
    simp only [hlabel]
    refine iff_of_false (by simp [AcbmNode.zero]) fun hq => ?_
    simpa using (honly q _ hq).2
  · intro p
    obtain ⟨label, hlabel⟩ := hheap p
    rw [hlabel]
    rfl
  · intro p hcount
    obtain ⟨label, hlabel⟩ := hheap p
    rw [hlabel] at hcount
    exact absurd hcount (Int.lt_irrefl 0)
  · intro p w hp _
    rw [(honly p w hp).1]
    exact Int.negSucc_lt_zero 1
  · exact Int.natCast_pos.mpr (Nat.succ_pos 511)

/-- What every added pattern keeps holds of the tree after all of them. -/
theorem Represents.foldl_treeAdd (hrep : Represents tree paths patterns) {P : AcbmTree δ → Prop}
    (hstart : P tree)
    (hstep : ∀ (tree : AcbmTree δ) paths patterns (sStr : Bytes) (pData : δ),
      Represents tree paths patterns → 0 < sStr.length → sStr.length < 512 → P tree →
      P (Search.treeAdd tree sStr pData).1)
    (more : List (Bytes × δ)) (hlen : ∀ p ∈ more, 0 < p.1.length ∧ p.1.length < 512)
    (hnodup : (folded (patterns ++ more)).Nodup) (hcount : (patterns ++ more).length < 2 ^ 31) :
    ∃ paths', Represents (more.foldl (fun tree p => (Search.treeAdd tree p.1 p.2).1) tree) paths'
      (patterns ++ more) ∧ P (more.foldl (fun tree p => (Search.treeAdd tree p.1 p.2).1) tree) := by
  induction more generalizing tree paths patterns with
  | nil => exact ⟨paths, by rwa [List.append_nil], hstart⟩
  | cons p more ih =>
      rw [List.append_cons] at hnodup hcount ⊢
      obtain ⟨hpos, hshort⟩ := hlen p List.mem_cons_self
      have hfirst : (folded patterns ++ [fold p.1]).Nodup := by
        rw [folded, List.map_append] at hnodup
        rw [← folded_concat patterns p.1 p.2]
        exact hnodup.of_append_left
      have hnew : fold p.1 ∉ folded patterns := fun hmem =>
        (List.nodup_append.mp hfirst).2.2 _ hmem _ (List.mem_singleton_self _) rfl
      have hcount' : patterns.length + 1 < 2 ^ 31 := by
        simp only [List.length_append, List.length_singleton] at hcount
        omega
      obtain ⟨paths', hadded⟩ := hrep.treeAdd hpos hshort hnew hcount' p.2
      exact ih hadded (hstep tree paths patterns p.1 p.2 hrep hpos hshort hstart)
        (fun q hq => hlen q (List.mem_cons_of_mem _ hq)) hnodup hcount

theorem treeOf_induction (bcShift : UInt8 → Int) {P : AcbmTree δ → Prop}
    (hstart : P (withRoot (AcbmTree.create bcShift)).1)
    (hstep : ∀ (tree : AcbmTree δ) paths patterns (sStr : Bytes) (pData : δ),
      Represents tree paths patterns → 0 < sStr.length → sStr.length < 512 → P tree →
      P (Search.treeAdd tree sStr pData).1)
    (hne : patterns ≠ []) (hlen : ∀ p ∈ patterns, 0 < p.1.length ∧ p.1.length < 512)
    (hnodup : (folded patterns).Nodup) (hcount : patterns.length < 2 ^ 31) :
    ∃ paths, Represents (treeOf bcShift patterns) paths patterns ∧ P (treeOf bcShift patterns) := by
  obtain ⟨paths, hrep⟩ :=
    (represents_create bcShift).foldl_treeAdd hstart hstep patterns hlen hnodup hcount
  refine ⟨paths, ?_⟩
  cases patterns with
  | nil => exact absurd rfl hne
  | cons p rest =>
      rw [List.foldl_cons, treeAdd_withRoot] at hrep
      exact hrep

theorem represents_treeOf (bcShift : UInt8 → Int) (hne : patterns ≠ [])
    (hlen : ∀ p ∈ patterns, 0 < p.1.length ∧ p.1.length < 512) (hnodup : (folded patterns).Nodup)
    (hcount : patterns.length < 2 ^ 31) :
    ∃ paths, Represents (treeOf bcShift patterns) paths patterns := by
  obtain ⟨paths, hrep, -⟩ := @treeOf_induction δ patterns bcShift (fun _ => True) trivial
    (fun _ _ _ _ _ _ _ _ _ => trivial) hne hlen hnodup hcount
  exact ⟨paths, hrep⟩

end

end

end AdServer.Search
