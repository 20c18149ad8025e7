import AdServer.Search.Trie

/-!
`AdAcbmTreeBuild`, which fills the two tables of shifts. The bad character shift of a byte is
the first place behind the start where a pattern has it, or the size of the shortest pattern.
The entry of a capital letter is set with that of the small one, but not for `A` and `Z`. The
good suffix shift of a node is the least of those that pairs of patterns set for it.
-/
namespace AdServer.Search

open Dictionary

variable {δ : Type}

def setBCShift (ucVal : UInt8) (iOne : Int) (table : UInt8 → Int) : UInt8 → Int :=
  let table := Function.update table ucVal iOne
  if byte 'a' < ucVal ∧ ucVal < byte 'z' then Function.update table (ucVal - 32) iOne else table

/-- The inner loop of `AdAcbmBCShift`, over the patterns. -/
def bcShiftRow (vStr : List Bytes) (iOne : Nat) (table : UInt8 → Int) : UInt8 → Int :=
  vStr.foldl (fun table sStr => setBCShift (tolower (sStr.getD iOne 0)) iOne table) table

/-- Its outer loop, down to the place 1. -/
def bcShiftRows (vStr : List Bytes) : Nat → (UInt8 → Int) → UInt8 → Int
  | 0, table => table
  | iOne + 1, table => bcShiftRows vStr iOne (bcShiftRow vStr (iOne + 1) table)

/-- The patterns that the loops of `AdAcbmTreeBuild` go over. -/
def AcbmTree.counted (tree : AcbmTree δ) : List Bytes := tree.vStr.take tree.ptnCount.toNat

def acbmBCShift (tree : AcbmTree δ) : AcbmTree δ :=
  { tree with
    bcShift := bcShiftRows tree.counted (tree.minPtnSize - 1).toNat fun _ => tree.minPtnSize }

def AcbmTree.setGSShift (tree : AcbmTree δ) (node : Nat) (f : Int → Int) : AcbmTree δ :=
  tree.modify node fun n => { n with gsShift := f n.gsShift }

/-- The bytes under which the children of a node are looked for, all but the capital letters. -/
def childBytes : List UInt8 :=
  ((List.range 256).filter fun iCount => ¬(65 ≤ iCount ∧ iCount ≤ 90)).map UInt8.ofNat

/-- The body of the loop of `AdAcbmGSShiftInitCore` over the children. -/
def gsShiftInitChild (initCore : AcbmTree δ → Nat → AcbmTree δ) (node : Nat) (tree : AcbmTree δ)
    (c : UInt8) : AcbmTree δ :=
  match (tree.heap node).child c with
  | some child => initCore tree child
  | none => tree

/-- `AdAcbmGSShiftInitCore` down to a depth. -/
def gsShiftInitCore (iShift : Int) : Nat → AcbmTree δ → Nat → AcbmTree δ
  | 0, tree, _ => tree
  | depth + 1, tree, node =>
    let tree :=
      if (tree.heap node).label ≠ -2 then tree.setGSShift node fun _ => iShift else tree
    childBytes.foldl (gsShiftInitChild (gsShiftInitCore iShift depth) node) tree

/-- The node at the end of a way, if there is one. -/
def descend (heap : Nat → AcbmNode) : Nat → Bytes → Option Nat
  | node, [] => some node
  | node, c :: cs => ((heap node).child c).bind fun child => descend heap child cs

/-- `AdAcbmSetGSShift1`. The byte behind the end of a string is its terminator. -/
def setGSShift1 (root : Nat) (tree : AcbmTree δ) (sStr : Bytes) (iDepth : Nat) (iShift : Int) :
    AcbmTree δ :=
  match descend tree.heap root ((sStr ++ [0]).take iDepth) with
  | some node => tree.setGSShift node fun gsShift => if gsShift < iShift then gsShift else iShift
  | none => tree

/-- `iIndex1` after the comparison of two strings: one behind the first difference. -/
def compared : Bytes → Bytes → Nat
  | a :: as, b :: bs => if tolower a ≠ tolower b then 1 else compared as bs + 1
  | _, _ => 0

/-- What an offset of the second string sets for the first: depths with the offset as shift. -/
def shiftsAt (sStr1 sStr2 : Bytes) (iOffset : Nat) : List (Nat × Int) :=
  let iIndex1 := compared sStr1 (sStr2.drop iOffset)
  if iOffset + iIndex1 = sStr2.length then
    (List.range' iIndex1 (sStr1.length - iIndex1)).map fun iCount2 => (iCount2 + 1, (iOffset : Int))
  else [(iIndex1 + 1, (iOffset : Int))]

/-- The depths and shifts that `AdAcbmSetGSShift2` sets, in its order. -/
def gsShifts (iMinPtnSize : Int) (sStr1 sStr2 : Bytes) : List (Nat × Int) :=
  let ucFirst := tolower (sStr1.headD 0)
  let run := (sStr2.drop 1).takeWhile fun c => ucFirst = tolower c
  let offsets := (List.range' 1 (sStr2.length - 1)).filter fun iCount1 =>
    ucFirst = tolower (sStr2.getD iCount1 0)
  (1, ((1 + run.length : Nat) : Int)) ::
    (offsets.takeWhile fun iOffset : Nat => (iOffset : Int) ≤ iMinPtnSize).flatMap
      (shiftsAt sStr1 sStr2)

def setGSShift2 (root : Nat) (tree : AcbmTree δ) (sStr1 sStr2 : Bytes) : AcbmTree δ :=
  (gsShifts tree.minPtnSize sStr1 sStr2).foldl (fun tree set =>
    setGSShift1 root tree sStr1 set.1 set.2) tree

def acbmGSShift (root : Nat) (tree : AcbmTree δ) : AcbmTree δ :=
  (tree.counted.product tree.counted).foldl (fun tree pair =>
    setGSShift2 root tree pair.1 pair.2) tree

/-- `AdAcbmTreeBuild`; `none` is an empty tree, whose root is a null pointer. -/
def treeBuild (tree : AcbmTree δ) : Option (AcbmTree δ) := do
  let root ← tree.root
  let tree := acbmBCShift tree
  return acbmGSShift root (gsShiftInitCore tree.minPtnSize tree.size tree root)

def AcbmNode.unshifted (node : AcbmNode) : AcbmNode := { node with gsShift := 0 }

/-- Two trees that differ in nothing but good suffix shifts. -/
structure Reshifted (tree tree' : AcbmTree δ) : Prop where
  ptnCount : tree'.ptnCount = tree.ptnCount
  minPtnSize : tree'.minPtnSize = tree.minPtnSize
  bcShift : tree'.bcShift = tree.bcShift
  root : tree'.root = tree.root
  size : tree'.size = tree.size
  vStr : tree'.vStr = tree.vStr
  mData : tree'.mData = tree.mData
  node : ∀ p, (tree'.heap p).unshifted = (tree.heap p).unshifted

section
variable {tree tree' tree'' : AcbmTree δ}

theorem Reshifted.refl (tree : AcbmTree δ) : Reshifted tree tree :=
  ⟨rfl, rfl, rfl, rfl, rfl, rfl, rfl, fun _ => rfl⟩

theorem Reshifted.trans (h : Reshifted tree tree') (h' : Reshifted tree' tree'') :
    Reshifted tree tree'' where
  ptnCount := h'.ptnCount.trans h.ptnCount
  minPtnSize := h'.minPtnSize.trans h.minPtnSize
  bcShift := h'.bcShift.trans h.bcShift
  root := h'.root.trans h.root
  size := h'.size.trans h.size
  vStr := h'.vStr.trans h.vStr
  mData := h'.mData.trans h.mData
  node p := (h'.node p).trans (h.node p)

theorem Reshifted.child (h : Reshifted tree tree') (p : Nat) :
    (tree'.heap p).child = (tree.heap p).child :=
  (congrArg AcbmNode.child (h.node p) :)

theorem Reshifted.label (h : Reshifted tree tree') (p : Nat) :
    (tree'.heap p).label = (tree.heap p).label :=
  (congrArg AcbmNode.label (h.node p) :)

theorem Reshifted.childCount (h : Reshifted tree tree') (p : Nat) :
    (tree'.heap p).childCount = (tree.heap p).childCount :=
  (congrArg AcbmNode.childCount (h.node p) :)

theorem Reshifted.ucChild (h : Reshifted tree tree') (p : Nat) :
    (tree'.heap p).ucChild = (tree.heap p).ucChild :=
  (congrArg AcbmNode.ucChild (h.node p) :)

theorem Reshifted.counted (h : Reshifted tree tree') : tree'.counted = tree.counted := by
  rw [AcbmTree.counted, h.vStr, h.ptnCount]
  rfl

theorem heap_setGSShift (tree : AcbmTree δ) (node : Nat) (f : Int → Int) (p : Nat) :
    (tree.setGSShift node f).heap p =
      { tree.heap p with
        gsShift := if p = node then f (tree.heap p).gsShift else (tree.heap p).gsShift } := by
  simp only [AcbmTree.setGSShift, AcbmTree.modify, Function.update_apply]
  split
  · rename_i hp
    rw [hp]
  · rfl

theorem reshifted_setGSShift (tree : AcbmTree δ) (node : Nat) (f : Int → Int) :
    Reshifted tree (tree.setGSShift node f) where
  ptnCount := rfl
  minPtnSize := rfl
  bcShift := rfl
  root := rfl
  size := rfl
  vStr := rfl
  mData := rfl
  node p := by rw [heap_setGSShift]; rfl

theorem Reshifted.foldl {α : Type} {step : AcbmTree δ → α → AcbmTree δ}
    (hstep : ∀ tree a, Reshifted tree (step tree a)) (l : List α) (tree : AcbmTree δ) :
    Reshifted tree (l.foldl step tree) := by
  induction l generalizing tree with
  | nil => exact .refl tree
  | cons a l ih => exact (hstep tree a).trans (ih _)

theorem reshifted_gsShiftInitChild {initCore : AcbmTree δ → Nat → AcbmTree δ}
    (hcore : ∀ tree child, Reshifted tree (initCore tree child)) (node : Nat) (tree : AcbmTree δ)
    (c : UInt8) : Reshifted tree (gsShiftInitChild initCore node tree c) := by
  unfold gsShiftInitChild
  split
  · exact hcore tree _
  · exact .refl tree

theorem reshifted_gsShiftInitCore (iShift : Int) (depth : Nat) (tree : AcbmTree δ) (node : Nat) :
    Reshifted tree (gsShiftInitCore iShift depth tree node) := by
  induction depth generalizing tree node with
  | zero => exact .refl tree
  | succ depth ih =>
      rw [gsShiftInitCore]
      refine Reshifted.trans ?_ (.foldl (reshifted_gsShiftInitChild ih node) childBytes _)
      split
      · exact reshifted_setGSShift tree node _
      · exact .refl tree

theorem reshifted_setGSShift1 (root : Nat) (tree : AcbmTree δ) (sStr : Bytes) (iDepth : Nat)
    (iShift : Int) : Reshifted tree (setGSShift1 root tree sStr iDepth iShift) := by
  unfold setGSShift1
  split
  · exact reshifted_setGSShift tree _ _
  · exact .refl tree

theorem reshifted_setGSShift2 (root : Nat) (tree : AcbmTree δ) (sStr1 sStr2 : Bytes) :
    Reshifted tree (setGSShift2 root tree sStr1 sStr2) := by
  refine Reshifted.foldl (fun tree set => ?_) _ tree
  exact reshifted_setGSShift1 root tree sStr1 set.1 set.2

theorem reshifted_acbmGSShift (root : Nat) (tree : AcbmTree δ) :
    Reshifted tree (acbmGSShift root tree) := by
  refine Reshifted.foldl (fun tree pair => ?_) _ tree
  exact reshifted_setGSShift2 root tree pair.1 pair.2

theorem treeBuild_eq {root : Nat} (hroot : tree.root = some root) :
    treeBuild tree = some (acbmGSShift root
      (gsShiftInitCore tree.minPtnSize tree.size (acbmBCShift tree) root)) := by
  rw [treeBuild, hroot]
  rfl

theorem reshifted_treeBuild {root : Nat} (hroot : tree.root = some root) :
    ∃ tree', treeBuild tree = some tree' ∧ Reshifted (acbmBCShift tree) tree' :=
  ⟨_, treeBuild_eq hroot, (reshifted_gsShiftInitCore _ _ _ _).trans (reshifted_acbmGSShift _ _)⟩

end

/-! ### The bad character table -/

/-- The capital letters whose entries are never set. -/
def forgotten (c : UInt8) : Prop := c = byte 'A' ∨ c = byte 'Z'

instance (c : UInt8) : Decidable (forgotten c) := inferInstanceAs (Decidable (_ ∨ _))

theorem setBCShift_touches {u : UInt8} (hu : tolower u = u) (c : UInt8) :
    (byte 'a' < u ∧ u < byte 'z') ∧ c = u - 32 ∨ c = u ↔ tolower c = u ∧ ¬forgotten c := by
  have hc := c.toNat_lt
  have hu' := u.toNat_lt
  simp only [forgotten, byte, ← UInt8.toNat_inj, toNat_tolower, UInt8.lt_iff_toNat_lt,
    UInt8.toNat_sub] at hu ⊢
  simp only [Char.reduceToNat, UInt8.reduceOfNat, UInt8.reduceToNat]
  split at hu <;> split <;> omega

theorem setBCShift_apply {u : UInt8} (hu : tolower u = u) (iOne : Int) (table : UInt8 → Int)
    (c : UInt8) :
    setBCShift u iOne table c = if tolower c = u ∧ ¬forgotten c then iOne else table c := by
  simp only [← setBCShift_touches hu, setBCShift]
  split <;> simp only [Function.update_apply] <;> grind

/-- Some pattern has the byte at the place of the row, and its entry is set there. -/
def rowHas (vStr : List Bytes) (iOne : Nat) (c : UInt8) : Bool :=
  !decide (forgotten c) && vStr.any fun sStr => tolower c = tolower (sStr.getD iOne 0)

section
variable (vStr : List Bytes)

theorem bcShiftRow_apply (iOne : Nat) (table : UInt8 → Int) (c : UInt8) :
    bcShiftRow vStr iOne table c = if rowHas vStr iOne c then (iOne : Int) else table c := by
  induction vStr generalizing table with
  | nil => simp [bcShiftRow, rowHas]
  | cons sStr vStr ih =>
      have hrest : bcShiftRow (sStr :: vStr) iOne table c =
          bcShiftRow vStr iOne (setBCShift (tolower (sStr.getD iOne 0)) iOne table) c := rfl
      rw [hrest, ih, setBCShift_apply (tolower_tolower _)]
      by_cases hhit : tolower c = tolower (sStr.getD iOne 0) ∧ ¬forgotten c
      · have hhas : rowHas (sStr :: vStr) iOne c = true := by
          rw [rowHas, List.any_cons, decide_eq_true hhit.1, decide_eq_false hhit.2]
          rfl
        rw [if_pos hhit, ite_self, if_pos hhas]
      · have hhas : rowHas (sStr :: vStr) iOne c = rowHas vStr iOne c := by
          by_cases hc : forgotten c
          · simp [rowHas, hc]
          · rw [rowHas, List.any_cons, decide_eq_false fun heq => hhit ⟨heq, hc⟩, Bool.false_or]
            rfl
        rw [if_neg hhit, hhas]

theorem bcShiftRows_range {m : Int} (n : Nat) (hn : (n : Int) ≤ m) (c : UInt8)
    (table : UInt8 → Int) (h : 0 ≤ table c ∧ table c ≤ m) :
    0 ≤ bcShiftRows vStr n table c ∧ bcShiftRows vStr n table c ≤ m := by
  induction n generalizing table with
  | zero => exact h
  | succ n ih =>
      refine ih (by omega) _ ?_
      rw [bcShiftRow_apply]
      split
      · omega
      · exact h

/-- An entry is that of the first row that has the byte. -/
theorem bcShiftRows_le {k : Nat} {c : UInt8} (hk : 1 ≤ k) (hhas : rowHas vStr k c = true) (n : Nat)
    (hn : k ≤ n) (table : UInt8 → Int) : bcShiftRows vStr n table c ≤ k := by
  induction n generalizing table with
  | zero => omega
  | succ n ih =>
      rcases Nat.lt_or_eq_of_le hn with hlt | rfl
      · exact ih (Nat.le_of_lt_succ hlt) _
      · refine (bcShiftRows_range vStr n (m := (n + 1 : Nat)) (by omega) c _ ?_).2
        rw [bcShiftRow_apply, hhas, if_pos rfl]
        omega

theorem bcShiftRows_of_not (n : Nat) {c : UInt8} (h : ∀ k, rowHas vStr k c = false)
    (table : UInt8 → Int) : bcShiftRows vStr n table c = table c := by
  induction n generalizing table with
  | zero => rfl
  | succ n ih => rw [bcShiftRows, ih, bcShiftRow_apply, h, if_neg Bool.false_ne_true]

end

section
variable {tree : AcbmTree δ} {paths : List Bytes} {patterns : List (Bytes × δ)}

theorem Represents.counted (hrep : Represents tree paths patterns) :
    tree.counted = patterns.map (·.1) := by
  rw [AcbmTree.counted, hrep.labels.vStr, hrep.labels.ptnCount, Int.toNat_natCast]
  exact List.take_of_length_le (by rw [List.length_map])

theorem Represents.bcShift_range (hrep : Represents tree paths patterns) (c : UInt8) :
    0 ≤ (acbmBCShift tree).bcShift c ∧ (acbmBCShift tree).bcShift c ≤ tree.minPtnSize := by
  have hmin := hrep.minPtnSize.1
  exact bcShiftRows_range _ _ (by omega) c _ ⟨Int.le_of_lt hmin, Int.le_refl _⟩

theorem bcShift_of_forgotten {c : UInt8} (hc : forgotten c) :
    (acbmBCShift tree).bcShift c = tree.minPtnSize :=
  bcShiftRows_of_not _ _ (fun k => by simp [rowHas, hc]) _

/-- The shift of a byte does not pass the places where a pattern has it. -/
theorem Represents.bcShift_le (hrep : Represents tree paths patterns) {c : UInt8}
    (hc : ¬forgotten c) {p : Bytes × δ} (hp : p ∈ patterns) {k : Nat} (hk : 1 ≤ k)
    (hmin : (k : Int) < tree.minPtnSize) (hbyte : tolower c = tolower (p.1.getD k 0)) :
    (acbmBCShift tree).bcShift c ≤ k := by
  refine bcShiftRows_le _ hk ?_ _ (by omega) _
  rw [hrep.counted, rowHas, decide_eq_false hc, Bool.not_false, Bool.true_and, List.any_eq_true]
  exact ⟨p.1, List.mem_map_of_mem hp, decide_eq_true hbyte⟩

end

end AdServer.Search
