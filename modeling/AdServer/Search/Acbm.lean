import Mathlib.Logic.Function.Basic
import AdServer.Basic

/-!
The multi-pattern search `AdAcbm`. The patterns are kept in a tree of nodes with a child
pointer for each byte, where the pointer for a capital letter is the one for the small letter.
A text is searched from its end to its start, and the search shifts by the smaller of a good
suffix and a bad character shift. Without `AdAcbmTreeBuild` the first is 0 and the second is
whatever the memory held.
-/
namespace AdServer.Search

/-- A node with what the two functions read. A pointer is the place of a node in the heap. -/
structure AcbmNode where
  label : Int
  gsShift : Int
  childCount : Int
  ucChild : UInt8
  child : UInt8 → Option Nat

def AcbmNode.zero : AcbmNode := ⟨0, 0, 0, 0, fun _ => none⟩

/-- The tree and the heap with the next free place. The data pointers have the type `δ`. -/
structure AcbmTree (δ : Type) where
  ptnCount : Int
  minPtnSize : Int
  bcShift : UInt8 → Int
  root : Option Nat
  heap : Nat → AcbmNode
  size : Nat
  vStr : List Bytes
  mData : Int → List δ

def tolower (c : UInt8) : UInt8 := if 65 ≤ c ∧ c ≤ 90 then c + 32 else c

def fold (text : Bytes) : Bytes := text.map tolower

namespace AcbmTree

variable {δ : Type}

/-- The constructor, which leaves the bad character table as it is in memory. -/
def create (bcShift : UInt8 → Int) : AcbmTree δ where
  ptnCount := 0
  minPtnSize := 512
  bcShift := bcShift
  root := none
  heap := fun _ => .zero
  size := 0
  vStr := []
  mData := fun _ => []

def clear (tree : AcbmTree δ) : AcbmTree δ :=
  { tree with
    ptnCount := 0
    minPtnSize := 512
    bcShift := fun _ => 0
    root := none
    vStr := []
    mData := fun _ => [] }

def allocate (tree : AcbmTree δ) (node : AcbmNode) : AcbmTree δ :=
  { tree with heap := Function.update tree.heap tree.size node, size := tree.size + 1 }

def modify (tree : AcbmTree δ) (p : Nat) (f : AcbmNode → AcbmNode) : AcbmTree δ :=
  { tree with heap := Function.update tree.heap p (f (tree.heap p)) }

end AcbmTree

/-- The first loop of `AdAcbmTreeAdd`: as far as there are nodes. -/
def follow (heap : Nat → AcbmNode) : Nat → Bytes → Nat × Bytes
  | parent, [] => (parent, [])
  | parent, c :: cs =>
    match (heap parent).child (tolower c) with
    | some node => follow heap node cs
    | none => (parent, c :: cs)

/-- The new node as a child, for a small letter under both letters. -/
def AcbmNode.link (ucValue : UInt8) (node : Nat) (parent : AcbmNode) : AcbmNode :=
  let child := Function.update parent.child ucValue (some node)
  { parent with
    child := if 97 ≤ ucValue ∧ ucValue ≤ 122 then Function.update child (ucValue - 32) (some node)
      else child
    ucChild := ucValue
    childCount := parent.childCount + 1 }

section
variable {δ : Type}

def addNode (tree : AcbmTree δ) (parent : Nat) (ucValue : UInt8) : AcbmTree δ :=
  (tree.allocate { AcbmNode.zero with label := -1 }).modify parent (.link ucValue tree.size)

/-- The second loop of `AdAcbmTreeAdd`: new nodes for the rest. -/
def extend : AcbmTree δ → Nat → Bytes → AcbmTree δ × Nat
  | tree, parent, [] => (tree, parent)
  | tree, parent, c :: cs => extend (addNode tree parent (tolower c)) tree.size cs

/-- The label of the last node, if it has none, and the entry for the pattern. -/
def enter (tree : AcbmTree δ) (node : Nat) (sStr : Bytes) (pData : δ) : AcbmTree δ :=
  let tree :=
    if (tree.heap node).label < 0 then
      { tree.modify node fun n => { n with label := tree.ptnCount } with
        ptnCount := wrapInt32 (tree.ptnCount + 1) }
    else tree
  let label := (tree.heap node).label
  { tree with
    vStr := tree.vStr ++ [sStr]
    mData := Function.update tree.mData label (tree.mData label ++ [pData]) }

def withRoot (tree : AcbmTree δ) : AcbmTree δ × Nat :=
  match tree.root with
  | some root => (tree, root)
  | none =>
    ({ tree.allocate { AcbmNode.zero with label := -2 } with root := some tree.size }, tree.size)

/-- `AdAcbmTreeAdd`, with enough memory. The result tells success from failure. -/
def treeAdd (tree : AcbmTree δ) (sStr : Bytes) (pData : δ) : AcbmTree δ × Bool :=
  let (tree, root) := withRoot tree
  let iPtnLen := toInt32 sStr.length
  if 0 < iPtnLen then
    let tree := { tree with minPtnSize := min iPtnLen tree.minPtnSize }
    let (parent, rest) := follow tree.heap root (sStr.take iPtnLen.toNat)
    let (tree, node) := extend tree parent rest
    (enter tree node sStr pData, true)
  else (tree.clear, false)

/-- The tree that the constructor of `AdUserAgentParser` builds from its table. -/
def treeOf (bcShift : UInt8 → Int) (patterns : List (Bytes × δ)) : AcbmTree δ :=
  patterns.foldl (fun tree p => (treeAdd tree p.1 p.2).1) (.create bcShift)

structure Found (δ : Type) where
  iMatch : Int
  mResult : δ → List Bytes

structure WalkEnd where
  node : Nat
  length : Nat
  ucValue : UInt8

def atLeastOne (iShift : Int) : Int := if iShift ≤ 0 then 1 else iShift

def shift (tree : AcbmTree δ) (size iBase : Int) (last : WalkEnd) : Int :=
  let node := tree.heap last.node
  if 0 < node.childCount then
    let iGSShift := ((node.child node.ucChild).map fun p => (tree.heap p).gsShift).getD 0
    let iCur := iBase + last.length
    let iBCShift :=
      if iCur < size then wrapInt32 (tree.bcShift last.ucValue + iBase - iCur) else 1
    atLeastOne (if iGSShift > iBCShift then iBCShift else iGSShift)
  else 1

theorem one_le_shift (tree : AcbmTree δ) (size iBase : Int) (last : WalkEnd) :
    1 ≤ shift tree size iBase last := by
  have hleast : ∀ iShift, 1 ≤ atLeastOne iShift := by
    intro iShift
    unfold atLeastOne
    split <;> omega
  unfold shift
  dsimp only
  split
  · exact hleast _
  · exact Int.le_refl 1

variable [DecidableEq δ]

def Found.push (found : Found δ) (sStr : Bytes) (pData : δ) : Found δ :=
  { found with mResult := Function.update found.mResult pData (found.mResult pData ++ [sStr]) }

/-- A node on the way: if it has a label, its pattern is listed and counted. -/
def visit (tree : AcbmTree δ) (node : Nat) (found : Found δ) : Found δ :=
  let label := (tree.heap node).label
  if 0 ≤ label then
    let found := (tree.mData label).foldl (fun found pData =>
      found.push (tree.vStr.getD label.toNat []) pData) found
    { found with iMatch := wrapInt32 (found.iMatch + 1) }
  else found

/-- The inner loop of `AdAcbmSearch` along the text from `iBase` on. -/
def walk (tree : AcbmTree δ) : Nat → Nat → UInt8 → Bytes → Found δ → WalkEnd × Found δ
  | node, length, ucValue, [], found => (⟨node, length, ucValue⟩, found)
  | node, length, _, c :: cs, found =>
    match (tree.heap node).child c with
    | some next => walk tree next (length + 1) c cs (visit tree next found)
    | none => (⟨node, length, c⟩, found)

/-- The outer loop of `AdAcbmSearch`. -/
def searchLoop (tree : AcbmTree δ) (root : Nat) (sStr : Bytes) (iBase : Int) (found : Found δ) :
    Found δ :=
  if 0 ≤ iBase then
    let ended := walk tree root 0 0 (sStr.drop iBase.toNat) found
    searchLoop tree root sStr (iBase - shift tree (toInt32 sStr.length) iBase ended.1) ended.2
  else found
termination_by (iBase + 1).toNat
decreasing_by
  have := one_le_shift tree (toInt32 sStr.length) iBase
    (walk tree root 0 0 (sStr.drop iBase.toNat) found).1
  omega

/-- `AdAcbmSearch`, which adds to the lists that it is given and sees no more of the text than its
length as an `int`. `none` is a search through the null pointer of an empty tree. -/
def acbmSearch (tree : AcbmTree δ) (sStr : Bytes) (mResult : δ → List Bytes) :
    Option (Found δ) :=
  if toInt32 sStr.length < tree.minPtnSize then some ⟨0, mResult⟩
  else do
    let root ← tree.root
    some (searchLoop tree root (sStr.take (toInt32 sStr.length).toNat)
      (toInt32 sStr.length - tree.minPtnSize) ⟨0, mResult⟩)

end

end AdServer.Search
