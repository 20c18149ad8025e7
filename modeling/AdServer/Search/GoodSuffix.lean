import AdServer.Search.Build

/-!
The good suffix shifts that `AdAcbmTreeBuild` leaves at the nodes. Each starts as the size of the
shortest pattern, and every pair of patterns lowers those on its ways, so that the shift of a node
is the least that was set on the way to it.
-/
namespace AdServer.Search

open Dictionary

variable {δ : Type} {tree tree' : AcbmTree δ} {paths : List Bytes} {p q : Nat} {w : Bytes}

/-- The ways and the shifts that the pairs of patterns set. -/
def setShifts (iMinPtnSize : Int) (vStr : List Bytes) : List (Bytes × Nat × Int) :=
  (vStr.product vStr).flatMap fun pair =>
    (gsShifts iMinPtnSize pair.1 pair.2).map fun set => (pair.1, set)

def wayOf (set : Bytes × Nat × Int) : Bytes := fold ((set.1 ++ [0]).take set.2.1)

theorem Reshifted.nodes (h : Reshifted tree tree')
    (hnodes : Tree (fun p => (tree.heap p).child) tolower paths) :
    Tree (fun p => (tree'.heap p).child) tolower paths := by
  have hchild : (fun p => (tree'.heap p).child) = fun p => (tree.heap p).child := funext h.child
  rwa [hchild]

theorem descend_eq_some_iff (hnodes : Tree (fun p => (tree.heap p).child) tolower paths)
    (hp : paths[p]? = some w) (way : Bytes) :
    descend tree.heap p way = some q ↔ paths[q]? = some (w ++ fold way) := by
  induction way generalizing p w with
  | nil =>
      rw [descend, fold, List.map_nil, List.append_nil, Option.some_inj]
      refine ⟨fun heq => heq ▸ hp, fun hq => ?_⟩
      have hlt := (List.getElem?_eq_some_iff.mp hp).1
      exact (List.getElem?_inj hlt hnodes.nodup).mp (hp.trans hq.symm)
  | cons c cs ih =>
      have hassoc : w ++ fold (c :: cs) = w ++ [tolower c] ++ fold cs := by simp [fold]
      rw [descend, Option.bind_eq_some_iff, hassoc]
      refine ⟨?_, fun hq => ?_⟩
      · rintro ⟨x, hx, hdescend⟩
        exact (ih ((hnodes.child p w hp c x).mp hx)).mp hdescend
      · have hmem := hnodes.mem_of_append (List.mem_of_getElem? hq)
        obtain ⟨x, hx⟩ := List.mem_iff_getElem?.mp hmem
        exact ⟨x, (hnodes.child p w hp c x).mpr hx, (ih hx).mpr hq⟩

/-- One setting lowers the shift of the node at the end of its way. -/
theorem lt_setGSShift1_iff (hnodes : Tree (fun p => (tree.heap p).child) tolower paths)
    (hq : paths[q]? = some w) (sStr : Bytes) (iDepth : Nat) (iShift s : Int) :
    s < ((setGSShift1 0 tree sStr iDepth iShift).heap q).gsShift ↔
      s < (tree.heap q).gsShift ∧ (wayOf (sStr, iDepth, iShift) = w → s < iShift) := by
  have hdescend := descend_eq_some_iff hnodes hnodes.start (q := q) ((sStr ++ [0]).take iDepth)
  rw [List.nil_append, hq, Option.some_inj] at hdescend
  have hway : wayOf (sStr, iDepth, iShift) = w ↔
      descend tree.heap 0 ((sStr ++ [0]).take iDepth) = some q := by
    rw [hdescend]
    exact eq_comm
  rw [hway, setGSShift1]
  cases hend : descend tree.heap 0 ((sStr ++ [0]).take iDepth) with
  | none => simp
  | some node =>
      rw [Option.some_inj]
      dsimp only
      rw [heap_setGSShift]
      dsimp only
      by_cases heq : q = node
      · rw [if_pos heq]
        split <;> omega
      · rw [if_neg heq]
        exact ⟨fun h => ⟨h, fun h' => absurd h'.symm heq⟩, fun h => h.1⟩

theorem lt_foldl_setGSShift1_iff (hnodes : Tree (fun p => (tree.heap p).child) tolower paths)
    (hq : paths[q]? = some w) (sets : List (Bytes × Nat × Int)) (s : Int) :
    s < ((sets.foldl (fun tree set => setGSShift1 0 tree set.1 set.2.1 set.2.2) tree).heap
        q).gsShift ↔
      s < (tree.heap q).gsShift ∧ ∀ set ∈ sets, wayOf set = w → s < set.2.2 := by
  induction sets generalizing tree with
  | nil => simp
  | cons set sets ih =>
      have hkept := (reshifted_setGSShift1 0 tree set.1 set.2.1 set.2.2).nodes hnodes
      rw [List.foldl_cons, ih hkept, lt_setGSShift1_iff hnodes hq, and_assoc, List.forall_mem_cons]

/-- All pairs of patterns, setting after setting. -/
theorem acbmGSShift_eq (root : Nat) (tree : AcbmTree δ) :
    acbmGSShift root tree = (setShifts tree.minPtnSize tree.counted).foldl (fun tree set =>
      setGSShift1 root tree set.1 set.2.1 set.2.2) tree := by
  have hpairs : ∀ (pairs : List (Bytes × Bytes)) (tree : AcbmTree δ),
      pairs.foldl (fun tree pair => setGSShift2 root tree pair.1 pair.2) tree =
        (pairs.flatMap fun pair => (gsShifts tree.minPtnSize pair.1 pair.2).map fun set =>
          (pair.1, set)).foldl (fun tree set => setGSShift1 root tree set.1 set.2.1 set.2.2)
          tree := by
    intro pairs
    induction pairs with
    | nil => exact fun _ => rfl
    | cons pair pairs ih =>
        intro tree
        have hmin : (setGSShift2 root tree pair.1 pair.2).minPtnSize = tree.minPtnSize :=
          (reshifted_setGSShift2 root tree pair.1 pair.2).minPtnSize
        rw [List.foldl_cons, ih, hmin, List.flatMap_cons, List.foldl_append, List.foldl_map]
        rfl
  exact hpairs _ tree

/-! ### The start values -/

section
variable {iShift : Int}

theorem mem_childBytes {c : UInt8} (hc : tolower c = c) : c ∈ childBytes := by
  have hlt := c.toNat_lt
  rw [← UInt8.toNat_inj, toNat_tolower] at hc
  refine List.mem_map.mpr ⟨c.toNat, ?_, UInt8.ofNat_toNat⟩
  rw [List.mem_filter, List.mem_range, decide_eq_true_eq]
  split at hc <;> omega

theorem gsShift_foldl_initChild {initCore : AcbmTree δ → Nat → AcbmTree δ}
    (hcore : ∀ tree child, (tree.heap q).gsShift = iShift →
      ((initCore tree child).heap q).gsShift = iShift) (node : Nat) (cs : List UInt8)
    (tree : AcbmTree δ) (h : (tree.heap q).gsShift = iShift) :
    ((cs.foldl (gsShiftInitChild initCore node) tree).heap q).gsShift = iShift := by
  induction cs generalizing tree with
  | nil => exact h
  | cons c cs ih =>
      refine ih _ ?_
      unfold gsShiftInitChild
      split
      · exact hcore tree _ h
      · exact h

/-- A shift that has its start value keeps it. -/
theorem gsShiftInitCore_keeps (depth : Nat) (tree : AcbmTree δ) (node : Nat)
    (h : (tree.heap q).gsShift = iShift) :
    ((gsShiftInitCore iShift depth tree node).heap q).gsShift = iShift := by
  induction depth generalizing tree node with
  | zero => exact h
  | succ depth ih =>
      rw [gsShiftInitCore]
      refine gsShift_foldl_initChild ih node childBytes _ ?_
      split
      · rw [heap_setGSShift]
        dsimp only
        split
        · rfl
        · exact h
      · exact h

/-- The recursion gives the start value to all nodes below, as deep as it goes. -/
theorem gsShiftInitCore_reaches (depth : Nat)
    (hnodes : Tree (fun p => (tree.heap p).child) tolower paths) (hp : paths[p]? = some w)
    {v : Bytes} (hq : paths[q]? = some (w ++ v)) (hlabel : (tree.heap q).label ≠ -2)
    (hlower : ∀ c ∈ v, tolower c = c) (hdepth : v.length < depth) :
    ((gsShiftInitCore iShift depth tree p).heap q).gsShift = iShift := by
  induction depth generalizing tree p w v with
  | zero => omega
  | succ depth ih =>
      rw [gsShiftInitCore]
      cases v with
      | nil =>
          rw [List.append_nil] at hq
          have hlt := (List.getElem?_eq_some_iff.mp hp).1
          obtain rfl : p = q := (List.getElem?_inj hlt hnodes.nodup).mp (hp.trans hq.symm)
          refine gsShift_foldl_initChild (gsShiftInitCore_keeps depth) p childBytes _ ?_
          rw [if_pos hlabel, heap_setGSShift]
          exact if_pos rfl
      | cons c v =>
          -- the loop comes to the child on the way, after and before which it only keeps
          have hlow : tolower c = c := hlower c List.mem_cons_self
          have hassoc : w ++ c :: v = w ++ [c] ++ v := by simp
          rw [hassoc] at hq
          obtain ⟨x, hx⟩ := List.mem_iff_getElem?.mp
            (hnodes.mem_of_append (List.mem_of_getElem? hq))
          have hchild : (tree.heap p).child c = some x :=
            (hnodes.child p w hp c x).mpr (by rw [hlow]; exact hx)
          obtain ⟨before, after, hbytes⟩ := List.append_of_mem (mem_childBytes hlow)
          rw [hbytes, List.foldl_append, List.foldl_cons]
          refine gsShift_foldl_initChild (gsShiftInitCore_keeps depth) p after _ ?_
          generalize hstart : (if (tree.heap p).label ≠ -2 then tree.setGSShift p fun _ => iShift
            else tree) = start
          have hset : Reshifted tree start := by
            rw [← hstart]
            split
            · exact reshifted_setGSShift tree p _
            · exact .refl tree
          have hkept : Reshifted tree
              (before.foldl (gsShiftInitChild (gsShiftInitCore iShift depth) p) start) :=
            hset.trans (.foldl
              (reshifted_gsShiftInitChild (reshifted_gsShiftInitCore iShift depth) p) before start)
          rw [gsShiftInitChild, hkept.child, hchild]
          refine ih (hkept.nodes hnodes) hx hq ?_ (fun d hd => hlower d (List.mem_cons_of_mem c hd))
            (by simpa using hdepth)
          rw [hkept.label]
          exact hlabel

end

/-- The label -2 marks the root alone. -/
def RootMarked (tree : AcbmTree δ) : Prop := ∀ p, p ≠ 0 → (tree.heap p).label ≠ -2

theorem RootMarked.addNode (h : RootMarked tree) (parent : Nat) (u : UInt8) :
    RootMarked (addNode tree parent u) := by
  intro x hx
  have hold : ((tree.allocate { AcbmNode.zero with label := -1 }).heap x).label ≠ -2 := by
    simp only [AcbmTree.allocate, Function.update_apply]
    split
    · decide
    · exact h x hx
  simp only [Search.addNode, AcbmTree.modify, Function.update_apply]
  split
  · rename_i hparent
    rw [← hparent]
    exact hold
  · exact hold

theorem RootMarked.extend (h : RootMarked tree) (parent : Nat) (rest : Bytes) :
    RootMarked (extend tree parent rest).1 := by
  induction rest generalizing tree parent with
  | nil => exact h
  | cons c cs ih => exact ih (h.addNode parent (tolower c)) tree.size

theorem RootMarked.enter (h : RootMarked tree) (hcount : 0 ≤ tree.ptnCount) (node : Nat)
    (sStr : Bytes) (pData : δ) : RootMarked (enter tree node sStr pData) := by
  intro x hx
  by_cases hlabel : (tree.heap node).label < 0
  · rw [enter_of_unlabelled hlabel]
    dsimp only
    rw [Function.update_apply]
    split
    · dsimp only
      omega
    · exact h x hx
  · simp only [Search.enter, if_neg hlabel]
    exact h x hx

section
variable {patterns : List (Bytes × δ)}

theorem RootMarked.treeAdd (h : RootMarked tree) (hrep : Represents tree paths patterns)
    {sStr : Bytes} (hpos : 0 < sStr.length) (hshort : sStr.length < 512) (pData : δ) :
    RootMarked (treeAdd tree sStr pData).1 := by
  have hlen : toInt32 sStr.length = sStr.length := toInt32_of_lt (by omega)
  have hpos' : (0 : Int) < sStr.length := by omega
  obtain ⟨start, hstart⟩ : ∃ start, { tree with
    minPtnSize := min (sStr.length : Int) tree.minPtnSize } = start := ⟨_, rfl⟩
  have hmarked : RootMarked start := hstart ▸ h
  have hcount : start.ptnCount = patterns.length := hstart ▸ hrep.labels.ptnCount
  simp only [Search.treeAdd, withRoot_of_root hrep.shape.root, hlen, if_pos hpos', hstart]
  refine (hmarked.extend _ _).enter ?_ _ sStr pData
  rw [(extend_frame start _ _).1, hcount]
  exact Int.natCast_nonneg _

theorem rootMarked_treeOf (bcShift : UInt8 → Int) (hne : patterns ≠ [])
    (hlen : ∀ p ∈ patterns, 0 < p.1.length ∧ p.1.length < 512) (hnodup : (folded patterns).Nodup)
    (hcount : patterns.length < 2 ^ 31) :
    ∃ paths, Represents (treeOf bcShift patterns) paths patterns ∧
      RootMarked (treeOf bcShift patterns) := by
  refine treeOf_induction bcShift ?_ ?_ hne hlen hnodup hcount
  · intro x hx
    have hheap : (withRoot (AcbmTree.create bcShift : AcbmTree δ)).1.heap x = .zero :=
      Function.update_of_ne hx ..
    rw [hheap]
    decide
  · intro tree paths patterns sStr pData hrep hpos hshort h
    exact h.treeAdd hrep hpos hshort pData

theorem Represents.lower (hrep : Represents tree paths patterns) (hw : w ∈ paths) :
    ∀ c ∈ w, tolower c = c := by
  intro c hc
  rcases (hrep.covers w).mp hw with rfl | hpath
  · exact absurd hc List.not_mem_nil
  · obtain ⟨x, hx, hbegins⟩ := isPath_iff.mp hpath
    obtain ⟨p, -, rfl⟩ := List.mem_map.mp hx
    obtain ⟨d, -, rfl⟩ := List.mem_map.mp (hbegins.subset hc)
    exact tolower_tolower d

/-- The shift of a node is above a number exactly if the size of the shortest pattern and all
shifts that were set on the way to it are. -/
theorem Represents.lt_gsShift_iff (hrep : Represents tree paths patterns) (h : RootMarked tree)
    (hbuild : treeBuild tree = some tree') (hq : paths[q]? = some w) (hw : w ≠ []) (s : Int) :
    s < (tree'.heap q).gsShift ↔ s < tree.minPtnSize ∧
      ∀ set ∈ setShifts tree.minPtnSize (patterns.map (·.1)), wayOf set = w → s < set.2.2 := by
  have hroot : q ≠ 0 := by
    rintro rfl
    exact hw (Option.some.inj (hq.symm.trans hrep.shape.nodes.start))
  have hmem := List.mem_of_getElem? hq
  have hinit := reshifted_gsShiftInitCore tree.minPtnSize tree.size (acbmBCShift tree) 0
  have hstart : ((gsShiftInitCore tree.minPtnSize tree.size (acbmBCShift tree) 0).heap q).gsShift =
      tree.minPtnSize :=
    gsShiftInitCore_reaches tree.size hrep.shape.nodes hrep.shape.nodes.start hq (h q hroot)
      (hrep.lower hmem) (hrep.shape.size ▸ hrep.shape.nodes.length_lt hmem)
  rw [treeBuild_eq hrep.shape.root] at hbuild
  rw [← Option.some.inj hbuild, acbmGSShift_eq, hinit.minPtnSize, hinit.counted]
  rw [lt_foldl_setGSShift1_iff (hinit.nodes hrep.shape.nodes) hq, hstart]
  exact Iff.of_eq (by rw [← hrep.counted]; rfl)

end

end AdServer.Search
