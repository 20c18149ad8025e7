import AdServer.Basic
import AdServer.Library.LowerBound
import AdServer.Library.Sorter

/-!
The exchange of a request path. `init` enters the modules one after the other, each with the hash
of its path, and sorts an array of their indices by the hash. `getAdxId` looks for the hash of the
path through that array.
-/
namespace AdServer.Bid

open Cells LowerBound

def bidMaxModules : Nat := 100

structure ModuleIndex where
  moduleHash : UInt64
  adxId : Int
  deriving DecidableEq, Repr

/-- The static arrays as far as they are filled. -/
structure ModuleTable where
  moduleIdx : List Nat := []
  moduleAdx : List ModuleIndex := []

def ModuleTable.moduleCnt (table : ModuleTable) : Nat := table.moduleAdx.length

/-- `ADD_MODULE_ENTRY`; `none` is a write behind the arrays. -/
def addModuleEntry (table : ModuleTable) (item : ModuleIndex) : Option ModuleTable :=
  if table.moduleCnt < bidMaxModules then
    some ⟨table.moduleIdx ++ [table.moduleCnt], table.moduleAdx ++ [item]⟩
  else none

/-- The hash that the comparison of the sort reads. -/
def ModuleTable.hashOf (table : ModuleTable) (i : Nat) : Nat :=
  (table.moduleAdx[i]?.map fun item => item.moduleHash.toNat).getD 0

def init (sorter : Sorter) (modules : List ModuleIndex) : Option ModuleTable :=
  (modules.foldlM addModuleEntry {}).map fun table =>
    { table with moduleIdx := sorter.byKey table.hashOf table.moduleIdx }

def fnvHash (key : Bytes) (len : Int) : UInt64 :=
  (key.take len.toNat).foldl (fun h c => (h * 1099511628211) ^^^ c.toUInt64) 14695981039346656037

def pathHash (path : Bytes) : UInt64 := fnvHash path (toInt32 path.length)

/-- `moduleAdx[moduleIdx[i]]`. -/
def ModuleTable.moduleAt (table : ModuleTable) (i : Int) : Option ModuleIndex :=
  (entry table.moduleIdx i).bind fun k => table.moduleAdx[k]?

/-- What is returned where the search has ended. -/
def ModuleTable.adxIdAt (table : ModuleTable) (key : UInt64) (l : Int) : Option Int :=
  if l < 0 ∨ table.moduleCnt ≤ l then some 0
  else
    (table.moduleAt l).map fun item =>
      if item.moduleHash ≠ key then 0 else wrapInt32 item.adxId

/-- `none` is an index outside the filled part of an array. -/
def getAdxId (table : ModuleTable) (path : Bytes) : Option Int :=
  (search (fun i => (table.moduleAt i).map fun item => item.moduleHash.toNat)
    (pathHash path).toNat 0 (table.moduleCnt - 1)).bind (table.adxIdAt (pathHash path))

theorem foldlM_addModuleEntry {modules : List ModuleIndex} {table : ModuleTable}
    (hidx : table.moduleIdx = List.range table.moduleCnt)
    (hsize : table.moduleCnt + modules.length ≤ bidMaxModules) :
    modules.foldlM addModuleEntry table =
      some ⟨List.range (table.moduleCnt + modules.length), table.moduleAdx ++ modules⟩ := by
  induction modules generalizing table with
  | nil =>
      rw [List.foldlM_nil, List.append_nil, List.length_nil, Nat.add_zero, ← hidx]
      rfl
  | cons item modules ih =>
      rw [List.length_cons] at hsize ⊢
      have hcount : (⟨table.moduleIdx ++ [table.moduleCnt], table.moduleAdx ++ [item]⟩ :
          ModuleTable).moduleCnt = table.moduleCnt + 1 := List.length_append
      have hadd : addModuleEntry table item =
          some ⟨table.moduleIdx ++ [table.moduleCnt], table.moduleAdx ++ [item]⟩ :=
        if_pos (by omega)
      rw [List.foldlM_cons, hadd]
      refine (ih ?_ (by omega)).trans ?_
      · rw [hcount, List.range_succ, ← hidx]
      · rw [hcount, Nat.add_right_comm, ← Nat.add_assoc, List.append_assoc]
        rfl

/-- The table after the sort: the indices of all modules in some order, and the hashes in the
order of the indices sorted. -/
structure Sorted (table : ModuleTable) (modules : List ModuleIndex) : Prop where
  moduleAdx : table.moduleAdx = modules
  perm : table.moduleIdx.Perm (List.range modules.length)
  hashes : (table.moduleIdx.map table.hashOf).Pairwise (· ≤ ·)

theorem init_sorted (sorter : Sorter) {modules : List ModuleIndex}
    (hsize : modules.length ≤ bidMaxModules) :
    ∃ table, init sorter modules = some table ∧ Sorted table modules := by
  have hrun := @foldlM_addModuleEntry modules {} rfl (by simpa [ModuleTable.moduleCnt] using hsize)
  rw [init, hrun]
  refine ⟨_, rfl, List.nil_append _, ?_, ?_⟩
  · refine (sorter.perm_byKey _ _).trans ?_
    rw [ModuleTable.moduleCnt, List.length_nil, Nat.zero_add]
  · exact sorter.byKey_sorted _ _

section
variable {table : ModuleTable} {modules : List ModuleIndex} (h : Sorted table modules)
include h

theorem Sorted.moduleCnt : table.moduleCnt = modules.length := by
  rw [ModuleTable.moduleCnt, h.moduleAdx]

theorem Sorted.length_moduleIdx : table.moduleIdx.length = modules.length := by
  rw [h.perm.length_eq, List.length_range]

/-- All reads of a hash are inside. -/
theorem Sorted.moduleAt_hash (i : Int) :
    (table.moduleAt i).map (fun item => item.moduleHash.toNat) =
      entry (table.moduleIdx.map table.hashOf) i := by
  rw [ModuleTable.moduleAt, entry, entry]
  split
  · rw [List.getElem?_map]
    cases hk : table.moduleIdx[i.toNat]? with
    | none => rfl
    | some k =>
        have hlt : k < modules.length :=
          List.mem_range.mp (h.perm.subset (List.mem_of_getElem? hk))
        rw [← h.moduleAdx] at hlt
        rw [Option.bind_some, Option.map_some, ModuleTable.hashOf,
          List.getElem?_eq_getElem hlt]
        rfl
  · rfl

theorem Sorted.mem_hashes {hash : Nat} :
    hash ∈ table.moduleIdx.map table.hashOf ↔
      ∃ item ∈ modules, item.moduleHash.toNat = hash := by
  rw [List.mem_map]
  constructor
  · rintro ⟨k, hk, rfl⟩
    have hlt : k < modules.length := List.mem_range.mp (h.perm.subset hk)
    refine ⟨modules[k], List.getElem_mem hlt, ?_⟩
    rw [ModuleTable.hashOf, h.moduleAdx, List.getElem?_eq_getElem hlt]
    rfl
  · rintro ⟨item, hmodule, rfl⟩
    obtain ⟨k, hlt, rfl⟩ := List.getElem_of_mem hmodule
    refine ⟨k, h.perm.symm.subset (List.mem_range.mpr hlt), ?_⟩
    rw [ModuleTable.hashOf, h.moduleAdx, List.getElem?_eq_getElem hlt]
    rfl

theorem Sorted.exists_moduleAt {i : Nat} (hi : i < modules.length) :
    ∃ item ∈ modules, table.moduleAt i = some item ∧
      (table.moduleIdx.map table.hashOf)[i]? = some item.moduleHash.toNat := by
  have hlt : i < table.moduleIdx.length := h.length_moduleIdx ▸ hi
  have hk : table.moduleIdx[i] < modules.length :=
    List.mem_range.mp (h.perm.subset (List.getElem_mem hlt))
  have hat : table.moduleAt i = some modules[table.moduleIdx[i]] := by
    rw [ModuleTable.moduleAt, entry_natCast, List.getElem?_eq_getElem hlt, Option.bind_some,
      h.moduleAdx, List.getElem?_eq_getElem hk]
  refine ⟨_, List.getElem_mem hk, hat, ?_⟩
  rw [← entry_natCast, ← h.moduleAt_hash, hat]
  rfl

/-- The search ends at a module with the hash if there is one. -/
theorem Sorted.getAdxId_cases (path : Bytes) :
    (∃ item ∈ modules, item.moduleHash = pathHash path ∧
      getAdxId table path = some (wrapInt32 item.adxId)) ∨
    (∀ item ∈ modules, item.moduleHash ≠ pathHash path) ∧ getAdxId table path = some 0 := by
  obtain ⟨i, hsearch, hi, hfound⟩ := search_sorted h.hashes (pathHash path).toNat
  rw [List.length_map, h.length_moduleIdx] at hsearch hi
  rw [h.mem_hashes] at hfound
  have hget : (fun i => (table.moduleAt i).map fun item => item.moduleHash.toNat) =
      entry (table.moduleIdx.map table.hashOf) := funext h.moduleAt_hash
  rw [getAdxId, hget, h.moduleCnt, hsearch, Option.bind_some, ModuleTable.adxIdAt, h.moduleCnt]
  have hnone (hne : (table.moduleIdx.map table.hashOf)[i]? ≠ some (pathHash path).toNat) :
      ∀ item ∈ modules, item.moduleHash ≠ pathHash path := fun item hitem heq =>
    hne (hfound.mpr ⟨item, hitem, congrArg UInt64.toNat heq⟩)
  by_cases hlt : i < modules.length
  · obtain ⟨item, hitem, hat, hhash⟩ := h.exists_moduleAt hlt
    rw [if_neg (by omega), hat, Option.map_some]
    by_cases hkey : item.moduleHash = pathHash path
    · exact .inl ⟨item, hitem, hkey, congrArg some (if_neg (not_not.mpr hkey))⟩
    · refine .inr ⟨hnone ?_, congrArg some (if_pos hkey)⟩
      rw [hhash]
      exact fun heq => hkey (UInt64.toNat_inj.mp (Option.some.inj heq))
  · have hend : (table.moduleIdx.map table.hashOf)[i]? = none := by
      rw [List.getElem?_eq_none_iff, List.length_map, h.length_moduleIdx]
      omega
    refine .inr ⟨hnone ?_, if_pos (by omega)⟩
    rw [hend]
    exact fun heq => by cases heq

end

/-- A path goes to the module with its hash, and to none without one. -/
theorem getAdxId_routes (sorter : Sorter) {modules : List ModuleIndex}
    (hdistinct : modules.Pairwise fun a b => a.moduleHash ≠ b.moduleHash)
    (hsize : modules.length ≤ bidMaxModules)
    (hint : ∀ item ∈ modules, -2 ^ 31 ≤ item.adxId ∧ item.adxId < 2 ^ 31) (path : Bytes) :
    ∃ table, init sorter modules = some table ∧
      (∀ item ∈ modules, item.moduleHash = pathHash path →
        getAdxId table path = some item.adxId) ∧
      ((∀ item ∈ modules, item.moduleHash ≠ pathHash path) → getAdxId table path = some 0) := by
  obtain ⟨table, hinit, hsorted⟩ := init_sorted sorter hsize
  have hsymm : Std.Symm fun a b : ModuleIndex => a.moduleHash ≠ b.moduleHash :=
    ⟨fun _ _ h => h.symm⟩
  refine ⟨table, hinit, fun item hitem hhash => ?_, fun hnone => ?_⟩
  · obtain ⟨found, hfound, hkey, hresult⟩ | ⟨hnone, -⟩ := hsorted.getAdxId_cases path
    · have hsame : found = item := by
        by_contra hne
        exact hdistinct.forall hfound hitem hne (hkey.trans hhash.symm)
      rw [hresult, hsame, wrapInt32_eq_self_iff.mpr (hint item hitem)]
    · exact absurd hhash (hnone item hitem)
  · obtain ⟨found, hfound, hkey, -⟩ | ⟨-, hresult⟩ := hsorted.getAdxId_cases path
    · exact absurd hkey (hnone found hfound)
    · exact hresult

theorem getAdxId_routes_two :
    ∃ table, init .merge [⟨pathHash (bytes "/tanx"), 1⟩, ⟨pathHash (bytes "/baidu"), 3⟩] =
        some table ∧
      getAdxId table (bytes "/baidu") = some 3 ∧ getAdxId table (bytes "/other") = some 0 := by
  have hdistinct : [(⟨pathHash (bytes "/tanx"), 1⟩ : ModuleIndex),
      ⟨pathHash (bytes "/baidu"), 3⟩].Pairwise fun a b => a.moduleHash ≠ b.moduleHash := by
    decide +kernel
  have hint : ∀ item ∈ [(⟨pathHash (bytes "/tanx"), 1⟩ : ModuleIndex),
      ⟨pathHash (bytes "/baidu"), 3⟩], -2 ^ 31 ≤ item.adxId ∧ item.adxId < 2 ^ 31 := by
    decide +kernel
  obtain ⟨table, hinit, hroutes, -⟩ :=
    getAdxId_routes .merge hdistinct (by decide) hint (bytes "/baidu")
  obtain ⟨table', hinit', -, hnone⟩ :=
    getAdxId_routes .merge hdistinct (by decide) hint (bytes "/other")
  cases hinit.symm.trans hinit'
  exact ⟨table, hinit, hroutes ⟨_, 3⟩ (.tail _ (.head _)) rfl, hnone (by decide +kernel)⟩

/-- An exchange id that is no `int` does not come back. -/
theorem getAdxId_long_id :
    ∃ table, init .merge [⟨pathHash (bytes "/tanx"), 2 ^ 32⟩] = some table ∧
      getAdxId table (bytes "/tanx") = some 0 := by
  obtain ⟨table, hinit, hsorted⟩ :=
    @init_sorted .merge [⟨pathHash (bytes "/tanx"), 2 ^ 32⟩] (by decide)
  refine ⟨table, hinit, ?_⟩
  obtain ⟨found, hfound, -, hresult⟩ | ⟨-, hresult⟩ := hsorted.getAdxId_cases (bytes "/tanx")
  · rw [hresult, List.mem_singleton.mp hfound]
    decide
  · exact hresult

end AdServer.Bid
