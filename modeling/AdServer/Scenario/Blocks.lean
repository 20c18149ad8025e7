import AdServer.Scenario.Table

/-!
Tables of aligned blocks. The and of the two ends of an aligned block is its start, and the
addresses of the block have all its bits. If the blocks are disjoint, the greatest start that
is at most the address is the start of its block, so the lookup finds the block. This needs a
table that an `int` can count.
-/
namespace AdServer.Scenario

/-- A block of `2 ^ k` addresses at a multiple of `2 ^ k`. -/
def Rule.IsBlock (r : Rule) : Prop :=
  ∃ k ≤ 31, 2 ^ k ∣ r.start ∧ r.finish + 1 = r.start + 2 ^ k

namespace Rule

variable {r s : Rule} {address : Nat}

instance : Std.Symm Apart := ⟨fun _ _ h address hboth => h address hboth.symm⟩

theorem IsBlock.contains_start (h : r.IsBlock) : r.Contains r.start := by
  obtain ⟨k, -, -, hfinish⟩ := h
  have hpos := Nat.two_pow_pos k
  exact ⟨Nat.le_refl _, by omega⟩

theorem IsBlock.and_start (h : r.IsBlock) (haddress : r.Contains address) :
    address &&& r.start = r.start := by
  obtain ⟨k, -, haligned, hfinish⟩ := h
  obtain ⟨hlow, hhigh⟩ := haddress
  have hand : (r.start + (address - r.start)) &&& r.start = r.start :=
    and_of_aligned haligned (by omega)
  rwa [Nat.add_sub_cancel' hlow] at hand

theorem IsBlock.network (h : r.IsBlock) : r.network = r.start := by
  have hlast : r.Contains r.finish := ⟨h.contains_start.2, Nat.le_refl _⟩
  rw [Rule.network, Nat.and_comm, h.and_start hlast]

end Rule

section
variable {rules : List Rule} {r s : Rule} {address : Nat}

/-- Two blocks of a disjoint table that share an address are the same. -/
theorem eq_of_contains (hdisjoint : rules.Pairwise Rule.Apart) (hr : r ∈ rules) (hs : s ∈ rules)
    (hraddress : r.Contains address) (hsaddress : s.Contains address) : r = s := by
  by_contra hne
  exact hdisjoint.forall hr hs hne address ⟨hraddress, hsaddress⟩

/-- The predecessor of an address among the starts is the start of its block. -/
theorem isGreatest_start (hblocks : ∀ r ∈ rules, r.IsBlock)
    (hdisjoint : rules.Pairwise Rule.Apart) (hr : r ∈ rules) (haddress : r.Contains address) :
    IsGreatest (candidates rules address) r.start := by
  refine ⟨⟨?_, haddress.1⟩, ?_⟩
  · rw [← (hblocks r hr).network]
    exact List.mem_map_of_mem hr
  · rintro network ⟨hmem, hle⟩
    obtain ⟨s, hs, rfl⟩ := List.mem_map.mp hmem
    rw [(hblocks s hs).network] at hle ⊢
    by_contra hlt
    -- the start of the other block would lie in this one
    have hinside : r.Contains s.start := ⟨by omega, Nat.le_trans hle haddress.2⟩
    rw [eq_of_contains hdisjoint hr hs hinside (hblocks s hs).contains_start] at hlt
    exact hlt (Nat.le_refl _)

theorem firstScenario_start (hblocks : ∀ r ∈ rules, r.IsBlock)
    (hdisjoint : rules.Pairwise Rule.Apart) (hr : r ∈ rules) :
    firstScenario rules r.start = some r.scenario := by
  have hsome : r.start ∈ rules.map Rule.network := by
    rw [← (hblocks r hr).network]
    exact List.mem_map_of_mem hr
  obtain ⟨scenario, hscenario⟩ := Option.isSome_iff_exists.mp (isSome_firstScenario.mpr hsome)
  rw [firstScenario, Option.map_eq_some_iff] at hscenario
  obtain ⟨s, hfind, -⟩ := hscenario
  have hs := List.mem_of_find?_eq_some hfind
  have hstart : s.network = r.start := by simpa using List.find?_some hfind
  rw [(hblocks s hs).network] at hstart
  have heq : r = s := by
    refine eq_of_contains hdisjoint hr hs (hblocks r hr).contains_start ?_
    rw [← hstart]
    exact (hblocks s hs).contains_start
  rw [firstScenario, hfind, heq]
  rfl

end

/-- In a table of fewer than `2 ^ 31` disjoint aligned blocks, in any order, every address of
a block gets the scenario of the block. -/
theorem scenarioOf_block (other : Int) (text : Bytes) (rules : List Rule)
    (hfile : RuleFile text rules none) (hblocks : ∀ r ∈ rules, r.IsBlock)
    (hdisjoint : rules.Pairwise Rule.Apart) (hsize : rules.length < 2 ^ 31) (r : Rule)
    (hr : r ∈ rules) (ip : Bytes) (address : Nat) (hip : DottedQuad ip address)
    (haddress : r.Contains address) : scenarioOf other text ip = some r.scenario := by
  have hcount : networkCount rules < 2 ^ 31 := Nat.lt_of_le_of_lt (networkCount_le rules) hsize
  rw [hfile.scenarioOf hcount, getScenario_of_greatest other hcount hip
      (isGreatest_start hblocks hdisjoint hr haddress),
    if_pos ((hblocks r hr).and_start haddress), firstScenario_start hblocks hdisjoint hr,
    Option.getD_some]

theorem scenarioOf_block_sample :
    scenarioOf 0 (fileText [sampleRule 1]) (quadText 16777300) = some 1 := by
  have hblock : (sampleRule 1).IsBlock := ⟨8, by decide, ⟨65536, by decide⟩, by decide⟩
  refine scenarioOf_block 0 _ [sampleRule 1] (sampleRule_file (by decide)) ?_
    (List.pairwise_singleton _ _) (by decide) (sampleRule 1) (List.mem_singleton.mpr rfl) _ 16777300
    (dottedQuad_quadText (by decide)) ⟨by decide, by decide⟩
  rw [List.forall_mem_singleton]
  exact hblock

def singles (n : Nat) : List Rule := (List.range n).map fun address => ⟨address, address, 1⟩

theorem mem_singles {n : Nat} {r : Rule} :
    r ∈ singles n ↔ ∃ address < n, r = ⟨address, address, 1⟩ := by
  simp only [singles, List.mem_map, List.mem_range, eq_comm]

theorem isBlock_singles {n : Nat} {r : Rule} (hr : r ∈ singles n) : r.IsBlock := by
  obtain ⟨address, -, rfl⟩ := mem_singles.mp hr
  exact ⟨0, Nat.zero_le _, Nat.one_dvd _, rfl⟩

theorem pairwise_singles (n : Nat) : (singles n).Pairwise Rule.Apart := by
  rw [singles, List.pairwise_map]
  refine List.nodup_range.imp ?_
  rintro a b hne address ⟨ha, hb⟩
  exact hne ((Nat.le_antisymm ha.1 ha.2).trans (Nat.le_antisymm hb.2 hb.1))

theorem networkCount_singles (n : Nat) : networkCount (singles n) = n := by
  have hnetworks : (singles n).map Rule.network = List.range n := by
    rw [singles, List.map_map]
    refine List.map_id'' (fun address => ?_) _
    exact Nat.and_self address
  rw [networkCount, hnetworks, List.toFinset_card_of_nodup List.nodup_range, List.length_range]

theorem ruleFile_singles {n : Nat} (hn : n ≤ 2 ^ 32) :
    RuleFile (fileText (singles n)) (singles n) none := by
  refine ruleFile_fileText ?_
  intro r hr
  obtain ⟨address, hlt, rfl⟩ := mem_singles.mp hr
  have haddress : address < 2 ^ 32 := Nat.lt_of_lt_of_le hlt hn
  have hone : -2 ^ 31 ≤ (1 : Int) ∧ (1 : Int) < 2 ^ 31 := by decide
  exact ⟨haddress, haddress, hone⟩

/-- With `2 ^ 31` blocks the counter of the table overflows. -/
theorem blocks_overflow :
    ∃ text rules r ip address, RuleFile text rules none ∧ (∀ r ∈ rules, r.IsBlock) ∧
      rules.Pairwise Rule.Apart ∧ r ∈ rules ∧ DottedQuad ip address ∧ r.Contains address ∧
      ∀ other, scenarioOf other text ip ≠ some r.scenario := by
  have hfile : RuleFile (fileText (singles (2 ^ 31))) (singles (2 ^ 31)) none :=
    ruleFile_singles (by omega)
  have hr : (⟨0, 0, 1⟩ : Rule) ∈ singles (2 ^ 31) := mem_singles.mpr ⟨0, by omega, rfl⟩
  refine ⟨_, _, ⟨0, 0, 1⟩, quadText 0, 0, hfile, fun _ => isBlock_singles, pairwise_singles _, hr,
    dottedQuad_quadText (by omega), ⟨Nat.le_refl _, Nat.le_refl _⟩, ?_⟩
  intro other
  rw [hfile.scenarioOf_of_overflow (by rw [networkCount_singles])]
  exact nofun

end AdServer.Scenario
