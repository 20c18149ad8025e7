import Mathlib.Data.List.AList
import Mathlib.Data.Finset.Card
import AdServer.Library.Predecessor
import AdServer.Scenario.Address

/-!
The scenario table. A rule file has a line `start end scenario` for each range. The loader
keeps the bitwise and of the two ends and forgets the range. A lookup takes the greatest of
these values that is at most the address and answers with its scenario if all its bits are
bits of the address.
-/
namespace AdServer.Scenario

open Predecessor

abbrev ScenarioDict := AList fun _ : Nat => Int

/-- `std::map::insert`, which keeps the entry that is there. -/
def ScenarioDict.insertNew (cidr : Nat) (scenario : Int) (dict : ScenarioDict) :
    ScenarioDict :=
  if (dict.lookup cidr).isSome then dict else dict.insert cidr scenario

/-- One turn of the loop of `loadScenarioData`. A line without three parts is only reported.
`none` is the exception of `std::stoi` or an address with fewer than four parts. -/
def addRule (dict : ScenarioDict) (line : Bytes) : Option ScenarioDict :=
  match line.splitOn (byte ' ') with
  | [start, finish, scenario] => do
    let ipStart ← ipValue start
    let ipEnd ← ipValue finish
    let scenario ← stoi scenario
    some (dict.insertNew (ipStart &&& ipEnd) scenario)
  | _ => some dict

def newline : UInt8 := 10

/-- The lines that `getline` returns before the end of the file is reached. -/
def terminatedLines (text : Bytes) : List Bytes := (text.splitOn newline).dropLast

/-- `loadScenarioData`; `none` for the file is one that cannot be opened. -/
def loadScenarioData (file : Option Bytes) : Option ScenarioDict :=
  match file with
  | none => some ∅
  | some text => (terminatedLines text).foldlM addRule ∅

structure ScenarioManager where
  scenarioDict : ScenarioDict
  cidrTable : List (Nat)

/-- `init` with what the binary file holds, if there is one. The counter of the table is an
`int32_t`, so `none` also stands for a table in which it overflows. -/
def init (binFile : Option ScenarioDict) (scenarioFile : Option Bytes) :
    Option ScenarioManager := do
  let dict ← binFile.orElse fun _ => loadScenarioData scenarioFile
  if dict.keys.length < 2 ^ 31 then some ⟨dict, dict.keys.mergeSort⟩ else none

def bSearch (cidrTable : List (Nat)) (size : Int) (key : Nat) : Int :=
  search (above cidrTable key) 0 (size - 1)

/-- `getScenario` with `SOLUTION_SCENARIO_OTHER` for `other`. -/
def getScenario (other : Int) (manager : ScenarioManager) (ip : Bytes) : Option Int := do
  let ipInt ← ipValue ip
  let pos := bSearch manager.cidrTable (toInt32 manager.scenarioDict.keys.length) ipInt
  if 0 ≤ pos then
    let network ← manager.cidrTable[pos.toNat]?
    if ipInt &&& network = network then some ((manager.scenarioDict.lookup network).getD other)
    else some other
  else some other

/-- The answer for an address after the table was loaded from a rule file. -/
def scenarioOf (other : Int) (text ip : Bytes) : Option Int := do
  let manager ← init none (some text)
  getScenario other manager ip

/-! ### Rule files -/

structure Rule where
  start : Nat
  finish : Nat
  scenario : Int

/-- All that the loader keeps of the range. -/
def Rule.network (r : Rule) : Nat := r.start &&& r.finish

def Rule.Contains (r : Rule) (address : Nat) : Prop := r.start ≤ address ∧ address ≤ r.finish

def Rule.Apart (r s : Rule) : Prop := ∀ address, ¬ (r.Contains address ∧ s.Contains address)

def RuleLine (line : Bytes) (r : Rule) : Prop :=
  ∃ start finish scenario, line = start ++ byte ' ' :: (finish ++ byte ' ' :: scenario) ∧
    DottedQuad start r.start ∧ DottedQuad finish r.finish ∧
    stoi scenario = some r.scenario ∧ byte ' ' ∉ scenario ∧ newline ∉ scenario

/-- The file has a line for each rule, and maybe one for a last rule without a newline. -/
def RuleFile (text : Bytes) (rules : List Rule) (last : Option Rule) : Prop :=
  ∃ lines rest, text = (lines.flatMap fun line => line ++ [newline]) ++ rest ∧
    List.Forall₂ RuleLine lines rules ∧
    ((rest = [] ∧ last = none) ∨ ∃ r, RuleLine rest r ∧ last = some r)

def firstScenario (rules : List Rule) (network : Nat) : Option Int :=
  (rules.find? fun r => r.network = network).map Rule.scenario

/-! ### What the loader keeps -/

theorem lookup_insertNew (dict : ScenarioDict) (cidr : Nat) (scenario : Int) (network : Nat) :
    (dict.insertNew cidr scenario).lookup network =
      (dict.lookup network).or (if cidr = network then some scenario else none) := by
  unfold ScenarioDict.insertNew
  split
  · rename_i hsome
    split
    · rename_i heq
      obtain ⟨old, hold⟩ := Option.isSome_iff_exists.mp hsome
      rw [← heq, hold]
      rfl
    · rw [Option.or_none]
  · rename_i hnone
    rw [Bool.not_eq_true, Option.isSome_eq_false_iff, Option.isNone_iff_eq_none] at hnone
    split
    · rename_i heq
      rw [← heq, AList.lookup_insert, hnone]
      rfl
    · rename_i hne
      rw [AList.lookup_insert_ne (Ne.symm hne), Option.or_none]

def dictOf (rules : List Rule) : ScenarioDict :=
  rules.foldl (fun dict r => dict.insertNew r.network r.scenario) ∅

theorem lookup_foldl_insertNew (rules : List Rule) (dict : ScenarioDict) (network : Nat) :
    (rules.foldl (fun dict r => dict.insertNew r.network r.scenario) dict).lookup network =
      (dict.lookup network).or (firstScenario rules network) := by
  induction rules generalizing dict with
  | nil => rw [List.foldl_nil, firstScenario, List.find?_nil, Option.map_none, Option.or_none]
  | cons r rules ih =>
      rw [List.foldl_cons, ih, lookup_insertNew, Option.or_assoc]
      congr 1
      unfold firstScenario
      by_cases heq : r.network = network
      · rw [if_pos heq, List.find?_cons_of_pos (by simpa using heq)]
        rfl
      · rw [if_neg heq, List.find?_cons_of_neg (by simpa using heq), Option.none_or]

theorem lookup_dictOf (rules : List Rule) (network : Nat) :
    (dictOf rules).lookup network = firstScenario rules network := by
  rw [dictOf, lookup_foldl_insertNew, AList.lookup_empty, Option.none_or]

theorem isSome_firstScenario {rules : List Rule} {network : Nat} :
    (firstScenario rules network).isSome ↔ network ∈ rules.map Rule.network := by
  simp [firstScenario]

theorem mem_keys_dictOf {rules : List Rule} {network : Nat} :
    network ∈ (dictOf rules).keys ↔ network ∈ rules.map Rule.network := by
  rw [← isSome_firstScenario, ← lookup_dictOf, AList.lookup_isSome, AList.mem_keys]

def networkCount (rules : List Rule) : Nat := (rules.map Rule.network).toFinset.card

theorem networkCount_le (rules : List Rule) : networkCount rules ≤ rules.length := by
  have hcard := List.toFinset_card_le (rules.map Rule.network)
  rwa [List.length_map] at hcard

theorem length_keys_dictOf (rules : List Rule) :
    (dictOf rules).keys.length = networkCount rules := by
  have hset : (dictOf rules).keys.toFinset = (rules.map Rule.network).toFinset := by
    ext network
    rw [List.mem_toFinset, List.mem_toFinset, mem_keys_dictOf]
  rw [networkCount, ← hset, List.toFinset_card_of_nodup (dictOf rules).keys_nodup]

/-! ### Reading the file -/

theorem RuleLine.newline_notMem {line : Bytes} {r : Rule} (h : RuleLine line r) :
    newline ∉ line := by
  obtain ⟨start, finish, scenario, rfl, hstart, hfinish, -, -, hscenario⟩ := h
  have hspace : newline ≠ byte ' ' := by decide
  simp only [List.mem_append, List.mem_cons, hspace, hstart.notMem (c := newline) (by decide)
    (by decide), hfinish.notMem (c := newline) (by decide) (by decide), hscenario, or_self,
    not_false_eq_true]

theorem newline_notMem_lines {lines : List Bytes} {rules : List Rule}
    (h : List.Forall₂ RuleLine lines rules) : ∀ line ∈ lines, newline ∉ line := by
  induction h with
  | nil => exact nofun
  | cons hline _ ih => exact List.forall_mem_cons.mpr ⟨hline.newline_notMem, ih⟩

theorem RuleLine.addRule {line : Bytes} {r : Rule} (h : RuleLine line r) (dict : ScenarioDict) :
    addRule dict line = some (dict.insertNew r.network r.scenario) := by
  obtain ⟨start, finish, scenario, rfl, hstart, hfinish, hstoi, hspace, -⟩ := h
  have hsplit : (start ++ byte ' ' :: (finish ++ byte ' ' :: scenario)).splitOn (byte ' ') =
      [start, finish, scenario] := by
    rw [List.splitOn_append_cons_self_of_not_mem (hstart.notMem (by decide) (by decide)),
      List.splitOn_append_cons_self_of_not_mem (hfinish.notMem (by decide) (by decide)),
      List.splitOn_eq_singleton hspace]
  simp only [AdServer.Scenario.addRule, hsplit, hstart.ipValue, hfinish.ipValue, hstoi,
    Option.bind_eq_bind, Option.bind_some, Rule.network]

theorem splitOn_lines {lines : List Bytes} (hlines : ∀ line ∈ lines, newline ∉ line) {rest : Bytes}
    (hrest : newline ∉ rest) :
    ((lines.flatMap fun line => line ++ [newline]) ++ rest).splitOn newline = lines ++ [rest] := by
  induction lines with
  | nil => exact List.splitOn_eq_singleton hrest
  | cons line lines ih =>
      rw [List.forall_mem_cons] at hlines
      rw [List.flatMap_cons, List.append_assoc, List.append_assoc, List.singleton_append,
        List.splitOn_append_cons_self_of_not_mem hlines.1, ih hlines.2, List.cons_append]

theorem foldlM_addRule {lines : List Bytes} {rules : List Rule}
    (h : List.Forall₂ RuleLine lines rules) (dict : ScenarioDict) :
    lines.foldlM addRule dict =
      some (rules.foldl (fun dict r => dict.insertNew r.network r.scenario) dict) := by
  induction h generalizing dict with
  | nil => rfl
  | cons hline _ ih =>
      rw [List.foldlM_cons, hline.addRule, Option.bind_eq_bind, Option.bind_some, ih,
        List.foldl_cons]

/-- The rules on terminated lines are loaded, and a last line without a newline is not. -/
theorem RuleFile.loadScenarioData {text : Bytes} {rules : List Rule} {last : Option Rule}
    (h : RuleFile text rules last) : loadScenarioData (some text) = some (dictOf rules) := by
  obtain ⟨lines, rest, rfl, hrules, hlast⟩ := h
  have hrest : newline ∉ rest := by
    rcases hlast with ⟨rfl, -⟩ | ⟨r, hr, -⟩
    · exact List.not_mem_nil
    · exact hr.newline_notMem
  rw [AdServer.Scenario.loadScenarioData, terminatedLines,
    splitOn_lines (newline_notMem_lines hrules) hrest,
    List.dropLast_concat, foldlM_addRule hrules, dictOf]

theorem RuleFile.init {text : Bytes} {rules : List Rule} {last : Option Rule}
    (h : RuleFile text rules last) :
    init none (some text) =
      if networkCount rules < 2 ^ 31 then
        some ⟨dictOf rules, (dictOf rules).keys.mergeSort⟩ else none := by
  simp only [AdServer.Scenario.init, Option.orElse_none, h.loadScenarioData, Option.bind_eq_bind,
    Option.bind_some, length_keys_dictOf]

/-! ### Files of given rules -/

def ruleText (r : Rule) : Bytes :=
  quadText r.start ++ byte ' ' :: (quadText r.finish ++ byte ' ' :: Url.intToString r.scenario)

def fileText (rules : List Rule) : Bytes := rules.flatMap fun r => ruleText r ++ [newline]

structure Rule.Valid (r : Rule) : Prop where
  start : r.start < 2 ^ 32
  finish : r.finish < 2 ^ 32
  scenario : -2 ^ 31 ≤ r.scenario ∧ r.scenario < 2 ^ 31

theorem Rule.Valid.ruleLine {r : Rule} (h : r.Valid) : RuleLine (ruleText r) r :=
  ⟨_, _, _, rfl, dottedQuad_quadText h.start, dottedQuad_quadText h.finish,
    Url.stoi_intToString h.scenario, Url.notMem_intToString (by decide) (by decide) _,
    Url.notMem_intToString (by decide) (by decide) _⟩

theorem ruleFile_fileText {rules : List Rule} (h : ∀ r ∈ rules, r.Valid) :
    RuleFile (fileText rules) rules none := by
  refine ⟨rules.map ruleText, [], ?_, ?_, .inl ⟨rfl, rfl⟩⟩
  · rw [fileText, List.flatMap_map, List.append_nil]
  · rw [List.forall₂_map_left_iff, List.forall₂_same]
    exact fun r hr => (h r hr).ruleLine

/-! ### The lookup -/

/-- The values of the rules that are at most the address. -/
def candidates (rules : List Rule) (address : Nat) : Set Nat :=
  {network | network ∈ rules.map Rule.network ∧ network ≤ address}

section
variable {rules : List Rule} {ip : Bytes} {address network : Nat}

/-- The search ends at the greatest candidate, if there is one. -/
theorem bSearch_dictOf (hsize : networkCount rules < 2 ^ 31) (address : Nat) :
    ∃ pos,
      bSearch (dictOf rules).keys.mergeSort (toInt32 (dictOf rules).keys.length) address = pos ∧
      ((pos < 0 ∧ ∀ network ∈ rules.map Rule.network, address < network) ∨
        (0 ≤ pos ∧ ∃ network, (dictOf rules).keys.mergeSort[pos.toNat]? = some network ∧
          IsGreatest (candidates rules address) network)) := by
  have hsorted : (dictOf rules).keys.mergeSort.Pairwise (· ≤ ·) := by
    have hle := @List.pairwise_mergeSort Nat (fun a b => decide (a ≤ b))
      (fun a b c => by simpa using Nat.le_trans) (fun a b => by simpa using Nat.le_total a b)
      (dictOf rules).keys
    simpa using hle
  have hmem : ∀ network, network ∈ (dictOf rules).keys.mergeSort ↔
      network ∈ rules.map Rule.network := by
    intro network
    rw [List.mem_mergeSort, mem_keys_dictOf]
  obtain ⟨pos, hpos, hcases⟩ := search_sorted hsorted address
  refine ⟨pos, ?_, ?_⟩
  · rw [bSearch, toInt32_of_lt (by rw [length_keys_dictOf]; exact hsize), ← hpos,
      List.length_mergeSort]
  · simpa only [hmem, candidates] using hcases

theorem getScenario_of_greatest (other : Int) (hsize : networkCount rules < 2 ^ 31)
    (hip : DottedQuad ip address) (hnetwork : IsGreatest (candidates rules address) network) :
    getScenario other ⟨dictOf rules, (dictOf rules).keys.mergeSort⟩ ip =
      some (if address &&& network = network then (firstScenario rules network).getD other
        else other) := by
  obtain ⟨pos, hpos, hnone | ⟨hge, found, hfound, hgreatest⟩⟩ := bSearch_dictOf hsize address
  · exact absurd (hnone.2 network hnetwork.1.1) (Nat.not_lt.mpr hnetwork.1.2)
  · have heq : found = network := hgreatest.unique hnetwork
    simp only [getScenario, hip.ipValue, Option.bind_eq_bind, Option.bind_some, hpos, if_pos hge,
      hfound, heq, lookup_dictOf]
    split <;> rfl

theorem getScenario_of_none (other : Int) (hsize : networkCount rules < 2 ^ 31)
    (hip : DottedQuad ip address)
    (hnone : ∀ network ∈ rules.map Rule.network, address < network) :
    getScenario other ⟨dictOf rules, (dictOf rules).keys.mergeSort⟩ ip = some other := by
  obtain ⟨pos, hpos, hneg | ⟨-, network, -, hgreatest⟩⟩ := bSearch_dictOf hsize address
  · simp only [getScenario, hip.ipValue, Option.bind_eq_bind, Option.bind_some, hpos,
      if_neg (Int.not_le.mpr hneg.1)]
  · exact absurd (hnone network hgreatest.1.1) (Nat.not_lt.mpr hgreatest.1.2)

end

/-- The greatest candidate has all its bits in the address, and its first rule has another
scenario than `other`. -/
def Mistaken (other : Int) (rules : List Rule) (address : Nat) : Prop :=
  ∃ network, IsGreatest (candidates rules address) network ∧ address &&& network = network ∧
    firstScenario rules network ≠ some other

section
variable {text : Bytes} {rules : List Rule} {last : Option Rule} {ip : Bytes}
  {address network : Nat}

theorem RuleFile.scenarioOf (h : RuleFile text rules last) (hsize : networkCount rules < 2 ^ 31)
    (other : Int) (ip : Bytes) :
    scenarioOf other text ip =
      getScenario other ⟨dictOf rules, (dictOf rules).keys.mergeSort⟩ ip := by
  simp only [AdServer.Scenario.scenarioOf, h.init, if_pos hsize, Option.bind_eq_bind,
    Option.bind_some]

theorem RuleFile.scenarioOf_of_overflow (h : RuleFile text rules last)
    (hsize : 2 ^ 31 ≤ networkCount rules) (other : Int) (ip : Bytes) :
    AdServer.Scenario.scenarioOf other text ip = none := by
  simp only [AdServer.Scenario.scenarioOf, h.init, if_neg (Nat.not_lt.mpr hsize),
    Option.bind_eq_bind, Option.bind_none]

theorem mistaken_iff (other : Int) (hnetwork : IsGreatest (candidates rules address) network) :
    Mistaken other rules address ↔
      (if address &&& network = network then (firstScenario rules network).getD other
        else other) ≠ other := by
  obtain ⟨scenario, hscenario⟩ :=
    Option.isSome_iff_exists.mp (isSome_firstScenario.mpr hnetwork.1.1)
  rw [hscenario, Option.getD_some]
  refine ⟨?_, ?_⟩
  · rintro ⟨found, hfound, hbits, hne⟩
    rw [hfound.unique hnetwork] at hbits hne
    rw [if_pos hbits]
    rintro rfl
    exact hne hscenario
  · intro hne
    split at hne
    · rename_i hbits
      refine ⟨network, hnetwork, hbits, ?_⟩
      rw [hscenario]
      exact fun heq => hne (Option.some.inj heq)
    · exact absurd rfl hne

/-- The table answers `other` for an address exactly if it can hold all values and the
greatest candidate does not mistake the address for one of its own. -/
theorem scenarioOf_other_iff (other : Int) (text : Bytes) (rules : List Rule) (last : Option Rule)
    (hfile : RuleFile text rules last) (ip : Bytes) (address : Nat)
    (hip : DottedQuad ip address) :
    scenarioOf other text ip = some other ↔
      networkCount rules < 2 ^ 31 ∧ ¬ Mistaken other rules address := by
  by_cases hsize : networkCount rules < 2 ^ 31
  · rw [hfile.scenarioOf hsize, and_iff_right hsize]
    obtain ⟨pos, -, ⟨-, hnone⟩ | ⟨-, network, -, hnetwork⟩⟩ := bSearch_dictOf hsize address
    · rw [getScenario_of_none other hsize hip hnone]
      refine iff_of_true rfl ?_
      rintro ⟨network, hnetwork, -⟩
      exact absurd (hnone network hnetwork.1.1) (Nat.not_lt.mpr hnetwork.1.2)
    · rw [getScenario_of_greatest other hsize hip hnetwork, mistaken_iff other hnetwork,
        Option.some.injEq, not_not]
  · rw [hfile.scenarioOf_of_overflow (Nat.le_of_not_lt hsize)]
    exact iff_of_false nofun fun h => hsize h.1

end

/-- An address of an aligned block has all the bits of its start. -/
theorem and_of_aligned {start offset k : Nat} (haligned : 2 ^ k ∣ start)
    (hoffset : offset < 2 ^ k) :
    (start + offset) &&& start = start := by
  obtain ⟨a, rfl⟩ := haligned
  rw [Nat.two_pow_add_eq_or_of_lt hoffset]
  apply Nat.eq_of_testBit_eq
  intro i
  rw [Nat.testBit_and, Nat.testBit_or]
  cases (2 ^ k * a).testBit i <;> simp

/-- The rule `1.0.0.0 1.0.0.255`. -/
def sampleRule (scenario : Int) : Rule := ⟨16777216, 16777471, scenario⟩

theorem network_sampleRule (scenario : Int) : (sampleRule scenario).network = 16777216 := by
  have hnetwork : (16777216 + 255) &&& 16777216 = 16777216 :=
    and_of_aligned (k := 8) ⟨65536, by decide⟩ (by decide)
  rw [Nat.and_comm] at hnetwork
  exact hnetwork

theorem map_network_sampleRule (scenario : Int) :
    [sampleRule scenario].map Rule.network = [16777216] := by
  rw [List.map_singleton, network_sampleRule]

theorem networkCount_sampleRule (scenario : Int) : networkCount [sampleRule scenario] < 2 ^ 31 := by
  rw [networkCount, map_network_sampleRule]
  decide

theorem sampleRule_file {scenario : Int} (h : -2 ^ 31 ≤ scenario ∧ scenario < 2 ^ 31) :
    RuleFile (fileText [sampleRule scenario]) [sampleRule scenario] none := by
  refine ruleFile_fileText ?_
  rw [List.forall_mem_singleton]
  exact ⟨by simp [sampleRule], by simp [sampleRule], h⟩

theorem scenarioOf_other_iff_sample :
    scenarioOf 0 (fileText [sampleRule 1]) (quadText 1) = some 0 := by
  refine (scenarioOf_other_iff 0 _ _ none (sampleRule_file (by decide)) _ 1
    (dottedQuad_quadText (by decide))).mpr ⟨networkCount_sampleRule 1, ?_⟩
  rintro ⟨network, ⟨⟨hmem, hle⟩, -⟩, -⟩
  rw [map_network_sampleRule, List.mem_singleton] at hmem
  omega

/-- With the rule `1.0.0.0 1.0.0.255` the address `1.1.0.0` gets the scenario of the rule. -/
theorem scenarioOf_sampleRule (other : Int) {scenario : Int}
    (hrange : -2 ^ 31 ≤ scenario ∧ scenario < 2 ^ 31) :
    scenarioOf other (fileText [sampleRule scenario]) (quadText 16842752) = some scenario := by
  have hip : DottedQuad (quadText 16842752) 16842752 := dottedQuad_quadText (by decide)
  have hsize := networkCount_sampleRule scenario
  have hnetwork : IsGreatest (candidates [sampleRule scenario] 16842752) 16777216 := by
    rw [candidates, map_network_sampleRule]
    refine ⟨⟨List.mem_singleton.mpr rfl, by decide⟩, ?_⟩
    rintro network ⟨hmem, -⟩
    exact Nat.le_of_eq (List.mem_singleton.mp hmem)
  have hfirst : firstScenario [sampleRule scenario] 16777216 = some scenario := by
    rw [firstScenario, List.find?_cons_of_pos (by simp [network_sampleRule])]
    rfl
  have hbits : (16777216 + 65536) &&& 16777216 = 16777216 :=
    and_of_aligned (k := 24) ⟨1, by decide⟩ (by decide)
  rw [(sampleRule_file hrange).scenarioOf hsize, getScenario_of_greatest other hsize hip hnetwork,
    if_pos hbits, hfirst, Option.getD_some]

theorem outside_mistaken :
    ∃ text rules ip address, RuleFile text rules none ∧ (∀ r ∈ rules, r.start ≤ r.finish) ∧
      rules.Pairwise Rule.Apart ∧ DottedQuad ip address ∧ (∀ r ∈ rules, ¬ r.Contains address) ∧
      scenarioOf 0 text ip ≠ some 0 := by
  refine ⟨_, [sampleRule 1], quadText 16842752, 16842752, sampleRule_file (by decide), ?_,
    List.pairwise_singleton _ _, dottedQuad_quadText (by decide), ?_, ?_⟩
  · rw [List.forall_mem_singleton]
    simp [sampleRule]
  · rw [List.forall_mem_singleton]
    simp [Rule.Contains, sampleRule]
  · rw [scenarioOf_sampleRule 0 (by decide)]
    decide

end AdServer.Scenario
