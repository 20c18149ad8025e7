import AdServer.Url.CipherRoundTrip
import AdServer.Url.Reference

/-!
`toUrlParam`: the parameters as one text. Each of them is a segment with a key of its own, so
`getParamv2` finds the same parameters again, in whatever order the map was traversed.
-/
namespace AdServer.Url

def pairText (entry : Bytes × Bytes) : Bytes := entry.1 ++ byte '=' :: entry.2

/-- A loop of `toUrlParam` over a map, with its counter. -/
def appendPairs : Bytes → BitVec 32 → List (Bytes × Bytes) → Bytes
  | data, _, [] => data
  | data, seq, entry :: rest =>
    appendPairs ((if seq ≠ 0#32 then data ++ bytes "&" else data) ++ pairText entry) (seq + 1#32)
      rest

def toUrlParam (order macroOrder : List (Bytes × Bytes)) : Bytes :=
  let data := appendPairs [] 0#32 order
  appendPairs data (if data = [] then 0#32 else 1#32) macroOrder

theorem appendPairs_append (order rest : List (Bytes × Bytes)) (data : Bytes) (seq : BitVec 32) :
    appendPairs data seq (order ++ rest) =
      appendPairs (appendPairs data seq order) (seq + BitVec.ofNat 32 order.length) rest := by
  induction order generalizing data seq with
  | nil => rw [List.length_nil, BitVec.add_zero]; rfl
  | cons entry order ih =>
      rw [List.cons_append, appendPairs, ih, appendPairs, List.length_cons, Nat.add_comm,
        BitVec.ofNat_add, BitVec.add_assoc]

/-- Every entry leaves a byte at least. -/
theorem length_le_length_appendPairs (order : List (Bytes × Bytes)) (data : Bytes)
    (seq : BitVec 32) : order.length + data.length ≤ (appendPairs data seq order).length := by
  induction order generalizing data seq with
  | nil => exact Nat.le_of_eq (Nat.zero_add _)
  | cons entry order ih =>
      have hrest := ih ((if seq ≠ 0#32 then data ++ bytes "&" else data) ++ pairText entry)
        (seq + 1#32)
      have hdata : data.length ≤ (if seq ≠ 0#32 then data ++ bytes "&" else data).length := by
        split
        · exact (List.prefix_append _ _).length_le
        · exact Nat.le_refl _
      have hpair : (pairText entry).length = entry.1.length + (entry.2.length + 1) := by
        rw [pairText, List.length_append, List.length_cons]
      rw [List.length_append, hpair] at hrest
      rw [appendPairs, List.length_cons]
      omega

/-- The counter does not come back to zero below as many entries as it has values. -/
theorem appendPairs_of_pos (order : List (Bytes × Bytes)) (data : Bytes) {seq : Nat}
    (hseq : 0 < seq) (hcount : seq + order.length ≤ 2 ^ 32) :
    appendPairs data (BitVec.ofNat 32 seq) order =
      data ++ order.flatMap fun entry => byte '&' :: pairText entry := by
  have hamp : bytes "&" = [byte '&'] := by decide
  induction order generalizing data seq with
  | nil => simp [appendPairs]
  | cons entry rest ih =>
      rw [List.length_cons] at hcount
      have hne : BitVec.ofNat 32 seq ≠ 0#32 := by
        intro hzero
        have htoNat := congrArg BitVec.toNat hzero
        rw [BitVec.toNat_ofNat, Nat.mod_eq_of_lt (by omega)] at htoNat
        exact Nat.ne_of_gt hseq htoNat
      rw [appendPairs, if_pos hne, ← BitVec.ofNat_add, ih _ (Nat.succ_pos seq) (by omega), hamp]
      simp

theorem toUrlParam_cons (entry : Bytes × Bytes) {order : List (Bytes × Bytes)}
    (hcount : order.length < 2 ^ 32) :
    toUrlParam (entry :: order) [] =
      pairText entry ++ order.flatMap fun entry => byte '&' :: pairText entry := by
  rw [toUrlParam, appendPairs, appendPairs, if_neg (by simp), List.nil_append, BitVec.zero_add,
    appendPairs_of_pos order _ Nat.one_pos (by omega)]

theorem toUrlParam_eq_intercalate {order : List (Bytes × Bytes)} (hcount : order.length ≤ 2 ^ 32) :
    toUrlParam order [] = [byte '&'].intercalate (order.map pairText) := by
  cases order with
  | nil => rfl
  | cons entry rest =>
      rw [toUrlParam_cons entry hcount]
      clear hcount
      induction rest generalizing entry with
      | nil => simp [List.intercalate]
      | cons next rest ih =>
          rw [List.flatMap_cons, List.cons_append, ih]
          simp [List.intercalate]

/-- A parameter whose text can be read back. -/
structure PlainEntry (entry : Bytes × Bytes) : Prop where
  name : entry.1 ≠ []
  noEquals : byte '=' ∉ entry.1
  noSeperator : byte '&' ∉ entry.1
  noNul : (0 : UInt8) ∉ entry.1
  noSpace : entry.1.head? ≠ some (byte ' ')
  value : entry.2 ≠ []
  valueSeperator : byte '&' ∉ entry.2
  valueNul : (0 : UInt8) ∉ entry.2
  valueSpace : entry.2.head? ≠ some (byte ' ')

theorem dropSpaces_eq_self {text : Bytes} (h : text.head? ≠ some (byte ' ')) :
    dropSpaces text = text := by
  cases text with
  | nil => rfl
  | cons c cs =>
      rw [dropSpaces, List.dropWhile_cons_of_neg]
      simpa using h

namespace PlainEntry

variable {entry : Bytes × Bytes}

theorem keyed (h : PlainEntry entry) : keyed (pairText entry) = (some entry.1, entry.2) := by
  rw [Url.keyed, pairText, keyedFrom_append h.noEquals, List.nil_append,
    dropSpaces_eq_self h.noSpace, if_pos h.name]

theorem seperator_notMem (h : PlainEntry entry) : byte '&' ∉ pairText entry := by
  rw [pairText, List.mem_append, List.mem_cons, not_or, not_or]
  exact ⟨h.noSeperator, by decide, h.valueSeperator⟩

theorem nul_notMem (h : PlainEntry entry) : (0 : UInt8) ∉ pairText entry := by
  rw [pairText, List.mem_append, List.mem_cons, not_or, not_or]
  exact ⟨h.noNul, by decide, h.valueNul⟩

end PlainEntry

theorem assignments_pairText (key : Bytes) (order : List (Bytes × Bytes))
    (h : ∀ entry ∈ order, PlainEntry entry) :
    (assignments key (order.map pairText)).map Assignment.entry = order := by
  induction order generalizing key with
  | nil => rfl
  | cons entry rest ih =>
      have hentry := h entry List.mem_cons_self
      cases rest with
      | nil => simp [assignments, hentry.keyed, hentry.value, Assignment.entry]
      | cons next rest =>
          have hrest := ih entry.1 fun e he => h e (List.mem_cons_of_mem entry he)
          rw [List.map_cons] at hrest
          rw [List.map_cons, List.map_cons, assignments, List.map_cons, hentry.keyed,
            Option.getD_some, hrest, dropSpaces_eq_self hentry.valueSpace]
          rfl

theorem nul_notMem_toUrlParam {order : List (Bytes × Bytes)}
    (hcount : order.length ≤ 2 ^ 32) (h : ∀ entry ∈ order, PlainEntry entry) :
    (0 : UInt8) ∉ toUrlParam order [] := by
  cases order with
  | nil => exact List.not_mem_nil
  | cons entry rest =>
      rw [toUrlParam_cons entry hcount, List.mem_append, List.mem_flatMap, not_or]
      refine ⟨(h entry List.mem_cons_self).nul_notMem, ?_⟩
      rintro ⟨e, he, hmem⟩
      rcases List.mem_cons.mp hmem with hamp | hpair
      · exact absurd hamp (by decide)
      · exact (h e (List.mem_cons_of_mem entry he)).nul_notMem hpair

theorem bindAll_traversal {m : ParamMap} {order : List (Bytes × Bytes)} (h : m.Traversal order) :
    bindAll order = m := by
  refine Finmap.ext_lookup fun key => ?_
  rw [lookup_bindAll]
  cases hlast : LastWrite.last? (fun entry => decide (entry.1 = key)) order with
  | some entry =>
      obtain ⟨hkey, hmem⟩ := LastWrite.last?_some hlast
      rw [Option.map_some, ← of_decide_eq_true hkey]
      exact ((h.2 entry.1 entry.2).mp hmem).symm
  | none =>
      rw [Option.map_none, eq_comm, Option.eq_none_iff_forall_ne_some]
      intro value hvalue
      have hmem := List.mem_reverse.mpr ((h.2 key value).mpr hvalue)
      simpa using List.find?_eq_none.mp hlast _ hmem

/-- Printed entries are read back one by one. -/
theorem getParamv2_entries {order : List (Bytes × Bytes)} (hcount : order.length ≤ 2 ^ 32)
    (hentries : ∀ entry ∈ order, PlainEntry entry) :
    getParamv2 ∅ (toUrlParam order []) (byte '&') = some (bindAll order) := by
  rw [getParamv2_eq_scan, cString_of_notMem (nul_notMem_toUrlParam hcount hentries),
    run_segments (by decide), if_neg (by simp [pointersCross, byte]), foldl_apply,
    toUrlParam_eq_intercalate hcount, Option.some_inj]
  refine congrArg bindAll ?_
  by_cases hnil : order = []
  · rw [hnil]
    rfl
  · rw [List.splitOn_intercalate, assignments_pairText [] order hentries]
    · intro text htext
      obtain ⟨entry, hentry, rfl⟩ := List.mem_map.mp htext
      exact (hentries entry hentry).seperator_notMem
    · rwa [ne_eq, List.map_eq_nil_iff]

theorem PlainEntry.of_traversal {m : ParamMap} {order : List (Bytes × Bytes)}
    (horder : m.Traversal order)
    (hplain : ∀ key value, m.lookup key = some value → PlainEntry (key, value)) :
    ∀ entry ∈ order, PlainEntry entry := fun entry hentry =>
  hplain entry.1 entry.2 ((horder.2 entry.1 entry.2).mp hentry)

/-- The parameters survive `toUrlParam` and `getParamv2`, in whatever order they are printed, if
the counter can count them. -/
theorem getParamv2_toUrlParam {m : ParamMap} {order : List (Bytes × Bytes)}
    (horder : m.Traversal order) (hcount : order.length < 2 ^ 31)
    (hplain : ∀ key value, m.lookup key = some value → PlainEntry (key, value)) :
    getParamv2 ∅ (toUrlParam order []) (byte '&') = some m := by
  rw [getParamv2_entries (hcount.le.trans (by decide)) (PlainEntry.of_traversal horder hplain),
    bindAll_traversal horder]

theorem getParamv2_toUrlParam_sample :
    getParamv2 ∅ (toUrlParam [(bytes "b c", bytes "x=y z"), (bytes "a", bytes "1")] []) (byte '&') =
      some (Finmap.insert (bytes "b c") (bytes "x=y z")
        (Finmap.insert (bytes "a") (bytes "1") ∅)) := by
  have horder : ParamMap.Traversal (Finmap.insert (bytes "b c") (bytes "x=y z")
      (Finmap.insert (bytes "a") (bytes "1") ∅)) _ :=
    (ParamMap.Traversal.empty.insert (by simp) (bytes "1")).insert (by decide) (bytes "x=y z")
  refine getParamv2_toUrlParam horder (by decide) fun key value hlookup => ?_
  have hmem := (horder.2 key value).mpr hlookup
  simp only [List.mem_cons, List.not_mem_nil, or_false] at hmem
  rcases hmem with heq | heq
  · rw [heq]
    exact ⟨by decide, by decide, by decide, by decide, by decide, by decide, by decide, by decide,
      by decide⟩
  · rw [heq]
    exact ⟨by decide, by decide, by decide, by decide, by decide, by decide, by decide, by decide,
      by decide⟩

/-- When the counter is zero again, an entry is printed to the value of the one before. -/
theorem toUrlParam_uncounted {order : List (Bytes × Bytes)} (hcount : order.length + 1 = 2 ^ 32)
    (entry last : Bytes × Bytes) :
    toUrlParam (order ++ [entry, last]) [] =
      toUrlParam (order ++ [(entry.1, entry.2 ++ pairText last)]) [] := by
  have hzero : BitVec.ofNat 32 order.length + 1#32 = 0#32 := by
    rw [← BitVec.ofNat_add, hcount]
    rfl
  simp only [toUrlParam, appendPairs_append, appendPairs, BitVec.zero_add, hzero, ne_eq,
    not_true_eq_false, if_false, pairText, List.append_assoc, List.cons_append]

theorem exists_traversal {order : List (Bytes × Bytes)} (h : (order.map Prod.fst).Nodup) :
    ∃ m : ParamMap, m.Traversal order := by
  induction order with
  | nil => exact ⟨∅, .empty⟩
  | cons entry order ih =>
      rw [List.map_cons, List.nodup_cons] at h
      obtain ⟨m, hm⟩ := ih h.2
      exact ⟨_, hm.insert h.1 entry.2⟩

/-- A parameter with a number for a name. -/
def numbered (i : Nat) : Bytes × Bytes := (decimal i, bytes "1")

theorem plainEntry_decimal (i : Nat) {value : Bytes} (hvalue : value ≠ [])
    (hseperator : byte '&' ∉ value) (hnul : (0 : UInt8) ∉ value)
    (hspace : value.head? ≠ some (byte ' ')) : PlainEntry (decimal i, value) := by
  have hdigit : ∀ c, isDigit c = false → c ∉ decimal i := fun c hc hmem =>
    absurd (isDigit_of_mem_decimal hmem) (by rw [hc]; decide)
  refine ⟨decimal_ne_nil i, hdigit _ (by decide), hdigit _ (by decide), hdigit _ (by decide), ?_,
    hvalue, hseperator, hnul, hspace⟩
  exact fun h => hdigit (byte ' ') (by decide) (List.mem_of_head? h)

theorem plainEntry_numbered (i : Nat) : PlainEntry (numbered i) :=
  plainEntry_decimal i (by decide) (by decide) (by decide) (by decide)

theorem plainEntry_merged (i j : Nat) :
    PlainEntry ((numbered i).1, (numbered i).2 ++ pairText (numbered j)) := by
  have hlast := plainEntry_numbered j
  have hone : bytes "1" = [byte '1'] := by decide
  rw [numbered, hone]
  refine plainEntry_decimal i (List.cons_ne_nil _ _) ?_ ?_ ?_
  · exact fun h => (List.mem_cons.mp h).elim (by decide) hlast.seperator_notMem
  · exact fun h => (List.mem_cons.mp h).elim (by decide) hlast.nul_notMem
  · rw [List.singleton_append, List.head?_cons]
    decide

theorem numbered_injective : Function.Injective fun i => (numbered i).1 := decimal_injective

/-- One parameter more than the counter has values. -/
theorem getParamv2_toUrlParam_uncounted :
    ∃ (m : ParamMap) (order : List (Bytes × Bytes)), m.Traversal order ∧
      order.length = 2 ^ 32 + 1 ∧
      (∀ key value, m.lookup key = some value → PlainEntry (key, value)) ∧
      getParamv2 ∅ (toUrlParam order []) (byte '&') ≠ some m := by
  obtain ⟨n, hn⟩ : ∃ n, n + 1 = 2 ^ 32 := ⟨2 ^ 32 - 1, rfl⟩
  obtain ⟨before, hbefore⟩ : ∃ before, before = (List.range n).map numbered := ⟨_, rfl⟩
  have hlength : before.length = n := by rw [hbefore, List.length_map, List.length_range]
  have horder : (List.range (n + 2)).map numbered = before ++ [numbered n, numbered (n + 1)] := by
    rw [hbefore, List.range_succ, List.range_succ]
    simp
  have hnodup : (((List.range (n + 2)).map numbered).map Prod.fst).Nodup := by
    rw [List.map_map]
    exact List.nodup_range.map numbered_injective
  obtain ⟨m, hm⟩ := exists_traversal hnodup
  refine ⟨m, _, hm, by rw [List.length_map, List.length_range]; omega, ?_, ?_⟩
  · intro key value hlookup
    obtain ⟨i, -, hi⟩ := List.mem_map.mp ((hm.2 key value).mpr hlookup)
    exact hi ▸ plainEntry_numbered i
  · -- what is read are the entries with the last two in one, so the last name is missing
    have hmem : ∀ entry ∈ before ++ [((numbered n).1,
        (numbered n).2 ++ pairText (numbered (n + 1)))],
        PlainEntry entry ∧ entry.1 ≠ (numbered (n + 1)).1 := by
      intro entry hentry
      rcases List.mem_append.mp hentry with hentry | hentry
      · rw [hbefore] at hentry
        obtain ⟨i, hi, rfl⟩ := List.mem_map.mp hentry
        have hlt := List.mem_range.mp hi
        exact ⟨plainEntry_numbered i, numbered_injective.ne (by omega : i ≠ n + 1)⟩
      · rw [List.mem_singleton.mp hentry]
        exact ⟨plainEntry_merged n (n + 1), numbered_injective.ne (by omega : n ≠ n + 1)⟩
    rw [horder, toUrlParam_uncounted (by omega), getParamv2_entries
      (by rw [List.length_append, List.length_singleton]; omega) fun entry h => (hmem entry h).1]
    intro hsame
    have hlast : m.lookup (numbered (n + 1)).1 = some (numbered (n + 1)).2 :=
      (hm.2 _ _).mp (List.mem_map_of_mem (List.mem_range.mpr (Nat.lt_succ_self _)))
    rw [← Option.some.inj hsame, lookup_bindAll, Option.map_eq_some_iff] at hlast
    obtain ⟨entry, hentry, -⟩ := hlast
    obtain ⟨hkey, hfound⟩ := LastWrite.last?_some hentry
    exact (hmem entry hfound).2 (of_decide_eq_true hkey)

end AdServer.Url
