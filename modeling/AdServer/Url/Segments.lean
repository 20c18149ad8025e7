import AdServer.Library.LastWrite
import AdServer.Url.Query

/-!
`getParamv2` one segment at a time. Between two characters the parser remembers the text since
`p0`, so that it can be read as a machine over characters, and the machine as a list of
assignments, at most one for each segment. A segment without a key of its own assigns to the key
of an earlier one, and the last segment is treated differently from the others.
-/
namespace AdServer.Url

def dropSpaces (text : Bytes) : Bytes := text.dropWhile (· = byte ' ')

/-- The variables of `getParamv2` with the text between the two pointers. -/
structure Scan where
  pending : Bytes
  pairFlag : Bool
  key : Bytes
  m : ParamMap

namespace Scan

def step (seperator : UInt8) (sc : Scan) (c : UInt8) : Option Scan :=
  if sc.pairFlag = false ∧ c = byte '=' then
    if dropSpaces sc.pending ≠ [] then
      some { sc with pending := [], key := dropSpaces sc.pending, pairFlag := true }
    else some { sc with pending := [] }
  else if c = seperator then
    if c = byte ' ' ∧ dropSpaces sc.pending = [] then none
    else some { sc with
      pending := []
      m := Finmap.insert sc.key (dropSpaces sc.pending) sc.m
      pairFlag := false }
  else some { sc with pending := sc.pending ++ [c] }

def run (seperator : UInt8) : Scan → Bytes → Option Scan
  | sc, [] => some sc
  | sc, c :: cs => (sc.step seperator c).bind (run seperator · cs)

def finish (sc : Scan) : ParamMap :=
  if sc.pending = [] then sc.m else Finmap.insert sc.key sc.pending sc.m

end Scan

def QueryState.scan (s : Bytes) (st : QueryState) : Scan :=
  ⟨(s.take st.p).drop st.p0, st.pairFlag, st.key, st.m⟩

theorem dropWhile_ne_of_notMem {c : UInt8} {text : Bytes} (h : c ∉ text) :
    text.dropWhile (· ≠ c) = [] := by
  rw [List.dropWhile_eq_nil_iff]
  intro d hd
  simpa using fun heq : d = c => h (heq ▸ hd)

theorem dropWhile_ne_append {c : UInt8} {text : Bytes} (h : c ∉ text) (rest : Bytes) :
    (text ++ c :: rest).dropWhile (· ≠ c) = c :: rest := by
  rw [List.dropWhile_append, dropWhile_ne_of_notMem h, if_pos List.isEmpty_nil,
    List.dropWhile_cons_of_neg (by simp)]

section
variable {s rest : Bytes} {p0 p : Nat} {c : UInt8}

theorem drop_eq_pending (hp0 : p0 ≤ p) (hdrop : s.drop p = c :: rest) :
    s.drop p0 = (s.take p).drop p0 ++ c :: rest := by
  have hlen : p ≤ s.length := by
    by_contra hlt
    rw [List.drop_eq_nil_of_le (by omega)] at hdrop
    cases hdrop
  conv_lhs => rw [← List.take_append_drop p s]
  rw [List.drop_append_of_le_length (by rw [List.length_take]; omega), hdrop]

theorem charAt_of_drop (hdrop : s.drop p = c :: rest) : charAt s p = c := by
  rw [charAt, List.getD_eq_getElem?_getD, ← List.head?_drop, hdrop]
  rfl

theorem length_pending (hp0 : p0 ≤ p) (hdrop : s.drop p = c :: rest) :
    ((s.take p).drop p0).length = p - p0 := by
  have hlen := congrArg List.length (drop_eq_pending hp0 hdrop)
  have hrest := congrArg List.length hdrop
  simp only [List.length_drop, List.length_append, List.length_cons] at hlen hrest
  rw [List.length_drop]
  omega

theorem skipSpaces_add_length (s : Bytes) (p0 : Nat) :
    skipSpaces s p0 + (dropSpaces (s.drop p0)).length = p0 + (s.drop p0).length := by
  have hsplit := congrArg List.length (List.takeWhile_append_dropWhile
    (p := fun c => decide (c = byte ' ')) (l := s.drop p0))
  rw [List.length_append, ← dropSpaces] at hsplit
  rw [skipSpaces]
  omega

/-- Spaces are skipped up to the text that is left of the pending one, or on behind `p`. -/
theorem skipSpaces_pending (hp0 : p0 ≤ p) (hdrop : s.drop p = c :: rest) :
    if c = byte ' ' ∧ dropSpaces ((s.take p).drop p0) = [] then p < skipSpaces s p0
    else skipSpaces s p0 + (dropSpaces ((s.take p).drop p0)).length = p := by
  have hskip := skipSpaces_add_length s p0
  have hlen := length_pending hp0 hdrop
  rw [drop_eq_pending hp0 hdrop, dropSpaces, List.dropWhile_append, ← dropSpaces, ← dropSpaces,
    List.length_append, hlen, List.length_cons] at hskip
  by_cases hpending : dropSpaces ((s.take p).drop p0) = []
  · rw [if_pos (List.isEmpty_iff.mpr hpending)] at hskip
    by_cases hc : c = byte ' '
    · rw [if_pos ⟨hc, hpending⟩]
      have hle : (dropSpaces (c :: rest)).length ≤ rest.length := by
        rw [dropSpaces, List.dropWhile_cons_of_pos (by simpa using hc)]
        exact List.length_dropWhile_le _ rest
      omega
    · rw [if_neg fun h => hc h.1, hpending, List.length_nil]
      rw [dropSpaces, List.dropWhile_cons_of_neg (by simpa using hc), List.length_cons] at hskip
      omega
  · rw [if_neg (mt List.isEmpty_iff.mp hpending), List.length_append, List.length_cons] at hskip
    rw [if_neg fun h => hpending h.2]
    omega

theorem skipSpaces_eq_iff (hp0 : p0 ≤ p) (hdrop : s.drop p = c :: rest) (hc : c ≠ byte ' ') :
    skipSpaces s p0 = p ↔ dropSpaces ((s.take p).drop p0) = [] := by
  have hskip := skipSpaces_pending hp0 hdrop
  rw [if_neg fun h => hc h.1] at hskip
  rw [← List.length_eq_zero_iff]
  omega

theorem assign_skipSpaces (hp0 : p0 ≤ p) (hdrop : s.drop p = c :: rest) :
    assign s (skipSpaces s p0) p =
      if c = byte ' ' ∧ dropSpaces ((s.take p).drop p0) = [] then none
      else some (dropSpaces ((s.take p).drop p0)) := by
  have hskip := skipSpaces_pending hp0 hdrop
  split at hskip
  · rename_i hspaces
    rw [if_pos hspaces, assign, if_neg (by omega)]
  · rename_i hspaces
    have hsuffix := List.suffix_iff_eq_drop.mp
      (List.dropWhile_suffix (l := (s.take p).drop p0) fun c => decide (c = byte ' '))
    rw [← dropSpaces, length_pending hp0 hdrop, List.drop_drop] at hsuffix
    have hle : (dropSpaces ((s.take p).drop p0)).length ≤ p - p0 := by
      rw [← length_pending hp0 hdrop]
      exact List.length_dropWhile_le _ _
    rw [if_neg hspaces, assign, if_pos (by omega), Option.some_inj]
    refine Eq.trans (congrArg ((s.take p).drop ·) ?_) hsuffix.symm
    omega

end

/-! ### The machine over characters -/

theorem getParamv2Step_eq {s rest : Bytes} {c : UInt8} (seperator : UInt8) {st : QueryState}
    (hp0 : st.p0 ≤ st.p) (hdrop : s.drop st.p = c :: rest) :
    getParamv2Step s seperator st =
      let text := dropSpaces ((s.take st.p).drop st.p0)
      if st.pairFlag = false ∧ c = byte '=' then
        if text ≠ [] then
          some { st with p := st.p + 1, p0 := st.p + 1, key := text, pairFlag := true }
        else some { st with p := st.p + 1, p0 := st.p + 1 }
      else if c = seperator then
        if c = byte ' ' ∧ text = [] then none
        else some { st with
          p := st.p + 1
          p0 := st.p + 1
          m := Finmap.insert st.key text st.m
          pairFlag := false }
      else some { st with p := st.p + 1 } := by
  have hchar := charAt_of_drop hdrop
  have hassign := assign_skipSpaces hp0 hdrop
  unfold getParamv2Step
  dsimp only
  rw [hchar]
  by_cases hkey : st.pairFlag = false ∧ c = byte '='
  · have hspace : c ≠ byte ' ' := fun h => absurd (hkey.2.symm.trans h) (by decide)
    rw [if_neg fun h => hspace h.1] at hassign
    rw [if_pos hkey, if_pos hkey, hassign]
    simp only [ne_eq, skipSpaces_eq_iff hp0 hdrop hspace, Option.map_some]
  · rw [if_neg hkey, if_neg hkey]
    by_cases hsep : c = seperator
    · have hinsert : skipSpaces s st.p0 ≠ st.p ∨ charAt s (skipSpaces s st.p0) = seperator := by
        by_cases hend : skipSpaces s st.p0 = st.p
        · exact .inr (by rw [hend, hchar, hsep])
        · exact .inl hend
      rw [if_pos hsep, if_pos hsep, if_pos hinsert, hassign]
      split <;> rfl
    · rw [if_neg hsep, if_neg hsep]

theorem getParamv2Step_scan {s rest : Bytes} {c : UInt8} (seperator : UInt8) {st : QueryState}
    (hp0 : st.p0 ≤ st.p) (hdrop : s.drop st.p = c :: rest) :
    (getParamv2Step s seperator st).map (QueryState.scan s) = (st.scan s).step seperator c := by
  have hnext : (s.take (st.p + 1)).drop (st.p + 1) = [] :=
    List.drop_eq_nil_of_le (List.length_take_le _ s)
  have hgrow : (s.take (st.p + 1)).drop st.p0 = (s.take st.p).drop st.p0 ++ [c] := by
    have hget : s[st.p]? = some c := by rw [← List.head?_drop, hdrop, List.head?_cons]
    have hlen := (List.getElem?_eq_some_iff.mp hget).1
    rw [List.take_add_one, hget, Option.toList_some,
      List.drop_append_of_le_length (by rw [List.length_take]; omega)]
  rw [getParamv2Step_eq seperator hp0 hdrop, Scan.step]
  simp only [apply_ite (Option.map (QueryState.scan s)), Option.map_some, Option.map_none,
    QueryState.scan, hnext, hgrow]
  rfl

theorem getParamv2Step_pointers {s rest : Bytes} {c seperator : UInt8} {st st' : QueryState}
    (hp0 : st.p0 ≤ st.p) (hdrop : s.drop st.p = c :: rest)
    (h : getParamv2Step s seperator st = some st') : st'.p = st.p + 1 ∧ st'.p0 ≤ st'.p := by
  rw [getParamv2Step_eq seperator hp0 hdrop] at h
  dsimp only at h
  split at h
  · split at h <;> cases h <;> exact ⟨rfl, Nat.le_refl _⟩
  · split at h
    · split at h
      · cases h
      · cases h
        exact ⟨rfl, Nat.le_refl _⟩
    · cases h
      exact ⟨rfl, Nat.le_succ_of_le hp0⟩

theorem getParamv2Loop_scan {s : Bytes} (seperator : UInt8) (rest : Bytes) (st : QueryState)
    (hp0 : st.p0 ≤ st.p) (hdrop : s.drop st.p = rest) :
    (getParamv2Loop s seperator rest.length st).map (QueryState.scan s) =
        (st.scan s).run seperator rest ∧
      ∀ st', getParamv2Loop s seperator rest.length st = some st' →
        st'.p = st.p + rest.length ∧ st'.p0 ≤ st'.p := by
  induction rest generalizing st with
  | nil =>
      refine ⟨rfl, ?_⟩
      intro st' h
      cases h
      exact ⟨rfl, hp0⟩
  | cons c rest ih =>
      rw [List.length_cons, getParamv2Loop, Scan.run, ← getParamv2Step_scan seperator hp0 hdrop]
      cases hstep : getParamv2Step s seperator st with
      | none =>
          refine ⟨rfl, ?_⟩
          intro st' h
          cases h
      | some next =>
          obtain ⟨hp, hordered⟩ := getParamv2Step_pointers hp0 hdrop hstep
          have hrest : s.drop next.p = rest := by
            rw [hp, ← List.drop_drop, hdrop, List.drop_one, List.tail_cons]
          obtain ⟨hscan, hpointers⟩ := ih next hordered hrest
          refine ⟨hscan, ?_⟩
          intro st' h
          obtain ⟨hp', hordered'⟩ := hpointers st' h
          exact ⟨by omega, hordered'⟩

theorem getParamv2_eq_scan (m : ParamMap) (buffer : Bytes) (seperator : UInt8) :
    getParamv2 m buffer seperator =
      (Scan.run seperator ⟨[], false, [], m⟩ (cString buffer)).map Scan.finish := by
  obtain ⟨hscan, hpointers⟩ := getParamv2Loop_scan (s := cString buffer) seperator (cString buffer)
    ⟨0, 0, false, [], m⟩ (Nat.le_refl 0) rfl
  have hstart : QueryState.scan (cString buffer) ⟨0, 0, false, [], m⟩ = ⟨[], false, [], m⟩ := rfl
  rw [hstart] at hscan
  rw [getParamv2, ← hscan]
  cases hloop : getParamv2Loop (cString buffer) seperator (cString buffer).length
    ⟨0, 0, false, [], m⟩ with
  | none => rfl
  | some st =>
      obtain ⟨hp, hordered⟩ := hpointers st hloop
      rw [Nat.zero_add] at hp
      have hpending : ((cString buffer).take st.p).drop st.p0 = [] ↔ st.p = st.p0 := by
        rw [List.drop_eq_nil_iff, List.length_take]
        omega
      simp only [Option.bind_some, Option.map_some, Scan.finish, QueryState.scan, hpending, assign,
        hordered, if_true, ne_eq, ite_not]
      split <;> rfl

/-! ### Segments -/

/-- The key in a segment, and the text behind its '='. A '=' with nothing but spaces in front of
it ends no key, and what stands before it is dropped. -/
def keyedFrom : Bytes → Bytes → Option Bytes × Bytes
  | pending, [] => (none, pending)
  | pending, c :: cs =>
    if c = byte '=' then
      if dropSpaces pending ≠ [] then (some (dropSpaces pending), cs) else keyedFrom [] cs
    else keyedFrom (pending ++ [c]) cs

def keyed (segment : Bytes) : Option Bytes × Bytes := keyedFrom [] segment

section
variable {seperator : UInt8} {segment rest key : Bytes} {m : ParamMap}

theorem run_value (hsep : seperator ∉ segment) (pending : Bytes) :
    Scan.run seperator ⟨pending, true, key, m⟩ (segment ++ rest) =
      Scan.run seperator ⟨pending ++ segment, true, key, m⟩ rest := by
  induction segment generalizing pending with
  | nil => rw [List.nil_append, List.append_nil]
  | cons c cs ih =>
      obtain ⟨hc, hcs⟩ := not_or.mp (mt List.mem_cons.mpr hsep)
      rw [List.cons_append, Scan.run, Scan.step, if_neg (by simp), if_neg (Ne.symm hc),
        Option.bind_some, ih hcs, List.append_assoc, List.singleton_append]

theorem run_segment (hsep : seperator ∉ segment) (pending : Bytes) :
    Scan.run seperator ⟨pending, false, key, m⟩ (segment ++ rest) =
      Scan.run seperator ⟨(keyedFrom pending segment).2, (keyedFrom pending segment).1.isSome,
        (keyedFrom pending segment).1.getD key, m⟩ rest := by
  induction segment generalizing pending with
  | nil => rfl
  | cons c cs ih =>
      obtain ⟨hc, hcs⟩ := not_or.mp (mt List.mem_cons.mpr hsep)
      rw [List.cons_append, Scan.run, Scan.step, keyedFrom]
      by_cases hkey : c = byte '='
      · rw [if_pos ⟨rfl, hkey⟩, if_pos hkey]
        split
        · exact run_value hcs []
        · exact ih hcs []
      · rw [if_neg fun h => hkey h.2, if_neg hkey, if_neg (Ne.symm hc)]
        exact ih hcs _

theorem run_segment_seperator (hequals : seperator ≠ byte '=') (hsep : seperator ∉ segment) :
    Scan.run seperator ⟨[], false, key, m⟩ (segment ++ seperator :: rest) =
      if seperator = byte ' ' ∧ dropSpaces (keyed segment).2 = [] then none
      else
        let key' := (keyed segment).1.getD key
        Scan.run seperator
          ⟨[], false, key', Finmap.insert key' (dropSpaces (keyed segment).2) m⟩ rest := by
  rw [run_segment hsep, Scan.run, Scan.step, if_neg fun h => hequals h.2, if_pos rfl]
  dsimp only
  rw [← keyed]
  split <;> rfl

end

/-- What a segment writes into the map. -/
structure Assignment where
  segment : Bytes
  key : Bytes
  value : Bytes

def Assignment.apply (m : ParamMap) (a : Assignment) : ParamMap := Finmap.insert a.key a.value m

/-- The assignments of the segments after a `key`. The last segment keeps the spaces in front of
its value and assigns no empty value. -/
def assignments : Bytes → List Bytes → List Assignment
  | _, [] => []
  | key, [segment] =>
    if (keyed segment).2 = [] then []
    else [⟨segment, (keyed segment).1.getD key, (keyed segment).2⟩]
  | key, segment :: next :: rest =>
    ⟨segment, (keyed segment).1.getD key, dropSpaces (keyed segment).2⟩ ::
      assignments ((keyed segment).1.getD key) (next :: rest)

/-- A space as the separator after an empty value: the pointers cross. -/
def pointersCross (seperator : UInt8) (segments : List Bytes) : Bool :=
  seperator = byte ' ' && segments.dropLast.any fun segment => dropSpaces (keyed segment).2 = []

theorem run_segments {seperator : UInt8} (hequals : seperator ≠ byte '=') (text key : Bytes)
    (m : ParamMap) :
    (Scan.run seperator ⟨[], false, key, m⟩ text).map Scan.finish =
      if pointersCross seperator (text.splitOn seperator) then none
      else some ((assignments key (text.splitOn seperator)).foldl Assignment.apply m) := by
  by_cases hmem : seperator ∈ text
  · obtain ⟨segment, rest, htext, hsep⟩ := List.eq_append_cons_of_mem hmem
    obtain ⟨next, tail, hcons⟩ := List.exists_cons_of_ne_nil (List.splitOn_ne_nil seperator rest)
    have hrest := run_segments hequals rest
    rw [hcons] at hrest
    rw [htext, run_segment_seperator hequals hsep, List.splitOn_append_cons_self_of_not_mem hsep,
      hcons]
    by_cases hcross : seperator = byte ' ' ∧ dropSpaces (keyed segment).2 = []
    · rw [if_pos hcross, if_pos (by simp [pointersCross, hcross.1, hcross.2])]
      rfl
    · have hlater : pointersCross seperator (segment :: next :: tail) =
          pointersCross seperator (next :: tail) := by
        rw [pointersCross, pointersCross, List.dropLast_cons_cons, List.any_cons,
          Bool.and_or_distrib_left, ← Bool.decide_and, decide_eq_false hcross, Bool.false_or]
      rw [if_neg hcross, hlater]
      exact hrest _ _
  · have hsegment : Scan.run seperator ⟨[], false, key, m⟩ (text ++ []) = _ := run_segment hmem []
    rw [List.append_nil, ← keyed] at hsegment
    rw [hsegment, List.splitOn_eq_singleton hmem, if_neg (by simp [pointersCross])]
    simp only [Scan.run, Option.map_some, Scan.finish, assignments]
    split <;> rfl
termination_by text.length
decreasing_by
  rw [htext, List.length_append, List.length_cons]
  omega

end AdServer.Url
