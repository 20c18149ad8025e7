import AdServer.Url.Segments

/-!
The reference meaning of a query: each segment that has more than spaces in front of its first
'=' binds a name, later bindings replace earlier ones, and every other segment is ignored.
`getParamv2` agrees with it where the assignments of the other segments do not last and the last
segment has a value without leading spaces.
-/
namespace AdServer.Url

open LastWrite

def binding (segment : Bytes) : Option (Bytes × Bytes) :=
  match segment.dropWhile (· ≠ byte '=') with
  | [] => none
  | _ :: value =>
    let name := dropSpaces (segment.takeWhile (· ≠ byte '='))
    if name = [] then none else some (name, dropSpaces value)

def bindAll (entries : List (Bytes × Bytes)) : ParamMap :=
  entries.foldl (fun m entry => Finmap.insert entry.1 entry.2 m) ∅

def referenceParse (s : Bytes) (seperator : UInt8) : ParamMap :=
  bindAll ((s.splitOn seperator).filterMap binding)

theorem lookup_bindAll (entries : List (Bytes × Bytes)) (key : Bytes) :
    (bindAll entries).lookup key = (last? (fun entry => entry.1 = key) entries).map Prod.snd := by
  have hwrite : ∀ (m : ParamMap) (entry : Bytes × Bytes),
      write m.lookup entry = (Finmap.insert entry.1 entry.2 m).lookup := by
    intro m entry
    funext k
    by_cases hk : k = entry.1
    · subst hk
      simp [write]
    · rw [write, Function.update_of_ne hk, Finmap.lookup_insert_of_ne m hk]
  have hhom : entries.foldl write (∅ : ParamMap).lookup = (bindAll entries).lookup :=
    List.foldl_hom (fun m : ParamMap => m.lookup) hwrite
  have hfold := congrFun hhom key
  rw [foldl_write, Finmap.lookup_empty, Option.or_none] at hfold
  exact hfold.symm

theorem keyedFrom_append {before after : Bytes} (h : byte '=' ∉ before) (pending : Bytes) :
    keyedFrom pending (before ++ byte '=' :: after) =
      if dropSpaces (pending ++ before) ≠ [] then (some (dropSpaces (pending ++ before)), after)
      else keyedFrom [] after := by
  induction before generalizing pending with
  | nil => rw [List.nil_append, List.append_nil, keyedFrom, if_pos rfl]
  | cons c cs ih =>
      obtain ⟨hc, hcs⟩ := not_or.mp (mt List.mem_cons.mpr h)
      rw [List.cons_append, keyedFrom, if_neg (Ne.symm hc), ih hcs, List.append_assoc,
        List.singleton_append]

theorem keyed_of_binding {segment name value : Bytes} (h : binding segment = some (name, value)) :
    ∃ raw, keyed segment = (some name, raw) ∧ dropSpaces raw = value := by
  have hsplit := List.takeWhile_append_dropWhile (p := fun c => decide (c ≠ byte '='))
    (l := segment)
  unfold binding at h
  split at h
  · cases h
  · rename_i c raw hdrop
    have hc : c = byte '=' := by
      have hhead := List.head?_dropWhile_not (fun c => decide (c ≠ byte '=')) segment
      rw [hdrop] at hhead
      simpa using hhead
    have hnot : byte '=' ∉ segment.takeWhile (· ≠ byte '=') := fun hmem => by
      simpa using List.mem_takeWhile_imp hmem
    dsimp only at h
    split at h
    · cases h
    · rename_i hname
      cases h
      refine ⟨raw, ?_, rfl⟩
      rw [hdrop, hc] at hsplit
      conv_lhs => rw [← hsplit]
      rw [keyed, keyedFrom_append hnot, List.nil_append, if_pos hname]

/-! ### Assignments and bindings -/

def Assignment.entry (a : Assignment) : Bytes × Bytes := (a.key, a.value)

theorem foldl_apply (as : List Assignment) :
    as.foldl Assignment.apply ∅ = bindAll (as.map Assignment.entry) := by
  rw [bindAll, List.foldl_map]
  rfl

/-- The assignments of segments that the reference does not ignore. -/
def regular (as : List Assignment) : List Assignment :=
  as.filter fun a => (binding a.segment).isSome

/-- The value of the last segment, if it binds a name: with its spaces, and missing if empty. -/
structure LastValue (segment : Bytes) (as : List Assignment) : Prop where
  spaces : ∀ name value, binding segment = some (name, value) → (keyed segment).2 ≠ [] →
    (keyed segment).2 = value
  empty : ∀ name value, binding segment = some (name, value) → (keyed segment).2 = [] →
    (last? (fun a => a.key = name) as).map Assignment.value = some []

/-- An assignment of an ignored segment is replaced by a later one, or repeats the binding. -/
def StrayReplaced (segments : List Bytes) (as : List Assignment) : Prop :=
  ∀ a, last? (fun b => b.key = a.key) as = some a → binding a.segment = none →
    (last? (fun entry => entry.1 = a.key) (segments.filterMap binding)).map Prod.snd = some a.value

theorem assignments_concat {segment name raw : Bytes} (hkeyed : keyed segment = (some name, raw))
    (hraw : raw ≠ []) (key : Bytes) (segments : List Bytes) :
    ∃ as, assignments key (segments ++ [segment]) = as ++ [⟨segment, name, raw⟩] := by
  induction segments generalizing key with
  | nil => exact ⟨[], by simp [assignments, hkeyed, hraw]⟩
  | cons first rest ih =>
      obtain ⟨as, has⟩ := ih ((keyed first).1.getD key)
      obtain ⟨next, tail, hcons⟩ :=
        List.exists_cons_of_ne_nil
          (List.append_ne_nil_of_right_ne_nil rest (List.cons_ne_nil segment []))
      rw [hcons] at has
      refine ⟨⟨first, (keyed first).1.getD key, dropSpaces (keyed first).2⟩ :: as, ?_⟩
      rw [List.cons_append, hcons, assignments, has, List.cons_append]

/-- The bindings are the regular assignments, and the one of an empty value at the end. -/
theorem filterMap_binding (key : Bytes) (segments : List Bytes) (segment : Bytes)
    (hspaces : ∀ name value, binding segment = some (name, value) → (keyed segment).2 ≠ [] →
      (keyed segment).2 = value) :
    (segments ++ [segment]).filterMap binding =
      (regular (assignments key (segments ++ [segment]))).map Assignment.entry ++
        if (keyed segment).2 = [] then (binding segment).toList else [] := by
  induction segments generalizing key with
  | nil =>
      rw [List.nil_append, assignments]
      cases hbinding : binding segment with
      | none => split <;> simp [regular, hbinding]
      | some entry =>
          obtain ⟨name, value⟩ := entry
          obtain ⟨raw, hkeyed, -⟩ := keyed_of_binding hbinding
          have hsame := hspaces _ _ hbinding
          rw [hkeyed] at hsame ⊢
          split
          · simp [regular, hbinding]
          · rename_i hraw
            obtain rfl : raw = value := hsame hraw
            simp [regular, hbinding, Assignment.entry]
  | cons first rest ih =>
      obtain ⟨next, tail, hcons⟩ :=
        List.exists_cons_of_ne_nil
          (List.append_ne_nil_of_right_ne_nil rest (List.cons_ne_nil segment []))
      have hrest := ih ((keyed first).1.getD key)
      rw [hcons] at hrest
      rw [List.cons_append, hcons, assignments, regular, List.filter_cons]
      cases hbinding : binding first with
      | none =>
          rw [List.filterMap_cons_none hbinding]
          exact hrest
      | some entry =>
          obtain ⟨raw, hkeyed, hvalue⟩ := keyed_of_binding hbinding
          rw [List.filterMap_cons_some hbinding, hrest, hkeyed]
          simp [regular, Assignment.entry, hvalue]

theorem last?_map_entry (as : List Assignment) (key : Bytes) :
    (last? (fun entry => entry.1 = key) (as.map Assignment.entry)).map Prod.snd =
      (last? (fun a => a.key = key) as).map Assignment.value := by
  rw [last?_map, Option.map_map]
  rfl

theorem last?_regular {as : List Assignment} {key : Bytes}
    (h : ∀ a, last? (fun a => a.key = key) as = some a → (binding a.segment).isSome = true) :
    last? (fun a => a.key = key) (regular as) = last? (fun a => a.key = key) as := by
  rw [regular, last?_filter]
  cases hlast : last? (fun a => a.key = key) as with
  | none =>
      refine last?_none_of_imp ?_ hlast
      intro a ha
      exact decide_eq_true (of_decide_eq_true (of_decide_eq_true ha).2)
  | some a =>
      refine last?_of_imp ?_ hlast ?_
      · intro b hb
        exact decide_eq_true (of_decide_eq_true (of_decide_eq_true hb).2)
      · exact decide_eq_true ⟨h a hlast, (last?_some hlast).1⟩

theorem bindAll_eq_iff {entries entries' : List (Bytes × Bytes)} :
    bindAll entries = bindAll entries' ↔ ∀ key,
      (last? (fun entry => entry.1 = key) entries).map Prod.snd =
        (last? (fun entry => entry.1 = key) entries').map Prod.snd := by
  simp only [← lookup_bindAll]
  exact ⟨fun h key => by rw [h], Finmap.ext_lookup⟩

section
variable {segments : List Bytes} {segment : Bytes}

/-- The map of the assignments has what the reference has, key by key. -/
theorem last?_assignments_eq
    (hstray : StrayReplaced (segments ++ [segment]) (assignments [] (segments ++ [segment])))
    (hlast : LastValue segment (assignments [] (segments ++ [segment]))) (key : Bytes) :
    (last? (fun a => a.key = key) (assignments [] (segments ++ [segment]))).map Assignment.value =
      (last? (fun entry => entry.1 = key)
        ((segments ++ [segment]).filterMap binding)).map Prod.snd := by
  have hbindings := filterMap_binding [] segments segment hlast.spaces
  by_cases hstrayed : ∃ a, last? (fun a => a.key = key) (assignments [] (segments ++ [segment])) =
      some a ∧ binding a.segment = none
  · obtain ⟨a, hassigned, hbinding⟩ := hstrayed
    obtain rfl : a.key = key := of_decide_eq_true (last?_some hassigned).1
    rw [hstray a hassigned hbinding, hassigned, Option.map_some]
  have hregular := last?_regular fun a hassigned =>
    Option.isSome_iff_ne_none.mpr fun hbinding => hstrayed ⟨a, hassigned, hbinding⟩
  rw [hbindings, last?_append]
  split
  · rename_i hraw
    cases hbinding : binding segment with
    | none => rw [Option.toList_none, ← hregular, ← last?_map_entry]; rfl
    | some entry =>
        obtain ⟨name, value⟩ := entry
        obtain ⟨raw, hkeyed, hvalue⟩ := keyed_of_binding hbinding
        obtain rfl : raw = [] := by rwa [hkeyed] at hraw
        by_cases hname : name = key
        · subst hname
          rw [hlast.empty name value hbinding hraw]
          simp [last?, ← hvalue, dropSpaces]
        · rw [← hregular, ← last?_map_entry]
          simp [last?, hname]
  · rw [← hregular, ← last?_map_entry]
    rfl

/-- The parser's assignments make the map of the reference exactly if those of ignored segments
do not last and the last value is one that the parser takes. -/
theorem bindAll_assignments_iff :
    (assignments [] (segments ++ [segment])).foldl Assignment.apply ∅ =
        bindAll ((segments ++ [segment]).filterMap binding) ↔
      StrayReplaced (segments ++ [segment]) (assignments [] (segments ++ [segment])) ∧
        LastValue segment (assignments [] (segments ++ [segment])) := by
  rw [foldl_apply, bindAll_eq_iff]
  simp only [last?_map_entry]
  refine ⟨?_, fun ⟨hstray, hlast⟩ => last?_assignments_eq hstray hlast⟩
  intro hsame
  have hlast : ∀ name value, binding segment = some (name, value) →
      (last? (fun a => a.key = name) (assignments [] (segments ++ [segment]))).map
        Assignment.value = some value := by
    intro name value hbinding
    rw [hsame name, List.filterMap_append, last?_append]
    simp [last?, hbinding]
  refine ⟨?_, ?_, ?_⟩
  · intro a hassigned _
    rw [← hsame, hassigned, Option.map_some]
  · intro name value hbinding hraw
    obtain ⟨raw, hkeyed, -⟩ := keyed_of_binding hbinding
    rw [hkeyed] at hraw ⊢
    obtain ⟨as, has⟩ := assignments_concat hkeyed hraw [] segments
    have hvalue := hlast name value hbinding
    rw [has, last?_append] at hvalue
    simpa [last?] using hvalue
  · intro name value hbinding hraw
    obtain ⟨raw, hkeyed, hvalue⟩ := keyed_of_binding hbinding
    obtain rfl : raw = [] := by rwa [hkeyed] at hraw
    rw [hlast name value hbinding, ← hvalue]
    rfl

end

/-! ### '=' as the separator -/

theorem notMem_of_mem_splitOn {seperator : UInt8} (text : Bytes) {segment : Bytes}
    (h : segment ∈ text.splitOn seperator) : seperator ∉ segment := by
  by_cases hmem : seperator ∈ text
  · obtain ⟨first, rest, htext, hfirst⟩ := List.eq_append_cons_of_mem hmem
    rw [htext, List.splitOn_append_cons_self_of_not_mem hfirst, List.mem_cons] at h
    rcases h with rfl | hrest
    · exact hfirst
    · exact notMem_of_mem_splitOn rest hrest
  · rw [List.splitOn_eq_singleton hmem, List.mem_singleton] at h
    rwa [h]
termination_by text.length
decreasing_by
  rw [htext, List.length_append, List.length_cons]
  omega

theorem binding_eq_none {segment : Bytes} (h : byte '=' ∉ segment) : binding segment = none := by
  rw [binding, dropWhile_ne_of_notMem h]

theorem referenceParse_equals (s : Bytes) : referenceParse s (byte '=') = ∅ := by
  have hnone : (s.splitOn (byte '=')).filterMap binding = [] := by
    rw [List.filterMap_eq_nil_iff]
    exact fun segment hsegment => binding_eq_none (notMem_of_mem_splitOn s hsegment)
  rw [referenceParse, hnone]
  rfl

theorem run_equals (text pending key : Bytes) (m : ParamMap) :
    Scan.run (byte '=') ⟨pending, false, key, m⟩ text =
      match keyedFrom pending text with
      | (none, raw) => some ⟨raw, false, key, m⟩
      | (some name, raw) => Scan.run (byte '=') ⟨[], true, name, m⟩ raw := by
  induction text generalizing pending with
  | nil => rfl
  | cons c cs ih =>
      rw [Scan.run, Scan.step, keyedFrom]
      by_cases hc : c = byte '='
      · rw [if_pos ⟨rfl, hc⟩, if_pos hc]
        split
        · rfl
        · exact ih []
      · rw [if_neg fun h => hc h.2, if_neg hc, if_neg hc]
        exact ih _

theorem insert_ne_empty (key value : Bytes) (m : ParamMap) : Finmap.insert key value m ≠ ∅ :=
  fun h => Finmap.notMem_empty (h ▸ Finmap.mem_insert.mpr (.inl rfl) : key ∈ (∅ : ParamMap))

/-- Something is in the map, or will be when the value of the current key ends. -/
def Bound (sc : Scan) (text : Bytes) : Prop :=
  sc.m ≠ ∅ ∨ sc.pairFlag = true ∧ sc.pending ++ text ≠ []

theorem Bound.step {seperator : UInt8} {sc sc' : Scan} {c : UInt8} {text : Bytes}
    (h : Bound sc (c :: text)) (hstep : sc.step seperator c = some sc') : Bound sc' text := by
  unfold Scan.step at hstep
  split at hstep
  · rename_i hkey
    have hm := h.resolve_right fun hflag => by simp [hkey.1] at hflag
    split at hstep <;> cases hstep <;> exact .inl hm
  · split at hstep
    · split at hstep
      · cases hstep
      · cases hstep
        exact .inl (insert_ne_empty _ _ _)
    · cases hstep
      refine h.imp_right fun hflag => ⟨hflag.1, ?_⟩
      simp

theorem Bound.run {seperator : UInt8} {sc sc' : Scan} {text : Bytes} (h : Bound sc text)
    (hrun : sc.run seperator text = some sc') : sc'.finish ≠ ∅ := by
  induction text generalizing sc with
  | nil =>
      cases hrun
      unfold Scan.finish
      split
      · rename_i hpending
        exact h.resolve_right fun hflag => hflag.2 (by rw [hpending]; rfl)
      · exact insert_ne_empty _ _ _
  | cons c cs ih =>
      rw [Scan.run, Option.bind_eq_some_iff] at hrun
      obtain ⟨next, hstep, hrest⟩ := hrun
      exact ih (h.step hstep) hrest

theorem getParamv2_equals_iff {s : Bytes} (hnul : (0 : UInt8) ∉ s) :
    getParamv2 ∅ s (byte '=') = some ∅ ↔ (keyed s).2 = [] := by
  rw [getParamv2_eq_scan, cString_of_notMem hnul, run_equals, ← keyed]
  rcases hkeyed : keyed s with ⟨_ | name, raw⟩
  · simp only [Option.map_some, Scan.finish, Option.some_inj]
    split
    · rename_i hraw
      exact iff_of_true rfl hraw
    · rename_i hraw
      exact iff_of_false (insert_ne_empty _ _ _) hraw
  · refine ⟨?_, ?_⟩
    · intro hrun
      obtain ⟨sc, hsc, hfinish⟩ := Option.map_eq_some_iff.mp hrun
      by_contra hraw
      have hbound : Bound ⟨[], true, name, ∅⟩ raw := .inr ⟨rfl, hraw⟩
      exact hbound.run hsc hfinish
    · rintro rfl
      rfl

/-! ### The comparison -/

/-- When `getParamv2` reads a query as the reference does. -/
def ReadsAsReference (s : Bytes) (seperator : UInt8) : Prop :=
  let segments := s.splitOn seperator
  if seperator = byte '=' then (keyed s).2 = []
  else
    pointersCross seperator segments = false ∧
      StrayReplaced segments (assignments [] segments) ∧
      LastValue (segments.getLastD []) (assignments [] segments)

theorem getParamv2_eq_reference_iff (s : Bytes) (hnul : (0 : UInt8) ∉ s) (seperator : UInt8) :
    getParamv2 ∅ s seperator = some (referenceParse s seperator) ↔
      ReadsAsReference s seperator := by
  unfold ReadsAsReference
  dsimp only
  split
  · rename_i hequals
    subst hequals
    rw [referenceParse_equals]
    exact getParamv2_equals_iff hnul
  · rename_i hequals
    obtain ⟨front, segment, hsegments⟩ :=
      (List.eq_nil_or_concat' (s.splitOn seperator)).resolve_left (List.splitOn_ne_nil _ s)
    rw [getParamv2_eq_scan, cString_of_notMem hnul, run_segments hequals, referenceParse, hsegments,
      List.getLastD_concat]
    cases pointersCross seperator (front ++ [segment]) with
    | true => simp
    | false => simpa using bindAll_assignments_iff

theorem readsAsReference_sample : ReadsAsReference (bytes "a=1&&b= 3&a=2") (byte '&') :=
  (getParamv2_eq_reference_iff _ (by decide) _).mp (by decide)

/-- The text of a segment without '=' replaces the value of the key before it. -/
theorem getParamv2_stray_segment :
    (getParamv2 ∅ (bytes "a=1&b&c=2") (byte '&')).map (Finmap.lookup (bytes "a")) =
        some (some (bytes "b")) ∧
      (referenceParse (bytes "a=1&b&c=2") (byte '&')).lookup (bytes "a") = some (bytes "1") ∧
      getParamv2 ∅ (bytes "a=1&b&c=2") (byte '&') ≠
        some (referenceParse (bytes "a=1&b&c=2") (byte '&')) := by
  decide

end AdServer.Url
