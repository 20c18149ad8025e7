import AdServer.Url.Basic

/-!
`getParamv2`: one pass over a NUL-terminated query with two pointers. `p` walks
over the text, `p0` marks where the current key or value starts, and the key
survives from one segment to the next.
-/
namespace AdServer.Url

def cString (s : Bytes) : Bytes := s.takeWhile (· ≠ 0)

/-- `*(buffer + i)`; the terminator stands at the end. -/
def charAt (s : Bytes) (i : Nat) : UInt8 := s.getD i 0

def skipSpaces (s : Bytes) (p0 : Nat) : Nat := p0 + ((s.drop p0).takeWhile (· = byte ' ')).length

/-- `assign(p0, p)`; a negative range is `std::length_error`. -/
def assign (s : Bytes) (p0 p : Nat) : Option Bytes :=
  if p0 ≤ p then some ((s.take p).drop p0) else none

structure QueryState where
  p : Nat
  p0 : Nat
  pairFlag : Bool
  key : Bytes
  m : ParamMap

def getParamv2Step (s : Bytes) (seperator : UInt8) (st : QueryState) : Option QueryState :=
  if st.pairFlag = false ∧ charAt s st.p = byte '=' then
    let p0 := skipSpaces s st.p0
    if p0 ≠ st.p then
      (assign s p0 st.p).map fun key =>
        { st with p := st.p + 1, p0 := st.p + 1, key := key, pairFlag := true }
    else some { st with p := st.p + 1, p0 := st.p + 1 }
  else if charAt s st.p = seperator then
    let p0 := skipSpaces s st.p0
    if p0 ≠ st.p ∨ charAt s p0 = seperator then
      (assign s p0 st.p).map fun value =>
        { st with p := st.p + 1, p0 := st.p + 1, m := Finmap.insert st.key value st.m, pairFlag := false }
    else some { st with p := st.p + 1, p0 := st.p + 1 }
  else some { st with p := st.p + 1 }

def getParamv2Loop (s : Bytes) (seperator : UInt8) : Nat → QueryState → Option QueryState
  | 0, st => some st
  | n + 1, st => (getParamv2Step s seperator st).bind (getParamv2Loop s seperator n)

/-- `getParamv2`; `none` is an exception of the string class. -/
def getParamv2 (m : ParamMap) (buffer : Bytes) (seperator : UInt8) : Option ParamMap :=
  let s := cString buffer
  (getParamv2Loop s seperator s.length ⟨0, 0, false, [], m⟩).bind fun st =>
    if st.p ≠ st.p0 then
      (assign s st.p0 st.p).map fun value => Finmap.insert st.key value st.m
    else some st.m

theorem charAt_append_right (s t : Bytes) (i : Nat) : charAt (s ++ t) (s.length + i) = charAt t i := by
  simp [charAt, List.getElem?_append_right]

theorem getParamv2Loop_add (s : Bytes) (seperator : UInt8) (a b : Nat) (st : QueryState) :
    getParamv2Loop s seperator (a + b) st =
      (getParamv2Loop s seperator a st).bind (getParamv2Loop s seperator b) := by
  induction a generalizing st with
  | zero => simp [getParamv2Loop]
  | succ a ih =>
      rw [Nat.succ_add, getParamv2Loop, getParamv2Loop]
      cases getParamv2Step s seperator st with
      | none => rfl
      | some st' => exact ih st'

/-- The loop walks over a text that ends neither the key nor the value. -/
theorem getParamv2Loop_walk (front rest : Bytes) {text : Bytes} {seperator : UInt8}
    (h : seperator ∉ text) (st : QueryState) (hp : st.p = front.length)
    (hflag : st.pairFlag = true ∨ byte '=' ∉ text) :
    getParamv2Loop (front ++ (text ++ rest)) seperator text.length st =
      some { st with p := front.length + text.length } := by
  induction text generalizing front st with
  | nil => simp [getParamv2Loop, ← hp]
  | cons c text ih =>
      have hchar : charAt (front ++ (c :: text ++ rest)) st.p = c := by
        rw [hp]
        exact charAt_append_right front (c :: text ++ rest) 0
      have hc : c ≠ seperator := fun heq => h (by simp [heq])
      have hkey : ¬ (st.pairFlag = false ∧ c = byte '=') := by
        rintro ⟨hfalse, rfl⟩
        rcases hflag with htrue | hnotMem
        · rw [hfalse] at htrue
          cases htrue
        · exact hnotMem List.mem_cons_self
      have hstep : getParamv2Step (front ++ (c :: text ++ rest)) seperator st =
          some { st with p := st.p + 1 } := by
        rw [getParamv2Step, hchar, if_neg hkey, if_neg hc]
      have htail := ih (front ++ [c]) (fun hmem => h (List.mem_cons_of_mem c hmem))
        { st with p := st.p + 1 } (by simp [hp])
        (hflag.imp_right fun hmem hin => hmem (List.mem_cons_of_mem c hin))
      simp only [List.append_assoc, List.singleton_append] at htail
      rw [List.length_cons, getParamv2Loop, hstep, Option.bind_some, List.cons_append, htail]
      simp [Nat.add_assoc, Nat.add_comm 1]

theorem skipSpaces_eq {s : Bytes} {p0 : Nat} (h : charAt s p0 ≠ byte ' ') :
    skipSpaces s p0 = p0 := by
  have hnone : (s.drop p0).takeWhile (· = byte ' ') = [] := by
    cases hdrop : s.drop p0 with
    | nil => rfl
    | cons c rest =>
        have hc : charAt s p0 = c := by
          rw [charAt, List.getD_eq_getElem?_getD, ← List.head?_drop, hdrop]
          rfl
        rw [List.takeWhile_cons_of_neg (by simpa using hc ▸ h)]
  rw [skipSpaces, hnone, List.length_nil, Nat.add_zero]

theorem assign_append (front text rest : Bytes) :
    assign (front ++ (text ++ rest)) front.length (front.length + text.length) = some text := by
  rw [assign, if_pos (by omega), ← List.append_assoc, ← List.length_append, List.take_left,
    List.drop_left]

/-- A name that the query syntax leaves as it is. -/
structure QueryName (seperator : UInt8) (name : Bytes) : Prop where
  nonempty : name ≠ []
  noSpace : byte ' ' ∉ name
  noEquals : byte '=' ∉ name
  noSeperator : seperator ∉ name

/-- From the start of a pair the loop finds the name and walks over the value. -/
theorem getParamv2Loop_pair (front rest : Bytes) {name value : Bytes} {seperator : UInt8}
    (hname : QueryName seperator name) (hvalue : seperator ∉ value) (st : QueryState)
    (hp : st.p = front.length) (hp0 : st.p0 = front.length) (hflag : st.pairFlag = false) :
    getParamv2Loop (front ++ (name ++ byte '=' :: (value ++ rest))) seperator
        (name.length + (1 + value.length)) st =
      some { st with
        p := front.length + name.length + 1 + value.length
        p0 := front.length + name.length + 1
        key := name
        pairFlag := true } := by
  have hequals : charAt (front ++ (name ++ byte '=' :: (value ++ rest)))
      (front.length + name.length) = byte '=' := by
    rw [charAt_append_right]
    exact charAt_append_right name _ 0
  have hstart : charAt (front ++ (name ++ byte '=' :: (value ++ rest))) front.length ≠ byte ' ' := by
    have hhead := charAt_append_right front (name ++ byte '=' :: (value ++ rest)) 0
    rw [Nat.add_zero] at hhead
    obtain ⟨c, tail, hcons⟩ := List.exists_cons_of_ne_nil hname.nonempty
    rw [hhead, hcons]
    exact fun hc => hname.noSpace (by rw [hcons]; exact hc ▸ List.mem_cons_self)
  have hlen := List.length_pos_iff.mpr hname.nonempty
  have hstep : getParamv2Step (front ++ (name ++ byte '=' :: (value ++ rest))) seperator
      { st with p := front.length + name.length } =
      some { st with
        p := front.length + name.length + 1
        p0 := front.length + name.length + 1
        key := name
        pairFlag := true } := by
    rw [getParamv2Step]
    simp only [hflag, hequals, and_self, if_true, hp0, skipSpaces_eq hstart, assign_append,
      Option.map_some]
    rw [if_pos (by omega)]
  have hwalk := getParamv2Loop_walk (front ++ (name ++ [byte '='])) rest hvalue
    { st with
      p := front.length + name.length + 1
      p0 := front.length + name.length + 1
      key := name
      pairFlag := true } (by simp [Nat.add_assoc]) (.inl rfl)
  simp only [List.append_assoc, List.singleton_append, List.length_append, List.length_singleton,
    ← Nat.add_assoc] at hwalk
  rw [getParamv2Loop_add, getParamv2Loop_walk front _ hname.noSeperator st hp (.inr hname.noEquals),
    Option.bind_some, getParamv2Loop_add, getParamv2Loop, hstep]
  exact hwalk

theorem cString_of_notMem {s : Bytes} (h : (0 : UInt8) ∉ s) : cString s = s := by
  apply List.takeWhile_eq_self_iff.mpr
  intro x hx
  have hne : x ≠ 0 := fun heq => h (heq ▸ hx)
  simpa using hne

theorem zero_notMem_cString (s : Bytes) : (0 : UInt8) ∉ cString s := fun h => by
  simpa using List.mem_takeWhile_imp h

theorem cString_eq_self_iff (s : Bytes) : cString s = s ↔ (0 : UInt8) ∉ s :=
  ⟨fun h => h ▸ zero_notMem_cString s, cString_of_notMem⟩

theorem mem_of_mem_cString {s : Bytes} {c : UInt8} (h : c ∈ cString s) : c ∈ s :=
  (List.takeWhile_prefix _).subset h

theorem cString_append (s t : Bytes) :
    cString (s ++ t) = if (0 : UInt8) ∈ s then cString s else s ++ cString t := by
  induction s with
  | nil => rfl
  | cons c s ih =>
      by_cases hc : c = 0
      · simp [cString, hc]
      · have hcons : ∀ rest, cString (c :: rest) = c :: cString rest := fun rest =>
          List.takeWhile_cons_of_pos (by simpa using hc)
        simp only [List.cons_append, hcons, ih, List.mem_cons, Ne.symm hc, false_or]
        split <;> rfl

/-- A text with a NUL behind it ends at the first NUL of the two. -/
theorem exists_append_nul (text rest : Bytes) :
    ∃ more, text ++ 0 :: rest = cString text ++ 0 :: more := by
  induction text with
  | nil => exact ⟨rest, rfl⟩
  | cons c text ih =>
      by_cases hc : c = 0
      · exact ⟨text ++ 0 :: rest, by simp [cString, hc]⟩
      · obtain ⟨more, hmore⟩ := ih
        refine ⟨more, ?_⟩
        rw [cString, List.takeWhile_cons_of_pos (by simpa using hc)]
        exact congrArg (c :: ·) hmore

@[simp]
theorem cString_cString (s : Bytes) : cString (cString s) = cString s := List.takeWhile_idem

theorem getParamv2_cString (m : ParamMap) (buffer : Bytes) (seperator : UInt8) :
    getParamv2 m (cString buffer) seperator = getParamv2 m buffer seperator := by
  rw [getParamv2, cString_cString, getParamv2]

theorem skipSpaces_le {s : Bytes} {p0 p : Nat} (h : p0 ≤ p) (hchar : charAt s p ≠ byte ' ') :
    skipSpaces s p0 ≤ p := by
  by_contra hlt
  rw [skipSpaces] at hlt
  have hindex : p - p0 < ((s.drop p0).takeWhile (· = byte ' ')).length := by omega
  have hmem := List.mem_takeWhile_imp (List.getElem_mem hindex)
  have hpre := List.takeWhile_prefix (fun c => decide (c = byte ' ')) (l := s.drop p0)
  have hget := hpre.getElem hindex
  have hlen : p < s.length := by
    have := hpre.length_le
    rw [List.length_drop] at this
    omega
  rw [hget, List.getElem_drop] at hmem
  apply hchar
  have hp : p0 + (p - p0) = p := by omega
  simpa [charAt, hlen, hp] using hmem

/-- What the last pair of the query leaves in the map. -/
theorem getParamv2_last (front : Bytes) {name value : Bytes} {seperator : UInt8}
    (hname : QueryName seperator name) (hvalue : seperator ∉ value) (st : QueryState)
    (hp : st.p = front.length) (hp0 : st.p0 = front.length) (hflag : st.pairFlag = false) :
    ((getParamv2Loop (front ++ (name ++ byte '=' :: value)) seperator
        (name.length + (1 + value.length)) st).bind fun st =>
      if st.p ≠ st.p0 then
        (assign (front ++ (name ++ byte '=' :: value)) st.p0 st.p).map fun text =>
          Finmap.insert st.key text st.m
      else some st.m) =
      some (if value = [] then st.m else Finmap.insert name value st.m) := by
  have hloop := getParamv2Loop_pair front [] hname hvalue st hp hp0 hflag
  have hassign := assign_append (front ++ (name ++ [byte '='])) value []
  simp only [List.append_assoc, List.singleton_append, List.length_append, List.length_singleton,
    ← Nat.add_assoc, List.append_nil] at hloop hassign
  rw [← Nat.add_assoc, hloop, Option.bind_some]
  by_cases hempty : value = []
  · simp [hempty]
  · have hlen := List.length_pos_iff.mpr hempty
    simp only [hempty, if_false, hassign, Option.map_some]
    rw [if_pos (by omega)]

theorem getParamv2_pair (m : ParamMap) {name value : Bytes} {seperator : UInt8}
    (hname : QueryName seperator name) (hvalue : seperator ∉ value)
    (hnul : (0 : UInt8) ∉ name ++ byte '=' :: value) :
    getParamv2 m (name ++ byte '=' :: value) seperator =
      some (if value = [] then m else Finmap.insert name value m) := by
  have hlast := getParamv2_last [] hname hvalue ⟨0, 0, false, [], m⟩ rfl rfl rfl
  simp only [List.nil_append] at hlast
  rw [getParamv2, cString_of_notMem hnul]
  simp only [List.length_append, List.length_cons, Nat.add_comm value.length 1]
  exact hlast

/-- A separator behind a pair puts the pair into the map, without leading spaces. -/
theorem getParamv2Step_seperator (front rest : Bytes) {seperator : UInt8}
    (hspace : seperator ≠ byte ' ') (st : QueryState) (hp : st.p = front.length)
    (hordered : st.p0 ≤ st.p) (hflag : st.pairFlag = true) :
    ∃ text, getParamv2Step (front ++ seperator :: rest) seperator st =
      some { st with
        p := front.length + 1
        p0 := front.length + 1
        m := Finmap.insert st.key text st.m
        pairFlag := false } := by
  have hchar : charAt (front ++ seperator :: rest) st.p = seperator := by
    rw [hp]
    exact charAt_append_right front (seperator :: rest) 0
  have hle : skipSpaces (front ++ seperator :: rest) st.p0 ≤ st.p :=
    skipSpaces_le hordered (by rw [hchar]; exact hspace)
  have hinsert : skipSpaces (front ++ seperator :: rest) st.p0 ≠ st.p ∨
      charAt (front ++ seperator :: rest) (skipSpaces (front ++ seperator :: rest) st.p0) =
        seperator := by
    by_cases hend : skipSpaces (front ++ seperator :: rest) st.p0 = st.p
    · exact .inr (hend ▸ hchar)
    · exact .inl hend
  unfold getParamv2Step
  simp only [hflag, Bool.true_eq_false, false_and, if_false, hchar, if_true, hinsert, assign, hle,
    Option.map_some]
  exact ⟨_, by rw [hp]⟩

theorem getParamv2_pairs (m : ParamMap) {name value name' value' : Bytes} {seperator : UInt8}
    (hspace : seperator ≠ byte ' ') (hname : QueryName seperator name) (hvalue : seperator ∉ value)
    (hname' : QueryName seperator name') (hvalue' : seperator ∉ value')
    (hnul : (0 : UInt8) ∉
      name ++ byte '=' :: (value ++ seperator :: (name' ++ byte '=' :: value'))) :
    ∃ text, getParamv2 m
        (name ++ byte '=' :: (value ++ seperator :: (name' ++ byte '=' :: value'))) seperator =
      some (if value' = [] then Finmap.insert name text m
        else Finmap.insert name' value' (Finmap.insert name text m)) := by
  have hfirst := getParamv2Loop_pair [] (seperator :: (name' ++ byte '=' :: value')) hname hvalue
    ⟨0, 0, false, [], m⟩ rfl rfl rfl
  have hfront : name ++ byte '=' :: (value ++ seperator :: (name' ++ byte '=' :: value')) =
      (name ++ byte '=' :: value) ++ seperator :: (name' ++ byte '=' :: value') := by simp
  have hend : (name ++ byte '=' :: value ++ [seperator]).length =
      (name ++ byte '=' :: value).length + 1 := List.length_append
  obtain ⟨text, hstep⟩ := getParamv2Step_seperator (name ++ byte '=' :: value)
    (name' ++ byte '=' :: value') hspace
    ⟨name.length + 1 + value.length, name.length + 1, true, name, m⟩
    (by simp only [List.length_append, List.length_cons]; omega) (by simp only; omega) rfl
  have hlast := getParamv2_last (name ++ byte '=' :: value ++ [seperator]) hname' hvalue'
    ⟨(name ++ byte '=' :: value).length + 1, (name ++ byte '=' :: value).length + 1, false, name,
      Finmap.insert name text m⟩ hend.symm hend.symm rfl
  refine ⟨text, ?_⟩
  rw [getParamv2, cString_of_notMem hnul]
  simp only [List.nil_append, List.length_nil, Nat.zero_add] at hfirst
  rw [← hfront] at hstep
  simp only [List.append_assoc, List.cons_append, List.nil_append] at hlast
  have hlen : (name ++ byte '=' :: (value ++ seperator :: (name' ++ byte '=' :: value'))).length =
      name.length + (1 + value.length) + (1 + (name'.length + (1 + value'.length))) := by
    simp only [List.length_append, List.length_cons]
    omega
  simp only [hlen]
  rw [getParamv2Loop_add, hfirst, Option.bind_some, Nat.add_comm 1, getParamv2Loop, hstep,
    Option.bind_some]
  exact hlast

/-- The pointers are in order, and `key` is in the map or about to be inserted. -/
structure KeySeen (key : Bytes) (st : QueryState) : Prop where
  ordered : st.p0 ≤ st.p
  seen : key ∈ st.m ∨ st.pairFlag = true ∧ st.key = key

theorem getParamv2Step_seen {s key : Bytes} {seperator : UInt8} (hsep : seperator ≠ byte ' ')
    {st : QueryState} (h : KeySeen key st) :
    ∃ st', getParamv2Step s seperator st = some st' ∧ KeySeen key st' ∧
      (key ∈ st'.m ∨ st'.p0 < st'.p) := by
  have hskip : ∀ {c}, charAt s st.p = c → c ≠ byte ' ' → skipSpaces s st.p0 ≤ st.p :=
    fun hc hne => skipSpaces_le h.ordered (hc ▸ hne)
  unfold getParamv2Step
  split
  · rename_i heq
    have hmem : key ∈ st.m := h.seen.resolve_right fun hpair => by simp [hpair.1] at heq
    have hle := hskip heq.2 (by decide)
    simp only [assign, hle, if_true, Option.map_some]
    split
    · exact ⟨_, rfl, ⟨le_refl _, .inl hmem⟩, .inl hmem⟩
    · exact ⟨_, rfl, ⟨le_refl _, .inl hmem⟩, .inl hmem⟩
  · split
    · rename_i hchar
      have hle := hskip hchar hsep
      have hinsert : skipSpaces s st.p0 ≠ st.p ∨ charAt s (skipSpaces s st.p0) = seperator := by
        by_cases hp : skipSpaces s st.p0 = st.p
        · exact .inr (hp ▸ hchar)
        · exact .inl hp
      simp only [assign, hle, if_true, hinsert, Option.map_some]
      have hmem : ∀ value, key ∈ Finmap.insert st.key value st.m := fun value =>
        Finmap.mem_insert.mpr (h.seen.elim .inr fun hpair => .inl hpair.2.symm)
      exact ⟨_, rfl, ⟨le_refl _, .inl (hmem _)⟩, .inl (hmem _)⟩
    · exact ⟨_, rfl, ⟨Nat.le_succ_of_le h.ordered, h.seen⟩, .inr (Nat.lt_succ_of_le h.ordered)⟩

theorem getParamv2Loop_seen {s key : Bytes} {seperator : UInt8} (hsep : seperator ≠ byte ' ')
    (n : Nat) {st : QueryState} (h : KeySeen key st) (hlater : key ∈ st.m ∨ st.p0 < st.p) :
    ∃ st', getParamv2Loop s seperator n st = some st' ∧ KeySeen key st' ∧
      (key ∈ st'.m ∨ st'.p0 < st'.p) := by
  induction n generalizing st with
  | zero => exact ⟨st, rfl, h, hlater⟩
  | succ n ih =>
      obtain ⟨st', hstep, h', hlater'⟩ := getParamv2Step_seen (s := s) hsep h
      rw [getParamv2Loop, hstep]
      exact ih h' hlater'

end AdServer.Url
