import AdServer.Url.Record

/-!
The reader of serialised parameters with its positions. Every byte is fetched by `readAt`, which
fails outside of the input, and the loop keeps the place of each field. The reader never fails
that way: it agrees with `urlParamDeserialize`, in which a pointer is the rest of the input, and
the fields lie one behind the other in the input.
-/
namespace AdServer.Url

inductive ReadFault
  | outOfRange (index : Nat)
  | url (e : URLException)
  deriving DecidableEq, Repr

def readAt (input : Bytes) (index : Nat) : Except ReadFault UInt8 :=
  match input[index]? with
  | some b => .ok b
  | none => .error (.outOfRange index)

/-- The first loop of `numberDecode` with `rounds` left up to `limit`. -/
def continuationAt (input : Bytes) (p : Nat) : (rounds : Nat) → Nat → Except ReadFault Nat
  | 0, i => .ok i
  | rounds + 1, i => do
    let b ← readAt input (p + i)
    if 0x7F < b then continuationAt input p rounds (i + 1) else .ok i

/-- The second loop, from `buf[i]` down to `buf[0]`. -/
def sumAt (input : Bytes) (p : Nat) : Nat → BitVec 64 → Except ReadFault (BitVec 64)
  | 0, result => do
    let b ← readAt input p
    .ok (result + BitVec.ofNat 64 (b &&& 0x7F).toNat)
  | i + 1, result => do
    let b ← readAt input (p + (i + 1))
    sumAt input p i ((result + BitVec.ofNat 64 (b &&& 0x7F).toNat) <<< 7)

def numberDecodeAt (input : Bytes) (p : Nat) : Except ReadFault (Int × Nat) := do
  let limit := toInt32 (input.length - p)
  let j ← continuationAt input p limit.toNat 0
  if limit ≤ j then .error (.url ⟨"numberDecode:reach boundary"⟩)
  else do
    let result ← sumAt input p j 0
    .ok (result.toInt, p + (j + 1))

def copyAt (input : Bytes) : Nat → Nat → Except ReadFault Bytes
  | _, 0 => .ok []
  | p, n + 1 => do
    let b ← readAt input p
    let rest ← copyAt input (p + 1) n
    .ok (b :: rest)

/-- The value of a field, the position of its text and the position behind it. -/
def decodeFieldAt (input : Bytes) : ParamType → Nat → Except ReadFault (FieldValue × Nat × Nat)
  | .int, p => do
    let (num, p') ← numberDecodeAt input p
    .ok (.int num, p', p')
  | .string, p => do
    let (num, p') ← numberDecodeAt input p
    if 0 < num ∧ p' + num ≤ input.length then do
      let v ← copyAt input p' num.toNat
      .ok (.string v, p', p' + num.toNat)
    else .ok (.string [], p', p')

structure Span where
  key : Bytes
  value : FieldValue
  start : Nat
  text : Nat
  stop : Nat

structure Progress where
  m : ParamMap
  p : Nat
  spans : List Span

def deserializeLoopAt (input : Bytes) :
    List ParamBindingItem → BitVec 64 → EStateM ReadFault Progress (BitVec 64)
  | [], vc, st => .ok vc st
  | item :: table, vc, st =>
    if st.p = input.length then deserializeLoopAt input table vc st
    else
      match decodeFieldAt input item.2 st.p with
      | .error e => .error e st
      | .ok (f, text, stop) =>
        deserializeLoopAt input table (vc ^^^ f.weight)
          ⟨insertField st.m (item.1, f), stop, st.spans ++ [⟨item.1, f, st.p, text, stop⟩]⟩

def urlParamDeserializeAt (table : List ParamBindingItem) (input : Bytes) (m : ParamMap) :
    EStateM.Result ReadFault Progress (BitVec 64) :=
  deserializeLoopAt input table 0xFFFFFFFF#64 ⟨m, 0, []⟩

/-! ### The reads of a field -/

section
variable {input : Bytes} {p : Nat}

theorem readAt_of_drop {b : UInt8} {rest : Bytes} (h : input.drop p = b :: rest) :
    readAt input p = .ok b := by
  have hget : input[p]? = some b := by rw [← List.head?_drop, h, List.head?_cons]
  rw [readAt, hget]

theorem drop_succ_of_drop {b : UInt8} {rest : Bytes} (h : input.drop p = b :: rest) :
    input.drop (p + 1) = rest := by
  rw [← List.drop_drop, h, List.drop_one, List.tail_cons]

theorem continuationAt_eq (limit : Int) (rounds i : Nat) (hlimit : limit = (i + rounds : Nat))
    (hlen : p + (i + rounds) ≤ input.length) :
    continuationAt input p rounds i = .ok (countContinuation limit (input.drop (p + i)) i) := by
  induction rounds generalizing i with
  | zero =>
      rw [continuationAt]
      cases hdrop : input.drop (p + i) with
      | nil => rfl
      | cons b rest => rw [countContinuation, if_neg fun h => absurd h.1 (by omega)]
  | succ rounds ih =>
      cases hdrop : input.drop (p + i) with
      | nil =>
          rw [List.drop_eq_nil_iff] at hdrop
          omega
      | cons b rest =>
          have hrest := drop_succ_of_drop hdrop
          have hnext := ih (i + 1) (by omega) (by omega)
          rw [← Nat.add_assoc, hrest] at hnext
          rw [continuationAt, readAt_of_drop hdrop, countContinuation]
          by_cases hb : 0x7F < b
          · rw [if_pos ⟨by omega, hb⟩, ← hnext]
            exact if_pos hb
          · rw [if_neg fun h => hb h.2]
            exact if_neg hb

theorem sumAt_eq {b : UInt8} {rest : Bytes} (hdrop : input.drop p = b :: rest) (j : Nat)
    (hj : j ≤ rest.length) (result : BitVec 64) :
    sumAt input p j result =
      .ok ((rest.take j).foldr (fun c result => (result + BitVec.ofNat 64 (c &&& 0x7F).toNat) <<< 7)
        result + BitVec.ofNat 64 (b &&& 0x7F).toNat) := by
  induction j generalizing result with
  | zero =>
      rw [sumAt, readAt_of_drop hdrop]
      rfl
  | succ j ih =>
      have hget : readAt input (p + (j + 1)) = .ok rest[j] := by
        have hnext : input.drop (p + (j + 1)) = rest[j] :: rest.drop (j + 1) := by
          rw [← List.drop_drop, hdrop, List.drop_succ_cons, List.drop_eq_getElem_cons (by omega)]
        exact readAt_of_drop hnext
      rw [sumAt, hget]
      refine (ih (by omega) _).trans ?_
      rw [List.take_succ_eq_append_getElem (by omega), List.foldr_append]
      rfl

theorem copyAt_eq (p n : Nat) (h : p + n ≤ input.length) :
    copyAt input p n = .ok ((input.drop p).take n) := by
  induction n generalizing p with
  | zero => rfl
  | succ n ih =>
      cases hdrop : input.drop p with
      | nil =>
          rw [List.drop_eq_nil_iff] at hdrop
          omega
      | cons b rest =>
          have hnext := ih (p + 1) (by omega)
          rw [drop_succ_of_drop hdrop] at hnext
          rw [copyAt, readAt_of_drop hdrop, hnext, List.take_succ_cons]
          rfl

theorem countContinuationAt_eq (hp : p ≤ input.length) :
    continuationAt input p (toInt32 (input.length - p)).toNat 0 =
      .ok (countContinuation (toInt32 (input.length - p)) (input.drop p) 0) := by
  have hle := toInt32_le (input.length - p)
  by_cases hlimit : 0 ≤ toInt32 (input.length - p)
  · exact continuationAt_eq _ _ 0 (by omega) (by omega)
  · rw [Int.toNat_of_nonpos (by omega), continuationAt]
    cases input.drop p with
    | nil => rfl
    | cons b rest => rw [countContinuation, if_neg fun h => hlimit (Int.le_of_lt h.1)]

/-- `numberDecode` at a position of the input: an exception, or a later position. -/
theorem numberDecodeAt_cases (hp : p ≤ input.length) :
    (∃ e, numberDecode (input.drop p) = .error e ∧ numberDecodeAt input p = .error (.url e)) ∨
      ∃ num p', p < p' ∧ p' ≤ input.length ∧
        numberDecode (input.drop p) = .ok (num, input.drop p') ∧
        numberDecodeAt input p = .ok (num, p') := by
  have hle := toInt32_le (input.length - p)
  have hcount := countContinuationAt_eq hp
  unfold numberDecodeAt numberDecode
  rw [List.length_drop]
  dsimp only
  rw [hcount]
  generalize countContinuation (toInt32 (input.length - p)) (input.drop p) 0 = j
  by_cases hj : toInt32 (input.length - p) ≤ j
  · exact .inl ⟨_, if_pos hj, if_pos hj⟩
  · cases hdrop : input.drop p with
    | nil =>
        rw [List.drop_eq_nil_iff] at hdrop
        omega
    | cons b rest =>
        have hlen := congrArg List.length hdrop
        rw [List.length_drop, List.length_cons] at hlen
        refine .inr ⟨(numberDecodeSum ((b :: rest).take (j + 1))).toInt, p + (j + 1), by omega,
          by omega, ?_, ?_⟩
        · rw [if_neg hj, ← hdrop, List.drop_drop]
        · refine (if_neg hj).trans ?_
          rw [sumAt_eq hdrop j (by omega)]
          rfl

theorem decodeFieldAt_cases (hp : p ≤ input.length) (type : ParamType) :
    (∃ e, decodeField type (input.drop p) = .error e ∧
        decodeFieldAt input type p = .error (.url e)) ∨
      ∃ f text stop, p < text ∧ text ≤ stop ∧ stop ≤ input.length ∧
        (∀ v, f = .string v → v = (input.take stop).drop text) ∧
        decodeField type (input.drop p) = .ok (f, input.drop stop) ∧
        decodeFieldAt input type p = .ok (f, text, stop) := by
  rcases numberDecodeAt_cases hp with ⟨e, hlist, hat⟩ | ⟨num, p', hlt, hle, hlist, hat⟩
  · refine .inl ⟨e, ?_, ?_⟩
    · cases type <;> simp only [decodeField, decodeUrlParamNum, decodeUrlParamStr, hlist]
    · cases type <;> simp only [decodeFieldAt, hat] <;> rfl
  · right
    cases type with
    | int =>
        refine ⟨.int num, p', p', hlt, Nat.le_refl _, hle, ?_, ?_, ?_⟩
        · intro v hv
          cases hv
        · simp only [decodeField, decodeUrlParamNum, hlist]
        · rw [decodeFieldAt, hat]
          rfl
    | string =>
        by_cases hnum : 0 < num ∧ p' + num ≤ input.length
        · have hstop : p' + num.toNat ≤ input.length := by omega
          refine ⟨.string ((input.drop p').take num.toNat), p', p' + num.toNat, hlt, by omega,
            hstop, ?_, ?_, ?_⟩
          · intro v hv
            cases hv
            rw [List.take_drop]
          · rw [decodeField, decodeUrlParamStr, hlist]
            dsimp only
            rw [if_pos ⟨hnum.1, by rw [List.length_drop]; omega⟩, List.drop_drop]
          · rw [decodeFieldAt, hat]
            refine (if_pos hnum).trans ?_
            rw [copyAt_eq p' num.toNat hstop]
            rfl
        · refine ⟨.string [], p', p', hlt, Nat.le_refl _, hle, ?_, ?_, ?_⟩
          · intro v hv
            cases hv
            rw [List.drop_eq_nil_of_le (List.length_take_le _ _)]
          · rw [decodeField, decodeUrlParamStr, hlist]
            dsimp only
            rw [if_neg fun h => hnum ⟨h.1, by have := h.2; rw [List.length_drop] at this; omega⟩]
          · rw [decodeFieldAt, hat]
            exact if_neg hnum

end

/-! ### The fields of an input -/

structure InBounds (input : Bytes) (st : Progress) : Prop where
  position : st.p ≤ input.length
  spans : ∀ span ∈ st.spans, span.start < span.text ∧ span.text ≤ span.stop ∧ span.stop ≤ st.p
  substring : ∀ span ∈ st.spans, ∀ v, span.value = .string v →
    v = (input.take span.stop).drop span.text
  apart : st.spans.Pairwise fun earlier later => earlier.stop ≤ later.start

theorem InBounds.push {input : Bytes} {st : Progress} (h : InBounds input st) {key : Bytes}
    {f : FieldValue} {text stop : Nat} (htext : st.p < text) (hstop : text ≤ stop)
    (hlen : stop ≤ input.length) (hvalue : ∀ v, f = .string v → v = (input.take stop).drop text)
    (m : ParamMap) :
    InBounds input ⟨m, stop, st.spans ++ [⟨key, f, st.p, text, stop⟩]⟩ where
  position := hlen
  spans := by
    intro span hspan
    rcases List.mem_append.mp hspan with hold | hnew
    · obtain ⟨hstart, hend, hp⟩ := h.spans span hold
      exact ⟨hstart, hend, by dsimp only; omega⟩
    · rw [List.mem_singleton.mp hnew]
      exact ⟨htext, hstop, Nat.le_refl _⟩
  substring := by
    intro span hspan
    rcases List.mem_append.mp hspan with hold | hnew
    · exact h.substring span hold
    · rw [List.mem_singleton.mp hnew]
      exact hvalue
  apart := by
    rw [List.pairwise_append]
    refine ⟨h.apart, List.pairwise_singleton _ _, ?_⟩
    intro span hspan later hlater
    rw [List.mem_singleton.mp hlater]
    exact (h.spans span hspan).2.2

def Progress.fields (st : Progress) : List (Bytes × FieldValue) :=
  st.spans.map fun span => (span.key, span.value)

/-- What the two readers have in common at the end. -/
def Agree (input : Bytes) (m : ParamMap) (whole : EStateM.Result URLException ParamMap (BitVec 64))
    (indexed : EStateM.Result ReadFault Progress (BitVec 64)) : Prop :=
  ∃ st, InBounds input st ∧ st.m = st.fields.foldl insertField m ∧
    ((∃ vc, whole = .ok vc st.m ∧ indexed = .ok vc st) ∨
      ∃ e, whole = .error e st.m ∧ indexed = .error (.url e) st)

theorem deserializeLoopAt_agree {input : Bytes} {m : ParamMap} (table : List ParamBindingItem)
    (vc : BitVec 64) {st : Progress} (h : InBounds input st)
    (hm : st.m = st.fields.foldl insertField m) :
    Agree input m (deserializeLoop table (input.drop st.p) vc st.m)
      (deserializeLoopAt input table vc st) := by
  induction table generalizing vc st with
  | nil => exact ⟨st, h, hm, .inl ⟨vc, rfl, rfl⟩⟩
  | cons item table ih =>
      have hposition := h.position
      by_cases hend : st.p = input.length
      · have hnil : input.drop st.p = [] := by rw [hend, List.drop_length]
        rw [deserializeLoop, if_pos hnil, deserializeLoopAt, if_pos hend]
        exact ih vc h hm
      · have hne : input.drop st.p ≠ [] := by
          rw [ne_eq, List.drop_eq_nil_iff]
          omega
        rw [deserializeLoop_cons item table hne, deserializeLoopAt, if_neg hend]
        rcases decodeFieldAt_cases hposition item.2 with
          ⟨e, hlist, hat⟩ | ⟨f, text, stop, htext, hstop, hlen, hvalue, hlist, hat⟩
        · rw [hlist, hat]
          exact ⟨st, h, hm, .inr ⟨e, rfl, rfl⟩⟩
        · rw [hlist, hat]
          refine ih _ (h.push htext hstop hlen hvalue _) ?_
          rw [Progress.fields, List.map_append, List.foldl_append, ← Progress.fields, ← hm]
          rfl

/-- Whatever the input is, no byte outside of it is read, the fields lie in it one behind the
other, and the string values are parts of it. -/
theorem urlParamDeserialize_inBounds (table : List ParamBindingItem) (input : Bytes)
    (m : ParamMap) :
    ∃ st, InBounds input st ∧ st.m = st.fields.foldl insertField m ∧
      ((∃ vc, urlParamDeserialize table input m = .ok vc st.m ∧
          urlParamDeserializeAt table input m = .ok vc st) ∨
        ∃ e, urlParamDeserialize table input m = .error e st.m ∧
          urlParamDeserializeAt table input m = .error (.url e) st) :=
  have hstart : InBounds input ⟨m, 0, []⟩ := ⟨Nat.zero_le _, nofun, nofun, List.Pairwise.nil⟩
  deserializeLoopAt_agree table _ hstart rfl

end AdServer.Url
