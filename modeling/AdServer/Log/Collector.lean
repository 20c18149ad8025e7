import Mathlib.Data.Finmap
import AdServer.Log.Frame

/-!
The collector's `readFile`. It loads a window of 2047 bytes at the current file
position, takes the bytes between the window's first `^` and the next position
where `isHead` holds as a record, and seeks to that position. `fileOffset` is an
`int`, so `ftell` is truncated when it is saved.
-/
namespace AdServer.Log

/-- `sizeof(logBuffer) - 1`. -/
def windowSize : Nat := 2047

/-- The `for` loop over `logBuffer`, from index `i` on, with `begin` and `end` as
indices and `none` for `NULL`. The terminator and the stack memory after the
buffer follow the window's bytes. -/
def scan (stack : Bytes) : Bytes → Nat → Option Nat → Option Nat × Option Nat
  | [], _, first => (first, none)
  | c :: rest, i, none =>
    if c = byte '^' then scan stack rest (i + 1) (some (i + 1))
    else scan stack rest (i + 1) none
  | c :: rest, i, some first =>
    if isHead (c :: rest ++ 0 :: stack) then (some first, some (i - 1))
    else scan stack rest (i + 1) (some first)

structure Delivery where
  offset : Nat
  payload : Bytes
  deriving DecidableEq, Repr

/-- `fseek(fp, target, SEEK_SET)`: a negative offset fails and leaves the position. -/
def fseek (position : Nat) (target : Int) : Nat :=
  if 0 ≤ target then target.toNat else position

structure ReadState where
  position : Nat
  fileOffset : Int
  counter : Int
  delivered : List Delivery
  deriving DecidableEq, Repr

def ReadState.window (s : ReadState) (file : Bytes) : Bytes :=
  (file.drop s.position).take windowSize

/-- One round of the `while` loop; `none` is its `break`. A short read sets the
end-of-file indicator. The callback's result only selects a debug line. -/
def readStep (file : Bytes) (logCallback : Option (Bytes → Bool)) (stack : Bytes)
    (s : ReadState) : Option ReadState :=
  let logBuffer := s.window file
  match scan stack logBuffer 0 none with
  | (some first, some last) =>
    if logBuffer.length < windowSize ∨ last ≤ first then none
    else
      let position := fseek (s.position + logBuffer.length) (s.fileOffset + last + 1)
      let call : Delivery := ⟨s.position + first, (logBuffer.take (last + 1)).drop first⟩
      some
        { position := position
          fileOffset := toInt32 position
          counter := s.counter + 1
          delivered := if logCallback.isSome then s.delivered ++ [call] else s.delivered }
  -- `end` is `NULL`, which no pointer is below
  | _ => none

/-- At most `rounds` rounds of the `while` loop; `memory` gives the memory after the
buffer in each of them. -/
def readRounds (file : Bytes) (logCallback : Option (Bytes → Bool)) :
    Nat → (Nat → Bytes) → ReadState → ReadState
  | 0, _, s => s
  | rounds + 1, memory, s =>
    match readStep file logCallback (memory 0) s with
    | none => s
    | some next => readRounds file logCallback rounds (fun round => memory (round + 1)) next

/-- The whole `while` loop; `none` when it has not ended within the given rounds. -/
def readLoop (file : Bytes) (logCallback : Option (Bytes → Bool)) :
    Nat → (Nat → Bytes) → ReadState → Option ReadState
  | 0, _, _ => none
  | rounds + 1, memory, s =>
    match readStep file logCallback (memory 0) s with
    | none => some s
    | some next => readLoop file logCallback rounds (fun round => memory (round + 1)) next

structure Collector where
  progressMap : Finmap (fun _ : Bytes => Int)
  counterMap : Finmap (fun _ : Bytes => Int)

def startState (fileOffset counter : Int) : ReadState :=
  { position := fseek 0 fileOffset, fileOffset := fileOffset, counter := counter, delivered := [] }

/-- `readFile`, with the calls of the callback; the file is `none` when `fopen`
fails. -/
def readFile (filename : Bytes) (file : Option Bytes) (logCallback : Option (Bytes → Bool))
    (rounds : Nat) (memory : Nat → Bytes) (c : Collector) : Option (Collector × List Delivery) :=
  let fileOffset := (c.progressMap.lookup filename).getD 0
  let counter := (c.counterMap.lookup filename).getD 0
  let opened : Collector :=
    { progressMap := c.progressMap.insert filename fileOffset
      counterMap := c.counterMap.insert filename counter }
  match file with
  | none => some (opened, [])
  | some content =>
    (readLoop content logCallback rounds memory (startState fileOffset counter)).map fun s =>
      ({ progressMap := opened.progressMap.insert filename s.fileOffset
         counterMap := opened.counterMap.insert filename s.counter }, s.delivered)

/-- A window cut at its first `^` and at the next head after it. -/
structure Cut (stack window opening body rest : Bytes) : Prop where
  split : window = opening ++ byte '^' :: (body ++ rest)
  first : byte '^' ∉ opening
  next : rest ≠ []
  head : isHead (rest ++ 0 :: stack) = true
  inside : ∀ i < body.length, isHead (body.drop i ++ (rest ++ 0 :: stack)) = false

theorem scan_before {opening : Bytes} (hopening : byte '^' ∉ opening) (stack rest : Bytes)
    (i : Nat) : scan stack (opening ++ rest) i none = scan stack rest (i + opening.length) none := by
  induction opening generalizing i with
  | nil => rfl
  | cons c opening ih =>
      have hc : c ≠ byte '^' := by rintro rfl; exact hopening List.mem_cons_self
      simp only [List.cons_append, scan, hc, if_false, List.length_cons]
      rw [ih (fun h => hopening (List.mem_cons_of_mem c h)), Nat.add_right_comm, Nat.add_assoc]

theorem scan_inside {stack body rest : Bytes}
    (hbody : ∀ j < body.length, isHead (body.drop j ++ (rest ++ 0 :: stack)) = false)
    (i first : Nat) :
    scan stack (body ++ rest) i (some first) = scan stack rest (i + body.length) (some first) := by
  induction body generalizing i with
  | nil => rfl
  | cons c body ih =>
      have hc := hbody 0 (Nat.zero_lt_succ _)
      simp only [List.drop_zero, List.cons_append] at hc
      simp only [List.cons_append, scan, List.append_assoc, hc, Bool.false_eq_true, if_false,
        List.length_cons]
      rw [ih (fun j hj => hbody (j + 1) (Nat.succ_lt_succ hj)), Nat.add_right_comm, Nat.add_assoc]

theorem scan_head {stack rest : Bytes} (hne : rest ≠ []) (hhead : isHead (rest ++ 0 :: stack) = true)
    (i first : Nat) : scan stack rest i (some first) = (some first, some (i - 1)) := by
  cases rest with
  | nil => exact absurd rfl hne
  | cons c rest =>
      simp only [scan, hhead, if_true]

theorem scan_of_cut {stack window opening body rest : Bytes}
    (h : Cut stack window opening body rest) :
    scan stack window 0 none =
      (some (opening.length + 1), some (opening.length + body.length)) := by
  rw [h.split, scan_before h.first]
  simp only [scan, if_true]
  rw [scan_inside h.inside, scan_head h.next h.head]
  simp only [Nat.zero_add, Prod.mk.injEq, Option.some.injEq, true_and]
  omega

theorem scan_some_cases {stack : Bytes} (window : Bytes) (i first : Nat) (hi : 0 < i) :
    scan stack window i (some first) = (some first, none) ∨
      ∃ body rest, window = body ++ rest ∧ rest ≠ [] ∧ isHead (rest ++ 0 :: stack) = true ∧
        (∀ j < body.length, isHead (body.drop j ++ (rest ++ 0 :: stack)) = false) ∧
        scan stack window i (some first) = (some first, some (i + body.length - 1)) := by
  induction window generalizing i with
  | nil => exact .inl rfl
  | cons c window ih =>
      cases hhead : isHead (c :: window ++ 0 :: stack) with
      | true =>
          refine .inr ⟨[], c :: window, rfl, List.cons_ne_nil c window, hhead, ?_, ?_⟩
          · intro j hj
            cases hj
          · simp only [scan, hhead, if_true, List.length_nil, Nat.add_zero]
      | false =>
          have hscan : scan stack (c :: window) i (some first) =
              scan stack window (i + 1) (some first) := by
            simp only [scan, hhead, Bool.false_eq_true, if_false]
          rw [hscan]
          cases ih (i + 1) (Nat.succ_pos i) with
          | inl hnone => exact .inl hnone
          | inr hsome =>
              obtain ⟨body, rest, hsplit, hne, hrest, hbody, hresult⟩ := hsome
              refine .inr ⟨c :: body, rest, ?_, hne, hrest, ?_, ?_⟩
              · rw [hsplit, List.cons_append]
              · intro j hj
                cases j with
                | zero => simpa only [hsplit, List.cons_append, List.append_assoc,
                    List.drop_zero] using hhead
                | succ j => exact hbody j (Nat.lt_of_succ_lt_succ hj)
              · rw [hresult, List.length_cons]
                simp only [Prod.mk.injEq, Option.some.injEq, true_and]
                omega

theorem cut_of_scan {stack window : Bytes} {first last : Nat}
    (h : scan stack window 0 none = (some first, some last)) :
    ∃ opening body rest, Cut stack window opening body rest ∧
      first = opening.length + 1 ∧ last = opening.length + body.length := by
  by_cases hcaret : byte '^' ∈ window
  · obtain ⟨opening, after, hwindow, hfirst⟩ := List.eq_append_cons_of_mem hcaret
    rw [hwindow, scan_before hfirst] at h
    simp only [scan, if_true, Nat.zero_add] at h
    cases scan_some_cases after (opening.length + 1) (opening.length + 1) (Nat.succ_pos _) with
    | inl hnone =>
        rw [hnone] at h
        cases h
    | inr hsome =>
        obtain ⟨body, rest, hsplit, hne, hrest, hbody, hresult⟩ := hsome
        rw [hresult] at h
        cases h
        refine ⟨opening, body, rest, ⟨?_, hfirst, hne, hrest, hbody⟩, rfl, ?_⟩
        · rw [hwindow, hsplit]
        · omega
  · have hscan := scan_before hcaret stack [] 0
    rw [List.append_nil] at hscan
    rw [hscan] at h
    cases h

theorem Cut.drop_eq {stack window opening body rest : Bytes}
    (h : Cut stack window opening body rest) :
    window.drop (opening.length + 1 + body.length) = rest := by
  have hsplit : window = (opening ++ byte '^' :: body) ++ rest := by
    rw [h.split, List.append_assoc, List.cons_append]
  rw [hsplit]
  refine List.drop_left' ?_
  rw [List.length_append, List.length_cons]
  omega

theorem Cut.take_drop {stack window opening body rest : Bytes}
    (h : Cut stack window opening body rest) :
    (window.take (opening.length + body.length + 1)).drop (opening.length + 1) = body := by
  have hopened : window = (opening ++ [byte '^']) ++ (body ++ rest) := by
    rw [h.split, List.append_assoc, List.singleton_append]
  have hlength : (opening ++ [byte '^']).length = opening.length + 1 := by
    rw [List.length_append, List.length_singleton]
  rw [List.drop_take, hopened, List.drop_left' hlength]
  exact List.take_left' (by omega)

def ReadState.after (s : ReadState) (opening body : Bytes) : ReadState :=
  let position :=
    fseek (s.position + windowSize) (s.fileOffset + (opening.length + 1 + body.length : Nat))
  { position := position
    fileOffset := toInt32 position
    counter := s.counter + 1
    delivered := s.delivered ++ [⟨s.position + (opening.length + 1), body⟩] }

theorem ReadState.delivered_after (s : ReadState) (opening body : Bytes) :
    (s.after opening body).delivered =
      s.delivered ++ [⟨s.position + (opening.length + 1), body⟩] := rfl

theorem readStep_of_cut {file stack opening body rest : Bytes} {s : ReadState}
    (logCallback : Bytes → Bool) (hcut : Cut stack (s.window file) opening body rest)
    (hfull : (s.window file).length = windowSize) (hbody : 2 ≤ body.length) :
    readStep file (some logCallback) stack s = some (s.after opening body) := by
  have hbound : ¬(windowSize < windowSize ∨
      opening.length + body.length ≤ opening.length + 1) := by omega
  have htarget : s.fileOffset + (opening.length + body.length : Nat) + 1 =
      s.fileOffset + (opening.length + 1 + body.length : Nat) := by omega
  simp only [readStep, scan_of_cut hcut, hcut.take_drop, hfull, hbound, if_false, htarget,
    Option.isSome_some, if_true, ReadState.after]

theorem readStep_eq_some_iff (file : Bytes) (logCallback : Bytes → Bool) (stack : Bytes)
    (s next : ReadState) :
    readStep file (some logCallback) stack s = some next ↔
      ∃ opening body rest, Cut stack (s.window file) opening body rest ∧
        (s.window file).length = windowSize ∧ 2 ≤ body.length ∧ next = s.after opening body := by
  constructor
  · intro h
    have hstep := h
    simp only [readStep] at h
    split at h
    · rename_i first last hscan
      obtain ⟨opening, body, rest, hcut, rfl, rfl⟩ := cut_of_scan hscan
      split at h
      · cases h
      · rename_i hbound
        have hlength : (s.window file).length ≤ windowSize := List.length_take_le _ _
        have hfull : (s.window file).length = windowSize := by omega
        have hbody : 2 ≤ body.length := by omega
        refine ⟨opening, body, rest, hcut, hfull, hbody, ?_⟩
        rw [readStep_of_cut logCallback hcut hfull hbody] at hstep
        exact (Option.some.inj hstep).symm
    · cases h
  · rintro ⟨opening, body, rest, hcut, hfull, hbody, rfl⟩
    exact readStep_of_cut logCallback hcut hfull hbody

theorem Cut.length_opening_lt {file stack opening body rest : Bytes} {s : ReadState}
    (h : Cut stack (s.window file) opening body rest) : opening.length < windowSize := by
  have hlength : (s.window file).length ≤ windowSize := List.length_take_le _ _
  rw [h.split] at hlength
  simp only [List.length_append, List.length_cons] at hlength
  omega

theorem readRounds_delivered (file : Bytes) (logCallback : Bytes → Bool) (rounds : Nat)
    (memory : Nat → Bytes) (s : ReadState) :
    s.delivered <+: (readRounds file (some logCallback) rounds memory s).delivered := by
  induction rounds generalizing memory s with
  | zero => exact List.prefix_rfl
  | succ rounds ih =>
      simp only [readRounds]
      cases hstep : readStep file (some logCallback) (memory 0) s with
      | none => exact List.prefix_rfl
      | some next =>
          obtain ⟨opening, body, rest, -, -, -, rfl⟩ :=
            (readStep_eq_some_iff file logCallback (memory 0) s next).mp hstep
          exact (List.prefix_append s.delivered _).trans (ih _ (s.after opening body))

theorem readRounds_first {file : Bytes} {logCallback : Bytes → Bool} {rounds : Nat}
    {memory : Nat → Bytes} {s : ReadState} {call : Delivery} {calls : List Delivery}
    (h : (readRounds file (some logCallback) (rounds + 1) memory s).delivered =
      s.delivered ++ call :: calls) :
    ∃ opening rest, Cut (memory 0) (s.window file) opening call.payload rest ∧
      2 ≤ call.payload.length ∧ call.offset = s.position + (opening.length + 1) ∧
      readStep file (some logCallback) (memory 0) s = some (s.after opening call.payload) ∧
      (readRounds file (some logCallback) rounds (fun round => memory (round + 1))
        (s.after opening call.payload)).delivered =
          (s.after opening call.payload).delivered ++ calls := by
  simp only [readRounds] at h
  cases hstep : readStep file (some logCallback) (memory 0) s with
  | none =>
      rw [hstep] at h
      exact absurd (List.self_eq_append_right.mp h) (List.cons_ne_nil call calls)
  | some next =>
      rw [hstep] at h
      obtain ⟨opening, body, rest, hcut, -, hbody, rfl⟩ :=
        (readStep_eq_some_iff file logCallback (memory 0) s next).mp hstep
      obtain ⟨more, hmore⟩ := readRounds_delivered file logCallback rounds
        (fun round => memory (round + 1)) (s.after opening body)
      have hcalls := hmore.trans h
      rw [ReadState.delivered_after, List.append_assoc, List.singleton_append,
        List.append_right_inj, List.cons.injEq] at hcalls
      obtain ⟨rfl, rfl⟩ := hcalls
      exact ⟨opening, rest, hcut, hbody, rfl, rfl, hmore.symm⟩

theorem readRounds_of_readLoop {file : Bytes} {logCallback : Bytes → Bool} {fuel : Nat}
    {memory : Nat → Bytes} {s t : ReadState}
    (h : readLoop file (some logCallback) fuel memory s = some t) (rounds : Nat) :
    (readRounds file (some logCallback) rounds memory s).delivered <+: t.delivered := by
  induction fuel generalizing memory s rounds with
  | zero => cases h
  | succ fuel ih =>
      simp only [readLoop] at h
      cases hstep : readStep file (some logCallback) (memory 0) s with
      | none =>
          rw [hstep] at h
          cases h
          cases rounds with
          | zero => exact List.prefix_rfl
          | succ rounds =>
              simp only [readRounds, hstep]
              exact List.prefix_rfl
      | some next =>
          rw [hstep] at h
          cases rounds with
          | zero =>
              obtain ⟨opening, body, rest, -, -, -, rfl⟩ :=
                (readStep_eq_some_iff file logCallback (memory 0) s next).mp hstep
              exact (List.prefix_append s.delivered _).trans (ih h 0)
          | succ rounds =>
              simp only [readRounds, hstep]
              exact ih h rounds

end AdServer.Log
