import AdServer.Log.Collector

/-!
Which records the collector hands over when it reads a whole file from its start.
A record is found only when it has at least two bytes, when it fits into one
window together with the flag that follows it, and when no position in it looks
like a head; after a record that starts at `2 ^ 31` or later the saved offset is
wrong.
-/
namespace AdServer.Log

/-- The calls of the callback that hand over the records from `offset` on, each
read from its own place. -/
def placed : Nat → List Bytes → List Delivery
  | _, [] => []
  | offset, log :: logs =>
    ⟨offset + (flag log.length).length, log⟩ :: placed (offset + (frame log).length) logs

/-- Whatever memory follows the buffer, the collector hands over exactly `logs` in
as many rounds, before it reaches the records `trailing`. -/
def Collected (logs trailing : List Bytes) : Prop :=
  ∀ (logCallback : Bytes → Bool) (memory : Nat → Bytes), (∀ payload, logCallback payload = true) →
    (readRounds (stream (logs ++ trailing)) (some logCallback) logs.length memory
      (startState 0 0)).delivered = placed 0 logs

/-- A record the collector finds when a record `next` follows it. -/
structure Recoverable (log next : Bytes) : Prop where
  long : 2 ≤ log.length
  fits : (frame log).length + (flag next.length).length ≤ windowSize
  plain : ∀ i < log.length, isHead (log.drop i) = false

instance (log next : Bytes) : Decidable (Recoverable log next) :=
  decidable_of_iff
    (2 ≤ log.length ∧ (frame log).length + (flag next.length).length ≤ windowSize ∧
      ∀ i < log.length, isHead (log.drop i) = false)
    ⟨fun h => ⟨h.1, h.2.1, h.2.2⟩, fun h => ⟨h.long, h.fits, h.plain⟩⟩

/-- Every record is recoverable, and every record but the last starts where an
`int` can say. -/
def Collectable (trailing : List Bytes) : Nat → List Bytes → Prop
  | _, [] => True
  | offset, log :: logs =>
    Recoverable log ((logs ++ trailing).headD []) ∧ (logs = [] ∨ offset < 2 ^ 31) ∧
      Collectable trailing (offset + (frame log).length) logs

instance decidableCollectable (trailing : List Bytes) :
    ∀ offset logs, Decidable (Collectable trailing offset logs)
  | _, [] => isTrue trivial
  | offset, log :: logs =>
    have := decidableCollectable trailing (offset + (frame log).length) logs
    inferInstanceAs (Decidable (Recoverable log _ ∧ (logs = [] ∨ offset < 2 ^ 31) ∧ _))

theorem window_at {file tail : Bytes} {before : Bytes} {s : ReadState}
    (hfile : file = before ++ tail) (hposition : s.position = before.length) :
    s.window file = tail.take windowSize := by
  rw [ReadState.window, hfile, hposition, List.drop_left]

theorem cut_of_recoverable {log next : Bytes} (h : Recoverable log next) (stack : Bytes)
    (more : List Bytes) :
    Cut stack ((stream (log :: next :: more)).take windowSize) (flagOpening log.length) log
      ((stream (next :: more)).take (windowSize - (frame log).length)) := by
  have hfits := h.fits
  have hrest : (stream (next :: more)).take (windowSize - (frame log).length) =
      flag next.length ++
        (next ++ stream more).take (windowSize - (frame log).length - (flag next.length).length) := by
    rw [stream_cons_flag, List.take_append, List.take_of_length_le (by omega)]
  refine ⟨?_, caret_not_mem_flagOpening _, ?_, ?_, ?_⟩
  · rw [stream_cons, List.take_append, List.take_of_length_le (by omega), frame_append]
  · rw [hrest, flag_eq]
    exact List.cons_ne_nil _ _
  · rw [hrest, List.append_assoc]
    exact isHead_flag _ _
  · intro i hi
    rw [hrest, List.append_assoc]
    refine isHead_append_flag ?_ (h.plain i hi) _ _
    intro hnil
    exact absurd (List.drop_eq_nil_iff.mp hnil) (Nat.not_le.mpr hi)

theorem length_flag_le_of_isHead {n size : Nat} {tail : Bytes}
    (h : isHead ((flag n ++ tail).take size ++ [0]) = true) : (flag n).length ≤ size := by
  by_contra hshort
  have hlength := length_flag n
  have hcut : (flag n ++ tail).take size = (flagOpening n).take size := by
    rw [flag_eq_opening, List.append_assoc, List.take_append_of_le_length (by omega)]
  have hcaret := List.mem_of_mem_drop (caret_mem_of_isHead h)
  rw [hcut, List.mem_append, List.mem_singleton] at hcaret
  cases hcaret with
  | inl hopening => exact caret_not_mem_flagOpening n (List.mem_of_mem_take hopening)
  | inr hzero => revert hzero; decide

theorem recoverable_of_cut {log next rest opening : Bytes} {more : List Bytes}
    (hopening : opening.length + 1 = (flag log.length).length) (hlong : 2 ≤ log.length)
    (hcut : Cut [] ((stream (log :: next :: more)).take windowSize) opening log rest) :
    Recoverable log next := by
  have hframe := length_frame log
  have hlength := congrArg List.length hcut.split
  have hwindow := List.length_take_le windowSize (stream (log :: next :: more))
  simp only [List.length_append, List.length_cons] at hlength
  have hrest : rest = (stream (next :: more)).take (windowSize - (frame log).length) := by
    have hdrop := hcut.drop_eq
    rw [hopening, ← hframe, stream_cons, List.drop_take, List.drop_left] at hdrop
    exact hdrop.symm
  refine ⟨hlong, ?_, ?_⟩
  · have hhead := hcut.head
    rw [hrest, stream_cons_flag] at hhead
    have hflag := length_flag_le_of_isHead hhead
    have hpositive := length_flag next.length
    omega
  · intro i hi
    by_contra hhead
    rw [Bool.not_eq_false] at hhead
    have hinside := hcut.inside i hi
    rw [isHead_append hhead] at hinside
    cases hinside

theorem position_after {s : ReadState} (hoffset : s.fileOffset = toInt32 s.position)
    (hsmall : s.position < 2 ^ 31) (log : Bytes) :
    (s.after (flagOpening log.length) log).position = s.position + (frame log).length := by
  have hlength := length_flag log.length
  have hframe := length_frame log
  simp only [ReadState.after, fseek, hoffset, toInt32_of_lt hsmall]
  split <;> omega

theorem position_after_lost {s : ReadState} (hoffset : s.fileOffset = toInt32 s.position)
    (hlarge : 2 ^ 31 ≤ s.position) (opening body : Bytes) :
    (s.after opening body).position = s.position + windowSize ∨
      (s.after opening body).position + 2 ^ 32 ≤
        s.position + (opening.length + 1 + body.length) := by
  have hvalue := toInt32_eq s.position
  simp only [ReadState.after, fseek, hoffset]
  split <;> omega

section

variable {file : Bytes} {logCallback : Bytes → Bool} {trailing : List Bytes}

theorem recoverable_of_delivered {rounds : Nat} {log next before : Bytes} {more : List Bytes}
    {calls : List Delivery} {s : ReadState}
    (hfile : file = before ++ stream (log :: next :: more)) (hposition : s.position = before.length)
    (h : (readRounds file (some logCallback) (rounds + 1) (fun _ => []) s).delivered =
      s.delivered ++ ⟨s.position + (flag log.length).length, log⟩ :: calls) :
    Recoverable log next := by
  obtain ⟨opening, rest, hcut, hlong, hoffset, -, -⟩ := readRounds_first h
  rw [window_at hfile hposition] at hcut
  refine recoverable_of_cut ?_ hlong hcut
  simp only at hoffset
  omega

theorem readStep_recoverable {log next before : Bytes} {more : List Bytes} {s : ReadState}
    (logCallback : Bytes → Bool) (stack : Bytes)
    (hfile : file = before ++ stream (log :: next :: more)) (hposition : s.position = before.length)
    (hlength : windowSize ≤ (stream (log :: next :: more)).length) (h : Recoverable log next) :
    readStep file (some logCallback) stack s = some (s.after (flagOpening log.length) log) := by
  have hwindow := window_at hfile hposition
  have hcut := cut_of_recoverable h stack more
  rw [← hwindow] at hcut
  refine readStep_of_cut logCallback hcut ?_ h.long
  rw [hwindow, List.length_take, Nat.min_eq_left hlength]

theorem offset_of_second_delivery {rounds : Nat} {log next : Bytes} {memory : Nat → Bytes}
    {calls : List Delivery} {s : ReadState}
    (hoffset : s.fileOffset = toInt32 s.position) (h : Recoverable log next)
    (hsecond : (readRounds file (some logCallback) (rounds + 1) memory
      (s.after (flagOpening log.length) log)).delivered =
        (s.after (flagOpening log.length) log).delivered ++
          ⟨s.position + (frame log).length + (flag next.length).length, next⟩ :: calls) :
    s.position < 2 ^ 31 := by
  by_contra hlarge
  obtain ⟨opening, rest, hcut, -, hplace, -, -⟩ := readRounds_first hsecond
  have hopening := hcut.length_opening_lt
  have hfits := h.fits
  have hlength := length_flag log.length
  have hframe := length_frame log
  have hsize : windowSize = 2047 := rfl
  simp only at hplace
  cases position_after_lost hoffset (Nat.not_lt.mp hlarge) (flagOpening log.length) log with
  | inl hpast => omega
  | inr hback => omega

theorem readRounds_rest {rounds : Nat} {log next before : Bytes} {more : List Bytes}
    {calls : List Delivery} {s : ReadState}
    (hfile : file = before ++ stream (log :: next :: more)) (hposition : s.position = before.length)
    (hlength : windowSize ≤ (stream (log :: next :: more)).length) (hlog : Recoverable log next) :
    (∀ memory, (readRounds file (some logCallback) (rounds + 1) memory s).delivered =
        s.delivered ++ ⟨s.position + (flag log.length).length, log⟩ :: calls) ↔
      ∀ memory, (readRounds file (some logCallback) rounds memory
        (s.after (flagOpening log.length) log)).delivered =
          (s.after (flagOpening log.length) log).delivered ++ calls := by
  have hstep (stack : Bytes) :=
    readStep_recoverable logCallback stack hfile hposition hlength hlog
  have hcalls : (s.after (flagOpening log.length) log).delivered ++ calls =
      s.delivered ++ ⟨s.position + (flag log.length).length, log⟩ :: calls := by
    rw [ReadState.delivered_after, length_flag, List.append_assoc, List.singleton_append]
  rw [hcalls]
  constructor
  · intro h memory
    have hrun := h fun round => memory (round - 1)
    simpa only [readRounds, hstep, Nat.add_sub_cancel] using hrun
  · intro h memory
    simp only [readRounds, hstep]
    exact h _

theorem collected_from_iff (logCallback : Bytes → Bool)
    (htrailing : windowSize ≤ (stream trailing).length)
    (logs : List Bytes) (before : Bytes) (s : ReadState)
    (hfile : file = before ++ stream (logs ++ trailing)) (hposition : s.position = before.length)
    (hoffset : s.fileOffset = toInt32 s.position) :
    (∀ memory, (readRounds file (some logCallback) logs.length memory s).delivered =
        s.delivered ++ placed s.position logs) ↔ Collectable trailing s.position logs := by
  induction logs generalizing before s with
  | nil => simp only [List.length_nil, readRounds, placed, List.append_nil, implies_true, Collectable]
  | cons log logs ih =>
      obtain ⟨next, more, hnext⟩ : ∃ next more, logs ++ trailing = next :: more := by
        refine List.exists_cons_of_ne_nil fun hnil => ?_
        rw [(List.append_eq_nil_iff.mp hnil).2] at htrailing
        cases htrailing
      have hlength : windowSize ≤ (stream (log :: next :: more)).length := by
        rw [← hnext, stream_cons, stream_append, List.length_append, List.length_append]
        omega
      rw [List.cons_append, hnext] at hfile
      have hsmall_step (hsmall : s.position < 2 ^ 31) :
          (∀ memory, (readRounds file (some logCallback) logs.length memory
            (s.after (flagOpening log.length) log)).delivered =
              (s.after (flagOpening log.length) log).delivered ++
                placed (s.position + (frame log).length) logs) ↔
            Collectable trailing (s.position + (frame log).length) logs := by
        have hafter := position_after hoffset hsmall log
        have hih := ih (before ++ frame log) (s.after (flagOpening log.length) log)
          (by rw [hfile, hnext, stream_cons, List.append_assoc])
          (by rw [hafter, hposition, List.length_append]) rfl
        rwa [hafter] at hih
      simp only [Collectable, hnext, List.headD_cons, placed, List.length_cons]
      constructor
      · intro h
        have hlog : Recoverable log next := recoverable_of_delivered hfile hposition (h fun _ => [])
        have hrest := (readRounds_rest hfile hposition hlength hlog).mp h
        cases logs with
        | nil => exact ⟨hlog, .inl rfl, trivial⟩
        | cons second logs =>
            cases hnext
            have hsmall : s.position < 2 ^ 31 :=
              offset_of_second_delivery hoffset hlog (hrest fun _ => [])
            exact ⟨hlog, .inr hsmall, (hsmall_step hsmall).mp hrest⟩
      · rintro ⟨hlog, hstart, hrest⟩
        refine (readRounds_rest hfile hposition hlength hlog).mpr ?_
        cases hstart with
        | inl hnil =>
            subst hnil
            intro memory
            simp only [List.length_nil, readRounds, placed, List.append_nil]
        | inr hsmall => exact (hsmall_step hsmall).mpr hrest

end

theorem collectable_of_collected {logs trailing : List Bytes}
    (htrailing : windowSize ≤ (stream trailing).length) (h : Collected logs trailing) :
    Collectable trailing 0 logs := by
  refine (collected_from_iff (fun _ => true) htrailing logs [] (startState 0 0)
    (List.nil_append _).symm rfl rfl).mp fun memory => ?_
  exact h (fun _ => true) memory fun _ => rfl

theorem collected_of_collectable {logs trailing : List Bytes}
    (htrailing : windowSize ≤ (stream trailing).length) (h : Collectable trailing 0 logs) :
    Collected logs trailing := by
  intro logCallback memory _
  exact (collected_from_iff logCallback htrailing logs [] (startState 0 0)
    (List.nil_append _).symm rfl rfl).mpr h memory

/-- The collector hands over a file's records exactly when they are collectable. -/
theorem collected_iff (logs trailing : List Bytes)
    (htrailing : windowSize ≤ (stream trailing).length) :
    Collected logs trailing ↔ Collectable trailing 0 logs :=
  ⟨collectable_of_collected htrailing, collected_of_collectable htrailing⟩

def sampleTrailing : List Bytes := List.replicate 400 (bytes "ab")

theorem length_stream_sampleTrailing : (stream sampleTrailing).length = 2400 := by
  have hframe : (frame (bytes "ab")).length = 6 := by decide
  simp only [stream, sampleTrailing, List.length_flatMap, List.map_replicate, List.sum_replicate,
    hframe]
  decide

theorem windowSize_le_sampleTrailing : windowSize ≤ (stream sampleTrailing).length := by
  rw [length_stream_sampleTrailing]
  decide

theorem collected_sample :
    windowSize ≤ (stream sampleTrailing).length ∧
      Collected [bytes "imp=1&u=tom", bytes "click=1^2"] sampleTrailing :=
  ⟨windowSize_le_sampleTrailing,
    (collected_iff [bytes "imp=1&u=tom", bytes "click=1^2"] sampleTrailing
      windowSize_le_sampleTrailing).mpr (by decide)⟩

/-- In `tom,^x` the position of `m` passes `isHead`, so the callback gets `to`. -/
theorem not_collected_headLike : ¬Collected [bytes "tom,^x"] sampleTrailing := by
  intro h
  have hplain := (collectable_of_collected windowSize_le_sampleTrailing h).1.plain 2 (by decide)
  revert hplain
  decide

theorem readFile_collects {filename : Bytes} {logs trailing : List Bytes}
    {logCallback : Bytes → Bool} {rounds : Nat} {memory : Nat → Bytes} {c c' : Collector}
    {calls : List Delivery} (hnew : c.progressMap.lookup filename = none)
    (htrailing : windowSize ≤ (stream trailing).length) (h : Collectable trailing 0 logs)
    (hread : readFile filename (some (stream (logs ++ trailing))) (some logCallback) rounds memory c =
      some (c', calls)) : placed 0 logs <+: calls := by
  simp only [readFile, hnew, Option.getD_none, Option.map_eq_some_iff, Prod.mk.injEq] at hread
  obtain ⟨t, hloop, -, rfl⟩ := hread
  have hcalls := (collected_from_iff logCallback htrailing logs []
    (startState 0 ((c.counterMap.lookup filename).getD 0)) (List.nil_append _).symm rfl rfl).mpr
      h memory
  have hrounds := readRounds_of_readLoop hloop logs.length
  rw [hcalls] at hrounds
  exact hrounds

end AdServer.Log
