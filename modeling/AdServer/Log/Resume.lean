import AdServer.Library.Transition
import AdServer.Log.Collected

/-!
The collector over a file that grows while it is read. The writer appends the
records' frames in pieces of any size and the collector calls `readFile` at any
time; each call starts at the offset the call before it saved. Where no position
inside a record passes `isHead`, the calls hand over the records one after
another, and the saved offset is the start of the first record not yet handed
over.
-/
namespace AdServer.Log

open Transition

/-- No position inside a record passes `isHead`, in any window that starts at the
record's frame and with the given memory after the buffer. -/
def NoFalseHead (logs : List Bytes) (stack : Bytes) : Prop :=
  ∀ before log after, logs = before ++ log :: after → ∀ size ≤ windowSize, ∀ i,
    (flag log.length).length ≤ i → i < (frame log).length →
      i < ((stream (log :: after)).take size).length →
        isHead (((stream (log :: after)).take size).drop i ++ 0 :: stack) = false

inductive CollectorEvent where
  | append (count : Nat)
  /-- A call of `readFile` that ends, with the memory after the buffer in its rounds. -/
  | read (rounds : Nat) (memory : Nat → Bytes)

structure CollectorState where
  written : Option Nat
  collector : Collector
  delivered : List Delivery

def collectorSystem (filename : Bytes) (logCallback : Bytes → Bool) (logs : List Bytes) :
    System CollectorState CollectorEvent where
  init s := s.written = none ∧ s.collector.progressMap.lookup filename = none ∧ s.delivered = []
  step s event t :=
    match event with
    | .append count =>
      s.written.getD 0 + count ≤ (stream logs).length ∧
        t = { s with written := some (s.written.getD 0 + count) }
    | .read rounds memory =>
      ∃ calls, readFile filename (s.written.map fun size => (stream logs).take size)
          (some logCallback) rounds memory s.collector = some (t.collector, calls) ∧
        t.written = s.written ∧ t.delivered = s.delivered ++ calls

def Undisturbed (logs : List Bytes) (_ : CollectorState) : CollectorEvent → Prop
  | .append _ => True
  | .read _ memory => ∀ round, NoFalseHead logs (memory round)

theorem isHead_of_letters {first : UInt8} {rest : Bytes} (hfirst : first ≠ byte 'm')
    (hrest : rest.head? ≠ some (byte 't')) (stack : Bytes) :
    isHead (first :: rest ++ 0 :: stack) = false := by
  cases rest with
  | nil =>
      have hzero : (0 : UInt8) ≠ byte 't' := by decide
      simp only [List.cons_append, List.nil_append, isHead, ne_eq, hfirst, hzero, not_false_eq_true,
        and_self, if_true]
  | cons second rest =>
      have hsecond : second ≠ byte 't' := by rintro rfl; exact hrest rfl
      simp only [List.cons_append, isHead, ne_eq, hfirst, hsecond, not_false_eq_true, and_self,
        if_true]

theorem letter_not_mem_digits {letter : UInt8} (hcaret : letter ≠ byte '^')
    (hletter : isDigit letter = false) (n : Nat) : letter ∉ decimal n ++ [byte '^'] := by
  intro h
  rw [List.mem_append, List.mem_singleton] at h
  cases h with
  | inl hdigit => cases hletter.symm.trans (isDigit_of_mem_decimal hdigit)
  | inr hlast => exact hcaret hlast

theorem flag_letters {n : Nat} {front rest after : Bytes} {first : UInt8} (hfront : front ≠ [])
    (h : flag n = front ++ (first :: rest ++ after)) : first ≠ byte 'm' ∧ byte 't' ∉ rest := by
  have hm : byte 'm' ∉ decimal n ++ [byte '^'] := letter_not_mem_digits (by decide) (by decide) n
  have ht : byte 't' ∉ decimal n ++ [byte '^'] := letter_not_mem_digits (by decide) (by decide) n
  rw [flag_eq] at h
  match front, hfront with
  | [_], _ =>
      simp only [List.cons_append, List.nil_append, List.cons.injEq] at h
      obtain ⟨-, rfl, hdigits⟩ := h
      rw [hdigits, List.mem_append, not_or] at ht
      exact ⟨by decide, ht.1⟩
  | _ :: _ :: front, _ =>
      simp only [List.cons_append, List.cons.injEq] at h
      obtain ⟨-, -, hdigits⟩ := h
      rw [hdigits] at hm ht
      simp only [List.mem_append, List.mem_cons, not_or] at hm ht
      exact ⟨fun heq => hm.2.1 heq.symm, ht.2.2.1⟩

theorem append_cons_unique {c : UInt8} {front front' back back' : Bytes} (hfront : c ∉ front)
    (hfront' : c ∉ front') (h : front ++ c :: back = front' ++ c :: back') :
    front = front' ∧ back = back' := by
  induction front generalizing front' with
  | nil =>
      cases front' with
      | nil => exact ⟨rfl, (List.cons.inj h).2⟩
      | cons d front' => exact absurd ((List.cons.inj h).1 ▸ List.mem_cons_self) hfront'
  | cons d front ih =>
      cases front' with
      | nil => exact absurd ((List.cons.inj h).1 ▸ List.mem_cons_self) hfront
      | cons e front' =>
          obtain ⟨rfl, htail⟩ := List.cons.inj h
          obtain ⟨rfl, rfl⟩ := ih (fun hmem => hfront (List.mem_cons_of_mem d hmem))
            (fun hmem => hfront' (List.mem_cons_of_mem d hmem)) htail
          exact ⟨rfl, rfl⟩

theorem not_cut_beyond {stack beyond rest tail : Bytes} {after : List Bytes}
    (hbeyond : beyond ≠ []) (hne : rest ≠ []) (hhead : isHead (rest ++ 0 :: stack) = true)
    (hinside : isHead (beyond ++ (rest ++ 0 :: stack)) = false)
    (h : stream after = beyond ++ (rest ++ tail)) : False := by
  cases after with
  | nil => exact hbeyond (List.append_eq_nil_iff.mp h.symm).1
  | cons next more =>
      rw [stream_cons_flag] at h
      cases List.append_eq_append_iff.mp (h.trans (List.append_assoc _ _ _).symm) with
      | inl hlong =>
          -- the whole flag of the next frame is in the window
          obtain ⟨extra, hsplit, -⟩ := hlong
          rw [← List.append_assoc, hsplit, List.append_assoc, isHead_flag] at hinside
          cases hinside
      | inr hshort =>
          obtain ⟨extra, hsplit, -⟩ := hshort
          obtain ⟨first, rest, rfl⟩ := List.exists_cons_of_ne_nil hne
          rw [List.append_assoc] at hsplit
          obtain ⟨hfirst, hrest⟩ := flag_letters hbeyond hsplit
          rw [isHead_of_letters hfirst fun h => hrest (List.mem_of_head? h)] at hhead
          cases hhead

theorem cut_of_stream {stack log opening body rest : Bytes} {after : List Bytes} {size : Nat}
    (hplain : ∀ i, (flag log.length).length ≤ i → i < (frame log).length →
      i < ((stream (log :: after)).take size).length →
        isHead (((stream (log :: after)).take size).drop i ++ 0 :: stack) = false)
    (hcut : Cut stack ((stream (log :: after)).take size) opening body rest) :
    opening = flagOpening log.length ∧ body = log := by
  have hwhole := List.take_append_drop size (stream (log :: after))
  generalize (stream (log :: after)).drop size = tail at hwhole
  rw [hcut.split, stream_cons, frame_append, List.append_assoc, List.cons_append,
    List.append_assoc] at hwhole
  obtain ⟨rfl, hbody⟩ := append_cons_unique hcut.first (caret_not_mem_flagOpening _) hwhole
  refine ⟨rfl, ?_⟩
  cases List.append_eq_append_iff.mp hbody with
  | inl hshort =>
      obtain ⟨extra, rfl, -⟩ := hshort
      cases extra with
      | nil => rw [List.append_nil]
      | cons c extra =>
          -- the head would stand inside the record
          have hposition : ((stream ((body ++ c :: extra) :: after)).take size).drop
              ((flag (body ++ c :: extra).length).length + body.length) = rest := by
            rw [length_flag]
            exact hcut.drop_eq
          have hrest := List.length_pos_iff.mpr hcut.next
          have hlength := congrArg List.length hposition
          rw [List.length_drop] at hlength
          have hfalse := hplain _ (Nat.le_add_right _ body.length) ?_ (by omega)
          · rw [hposition, hcut.head] at hfalse
            cases hfalse
          · rw [length_frame, List.length_append, List.length_cons]
            omega
  | inr hlong =>
      obtain ⟨beyond, rfl, hrest⟩ := hlong
      cases beyond with
      | nil => rw [List.append_nil]
      | cons c beyond =>
          have hinside := hcut.inside log.length (by
            rw [List.length_append, List.length_cons]
            omega)
          rw [List.drop_left] at hinside
          exact (not_cut_beyond (List.cons_ne_nil c beyond) hcut.next hcut.head hinside hrest).elim

theorem noFalseHead_of_letters {logs : List Bytes}
    (hlogs : ∀ log ∈ logs, byte 'm' ∉ log ∧ byte 't' ∉ log) (stack : Bytes) :
    NoFalseHead logs stack := by
  rintro before log after rfl size - i hstart hend hwindow
  obtain ⟨hm, ht⟩ := hlogs log (List.mem_append_right before List.mem_cons_self)
  rw [length_frame] at hend
  rw [List.length_take] at hwindow
  obtain ⟨j, rfl⟩ := Nat.exists_eq_add_of_le hstart
  obtain ⟨first, rest, hdrop⟩ := List.exists_cons_of_ne_nil
    (List.drop_eq_nil_iff.not.mpr (by omega : ¬log.length ≤ j))
  obtain ⟨room, hroom⟩ : ∃ room, size - ((flag log.length).length + j) = room + 1 :=
    Nat.exists_eq_succ_of_ne_zero (by omega)
  have hmem (c : UInt8) (hc : c ∈ first :: rest) : c ∈ log := List.mem_of_mem_drop (hdrop ▸ hc)
  rw [List.drop_take, hroom, stream_cons_flag, ← List.drop_drop, List.drop_left,
    List.drop_append_of_le_length (by omega), hdrop, List.cons_append, List.take_succ_cons]
  refine isHead_of_letters ?_ ?_ stack
  · rintro rfl
    exact hm (hmem _ List.mem_cons_self)
  · intro hhead
    have hsecond : (rest ++ stream after).head? = some (byte 't') := by
      cases room with
      | zero => cases hhead
      | succ room => rwa [List.head?_take, if_neg (Nat.succ_ne_zero room)] at hhead
    cases rest with
    | nil =>
        cases after with
        | nil => cases hsecond
        | cons next after =>
            rw [stream_cons_flag, flag_eq] at hsecond
            exact absurd (Option.some.inj hsecond) (by decide)
    | cons second rest =>
        cases hsecond
        exact ht (hmem _ (List.mem_cons_of_mem first List.mem_cons_self))

theorem placed_concat (offset : Nat) (logs : List Bytes) (log : Bytes) :
    placed offset (logs ++ [log]) =
      placed offset logs ++ [⟨offset + (stream logs).length + (flag log.length).length, log⟩] := by
  induction logs generalizing offset with
  | nil => rfl
  | cons first logs ih =>
      simp only [List.cons_append, placed, ih, stream_cons, List.length_append, Nat.add_assoc]

theorem map_payload_placed (offset : Nat) (logs : List Bytes) :
    (placed offset logs).map Delivery.payload = logs := by
  induction logs generalizing offset with
  | nil => rfl
  | cons log logs ih => simp only [placed, List.map_cons, ih]

/-- The reader stands at the start of frame `count` and has handed over exactly the
records before it, `earlier` in former calls. -/
structure AtFrame (logs : List Bytes) (earlier : List Delivery) (count : Nat)
    (s : ReadState) : Prop where
  count_le : count ≤ logs.length
  position : s.position = (stream (logs.take count)).length
  fileOffset : s.fileOffset = s.position
  delivered : earlier ++ s.delivered = placed 0 (logs.take count)

section

variable {logs : List Bytes} {logCallback : Bytes → Bool} {earlier : List Delivery}

theorem AtFrame.window_eq {count : Nat} {s : ReadState} (h : AtFrame logs earlier count s)
    (size : Nat) :
    s.window ((stream logs).take size) =
      (stream (logs.drop count)).take (min windowSize (size - s.position)) := by
  have hdrop : (stream logs).drop s.position = stream (logs.drop count) := by
    rw [stream_take_drop logs count, h.position, List.drop_left]
  rw [ReadState.window, List.drop_take, List.take_take, hdrop]

theorem readStep_atFrame (hsize : (stream logs).length < 2 ^ 31) {stack : Bytes}
    (hplain : NoFalseHead logs stack) {size count : Nat} {s next : ReadState}
    (hs : AtFrame logs earlier count s)
    (hstep : readStep ((stream logs).take size) (some logCallback) stack s = some next) :
    AtFrame logs earlier (count + 1) next := by
  obtain ⟨opening, body, after, hcut, -, -, rfl⟩ :=
    (readStep_eq_some_iff _ logCallback stack s next).mp hstep
  rw [hs.window_eq] at hcut
  have hlogs := (List.take_append_drop count logs).symm
  cases hrest : logs.drop count with
  | nil =>
      have hsplit := hcut.split
      rw [hrest, stream_nil, List.take_nil] at hsplit
      exact absurd hsplit.symm (List.append_ne_nil_of_right_ne_nil _ (List.cons_ne_nil _ _))
  | cons log rest =>
      rw [hrest] at hcut hlogs
      obtain ⟨rfl, rfl⟩ :=
        cut_of_stream (hplain (logs.take count) log rest hlogs _ (Nat.min_le_left _ _)) hcut
      have htake : logs.take (count + 1) = logs.take count ++ [body] := by
        rw [List.take_add, hrest, List.take_succ_cons, List.take_zero]
      have hlength : (stream (logs.take (count + 1))).length = s.position + (frame body).length := by
        rw [htake, stream_append, stream_cons, stream_nil, List.append_nil, List.length_append,
          hs.position]
      have hbelow : s.position + (frame body).length < 2 ^ 31 := by
        rw [stream_take_drop logs (count + 1), List.length_append] at hsize
        omega
      have hinside : s.position < 2 ^ 31 := (Nat.le_add_right _ _).trans_lt hbelow
      have hnext := position_after (hs.fileOffset.trans (toInt32_of_lt hinside).symm) hinside body
      refine ⟨?_, hnext.trans hlength.symm, ?_, ?_⟩
      · have hcount := congrArg List.length hrest
        rw [List.length_drop, List.length_cons] at hcount
        omega
      · rw [← hnext] at hbelow
        exact toInt32_of_lt hbelow
      · rw [ReadState.delivered_after, ← List.append_assoc, hs.delivered, htake, placed_concat,
          hs.position, length_flag, Nat.zero_add]

theorem readLoop_atFrame (hsize : (stream logs).length < 2 ^ 31) {rounds size count : Nat}
    {memory : Nat → Bytes} (hplain : ∀ round, NoFalseHead logs (memory round)) {s t : ReadState}
    (hs : AtFrame logs earlier count s)
    (hloop : readLoop ((stream logs).take size) (some logCallback) rounds memory s = some t) :
    ∃ count, AtFrame logs earlier count t := by
  induction rounds generalizing memory count s with
  | zero => cases hloop
  | succ rounds ih =>
      simp only [readLoop] at hloop
      cases hstep : readStep ((stream logs).take size) (some logCallback) (memory 0) s with
      | none =>
          rw [hstep] at hloop
          cases hloop
          exact ⟨count, hs⟩
      | some next =>
          rw [hstep] at hloop
          exact ih (fun round => hplain (round + 1))
            (readStep_atFrame hsize (hplain 0) hs hstep) hloop

theorem readLoop_ends (logCallback : Bytes → Bool) (size : Nat)
    (hsize : (stream logs).length < 2 ^ 31) {rounds count : Nat} {memory : Nat → Bytes}
    (hplain : ∀ round, NoFalseHead logs (memory round)) {s : ReadState}
    (hs : AtFrame logs earlier count s) (hrounds : logs.length - count < rounds) :
    ∃ t, readLoop ((stream logs).take size) (some logCallback) rounds memory s = some t := by
  induction rounds generalizing memory count s with
  | zero => exact absurd hrounds (Nat.not_lt_zero _)
  | succ rounds ih =>
      simp only [readLoop]
      cases hstep : readStep ((stream logs).take size) (some logCallback) (memory 0) s with
      | none => exact ⟨s, rfl⟩
      | some next =>
          have hnext := readStep_atFrame hsize (hplain 0) hs hstep
          have hcount := hnext.count_le
          exact ih (fun round => hplain (round + 1)) hnext (by omega)

structure Resumes (filename : Bytes) (logs : List Bytes) (count : Nat)
    (s : CollectorState) : Prop where
  count_le : count ≤ logs.length
  delivered : s.delivered = placed 0 (logs.take count)
  progress : (s.collector.progressMap.lookup filename).getD 0 = (stream (logs.take count)).length

theorem Resumes.atFrame {filename : Bytes} {count : Nat} {s : CollectorState}
    (h : Resumes filename logs count s) (counter : Int) :
    AtFrame logs s.delivered count
      (startState ((s.collector.progressMap.lookup filename).getD 0) counter) := by
  rw [h.progress]
  exact ⟨h.count_le, rfl, rfl, (List.append_nil _).trans h.delivered⟩

theorem resumes_read (hsize : (stream logs).length < 2 ^ 31) {filename : Bytes}
    {s t : CollectorState} {count rounds : Nat} {memory : Nat → Bytes}
    (hs : Resumes filename logs count s) (hplain : ∀ round, NoFalseHead logs (memory round))
    (hstep : (collectorSystem filename logCallback logs).step s (.read rounds memory) t) :
    ∃ count', Resumes filename logs count' t ∧
      t.collector.progressMap.lookup filename =
        some ((stream (logs.take count')).length : Int) := by
  obtain ⟨calls, hread, -, hcalls⟩ := hstep
  cases hfile : s.written with
  | none =>
      rw [hfile] at hread
      simp only [readFile, Option.map_none, Option.some.injEq, Prod.mk.injEq] at hread
      obtain ⟨hcollector, rfl⟩ := hread
      have hsaved : t.collector.progressMap.lookup filename =
          some ((stream (logs.take count)).length : Int) := by
        rw [← hcollector, hs.progress, Finmap.lookup_insert]
      refine ⟨count, ⟨hs.count_le, ?_, ?_⟩, hsaved⟩
      · rw [hcalls, List.append_nil, hs.delivered]
      · rw [hsaved, Option.getD_some]
  | some size =>
      rw [hfile] at hread
      simp only [readFile, Option.map_some, Option.map_eq_some_iff, Prod.mk.injEq] at hread
      obtain ⟨final, hloop, hcollector, rfl⟩ := hread
      obtain ⟨count', hfinal⟩ := readLoop_atFrame hsize hplain (hs.atFrame _) hloop
      have hsaved : t.collector.progressMap.lookup filename =
          some ((stream (logs.take count')).length : Int) := by
        rw [← hcollector, Finmap.lookup_insert, hfinal.fileOffset, hfinal.position]
      refine ⟨count', ⟨hfinal.count_le, ?_, ?_⟩, hsaved⟩
      · rw [hcalls, hfinal.delivered]
      · rw [hsaved, Option.getD_some]

end

section

variable {filename : Bytes} {logCallback : Bytes → Bool} {logs : List Bytes}

theorem resumes_run (hsize : (stream logs).length < 2 ^ 31) {events : List CollectorEvent}
    {s : CollectorState}
    (hrun : Run (collectorSystem filename logCallback logs) (Undisturbed logs) events s) :
    ∃ count, Resumes filename logs count s := by
  refine Run.invariant (fun s => ∃ count, Resumes filename logs count s) ?_ ?_ hrun
  · rintro s ⟨-, hprogress, hdelivered⟩
    refine ⟨0, Nat.zero_le _, hdelivered, ?_⟩
    rw [hprogress]
    rfl
  · rintro s event t ⟨count, hs⟩ hguard hstep
    cases event with
    | append size =>
        obtain ⟨-, rfl⟩ := hstep
        exact ⟨count, hs.count_le, hs.delivered, hs.progress⟩
    | read rounds memory =>
        obtain ⟨count', ht, -⟩ := resumes_read hsize hs hguard hstep
        exact ⟨count', ht⟩

theorem read_ends (hsize : (stream logs).length < 2 ^ 31) {events : List CollectorEvent}
    {s : CollectorState} {rounds : Nat} {memory : Nat → Bytes}
    (hrun : Run (collectorSystem filename logCallback logs) (Undisturbed logs) events s)
    (hguard : Undisturbed logs s (.read rounds memory)) (hrounds : logs.length < rounds) :
    ∃ t, (collectorSystem filename logCallback logs).step s (.read rounds memory) t := by
  obtain ⟨count, hs⟩ := resumes_run hsize hrun
  have hread : ∃ result, readFile filename (s.written.map fun size => (stream logs).take size)
      (some logCallback) rounds memory s.collector = some result := by
    cases s.written with
    | none => exact ⟨_, rfl⟩
    | some size =>
        obtain ⟨final, hfinal⟩ := readLoop_ends logCallback size hsize hguard
          (hs.atFrame ((s.collector.counterMap.lookup filename).getD 0)) (Nat.sub_lt_of_lt hrounds)
        simp only [readFile, Option.map_some, hfinal, Option.some.injEq, exists_eq']
  obtain ⟨⟨collector, calls⟩, hresult⟩ := hread
  exact ⟨⟨s.written, collector, s.delivered ++ calls⟩, calls, hresult, rfl, rfl⟩

/-- After any schedule of appends and completed reads, a read leaves a prefix of the
written records handed over and saves where the first other one starts. -/
theorem readFile_resumes (hsize : (stream logs).length < 2 ^ 31) {events : List CollectorEvent}
    {s t : CollectorState} {rounds : Nat} {memory : Nat → Bytes}
    (hrun : Run (collectorSystem filename logCallback logs) (Undisturbed logs) events s)
    (hguard : Undisturbed logs s (.read rounds memory))
    (hstep : (collectorSystem filename logCallback logs).step s (.read rounds memory) t) :
    ∃ count ≤ logs.length, t.delivered.map Delivery.payload = logs.take count ∧
      t.collector.progressMap.lookup filename =
        some ((stream (logs.take count)).length : Int) := by
  obtain ⟨count, hs⟩ := resumes_run hsize hrun
  obtain ⟨count', ht, hsaved⟩ := resumes_read hsize hs hguard hstep
  refine ⟨count', ht.count_le, ?_, hsaved⟩
  rw [ht.delivered, map_payload_placed]

end

def sampleGrown : CollectorState :=
  { written := some (stream sampleTrailing).length, collector := ⟨∅, ∅⟩, delivered := [] }

theorem undisturbed_sample (s : CollectorState) (rounds : Nat) (memory : Nat → Bytes) :
    Undisturbed sampleTrailing s (.read rounds memory) := by
  intro round
  refine noFalseHead_of_letters ?_ (memory round)
  intro log hlog
  cases List.eq_of_mem_replicate hlog
  decide

theorem run_sample (filename : Bytes) (logCallback : Bytes → Bool) :
    Run (collectorSystem filename logCallback sampleTrailing) (Undisturbed sampleTrailing)
      [.append (stream sampleTrailing).length] sampleGrown := by
  have hstart : Run (collectorSystem filename logCallback sampleTrailing)
      (Undisturbed sampleTrailing) [] ⟨none, ⟨∅, ∅⟩, []⟩ := .start ⟨rfl, rfl, rfl⟩
  refine hstart.next trivial ⟨?_, ?_⟩
  · rw [Option.getD_none, Nat.zero_add]
  · rw [Option.getD_none, Nat.zero_add]
    rfl

theorem readFile_resumes_sample :
    ∃ t count, (collectorSystem (bytes "a.log") (fun _ => true) sampleTrailing).step sampleGrown
        (.read 401 fun _ => []) t ∧ count ≤ sampleTrailing.length ∧
      t.delivered.map Delivery.payload = sampleTrailing.take count ∧
      t.collector.progressMap.lookup (bytes "a.log") =
        some ((stream (sampleTrailing.take count)).length : Int) := by
  have hsize : (stream sampleTrailing).length < 2 ^ 31 := by
    rw [length_stream_sampleTrailing]
    decide
  have hguard := undisturbed_sample sampleGrown 401 fun _ => []
  have hrun := run_sample (bytes "a.log") fun _ => true
  obtain ⟨t, hstep⟩ := read_ends hsize hrun hguard (by rw [sampleTrailing, List.length_replicate]; omega)
  obtain ⟨count, hcount, hpayloads, hsaved⟩ := readFile_resumes hsize hrun hguard hstep
  exact ⟨t, count, hstep, hcount, hpayloads, hsaved⟩

end AdServer.Log
