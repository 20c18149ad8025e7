import AdServer.Buffer.Shared
import AdServer.Library.Transition

/-!
Whole runs of the threads of a ring buffer. What each thread relies on is kept by the steps of all
others, so the calls of any interleaving have the answers of a bounded queue.
-/
namespace AdServer.Buffer

open BoundedQueue Ring Lockstep CriticalSection

variable {ρ ι κ : Type} {n : Nat} {locking : Locking} {s s' : SharedRing ι κ ρ}
  {queue : BoundedQueue ρ (n - 1)}

/-- A side without a lock has one thread. -/
structure Suits (locking : Locking) (ι κ : Type) : Prop where
  writers : locking.writers = false → Subsingleton ι
  readers : locking.readers = false → Subsingleton κ

/-- The calls so far have the answers of the queue, the ring holds its items, every thread finds
what it relies on, and the locks do what they are for. -/
structure Safe (n : Nat) (locking : Locking) (s : SharedRing ι κ ρ)
    (queue : BoundedQueue ρ (n - 1)) : Prop where
  answers : Answers s.log BoundedQueue.empty queue
  layout : ∃ r, Layout n r s.ring queue.items
  writersFit : ∀ i, (s.writers.place i).Fits n s.ring queue.items
  readersFit : ∀ k, (s.readers.place k).Fits s.ring queue.items
  writersExclusive : Exclusive locking.writers (fun phase => phase.inside = true) s.writers
  readersExclusive : Exclusive locking.readers (fun phase => phase.inside = true) s.readers

namespace Safe

section Writers

variable [DecidableEq ι]

/-- A writer that does not touch the ring goes to a phase in which it relies on nothing. -/
theorem moveWriter (h : Safe n locking s queue) {i : ι} {phase : WriterPhase ρ}
    {writers : Threads ι (WriterPhase ρ)} (hplace : writers.place = (s.writers.move i phase).place)
    (hfits : phase.Fits n s.ring queue.items)
    (hexclusive : Exclusive locking.writers (fun phase => phase.inside = true) writers) :
    Safe n locking { s with writers := writers } queue :=
  { h with
    writersFit := fun j => hplace ▸ Threads.forall_move
      (P := WriterPhase.Fits n s.ring queue.items) (fun l _ => h.writersFit l) hfits j
    writersExclusive := hexclusive }

theorem enterWriter (h : Safe n locking s queue) {i : ι} {phase : WriterPhase ρ}
    {writers : Threads ι (WriterPhase ρ)}
    (henter : s.writers.enter locking.writers i phase = some writers)
    (hinside : phase.inside = true) (hfits : phase.Fits n s.ring queue.items) :
    Safe n locking { s with writers := writers } queue :=
  h.moveWriter (Threads.place_enter henter) hfits (h.writersExclusive.enter hinside henter)

theorem leaveWriter (h : Safe n locking s queue) {i : ι} {phase : WriterPhase ρ}
    (hbefore : (s.writers.place i).inside = true) (hafter : phase.inside = false) :
    Safe n locking { s with writers := s.writers.leave locking.writers i phase } queue :=
  h.moveWriter Threads.place_leave (WriterPhase.fits_of_not_inside hafter)
    (h.writersExclusive.leave hbefore (Bool.eq_false_iff.mp hafter))

/-- An access of a writer. No other writer is inside, and the readers find what they rely on. -/
theorem accessWriter (hsuits : Suits locking ι κ) (hn : n < 2 ^ 31) (h : Safe n locking s queue)
    {i : ι} {ring : RingBufferBase ρ} {phase : WriterPhase ρ} {log : CallLog ρ}
    (haccess : (s.writers.place i).access s.ring = some (ring, phase, log)) :
    ∃ queue', Safe n locking
      { s with ring := ring, writers := s.writers.move i phase, log := s.log ++ log } queue' := by
  obtain ⟨r, hlayout⟩ := h.layout
  obtain ⟨hbefore, hafter⟩ := WriterPhase.access_inside haccess
  obtain ⟨queue', hanswers, hlayout', hfits, hkeeps⟩ :=
    WriterPhase.access_spec hn hlayout (h.writersFit i) haccess
  refine ⟨queue', h.answers.append hanswers, ⟨r, hlayout'⟩, ?_,
    fun k => hkeeps.fits (h.readersFit k),
    h.writersExclusive.move (iff_of_true hafter hbefore), h.readersExclusive⟩
  refine Threads.forall_move (P := WriterPhase.Fits n ring queue'.items) ?_ hfits
  intro j hj
  refine WriterPhase.fits_of_not_inside (Bool.eq_false_iff.mpr fun hinside => hj ?_)
  exact h.writersExclusive.eq hsuits.writers hinside hbefore

theorem writerStep (hsuits : Suits locking ι κ) (hn : n < 2 ^ 31) (h : Safe n locking s queue)
    {i : ι} {action : Action} (hstep : s.writerStep locking.writers i action = some s') :
    ∃ queue', Safe n locking s' queue' := by
  cases action with
  | access =>
      obtain ⟨⟨ring, phase, log⟩, haccess, hnext⟩ := Option.bind_eq_some_iff.mp hstep
      cases hnext
      exact h.accessWriter hsuits hn haccess
  | enter =>
      rw [SharedRing.writerStep] at hstep
      split at hstep
      · obtain ⟨writers, henter, hnext⟩ := Option.bind_eq_some_iff.mp hstep
        cases hnext
        exact ⟨queue, h.enterWriter henter rfl trivial⟩
      · cases hstep
  | giveUp | wait | finish =>
      rw [SharedRing.writerStep] at hstep
      split at hstep
      · rename_i hphase
        cases hstep
        exact ⟨queue, h.leaveWriter (hphase ▸ rfl) rfl⟩
      · cases hstep

end Writers

section Readers

variable [DecidableEq κ]

theorem moveReader (h : Safe n locking s queue) {k : κ} {phase : ReaderPhase ρ}
    {readers : Threads κ (ReaderPhase ρ)} (hplace : readers.place = (s.readers.move k phase).place)
    (hfits : phase.Fits s.ring queue.items)
    (hexclusive : Exclusive locking.readers (fun phase => phase.inside = true) readers) :
    Safe n locking { s with readers := readers } queue :=
  { h with
    readersFit := fun j => hplace ▸ Threads.forall_move
      (P := ReaderPhase.Fits s.ring queue.items) (fun l _ => h.readersFit l) hfits j
    readersExclusive := hexclusive }

theorem enterReader (h : Safe n locking s queue) {k : κ} {phase : ReaderPhase ρ}
    {readers : Threads κ (ReaderPhase ρ)}
    (henter : s.readers.enter locking.readers k phase = some readers)
    (hinside : phase.inside = true) (hfits : phase.Fits s.ring queue.items) :
    Safe n locking { s with readers := readers } queue :=
  h.moveReader (Threads.place_enter henter) hfits (h.readersExclusive.enter hinside henter)

theorem leaveReader (h : Safe n locking s queue) {k : κ} {phase : ReaderPhase ρ}
    (hbefore : (s.readers.place k).inside = true) (hafter : phase.inside = false) :
    Safe n locking { s with readers := s.readers.leave locking.readers k phase } queue :=
  h.moveReader Threads.place_leave (ReaderPhase.fits_of_not_inside hafter)
    (h.readersExclusive.leave hbefore (Bool.eq_false_iff.mp hafter))

theorem accessReader (hsuits : Suits locking ι κ) (hn : n < 2 ^ 31) (h : Safe n locking s queue)
    {k : κ} {ring : RingBufferBase ρ} {phase : ReaderPhase ρ} {log : CallLog ρ}
    (haccess : (s.readers.place k).access s.ring = some (ring, phase, log)) :
    ∃ queue', Safe n locking
      { s with ring := ring, readers := s.readers.move k phase, log := s.log ++ log } queue' := by
  obtain ⟨r, hlayout⟩ := h.layout
  obtain ⟨hbefore, hafter⟩ := ReaderPhase.access_inside haccess
  obtain ⟨queue', hanswers, hlayout', hfits, hkeeps⟩ :=
    ReaderPhase.access_spec hn hlayout (h.readersFit k) haccess
  refine ⟨queue', h.answers.append hanswers, hlayout', fun i => hkeeps.fits (h.writersFit i), ?_,
    h.writersExclusive, h.readersExclusive.move (iff_of_true hafter hbefore)⟩
  refine Threads.forall_move (P := ReaderPhase.Fits ring queue'.items) ?_ hfits
  intro j hj
  refine ReaderPhase.fits_of_not_inside (Bool.eq_false_iff.mpr fun hinside => hj ?_)
  exact h.readersExclusive.eq hsuits.readers hinside hbefore

theorem readerStep (hsuits : Suits locking ι κ) (hn : n < 2 ^ 31) (h : Safe n locking s queue)
    {k : κ} {action : Action} (hstep : s.readerStep locking.readers k action = some s') :
    ∃ queue', Safe n locking s' queue' := by
  cases action with
  | access =>
      obtain ⟨⟨ring, phase, log⟩, haccess, hnext⟩ := Option.bind_eq_some_iff.mp hstep
      cases hnext
      exact h.accessReader hsuits hn haccess
  | enter =>
      rw [SharedRing.readerStep] at hstep
      split at hstep
      · obtain ⟨readers, henter, hnext⟩ := Option.bind_eq_some_iff.mp hstep
        cases hnext
        exact ⟨queue, h.enterReader henter rfl trivial⟩
      · cases hstep
  | wait =>
      rw [SharedRing.readerStep] at hstep
      split at hstep
      · rename_i hphase
        obtain ⟨-, hnext⟩ := Option.ite_none_left_eq_some.mp hstep
        cases hnext
        exact ⟨queue, h.leaveReader (hphase ▸ rfl) rfl⟩
      · cases hstep
  | giveUp | finish =>
      rw [SharedRing.readerStep] at hstep
      split at hstep
      · rename_i hphase
        cases hstep
        exact ⟨queue, h.leaveReader (hphase ▸ rfl) rfl⟩
      · cases hstep

end Readers

variable [DecidableEq ι] [DecidableEq κ]

theorem step (hsuits : Suits locking ι κ) (hn : n < 2 ^ 31) (h : Safe n locking s queue)
    {event : Event ι κ ρ} (hstep : s.step locking event = some s') :
    ∃ queue', Safe n locking s' queue' := by
  cases event with
  | startPush i request =>
      rw [SharedRing.step] at hstep
      split at hstep
      · rename_i hphase
        cases hstep
        exact ⟨queue, h.moveWriter rfl trivial (h.writersExclusive.move (by rw [hphase]; rfl))⟩
      · cases hstep
  | startPop k =>
      rw [SharedRing.step] at hstep
      split at hstep
      · rename_i hphase
        cases hstep
        exact ⟨queue, h.moveReader rfl trivial (h.readersExclusive.move (by rw [hphase]; rfl))⟩
      · cases hstep
  | writer i action => exact h.writerStep hsuits hn hstep
  | reader k action => exact h.readerStep hsuits hn hstep

omit [DecidableEq ι] [DecidableEq κ] in
theorem create [Inhabited ρ] {size : BitVec 32} (hsize : 1 ≤ size.toInt) :
    Safe size.toNat locking (SharedRing.create size : SharedRing ι κ ρ) BoundedQueue.empty := by
  obtain ⟨r, hlayout⟩ := @refines_create ρ _ size hsize
  exact ⟨rfl, ⟨r, hlayout⟩, fun _ => trivial, fun _ => trivial,
    fun _ _ => ⟨(nomatch ·), (nomatch ·)⟩, fun _ _ => ⟨(nomatch ·), (nomatch ·)⟩⟩

theorem runEvents [Inhabited ρ] (hsuits : Suits locking ι κ) {size : BitVec 32}
    (hsize : 1 ≤ size.toInt) {events : List (Event ι κ ρ)}
    (hrun : (SharedRing.create size).runEvents locking events = some s) :
    ∃ queue, Safe size.toNat locking s queue := by
  obtain ⟨-, hn⟩ := toNat_of_toInt_pos hsize
  refine Transition.foldlM_invariant (fun s => ∃ queue, Safe size.toNat locking s queue) ?_
    ⟨_, create hsize⟩ hrun
  rintro s event t ⟨queue, h⟩ hstep
  exact h.step hsuits hn hstep

end Safe

variable [DecidableEq ι] [DecidableEq κ] [Inhabited ρ]

/-- In whatever order the threads go on, their calls take effect one after another as the calls of
one queue: no item is lost, got twice or overtaken. A cell is never written while another thread
writes or reads it. -/
theorem sharedRing_linearizable (locking : Locking) (hsuits : Suits locking ι κ) (size : BitVec 32)
    (hsize : 1 ≤ size.toInt) (events : List (Event ι κ ρ)) (s : SharedRing ι κ ρ)
    (hrun : (SharedRing.create size).runEvents locking events = some s) :
    (∃ queue : BoundedQueue ρ (size.toNat - 1),
      specRun BoundedQueue.answer BoundedQueue.empty (s.log.map Prod.fst) =
        (queue, s.log.map Prod.snd) ∧
      stored s.log = taken s.log ++ queue.items) ∧
    (∀ i j, (s.writers.place i).inside = true → (s.writers.place j).inside = true → i = j) ∧
    (∀ k l, (s.readers.place k).inside = true → (s.readers.place l).inside = true → k = l) ∧
    (∀ i k request index index', s.writers.place i = .filling request index →
      s.readers.place k = .copying index' → index ≠ index') := by
  obtain ⟨queue, h⟩ := Safe.runEvents hsuits hsize hrun
  refine ⟨⟨queue, h.answers, h.answers.stored_eq⟩,
    fun i j => h.writersExclusive.eq hsuits.writers,
    fun k l => h.readersExclusive.eq hsuits.readers, ?_⟩
  intro i k request index index' hwriter hreader hequal
  obtain ⟨r, hlayout⟩ := h.layout
  have hfill := h.writersFit i
  have hcopy := h.readersFit k
  rw [hwriter] at hfill
  rw [hreader] at hcopy
  have hpositions := hcopy.2.symm.trans (hequal.symm.trans hfill.2)
  exact hcopy.1 (hlayout.empty_iff.mp hpositions)

theorem sharedRing_linearizable_overlapping :
    ∃ s : SharedRing Bool Bool Nat,
      (SharedRing.create 2).runEvents .ringBufferMRMW
        ([.startPush true 7, .writer true .enter, .startPop false, .reader false .enter,
          .reader false .access, .startPush false 8] ++
          List.replicate 6 (.writer true .access) ++ [.writer true .finish] ++
          List.replicate 5 (.reader false .access)) = some s ∧
      stored s.log = [7] ∧
      (∃ queue : BoundedQueue Nat 1, stored s.log = taken s.log ++ queue.items) ∧
      (∀ i j, (s.writers.place i).inside = true → (s.writers.place j).inside = true → i = j) := by
  obtain ⟨s, hrun⟩ := Option.isSome_iff_exists.mp (show ((SharedRing.create 2 :
    SharedRing Bool Bool Nat).runEvents .ringBufferMRMW
      ([.startPush true 7, .writer true .enter, .startPop false, .reader false .enter,
        .reader false .access, .startPush false 8] ++
        List.replicate 6 (.writer true .access) ++ [.writer true .finish] ++
        List.replicate 5 (.reader false .access))).isSome = true by decide +kernel)
  obtain ⟨⟨queue, -, hstored⟩, hwriters, -⟩ := sharedRing_linearizable .ringBufferMRMW
    ⟨(nomatch ·), (nomatch ·)⟩ 2 (by decide) _ s hrun
  have hlog := congrArg (Option.map fun s => stored s.log) hrun
  exact ⟨s, hrun, Option.some.inj (hlog.symm.trans (by decide +kernel)), ⟨queue, hstored⟩, hwriters⟩

end AdServer.Buffer
