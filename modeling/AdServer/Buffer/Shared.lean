import AdServer.Buffer.Ring
import AdServer.Library.CriticalSection

/-!
The ring buffers `AdRingBufferMRMW`, `AdRingBufferSRMW`, `AdRingBufferMRSW` and `AdRingBufferSRSW`
as threads use them. The writers share one lock and the readers another, where there are many of
them; a writer and a reader have no lock in common. So the calls are taken apart into their single
accesses to the ring, and any thread can make the next one. A call that waits may check again at any
time. The `pop` of the first and the third one calls itself with its lock held and never comes to
`__pop`; their readers are in `tryPop`.
-/
namespace AdServer.Buffer

open BoundedQueue Ring Lockstep CriticalSection

/-- Which sides of a ring buffer take their lock. -/
structure Locking where
  writers : Bool
  readers : Bool

namespace Locking

def ringBufferMRMW : Locking := ⟨true, true⟩

def ringBufferSRMW : Locking := ⟨true, false⟩

def ringBufferMRSW : Locking := ⟨false, true⟩

def ringBufferSRSW : Locking := ⟨false, false⟩

end Locking

/-- Calls with their answers, in the order in which they take effect. -/
abbrev CallLog (ρ : Type) := List (Request ρ × Answer ρ)

/-- Where a thread is in `push` or `tryPush`, with the values it has read. -/
inductive WriterPhase (ρ : Type) where
  | idle
  | entering (request : ρ)
  | checking (request : ρ)
  | comparing (request : ρ) (fullReadPosition : Int)
  | refused (request : ρ)
  | locating (request : ρ)
  | filling (request : ρ) (index : Int)
  | advancing (request : ρ)
  | storing (request : ρ) (position : Int)
  | leaving
  deriving DecidableEq

/-- Where a thread is in `pop` or `tryPop`. -/
inductive ReaderPhase (ρ : Type) where
  | idle
  | entering
  | checking
  | comparing (readPosition : Int)
  | refused
  | locating
  | copying (index : Int)
  | advancing (result : ρ)
  | storing (result : ρ) (position : Int)
  | leaving (result : ρ)
  deriving DecidableEq

variable {ρ : Type}

namespace WriterPhase

/-- The next access to the ring in `__full` and `__push`. `none` is a division by zero, a write
outside of the vector, or no access. -/
def access (ring : RingBufferBase ρ) :
    WriterPhase ρ → Option (RingBufferBase ρ × WriterPhase ρ × CallLog ρ)
  | checking request => do
    let fullReadPosition ← ring.next ring.iWritePosition
    some (ring, comparing request fullReadPosition, [])
  | comparing request fullReadPosition =>
    if ring.iReadPosition = fullReadPosition then
      some (ring, refused request, [(.push request, .pushed false)])
    else some (ring, locating request, [])
  | locating request => some (ring, filling request ring.iWritePosition, [])
  | filling request index => do
    let vRing ← Cells.put ring.vRing index request
    some ({ ring with vRing := vRing }, advancing request, [])
  | advancing request => do
    let position ← ring.next ring.iWritePosition
    some (ring, storing request position, [])
  | storing request position =>
    some ({ ring with iWritePosition := position }, leaving, [(.push request, .pushed true)])
  | idle | entering _ | refused _ | leaving => none

def inside : WriterPhase ρ → Bool
  | idle | entering _ => false
  | _ => true

end WriterPhase

namespace ReaderPhase

/-- The next access to the ring in `__empty` and `__pop`. -/
def access (ring : RingBufferBase ρ) :
    ReaderPhase ρ → Option (RingBufferBase ρ × ReaderPhase ρ × CallLog ρ)
  | checking => some (ring, comparing ring.iReadPosition, [])
  | comparing readPosition =>
    if readPosition = ring.iWritePosition then some (ring, refused, [(.pop, .popped none)])
    else some (ring, locating, [])
  | locating => some (ring, copying ring.iReadPosition, [])
  | copying index => do
    let result ← Cells.entry ring.vRing index
    some (ring, advancing result, [])
  | advancing result => do
    let position ← ring.next ring.iReadPosition
    some (ring, storing result position, [])
  | storing result position =>
    some ({ ring with iReadPosition := position }, leaving result, [(.pop, .popped (some result))])
  | idle | entering | refused | leaving _ => none

def inside : ReaderPhase ρ → Bool
  | idle | entering => false
  | _ => true

end ReaderPhase

structure SharedRing (ι κ ρ : Type) where
  ring : RingBufferBase ρ
  writers : Threads ι (WriterPhase ρ)
  readers : Threads κ (ReaderPhase ρ)
  log : CallLog ρ

/-- What a thread does next. A call that is refused ends, as in `tryPush` and `tryPop`, or waits
and checks again, as in `push` and `pop`. -/
inductive Action where
  | enter
  | access
  | giveUp
  | wait
  | finish

inductive Event (ι κ ρ : Type) where
  | startPush (i : ι) (request : ρ)
  | writer (i : ι) (action : Action)
  | startPop (k : κ)
  | reader (k : κ) (action : Action)

namespace SharedRing

variable {ι κ : Type} [DecidableEq ι] [DecidableEq κ]

def create [Inhabited ρ] (size : BitVec 32) : SharedRing ι κ ρ where
  ring := .init [] size
  writers := ⟨fun _ => .idle, none⟩
  readers := ⟨fun _ => .idle, none⟩
  log := []

def writerStep (locked : Bool) (s : SharedRing ι κ ρ) (i : ι) : Action → Option (SharedRing ι κ ρ)
  | .enter =>
    match s.writers.place i with
    | .entering request => do
      let writers ← s.writers.enter locked i (.checking request)
      some { s with writers := writers }
    | _ => none
  | .access => do
    let (ring, phase, log) ← (s.writers.place i).access s.ring
    some { s with ring := ring, writers := s.writers.move i phase, log := s.log ++ log }
  | .giveUp =>
    match s.writers.place i with
    | .refused _ => some { s with writers := s.writers.leave locked i .idle }
    | _ => none
  | .wait =>
    match s.writers.place i with
    | .refused request => some { s with writers := s.writers.leave locked i (.entering request) }
    | _ => none
  | .finish =>
    match s.writers.place i with
    | .leaving => some { s with writers := s.writers.leave locked i .idle }
    | _ => none

/-- The readers of a ring with a read lock do not wait: the `pop` of these classes calls itself. -/
def readerStep (locked : Bool) (s : SharedRing ι κ ρ) (k : κ) : Action → Option (SharedRing ι κ ρ)
  | .enter =>
    match s.readers.place k with
    | .entering => do
      let readers ← s.readers.enter locked k .checking
      some { s with readers := readers }
    | _ => none
  | .access => do
    let (ring, phase, log) ← (s.readers.place k).access s.ring
    some { s with ring := ring, readers := s.readers.move k phase, log := s.log ++ log }
  | .giveUp =>
    match s.readers.place k with
    | .refused => some { s with readers := s.readers.leave locked k .idle }
    | _ => none
  | .wait =>
    match s.readers.place k with
    | .refused =>
      if locked then none else some { s with readers := s.readers.leave locked k .entering }
    | _ => none
  | .finish =>
    match s.readers.place k with
    | .leaving _ => some { s with readers := s.readers.leave locked k .idle }
    | _ => none

/-- One step of any thread; `none` if the thread cannot take it. -/
def step (locking : Locking) (s : SharedRing ι κ ρ) : Event ι κ ρ → Option (SharedRing ι κ ρ)
  | .startPush i request =>
    match s.writers.place i with
    | .idle => some { s with writers := s.writers.move i (.entering request) }
    | _ => none
  | .writer i action => s.writerStep locking.writers i action
  | .startPop k =>
    match s.readers.place k with
    | .idle => some { s with readers := s.readers.move k .entering }
    | _ => none
  | .reader k action => s.readerStep locking.readers k action

def runEvents (locking : Locking) (s : SharedRing ι κ ρ) (events : List (Event ι κ ρ)) :
    Option (SharedRing ι κ ρ) :=
  events.foldlM (step locking) s

end SharedRing

/-- The ring of `n` cells holds the items, whatever the calls have counted. -/
def Layout (n r : Nat) (ring : RingBufferBase ρ) (items : List ρ) : Prop :=
  Represents n r ⟨ring, 0, BitVec.ofNat 32 items.length⟩ items

namespace Layout

variable {n r : Nat} {ring : RingBufferBase ρ} {items : List ρ}

/-- A cell that no reader looks at can be written. -/
theorem fill (h : Layout n r ring items) (request : ρ) :
    ∃ vRing, Cells.put ring.vRing ring.iWritePosition request = some vRing ∧
      Layout n r { ring with vRing := vRing } items ∧
      Cells.entry vRing ring.iWritePosition = some request := by
  have hlt := h.write_lt
  have hlength : ring.vRing.length = n := h.length
  have hwrite : ring.iWritePosition = (place n r items.length : Nat) := h.writePosition
  refine ⟨ring.vRing.set (place n r items.length) request, ?_, ?_, ?_⟩
  · rw [Cells.put, hwrite, hlength, Int.toNat_natCast]
    exact if_pos (by omega)
  · refine ⟨h.iSize, ?_, h.inside, h.room, h.readPosition, h.writePosition, ?_, h.counts⟩
    · rw [List.length_set, hlength]
    · have hholds := h.holds.set_free (h.length.symm ▸ h.room) request
      rwa [h.length] at hholds
  · rw [hwrite, Cells.entry_natCast, List.getElem?_set_self (hlength.symm ▸ hlt)]

/-- The store of the write position hands the written cell over. -/
theorem store_write (h : Layout n r ring items) (hn : n < 2 ^ 31) (hroom : items.length + 1 < n)
    {request : ρ} (hcell : Cells.entry ring.vRing ring.iWritePosition = some request)
    {position : Int} (hposition : ring.next ring.iWritePosition = some position) :
    Layout n r { ring with iWritePosition := position } (items ++ [request]) := by
  have hlength : ring.vRing.length = n := h.length
  have hwrite : ring.iWritePosition = (place n r items.length : Nat) := h.writePosition
  have hnext := hposition.symm.trans (h.next_write hn)
  rw [hwrite, Cells.entry_natCast] at hcell
  refine ⟨h.iSize, hlength, h.inside, ?_, h.readPosition, ?_, h.holds.concat ?_, ?_⟩
  · rwa [List.length_append, List.length_singleton]
  · rw [List.length_append, List.length_singleton]
    exact Option.some.inj hnext
  · rwa [h.length]
  · exact (BitVec.zero_add _).symm

/-- The store of the read position gives the cell of the oldest item back. -/
theorem store_read {oldest : ρ} (h : Layout n r ring (oldest :: items)) (hn : n < 2 ^ 31)
    {position : Int} (hposition : ring.next ring.iReadPosition = some position) :
    Layout n (place n r 1) { ring with iReadPosition := position } items := by
  have hroom := h.room
  rw [List.length_cons] at hroom
  refine ⟨h.iSize, h.length, place_lt (Nat.zero_lt_of_lt h.inside) r 1, by omega, ?_, ?_, ?_, ?_⟩
  · exact Option.some.inj (hposition.symm.trans (h.next_read hn))
  · rw [place_place, Nat.add_comm 1]
    exact h.writePosition
  · have hholds := h.holds.pop
    rwa [h.length] at hholds
  · exact (BitVec.zero_add _).symm

theorem full_iff (h : Layout n r ring items) (hn : n < 2 ^ 31) {fullReadPosition : Int}
    (hnext : ring.next ring.iWritePosition = some fullReadPosition) :
    ring.iReadPosition = fullReadPosition ↔ items.length + 1 = n := by
  have hfull := h.full_eq hn
  rw [RingBufferBase.full, hnext] at hfull
  exact decide_eq_decide.mp (Option.some.inj hfull)

theorem empty_iff (h : Layout n r ring items) :
    ring.iReadPosition = ring.iWritePosition ↔ items = [] :=
  decide_eq_decide.mp h.empty_eq

theorem entry_read (h : Layout n r ring items) (hne : items ≠ []) :
    Cells.entry ring.vRing ring.iReadPosition = items.head? := by
  have hread : ring.iReadPosition = (r : Nat) := h.readPosition
  obtain ⟨oldest, rest, rfl⟩ := List.exists_cons_of_ne_nil hne
  rw [hread, Cells.entry_natCast]
  exact h.holds.oldest (h.length.symm ▸ h.inside)

end Layout

/-- What a thread that writes relies on: the positions it has read are still those of the ring,
there is room for its item, and the item it has written is in its cell. -/
def WriterPhase.Fits (n : Nat) (ring : RingBufferBase ρ) (items : List ρ) : WriterPhase ρ → Prop
  | comparing _ fullReadPosition => ring.next ring.iWritePosition = some fullReadPosition
  | locating _ => items.length + 1 < n
  | filling _ index => items.length + 1 < n ∧ index = ring.iWritePosition
  | advancing request =>
    items.length + 1 < n ∧ Cells.entry ring.vRing ring.iWritePosition = some request
  | storing request position =>
    items.length + 1 < n ∧ Cells.entry ring.vRing ring.iWritePosition = some request ∧
      ring.next ring.iWritePosition = some position
  | idle | entering _ | checking _ | refused _ | leaving => True

/-- What a thread that reads relies on: the oldest item does not change under it. -/
def ReaderPhase.Fits (ring : RingBufferBase ρ) (items : List ρ) : ReaderPhase ρ → Prop
  | comparing readPosition => readPosition = ring.iReadPosition
  | locating => items ≠ []
  | copying index => items ≠ [] ∧ index = ring.iReadPosition
  | advancing result => items.head? = some result
  | storing result position =>
    items.head? = some result ∧ ring.next ring.iReadPosition = some position
  | idle | entering | checking | refused | leaving _ => True

section Access

variable {n : Nat} {ring ring' : RingBufferBase ρ} {items items' : List ρ}

theorem WriterPhase.fits_of_not_inside {phase : WriterPhase ρ} (h : phase.inside = false) :
    phase.Fits n ring items := by
  cases phase with
  | idle | entering _ => trivial
  | _ => cases h

theorem ReaderPhase.fits_of_not_inside {phase : ReaderPhase ρ} (h : phase.inside = false) :
    phase.Fits ring items := by
  cases phase with
  | idle | entering => trivial
  | _ => cases h

theorem next_congr (hsize : ring'.iSize = ring.iSize) (position : Int) :
    ring'.next position = ring.next position := by
  rw [RingBufferBase.next, RingBufferBase.next, hsize]

/-- What a reader does to the ring leaves what a writer relies on. -/
structure KeepsWriters (ring ring' : RingBufferBase ρ) (items items' : List ρ) : Prop where
  iSize : ring'.iSize = ring.iSize
  vRing : ring'.vRing = ring.vRing
  writePosition : ring'.iWritePosition = ring.iWritePosition
  shorter : items'.length ≤ items.length

/-- What a writer does to the ring leaves what a reader relies on. -/
structure KeepsReaders (ring ring' : RingBufferBase ρ) (items items' : List ρ) : Prop where
  iSize : ring'.iSize = ring.iSize
  readPosition : ring'.iReadPosition = ring.iReadPosition
  longer : items <+: items'

theorem KeepsWriters.fits (h : KeepsWriters ring ring' items items') {phase : WriterPhase ρ}
    (hfits : phase.Fits n ring items) : phase.Fits n ring' items' := by
  have hroom : items.length + 1 < n → items'.length + 1 < n := by
    have := h.shorter
    omega
  cases phase with
  | comparing request fullReadPosition =>
      rwa [WriterPhase.Fits, next_congr h.iSize, h.writePosition]
  | locating request => exact hroom hfits
  | filling request index => exact ⟨hroom hfits.1, hfits.2.trans h.writePosition.symm⟩
  | advancing request =>
      refine ⟨hroom hfits.1, ?_⟩
      rw [h.vRing, h.writePosition]
      exact hfits.2
  | storing request position =>
      refine ⟨hroom hfits.1, ?_, ?_⟩
      · rw [h.vRing, h.writePosition]
        exact hfits.2.1
      · rw [next_congr h.iSize, h.writePosition]
        exact hfits.2.2
  | _ => trivial

theorem KeepsReaders.fits (h : KeepsReaders ring ring' items items') {phase : ReaderPhase ρ}
    (hfits : phase.Fits ring items) : phase.Fits ring' items' := by
  have hhead : ∀ result, items.head? = some result → items'.head? = some result := by
    obtain ⟨more, rfl⟩ := h.longer
    intro result hresult
    rw [List.head?_append, hresult, Option.some_or]
  have hfull : items ≠ [] → items' ≠ [] := by
    obtain ⟨more, rfl⟩ := h.longer
    exact fun hne => List.append_ne_nil_of_left_ne_nil hne more
  cases phase with
  | comparing readPosition => exact Eq.trans hfits h.readPosition.symm
  | locating => exact hfull hfits
  | copying index => exact ⟨hfull hfits.1, hfits.2.trans h.readPosition.symm⟩
  | advancing result => exact hhead result hfits
  | storing result position =>
      refine ⟨hhead result hfits.1, ?_⟩
      rw [next_congr h.iSize, h.readPosition]
      exact hfits.2
  | _ => trivial

variable {queue : BoundedQueue ρ (n - 1)} {log : CallLog ρ}

/-- The calls of the log lead from one queue to another one, with the answers of the log. -/
def Answers (log : CallLog ρ) (queue queue' : BoundedQueue ρ (n - 1)) : Prop :=
  specRun BoundedQueue.answer queue (log.map Prod.fst) = (queue', log.map Prod.snd)

theorem answers_nil : Answers [] queue queue := rfl

theorem Answers.append {queue' queue'' : BoundedQueue ρ (n - 1)} {log' : CallLog ρ}
    (h : Answers log queue queue') (h' : Answers log' queue' queue'') :
    Answers (log ++ log') queue queue'' := by
  rw [Answers, List.map_append, List.map_append]
  exact specRun_append h h'

theorem answers_cons {queue' : BoundedQueue ρ (n - 1)} {request : Request ρ} {result : Answer ρ} :
    Answers ((request, result) :: log) queue queue' ↔
      (queue.answer request).2 = result ∧ Answers log (queue.answer request).1 queue' := by
  rw [Answers, List.map_cons, List.map_cons, specRun, Prod.mk.injEq, List.cons.injEq, Answers,
    Prod.ext_iff]
  exact and_left_comm

theorem answers_single {request : Request ρ} {result : Answer ρ}
    (h : (queue.answer request).2 = result) :
    Answers [(request, result)] queue (queue.answer request).1 :=
  answers_cons.mpr ⟨h, answers_nil⟩

/-- The items that calls have put into the queue. -/
def stored (log : CallLog ρ) : List ρ :=
  log.filterMap fun
    | (.push request, .pushed true) => some request
    | _ => none

/-- The items that calls have got out of it. -/
def taken (log : CallLog ρ) : List ρ :=
  log.filterMap fun
    | (.pop, .popped result) => result
    | _ => none

/-- Every item that is put in is got out once, in the same order, or is still there. -/
theorem Answers.stored_eq {queue' : BoundedQueue ρ (n - 1)} (h : Answers log queue queue') :
    queue.items ++ stored log = taken log ++ queue'.items := by
  induction log generalizing queue with
  | nil =>
      cases h
      exact List.append_nil _
  | cons call log ih =>
      obtain ⟨request, result⟩ := call
      obtain ⟨rfl, hlog⟩ := answers_cons.mp h
      have hrest := ih hlog
      cases request with
      | push item =>
          by_cases hroom : queue.items.length < n - 1
          · obtain ⟨hitems, hsuccess⟩ := queue.tryPush_of_lt hroom item
            rw [BoundedQueue.answer, hitems, List.append_assoc] at hrest
            simpa [stored, taken, BoundedQueue.answer, hsuccess] using hrest
          · have hsame := queue.tryPush_of_full
              (Nat.le_antisymm queue.bounded (Nat.not_lt.mp hroom)) item
            rw [BoundedQueue.answer, hsame] at hrest
            simpa [stored, taken, BoundedQueue.answer, hsame] using hrest
      | pop =>
          cases hitems : queue.items with
          | nil =>
              have hsame := queue.tryPop_of_nil hitems
              rw [BoundedQueue.answer, hsame, hitems] at hrest
              simpa [stored, taken, BoundedQueue.answer, hsame] using hrest
          | cons oldest rest =>
              obtain ⟨hothers, hresult⟩ := queue.tryPop_of_cons hitems
              rw [BoundedQueue.answer, hothers] at hrest
              simpa [stored, taken, BoundedQueue.answer, hresult] using hrest

/-- An access of a writer is a push of the queue, a refusal of one, or nothing. -/
theorem WriterPhase.access_spec (hn : n < 2 ^ 31) {r : Nat} (h : Layout n r ring queue.items)
    {phase phase' : WriterPhase ρ} (hfits : phase.Fits n ring queue.items)
    (haccess : phase.access ring = some (ring', phase', log)) :
    ∃ queue', Answers log queue queue' ∧ Layout n r ring' queue'.items ∧
      phase'.Fits n ring' queue'.items ∧ KeepsReaders ring ring' queue.items queue'.items := by
  have hsame : KeepsReaders ring ring queue.items queue.items := ⟨rfl, rfl, List.prefix_refl _⟩
  have hinside := h.inside
  cases phase with
  | idle | entering _ | refused _ | leaving => cases haccess
  | checking request =>
      obtain ⟨fullReadPosition, hnext, hpair⟩ := Option.bind_eq_some_iff.mp haccess
      cases hpair
      exact ⟨queue, answers_nil, h, hnext, hsame⟩
  | comparing request fullReadPosition =>
      have hfull := h.full_iff hn hfits
      rw [access] at haccess
      split at haccess
      · rename_i hequal
        cases haccess
        have hrefuse := queue.tryPush_of_full (by have := hfull.mp hequal; omega) request
        refine ⟨queue, ?_, h, trivial, hsame⟩
        have hanswer : queue.answer (.push request) = (queue, .pushed false) := by
          rw [BoundedQueue.answer, hrefuse]
        have hlog := answers_single (congrArg Prod.snd hanswer)
        rwa [hanswer] at hlog
      · rename_i hother
        cases haccess
        have hroom := h.room
        refine ⟨queue, answers_nil, h, ?_, hsame⟩
        have hne := mt hfull.mpr hother
        show queue.items.length + 1 < n
        omega
  | locating request =>
      cases haccess
      exact ⟨queue, answers_nil, h, ⟨hfits, rfl⟩, hsame⟩
  | filling request index =>
      obtain ⟨hroom, rfl⟩ := hfits
      obtain ⟨vRing, hput, hlayout, hcell⟩ := h.fill request
      rw [access, hput] at haccess
      cases haccess
      exact ⟨queue, answers_nil, hlayout, ⟨hroom, hcell⟩, rfl, rfl, List.prefix_refl _⟩
  | advancing request =>
      obtain ⟨position, hnext, hpair⟩ := Option.bind_eq_some_iff.mp haccess
      cases hpair
      exact ⟨queue, answers_nil, h, ⟨hfits.1, hfits.2, hnext⟩, hsame⟩
  | storing request position =>
      obtain ⟨hroom, hcell, hnext⟩ := hfits
      cases haccess
      obtain ⟨hitems, hsuccess⟩ := queue.tryPush_of_lt (by omega) request
      refine ⟨(queue.answer (.push request)).1, answers_single (congrArg Answer.pushed hsuccess),
        ?_, trivial, rfl, rfl, ?_⟩
      · have hlayout := h.store_write hn hroom hcell hnext
        rwa [← hitems] at hlayout
      · exact hitems ▸ List.prefix_append _ _

/-- An access of a reader is a pop of the queue, a refusal of one, or nothing. -/
theorem ReaderPhase.access_spec (hn : n < 2 ^ 31) {r : Nat} (h : Layout n r ring queue.items)
    {phase phase' : ReaderPhase ρ} (hfits : phase.Fits ring queue.items)
    (haccess : phase.access ring = some (ring', phase', log)) :
    ∃ queue', Answers log queue queue' ∧ (∃ r', Layout n r' ring' queue'.items) ∧
      phase'.Fits ring' queue'.items ∧ KeepsWriters ring ring' queue.items queue'.items := by
  have hsame : KeepsWriters ring ring queue.items queue.items := ⟨rfl, rfl, rfl, Nat.le_refl _⟩
  cases phase with
  | idle | entering | refused | leaving _ => cases haccess
  | checking =>
      cases haccess
      exact ⟨queue, answers_nil, ⟨r, h⟩, rfl, hsame⟩
  | comparing readPosition =>
      have hempty := h.empty_iff
      rw [access, show readPosition = ring.iReadPosition from hfits] at haccess
      split at haccess
      · rename_i hequal
        cases haccess
        have hrefuse := queue.tryPop_of_nil (hempty.mp hequal)
        have hanswer : queue.answer .pop = (queue, .popped none) := by
          rw [BoundedQueue.answer, hrefuse]
        have hlog := answers_single (congrArg Prod.snd hanswer)
        rw [hanswer] at hlog
        exact ⟨queue, hlog, ⟨r, h⟩, trivial, hsame⟩
      · rename_i hother
        cases haccess
        exact ⟨queue, answers_nil, ⟨r, h⟩, mt hempty.mpr hother, hsame⟩
  | locating =>
      cases haccess
      exact ⟨queue, answers_nil, ⟨r, h⟩, ⟨hfits, rfl⟩, hsame⟩
  | copying index =>
      obtain ⟨hne, rfl⟩ := hfits
      obtain ⟨result, hentry, hpair⟩ := Option.bind_eq_some_iff.mp haccess
      cases hpair
      exact ⟨queue, answers_nil, ⟨r, h⟩, (h.entry_read hne).symm.trans hentry, hsame⟩
  | advancing result =>
      obtain ⟨position, hnext, hpair⟩ := Option.bind_eq_some_iff.mp haccess
      cases hpair
      exact ⟨queue, answers_nil, ⟨r, h⟩, ⟨hfits, hnext⟩, hsame⟩
  | storing result position =>
      obtain ⟨hhead, hnext⟩ := hfits
      cases haccess
      obtain ⟨rest, hitems⟩ := List.head?_eq_some_iff.mp hhead
      obtain ⟨hrest, hresult⟩ := queue.tryPop_of_cons hitems
      rw [hitems] at h
      refine ⟨(queue.answer .pop).1, answers_single (congrArg Answer.popped hresult),
        ⟨place n r 1, ?_⟩, trivial, rfl, rfl, rfl, ?_⟩
      · have hlayout := h.store_read hn hnext
        rwa [← hrest] at hlayout
      · rw [BoundedQueue.answer, hrest, hitems, List.length_cons]
        exact Nat.le_succ _

theorem WriterPhase.access_inside {phase phase' : WriterPhase ρ}
    (haccess : phase.access ring = some (ring', phase', log)) :
    phase.inside = true ∧ phase'.inside = true := by
  cases phase with
  | idle | entering _ | refused _ | leaving => cases haccess
  | checking request | filling request index | advancing request =>
      obtain ⟨_, _, hpair⟩ := Option.bind_eq_some_iff.mp haccess
      cases hpair
      exact ⟨rfl, rfl⟩
  | comparing request fullReadPosition =>
      rw [access] at haccess
      split at haccess <;> cases haccess <;> exact ⟨rfl, rfl⟩
  | locating request | storing request position =>
      cases haccess
      exact ⟨rfl, rfl⟩

theorem ReaderPhase.access_inside {phase phase' : ReaderPhase ρ}
    (haccess : phase.access ring = some (ring', phase', log)) :
    phase.inside = true ∧ phase'.inside = true := by
  cases phase with
  | idle | entering | refused | leaving _ => cases haccess
  | copying index | advancing result =>
      obtain ⟨_, _, hpair⟩ := Option.bind_eq_some_iff.mp haccess
      cases hpair
      exact ⟨rfl, rfl⟩
  | comparing readPosition =>
      rw [access] at haccess
      split at haccess <;> cases haccess <;> exact ⟨rfl, rfl⟩
  | checking | locating | storing result position =>
      cases haccess
      exact ⟨rfl, rfl⟩

end Access

end AdServer.Buffer
