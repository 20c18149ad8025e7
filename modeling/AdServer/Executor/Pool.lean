import Mathlib.Logic.Function.Basic
import AdServer.Library.Fifo
import AdServer.Library.Transition

/-!
The thread pool of the executor. The workers run `threadpool_thread_run`, the producers
call `run`, and one thread calls `stop`. What happens under the mutex is one step, except
that a worker which found the queue empty still holds the mutex when it goes to sleep,
since `stop` does not take the mutex. A signal wakes one sleeper if there is one, and a
sleeper may also wake up by itself.
-/
namespace AdServer.Executor

open Transition Fifo

universe u

/-- Where a worker is: before the init callback, at the test of `isRunning`, before the
mutex of `take`, in `take` with the mutex between the test of the queue and the wait, in the
wait on `noempty_`, in the task that was taken at a position, or out of its function. -/
inductive WorkerPhase (α : Type u) where
  | starting
  | looping
  | locking
  | blocking
  | waiting
  | executing (position : Nat) (task : α)
  | exited

/-- Where a producer is: not in `run`, before its mutex, or in the wait on `nofull_`. A
`Task` is a `std::function` and may be empty. -/
inductive ProducerPhase (α : Type u) where
  | idle
  | locking (task : Option α)
  | waiting (task : Option α)

inductive StopPhase where
  | notCalled
  | cleared
  | notified
  | returned

/-- The pool with its threads, and the positions of the tasks whose execution is over. -/
structure PoolState (ι π : Type) (α : Type u) where
  running : Bool
  ledger : Ledger ι (Option α)
  workers : ι → WorkerPhase α
  producers : π → ProducerPhase α
  stop : StopPhase
  executed : List Nat

variable {ι π : Type} {α : Type u}

def WorkerPhase.woken : WorkerPhase α → WorkerPhase α
  | .waiting => .locking
  | phase => phase

def WorkerPhase.next (position : Nat) : Option α → WorkerPhase α
  | some task => .executing position task
  | none => .looping

def ProducerPhase.woken : ProducerPhase α → ProducerPhase α
  | .waiting task => .locking task
  | phase => phase

namespace PoolState

abbrev queue (s : PoolState ι π α) : List (Option α) := s.ledger.queue

def start : PoolState ι π α where
  running := true
  ledger := .empty
  workers := fun _ => .starting
  producers := fun _ => .idle
  stop := .notCalled
  executed := []

/-- The mutex is held between steps only by a worker that is about to sleep. -/
def MutexFree (s : PoolState ι π α) : Prop := ∀ w, s.workers w ≠ .blocking

variable [DecidableEq ι] [DecidableEq π]

def setWorker (s : PoolState ι π α) (w : ι) (phase : WorkerPhase α) : PoolState ι π α :=
  { s with workers := Function.update s.workers w phase }

def setProducer (s : PoolState ι π α) (p : π) (phase : ProducerPhase α) : PoolState ι π α :=
  { s with producers := Function.update s.producers p phase }

/-- `noempty_.notify()` wakes a sleeping worker unless there is none. -/
def SignalsWorker (s : PoolState ι π α) : Option ι → Prop
  | some w => s.workers w = .waiting
  | none => ∀ w, s.workers w ≠ .waiting

/-- `nofull_.notify()`, which is skipped without a maximum. -/
def SignalsProducer (maxQueueSize : Nat) (s : PoolState ι π α) : Option π → Prop
  | some p => 0 < maxQueueSize ∧ ∃ task, s.producers p = .waiting task
  | none => 0 < maxQueueSize → ∀ p task, s.producers p ≠ .waiting task

def wakeWorker (s : PoolState ι π α) : Option ι → PoolState ι π α
  | some w => s.setWorker w .locking
  | none => s

def wakeProducer (s : PoolState ι π α) : Option π → PoolState ι π α
  | some p => s.setProducer p (s.producers p).woken
  | none => s

/-- `noempty_.notifyAll()`. -/
def wakeAll (s : PoolState ι π α) : PoolState ι π α :=
  { s with workers := fun w => (s.workers w).woken }

def Full (maxQueueSize : Nat) (s : PoolState ι π α) : Prop :=
  0 < maxQueueSize ∧ maxQueueSize ≤ s.queue.length

end PoolState

inductive PoolEvent (ι π : Type) (α : Type u) where
  | init (w : ι) (thrown : Bool)
  | testRunning (w : ι)
  | evaluate (w : ι)
  | block (w : ι)
  | wake (w : ι)
  | take (w : ι) (task : Option α) (signalled : Option π)
  | takeNothing (w : ι)
  | finish (w : ι) (thrown : Bool)
  | call (p : π) (task : Option α)
  | insert (p : π) (task : Option α) (signalled : Option ι)
  | full (p : π)
  | wakeProducer (p : π)
  | pendingTasks (remain : Nat)
  | clear
  | notifyAll
  | join

/-- A task or the init callback leaves by an exception. -/
def PoolEvent.Throws : PoolEvent ι π α → Prop
  | .init _ thrown => thrown = true
  | .finish _ thrown => thrown = true
  | _ => False

section
variable [DecidableEq ι] [DecidableEq π]

open PoolState

inductive PoolStep (maxQueueSize : Nat) :
    PoolState ι π α → PoolEvent ι π α → PoolState ι π α → Prop where
  | initOk {s : PoolState ι π α} {w : ι} (hw : s.workers w = .starting) :
      PoolStep maxQueueSize s (.init w false) (s.setWorker w .looping)
  | initThrown {s : PoolState ι π α} {w : ι} (hw : s.workers w = .starting) :
      PoolStep maxQueueSize s (.init w true) (s.setWorker w .exited)
  | goOn {s : PoolState ι π α} {w : ι} (hw : s.workers w = .looping)
      (hrunning : s.running = true) :
      PoolStep maxQueueSize s (.testRunning w) (s.setWorker w .locking)
  | leave {s : PoolState ι π α} {w : ι} (hw : s.workers w = .looping)
      (hrunning : s.running = false) :
      PoolStep maxQueueSize s (.testRunning w) (s.setWorker w .exited)
  | evaluate {s : PoolState ι π α} {w : ι} (hw : s.workers w = .locking) (hfree : s.MutexFree)
      (hqueue : s.queue = []) (hrunning : s.running = true) :
      PoolStep maxQueueSize s (.evaluate w) (s.setWorker w .blocking)
  | block {s : PoolState ι π α} {w : ι} (hw : s.workers w = .blocking) :
      PoolStep maxQueueSize s (.block w) (s.setWorker w .waiting)
  | wake {s : PoolState ι π α} {w : ι} (hw : s.workers w = .waiting) :
      PoolStep maxQueueSize s (.wake w) (s.setWorker w .locking)
  | take {s : PoolState ι π α} {w : ι} {task : Option α} {rest : List (Option α)}
      {signalled : Option π} (hw : s.workers w = .locking) (hfree : s.MutexFree)
      (hqueue : s.queue = task :: rest) (hsignal : s.SignalsProducer maxQueueSize signalled) :
      PoolStep maxQueueSize s (.take w task signalled)
        (({ s with ledger := s.ledger.remove w }.setWorker w
          (.next s.ledger.taken.length task)).wakeProducer signalled)
  | takeNothing {s : PoolState ι π α} {w : ι} (hw : s.workers w = .locking) (hfree : s.MutexFree)
      (hqueue : s.queue = []) (hrunning : s.running = false) :
      PoolStep maxQueueSize s (.takeNothing w) (s.setWorker w .looping)
  | finished {s : PoolState ι π α} {w : ι} {position : Nat} {task : α}
      (hw : s.workers w = .executing position task) :
      PoolStep maxQueueSize s (.finish w false)
        ({ s with executed := s.executed ++ [position] }.setWorker w .looping)
  | thrown {s : PoolState ι π α} {w : ι} {position : Nat} {task : α}
      (hw : s.workers w = .executing position task) :
      PoolStep maxQueueSize s (.finish w true) (s.setWorker w .exited)
  | call {s : PoolState ι π α} {p : π} {task : Option α} (hp : s.producers p = .idle) :
      PoolStep maxQueueSize s (.call p task) (s.setProducer p (.locking task))
  | insert {s : PoolState ι π α} {p : π} {task : Option α} {signalled : Option ι}
      (hp : s.producers p = .locking task) (hfree : s.MutexFree)
      (hroom : ¬ s.Full maxQueueSize) (hsignal : s.SignalsWorker signalled) :
      PoolStep maxQueueSize s (.insert p task signalled)
        (({ s with ledger := s.ledger.insert task }.setProducer p .idle).wakeWorker signalled)
  | full {s : PoolState ι π α} {p : π} {task : Option α} (hp : s.producers p = .locking task)
      (hfree : s.MutexFree) (hfull : s.Full maxQueueSize) :
      PoolStep maxQueueSize s (.full p) (s.setProducer p (.waiting task))
  | wakeProducer {s : PoolState ι π α} {p : π} {task : Option α}
      (hp : s.producers p = .waiting task) :
      PoolStep maxQueueSize s (.wakeProducer p) (s.setProducer p (.locking task))
  | pendingTasks {s : PoolState ι π α} {remain : Nat} (hfree : s.MutexFree)
      (hremain : remain = s.queue.length) : PoolStep maxQueueSize s (.pendingTasks remain) s
  | clear {s : PoolState ι π α} (hstop : s.stop = .notCalled) :
      PoolStep maxQueueSize s .clear { s with running := false, stop := .cleared }
  | notifyAll {s : PoolState ι π α} (hstop : s.stop = .cleared) :
      PoolStep maxQueueSize s .notifyAll { s.wakeAll with stop := .notified }
  | join {s : PoolState ι π α} (hstop : s.stop = .notified)
      (hexited : ∀ w, s.workers w = .exited) :
      PoolStep maxQueueSize s .join { s with stop := .returned }

/-- A started pool with a worker for each index. -/
def poolSystem (ι π : Type) (α : Type u) [DecidableEq ι] [DecidableEq π] (maxQueueSize : Nat) :
    System (PoolState ι π α) (PoolEvent ι π α) where
  init s := s = .start
  step := PoolStep maxQueueSize

end

/-! ### What a step does to the parts of the state -/

open PoolState

namespace PoolState

theorem workers_setWorker [DecidableEq ι] (s : PoolState ι π α) (w v : ι) (phase : WorkerPhase α) :
    (s.setWorker w phase).workers v = if v = w then phase else s.workers v := by
  simp only [setWorker, Function.update_apply]

theorem wakeProducer_frame [DecidableEq π] (s : PoolState ι π α) (signalled : Option π) :
    s.wakeProducer signalled = { s with producers := (s.wakeProducer signalled).producers } := by
  cases signalled <;> rfl

theorem wakeWorker_frame [DecidableEq ι] (s : PoolState ι π α) (signalled : Option ι) :
    s.wakeWorker signalled = { s with workers := (s.wakeWorker signalled).workers } := by
  cases signalled <;> rfl

end PoolState

def PoolEvent.Wakes (w : ι) : PoolEvent ι π α → Prop
  | .wake v => v = w
  | .insert _ _ signalled => signalled = some w
  | .notifyAll => True
  | _ => False

/-- How the phase of worker `w` can change in a step. -/
inductive WorkerMove (s : PoolState ι π α) (w : ι) :
    PoolEvent ι π α → WorkerPhase α → WorkerPhase α → Prop where
  | stay {event : PoolEvent ι π α} {phase : WorkerPhase α} : WorkerMove s w event phase phase
  | initOk : WorkerMove s w (.init w false) .starting .looping
  | initThrown : WorkerMove s w (.init w true) .starting .exited
  | goOn : WorkerMove s w (.testRunning w) .looping .locking
  | leave (hrunning : s.running = false) : WorkerMove s w (.testRunning w) .looping .exited
  | evaluate (hqueue : s.queue = []) (hrunning : s.running = true) :
      WorkerMove s w (.evaluate w) .locking .blocking
  | block : WorkerMove s w (.block w) .blocking .waiting
  | woken {event : PoolEvent ι π α} (hwakes : event.Wakes w) :
      WorkerMove s w event .waiting .locking
  | take {task : Option α} {rest : List (Option α)} {signalled : Option π}
      (hqueue : s.queue = task :: rest) :
      WorkerMove s w (.take w task signalled) .locking (.next s.ledger.taken.length task)
  | takeNothing (hrunning : s.running = false) : WorkerMove s w (.takeNothing w) .locking .looping
  | finished {position : Nat} {task : α} :
      WorkerMove s w (.finish w false) (.executing position task) .looping
  | thrown {position : Nat} {task : α} :
      WorkerMove s w (.finish w true) (.executing position task) .exited

variable {maxQueueSize : Nat} {s t : PoolState ι π α} {event : PoolEvent ι π α}

theorem WorkerMove.setWorker [DecidableEq ι] {w : ι} {old new : WorkerPhase α}
    (hw : s.workers w = old) (hmove : WorkerMove s w event old new) (v : ι) :
    WorkerMove s v event (s.workers v) ((s.setWorker w new).workers v) := by
  rw [workers_setWorker]
  split
  · rename_i heq
    rw [heq, hw]
    exact hmove
  · exact .stay

theorem WorkerMove.to_blocking {w : ι} {old : WorkerPhase α}
    (h : WorkerMove s w event old .blocking) :
    old = .blocking ∨ (event = .evaluate w ∧ s.queue = [] ∧ s.running = true) := by
  generalize hnew : WorkerPhase.blocking = new at h
  cases h with
  | stay => exact .inl rfl
  | evaluate hqueue hrunning => exact .inr ⟨rfl, hqueue, hrunning⟩
  | @take task => cases task <;> cases hnew
  | _ => cases hnew

theorem WorkerMove.to_waiting {w : ι} {old : WorkerPhase α}
    (h : WorkerMove s w event old .waiting) : old = .waiting ∨ old = .blocking := by
  generalize hnew : WorkerPhase.waiting = new at h
  cases h with
  | stay => exact .inl rfl
  | block => exact .inr rfl
  | @take task => cases task <;> cases hnew
  | _ => cases hnew

/-- The task that an event puts into the queue. -/
def PoolEvent.inserted : PoolEvent ι π α → Option (Option α)
  | .insert _ task _ => some task
  | _ => none

/-- The task that an event takes from the queue, with the worker. -/
def PoolEvent.taken : PoolEvent ι π α → Option (ι × Option α)
  | .take w task _ => some (w, task)
  | _ => none

/-- How the queue and its books can change in a step. -/
inductive LedgerMove (maxQueueSize : Nat) (s : PoolState ι π α) :
    PoolEvent ι π α → Ledger ι (Option α) → Prop where
  | stay {event : PoolEvent ι π α} (hinserted : event.inserted = none)
      (htaken : event.taken = none) : LedgerMove maxQueueSize s event s.ledger
  | insert {p : π} {signalled : Option ι} (task : Option α) (hp : s.producers p = .locking task)
      (hfree : s.MutexFree) (hroom : ¬ s.Full maxQueueSize) :
      LedgerMove maxQueueSize s (.insert p task signalled) (s.ledger.insert task)
  | take {w : ι} {signalled : Option π} {task : Option α} {rest : List (Option α)}
      (hqueue : s.queue = task :: rest) :
      LedgerMove maxQueueSize s (.take w task signalled) (s.ledger.remove w)

/-- How `stop` goes on in a step. -/
inductive StopMove (s : PoolState ι π α) : PoolEvent ι π α → Bool → StopPhase → Prop where
  | stay {event : PoolEvent ι π α} : StopMove s event s.running s.stop
  | clear (hstop : s.stop = .notCalled) : StopMove s .clear false .cleared
  | notifyAll (hstop : s.stop = .cleared) : StopMove s .notifyAll s.running .notified
  | join (hstop : s.stop = .notified) (hexited : ∀ w, s.workers w = .exited) :
      StopMove s .join s.running .returned

section
variable [DecidableEq ι] [DecidableEq π]

theorem PoolStep.worker (h : PoolStep maxQueueSize s event t) (v : ι) :
    WorkerMove s v event (s.workers v) (t.workers v) := by
  cases h with
  | initOk hw => exact .setWorker hw .initOk v
  | initThrown hw => exact .setWorker hw .initThrown v
  | goOn hw hrunning => exact .setWorker hw .goOn v
  | leave hw hrunning => exact .setWorker hw (.leave hrunning) v
  | evaluate hw hfree hqueue hrunning => exact .setWorker hw (.evaluate hqueue hrunning) v
  | block hw => exact .setWorker hw .block v
  | wake hw =>
      refine .setWorker hw (.woken ?_) v
      rfl
  | take hw hfree hqueue hsignal =>
      rw [wakeProducer_frame]
      exact WorkerMove.setWorker hw (.take hqueue) v
  | takeNothing hw hfree hqueue hrunning => exact .setWorker hw (.takeNothing hrunning) v
  | finished hw => exact WorkerMove.setWorker hw .finished v
  | thrown hw => exact .setWorker hw .thrown v
  | @insert p task signalled hp hfree hroom hsignal =>
      cases signalled with
      | none => exact .stay
      | some w =>
          refine WorkerMove.setWorker hsignal (.woken ?_) v
          rfl
  | notifyAll hstop =>
      simp only [wakeAll]
      cases s.workers v with
      | waiting => exact .woken trivial
      | starting | looping | locking | blocking | executing _ _ | exited => exact .stay
  | call hp | full hp hfree hfull | wakeProducer hp | pendingTasks hfree hremain | clear hstop
  | join hstop hexited => exact .stay

theorem PoolStep.exited (h : PoolStep maxQueueSize s event t) {w : ι}
    (hw : s.workers w = .exited) : t.workers w = .exited := by
  have hmove := h.worker w
  rw [hw] at hmove
  generalize t.workers w = phase at hmove ⊢
  cases hmove with
  | stay => rfl

theorem PoolStep.ledger (h : PoolStep maxQueueSize s event t) :
    LedgerMove maxQueueSize s event t.ledger := by
  cases h with
  | take hw hfree hqueue hsignal =>
      rw [wakeProducer_frame]
      exact .take hqueue
  | insert hp hfree hroom hsignal =>
      rw [wakeWorker_frame]
      exact .insert _ hp hfree hroom
  | _ => exact .stay rfl rfl

theorem PoolStep.control (h : PoolStep maxQueueSize s event t) :
    StopMove s event t.running t.stop := by
  cases h with
  | take hw hfree hqueue hsignal =>
      rw [wakeProducer_frame]
      exact .stay
  | insert hp hfree hroom hsignal =>
      rw [wakeWorker_frame]
      exact .stay
  | clear hstop => exact .clear hstop
  | notifyAll hstop => exact .notifyAll hstop
  | join hstop hexited => exact .join hstop hexited
  | _ => exact .stay

theorem PoolStep.stopped (h : PoolStep maxQueueSize s event t) (hstopped : s.running = false) :
    t.running = false := by
  have hmove := h.control
  generalize t.running = running, t.stop = stop at hmove ⊢
  cases hmove with
  | clear hstop => rfl
  | stay | notifyAll hstop | join hstop hexited => exact hstopped

theorem PoolStep.running_iff (h : PoolStep maxQueueSize s event t)
    (hiff : s.running = true ↔ s.stop = .notCalled) : t.running = true ↔ t.stop = .notCalled := by
  have hmove := h.control
  generalize t.running = running, t.stop = stop at hmove ⊢
  cases hmove with
  | stay => exact hiff
  | clear hstop => exact iff_of_false nofun nofun
  | notifyAll hstop | join hstop hexited =>
      refine iff_of_false (fun hrunning => ?_) nofun
      cases hstop.symm.trans (hiff.mp hrunning)

/-- Nothing but `stop` clears the flag. -/
theorem running_iff_of_run {guard : PoolState ι π α → PoolEvent ι π α → Prop}
    {events : List (PoolEvent ι π α)} (hrun : Run (poolSystem ι π α maxQueueSize) guard events s) :
    s.running = true ↔ s.stop = .notCalled := by
  refine Run.invariant (fun s => s.running = true ↔ s.stop = .notCalled) ?_ ?_ hrun
  · rintro s rfl
    exact iff_of_true rfl rfl
  · intro s event t h _ hstep
    exact hstep.running_iff h

end

/-- A pool with one worker, which executes the first task. -/
def occupied : PoolState Unit Unit Unit where
  running := true
  ledger := (Ledger.empty.insert (some ())).remove ()
  workers _ := .executing 0 ()
  producers _ := .idle
  stop := .notCalled
  executed := []

theorem run_occupied : Run (poolSystem Unit Unit Unit 1) (fun _ _ => True)
    [.init () false, .call () (some ()), .insert () (some ()) none, .testRunning (),
      .take () (some ()) none] occupied := by
  have hstart : Run (poolSystem Unit Unit Unit 1) (fun _ _ => True) [] .start := .start rfl
  have hcalled : Run (poolSystem Unit Unit Unit 1) (fun _ _ => True)
      [.init () false, .call () (some ())] _ :=
    (hstart.next trivial (PoolStep.initOk (w := ()) rfl)).next trivial (PoolStep.call rfl)
  have hinserted : Run (poolSystem Unit Unit Unit 1) (fun _ _ => True)
      [.init () false, .call () (some ()), .insert () (some ()) none] _ :=
    hcalled.next trivial (PoolStep.insert rfl nofun (fun hfull => absurd hfull.2 (by decide)) nofun)
  have htaken : Run (poolSystem Unit Unit Unit 1) (fun _ _ => True)
      [.init () false, .call () (some ()), .insert () (some ()) none, .testRunning (),
        .take () (some ()) none] _ :=
    (hinserted.next trivial (PoolStep.goOn (w := ()) rfl rfl)).next trivial
      (PoolStep.take rfl nofun rfl nofun)
  exact htaken

end AdServer.Executor
