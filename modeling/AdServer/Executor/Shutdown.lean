import AdServer.Executor.Pool

/-!
The shutdown of the pool. `stop` clears `running_` and notifies without the mutex. A worker
that has found the queue empty and the pool running, and is not yet in its wait, is missed:
it goes to sleep after the only notification, and `stop` joins it forever.
-/
namespace AdServer.Executor

open Transition

universe u

variable {ι π : Type} {α : Type u} {s t : PoolState ι π α} {event : PoolEvent ι π α}

/-- The notification is over and a worker sleeps. -/
structure Missed (s : PoolState ι π α) : Prop where
  stopped : s.running = false
  notified : s.stop = .notified
  sleeping : ∃ w, s.workers w = .waiting

/-- No worker sleeps or is about to, and none will. -/
structure Awake (s : PoolState ι π α) : Prop where
  stopped : s.running = false
  free : s.MutexFree
  awake : ∀ w, s.workers w ≠ .waiting

theorem Awake.not_missed (h : Awake s) : ¬ Missed s := by
  intro hmissed
  obtain ⟨w, hw⟩ := hmissed.sleeping
  exact h.awake w hw

def PoolState.notified (s : PoolState ι π α) : PoolState ι π α :=
  { s.wakeAll with stop := .notified }

theorem Awake.notified (hstopped : s.running = false) (hfree : s.MutexFree) : Awake s.notified := by
  refine ⟨hstopped, ?_, ?_⟩
  · intro w hw
    have hold := hfree w
    simp only [PoolState.notified, PoolState.wakeAll] at hw
    cases hphase : s.workers w with
    | blocking => exact hold hphase
    | starting | looping | locking | waiting | executing _ _ | exited =>
        rw [hphase] at hw
        cases hw
  · intro w hw
    simp only [PoolState.notified, PoolState.wakeAll] at hw
    cases hphase : s.workers w with
    | starting | looping | locking | waiting | executing _ _ | exited | blocking =>
        rw [hphase] at hw
        cases hw

variable [DecidableEq ι] [DecidableEq π] {maxQueueSize : Nat}

theorem Awake.step (h : Awake s) (hstep : PoolStep maxQueueSize s event t) : Awake t := by
  refine ⟨hstep.stopped h.stopped, ?_, ?_⟩
  · intro w hw
    cases (hw ▸ hstep.worker w).to_blocking with
    | inl hold => exact h.free w hold
    | inr hevaluated => cases hevaluated.2.2.symm.trans h.stopped
  · intro w hw
    cases (hw ▸ hstep.worker w).to_waiting with
    | inl hold => exact h.awake w hold
    | inr hold => exact h.free w hold

/-- Whenever `stop` is about to notify, it cannot miss a worker in any continuation exactly
if no worker is between its test of the queue and its wait. -/
theorem missed_iff (maxQueueSize : Nat) (events : List (PoolEvent ι π α)) (s : PoolState ι π α)
    (hrun : Run (poolSystem ι π α maxQueueSize) (fun _ _ => True) events s)
    (hstop : s.stop = .cleared) :
    (∀ later t, Run ((poolSystem ι π α maxQueueSize).startingAt s.notified) (fun _ _ => True)
      later t → ¬ Missed t) ↔ ∀ w, s.workers w ≠ .blocking := by
  have hstopped : s.running = false := by
    rw [← Bool.not_eq_true, running_iff_of_run hrun, hstop]
    exact nofun
  refine ⟨?_, ?_⟩
  · intro hsafe w hw
    have hblocking : s.notified.workers w = .blocking := by
      simp only [PoolState.notified, PoolState.wakeAll, hw, WorkerPhase.woken]
    have hblock : Run ((poolSystem ι π α maxQueueSize).startingAt s.notified) (fun _ _ => True)
        [.block w] (s.notified.setWorker w .waiting) :=
      (Run.start rfl).next trivial (.block hblocking)
    refine hsafe _ _ hblock ⟨hstopped, rfl, w, ?_⟩
    rw [PoolState.workers_setWorker, if_pos rfl]
  · intro hfree later t hlater
    have hawake : Awake t := by
      refine Run.invariant Awake ?_ (fun _ _ _ h _ hstep => h.step hstep) hlater
      rintro _ rfl
      exact Awake.notified hstopped hfree
    exact hawake.not_missed

/-- The only worker has found the queue empty. -/
theorem run_blocking : Run (poolSystem Unit Empty Unit 1) (fun _ _ => True)
    [.init () false, .testRunning (), .evaluate ()]
      (((PoolState.start.setWorker () .looping).setWorker () .locking).setWorker () .blocking) := by
  have hstart : Run (poolSystem Unit Empty Unit 1) (fun _ _ => True) [] .start := .start rfl
  have hlocking := (hstart.next trivial (PoolStep.initOk (w := ()) rfl)).next trivial
    (PoolStep.goOn (w := ()) rfl rfl)
  exact hlocking.next trivial (PoolStep.evaluate (w := ()) rfl nofun rfl rfl)

theorem missed_iff_sample :
    ∃ s : PoolState Unit Empty Unit,
      Run (poolSystem Unit Empty Unit 1) (fun _ _ => True)
        [.init () false, .testRunning (), .evaluate (), .block (), .clear] s ∧
      s.stop = .cleared ∧ s.workers () = .waiting ∧
      ∀ later t, Run ((poolSystem Unit Empty Unit 1).startingAt s.notified) (fun _ _ => True)
        later t → ¬ Missed t := by
  have hclear := (run_blocking.next trivial (PoolStep.block (w := ()) rfl)).next trivial
    (PoolStep.clear rfl)
  exact ⟨_, hclear, rfl, rfl, (missed_iff 1 _ _ hclear rfl).mpr nofun⟩

/-- No worker wakes up by itself and no producer inserts a task. -/
def PoolEvent.Silent : PoolEvent ι π α → Prop
  | .wake _ | .insert _ _ _ => False
  | _ => True

theorem Missed.step (h : Missed s) (hstep : PoolStep maxQueueSize s event t)
    (hsilent : event.Silent) : Missed t := by
  obtain ⟨w, hw⟩ := h.sleeping
  refine ⟨hstep.stopped h.stopped, ?_, w, ?_⟩
  · have hmove := hstep.control
    generalize t.running = running, t.stop = stop at hmove ⊢
    cases hmove with
    | stay => exact h.notified
    | clear hstop | notifyAll hstop => cases hstop.symm.trans h.notified
    | join hstop hexited => cases (hexited w).symm.trans hw
  · have hphase := hstep.worker w
    rw [hw] at hphase
    generalize hnew : t.workers w = phase at hphase
    cases hphase with
    | stay => rfl
    | woken hwakes =>
        cases event with
        | notifyAll =>
            cases hstep with
            | notifyAll hstop => cases hstop.symm.trans h.notified
        | wake v | insert p task signalled => cases hsilent
        | _ => cases hwakes

/-- `stop` waits forever for a worker that was missed. -/
theorem Missed.forever (h : Missed s) {later : List (PoolEvent ι π α)}
    (hrun : Run ((poolSystem ι π α maxQueueSize).startingAt s) (fun _ event => event.Silent)
      later t) : Missed t := by
  refine Run.invariant Missed ?_ (fun _ _ _ hs hsilent hstep => hs.step hstep hsilent) hrun
  rintro _ rfl
  exact h

/-- A worker finds the queue empty, `stop` clears the flag and notifies, the worker goes to
sleep, and without a wake-up from nowhere `stop` never returns. -/
theorem worker_missed :
    ∃ s : PoolState Unit Empty Unit,
      Run (poolSystem Unit Empty Unit 1) (fun _ _ => True)
        [.init () false, .testRunning (), .evaluate (), .clear, .notifyAll, .block ()] s ∧
      Missed s ∧ ∀ later t, Run ((poolSystem Unit Empty Unit 1).startingAt s)
        (fun _ event => event.Silent) later t → t.stop = .notified := by
  have hnotified := (run_blocking.next trivial (PoolStep.clear rfl)).next trivial
    (PoolStep.notifyAll rfl)
  have hmissed := hnotified.next trivial (PoolStep.block (w := ()) rfl)
  refine ⟨_, hmissed, ⟨rfl, rfl, (), rfl⟩, ?_⟩
  intro later t hlater
  exact (Missed.forever ⟨rfl, rfl, (), rfl⟩ hlater).notified

end AdServer.Executor
