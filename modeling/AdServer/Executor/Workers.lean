import AdServer.Executor.Pool

/-!
The workers and exceptions. The handler of `threadpool_thread_run` stands outside its loop,
so a task that throws ends its worker. Before `stop` a worker ends in no other way, and as
long as none has ended, a queued task is never left with sleeping workers only.
-/
namespace AdServer.Executor

open Transition

universe u

variable {ι π : Type} {α : Type u}

/-- A step of the worker that neither throws nor needs a signal. -/
def PoolEvent.OwnStep (w : ι) : PoolEvent ι π α → Prop
  | .init v thrown => v = w ∧ thrown = false
  | .testRunning v => v = w
  | .take v _ _ => v = w
  | .finish v thrown => v = w ∧ thrown = false
  | _ => False

/-- The worker will come to `take` without being woken. -/
def WorkerPhase.Active : WorkerPhase α → Prop
  | .starting | .looping | .locking | .executing _ _ => True
  | .blocking | .waiting | .exited => False

variable {s t : PoolState ι π α} {event : PoolEvent ι π α}

theorem WorkerMove.to_exited {w : ι} {old : WorkerPhase α}
    (h : WorkerMove s w event old .exited) :
    old = .exited ∨ s.running = false ∨ event.Throws := by
  generalize hnew : WorkerPhase.exited = new at h
  cases h with
  | stay => exact .inl rfl
  | leave hrunning => exact .inr (.inl hrunning)
  | initThrown | thrown => exact .inr (.inr rfl)
  | @take task => cases task <;> cases hnew
  | _ => cases hnew

/-- A worker stops being active only over an empty queue, after `stop` or by an exception. -/
theorem WorkerMove.active {w : ι} {old new : WorkerPhase α} (h : WorkerMove s w event old new)
    (hold : old.Active) (hqueue : s.queue ≠ []) (hrunning : s.running = true)
    (hthrows : ¬ event.Throws) : new.Active := by
  cases h with
  | stay => exact hold
  | evaluate hempty _ => exact absurd hempty hqueue
  | leave hstopped => cases hrunning.symm.trans hstopped
  | initThrown | thrown => exact absurd rfl hthrows
  | block | woken hwakes => cases hold
  | @take task => cases task <;> trivial
  | _ => trivial

theorem exists_signal (maxQueueSize : Nat) (s : PoolState ι π α) :
    ∃ signalled, s.SignalsProducer maxQueueSize signalled := by
  by_cases hwaits : 0 < maxQueueSize ∧ ∃ p task, s.producers p = .waiting task
  · obtain ⟨hmax, p, task, hp⟩ := hwaits
    exact ⟨some p, hmax, task, hp⟩
  · exact ⟨none, fun hmax p task hp => hwaits ⟨hmax, p, task, hp⟩⟩

theorem mutexFree_setWorker [DecidableEq ι] (hfree : s.MutexFree) (w : ι)
    {phase : WorkerPhase α} (hphase : phase ≠ .blocking) : (s.setWorker w phase).MutexFree := by
  intro v hv
  rw [PoolState.workers_setWorker] at hv
  split at hv
  · exact hphase hv
  · exact hfree v hv

variable [DecidableEq ι] [DecidableEq π] {maxQueueSize : Nat}

/-- By steps of its own the worker takes the head of the queue. -/
def Takes (maxQueueSize : Nat) (s : PoolState ι π α) (w : ι) : Prop :=
  ∃ events t, Run ((poolSystem ι π α maxQueueSize).startingAt s) (fun _ event => event.OwnStep w)
    events t ∧ t.ledger = s.ledger.remove w

/-- Until `stop` is called no worker has ended, and a worker can take what is queued. -/
structure Staffed (maxQueueSize : Nat) (s : PoolState ι π α) : Prop where
  alive : s.stop = .notCalled → ∀ w, s.workers w ≠ .exited
  takeable : s.stop = .notCalled → Nonempty ι → s.queue ≠ [] → ∃ w, Takes maxQueueSize s w

/-- No task and no init callback throws before `stop` is called. -/
def ThrowFree (s : PoolState ι π α) (event : PoolEvent ι π α) : Prop :=
  s.stop = .notCalled → ¬ event.Throws

/-- The mutex is held over an empty queue only, and a queued task has somebody who comes
for it. -/
structure Attended (s : PoolState ι π α) : Prop where
  running : s.running = true ↔ s.stop = .notCalled
  held : ∀ w, s.workers w = .blocking → s.queue = []
  attended : s.stop = .notCalled → Nonempty ι → s.queue ≠ [] → ∃ w, (s.workers w).Active

/-! ### Taking what is queued -/

theorem Takes.step {w : ι} (hstep : PoolStep maxQueueSize s event t) (hown : event.OwnStep w)
    (hledger : t.ledger = s.ledger) (h : Takes maxQueueSize t w) : Takes maxQueueSize s w := by
  obtain ⟨events, u, hrun, hu⟩ := h
  exact ⟨event :: events, u, hrun.prepend hown hstep, hu.trans (by rw [hledger])⟩

theorem takes_of_locking {w : ι} (hw : s.workers w = .locking) (hfree : s.MutexFree)
    (hqueue : s.queue ≠ []) : Takes maxQueueSize s w := by
  obtain ⟨task, rest, hcons⟩ := List.exists_cons_of_ne_nil hqueue
  obtain ⟨signalled, hsignal⟩ := exists_signal maxQueueSize s
  have hstart : Run ((poolSystem ι π α maxQueueSize).startingAt s)
      (fun _ event => event.OwnStep w) [] s := .start rfl
  have hown : (PoolEvent.take w task signalled : PoolEvent ι π α).OwnStep w := rfl
  refine ⟨_, _, hstart.next hown (PoolStep.take hw hfree hcons hsignal), ?_⟩
  rw [PoolState.wakeProducer_frame]
  rfl

theorem takes_of_looping {w : ι} (hw : s.workers w = .looping) (hrunning : s.running = true)
    (hfree : s.MutexFree) (hqueue : s.queue ≠ []) : Takes maxQueueSize s w := by
  refine Takes.step (PoolStep.goOn hw hrunning) rfl rfl ?_
  refine takes_of_locking ?_ (mutexFree_setWorker hfree w nofun) hqueue
  rw [PoolState.workers_setWorker, if_pos rfl]

theorem takes_of_active {w : ι} (hw : (s.workers w).Active) (hrunning : s.running = true)
    (hfree : s.MutexFree) (hqueue : s.queue ≠ []) : Takes maxQueueSize s w := by
  have hlooping : ((s.setWorker w .looping).workers w) = .looping := by
    rw [PoolState.workers_setWorker, if_pos rfl]
  cases hphase : s.workers w with
  | locking => exact takes_of_locking hphase hfree hqueue
  | looping => exact takes_of_looping hphase hrunning hfree hqueue
  | starting =>
      refine Takes.step (PoolStep.initOk hphase) ⟨rfl, rfl⟩ rfl ?_
      exact takes_of_looping hlooping hrunning (mutexFree_setWorker hfree w nofun) hqueue
  | executing position task =>
      refine Takes.step (PoolStep.finished hphase) ⟨rfl, rfl⟩ rfl ?_
      exact takes_of_looping hlooping hrunning (mutexFree_setWorker hfree w nofun) hqueue
  | blocking | waiting | exited =>
      rw [hphase] at hw
      cases hw

theorem Attended.takeable (h : Attended s) (hstop : s.stop = .notCalled) (hsome : Nonempty ι)
    (hqueue : s.queue ≠ []) : ∃ w, Takes maxQueueSize s w := by
  obtain ⟨w, hw⟩ := h.attended hstop hsome hqueue
  exact ⟨w, takes_of_active hw (h.running.mpr hstop) (fun v hv => hqueue (h.held v hv)) hqueue⟩

/-! ### What a step keeps -/

theorem PoolStep.notCalled (h : PoolStep maxQueueSize s event t) (hstop : t.stop = .notCalled) :
    s.stop = .notCalled := by
  have hmove := h.control
  generalize t.running = running, t.stop = stop at hmove hstop
  cases hmove with
  | stay => exact hstop
  | clear hstop' | notifyAll hstop' | join hstop' hexited => cases hstop

theorem PoolStep.alive (h : PoolStep maxQueueSize s event t) (hrunning : s.running = true)
    (hthrows : ¬ event.Throws) (hs : ∀ w, s.workers w ≠ .exited) : ∀ w, t.workers w ≠ .exited := by
  intro w hw
  rcases (hw ▸ h.worker w).to_exited with hold | hstopped | hthrown
  · exact hs w hold
  · cases hrunning.symm.trans hstopped
  · exact hthrows hthrown

theorem Attended.held_step (h : Attended s) (hstep : PoolStep maxQueueSize s event t) (w : ι)
    (hw : t.workers w = .blocking) : t.queue = [] := by
  have hledger := hstep.ledger
  unfold PoolState.queue
  generalize t.ledger = ledger at hledger ⊢
  cases (hw ▸ hstep.worker w).to_blocking with
  | inl hold =>
      cases hledger with
      | stay => exact h.held w hold
      | insert task hp hfree hroom => exact absurd hold (hfree w)
      | take hqueue => cases hqueue.symm.trans (h.held w hold)
  | inr hevaluated =>
      obtain ⟨rfl, hqueue, -⟩ := hevaluated
      cases hledger with
      | stay => exact hqueue

/-- The worker that a producer signals comes for the task, and if none sleeps, any does. -/
theorem Attended.insert {p : π} {task : Option α} {signalled : Option ι}
    (hstep : PoolStep maxQueueSize s (.insert p task signalled) t) (hsome : Nonempty ι)
    (halive : ∀ w, s.workers w ≠ .exited) : ∃ w, (t.workers w).Active := by
  cases hstep with
  | insert hp hfree hroom hsignal =>
      cases signalled with
      | some w =>
          refine ⟨w, ?_⟩
          rw [PoolState.wakeWorker, PoolState.workers_setWorker, if_pos rfl]
          trivial
      | none =>
          obtain ⟨w⟩ := hsome
          refine ⟨w, ?_⟩
          have hw : (s.workers w).Active := by
            cases hphase : s.workers w with
            | blocking => exact absurd hphase (hfree w)
            | waiting => exact absurd hphase (hsignal w)
            | exited => exact absurd hphase (halive w)
            | starting | looping | locking | executing _ _ => trivial
          exact hw

theorem Attended.step (h : Attended s) (hstaffed : Staffed maxQueueSize s)
    (hguard : ThrowFree s event) (hstep : PoolStep maxQueueSize s event t) : Attended t := by
  refine ⟨hstep.running_iff h.running, h.held_step hstep, ?_⟩
  intro hstop hsome hqueue
  have hbefore := hstep.notCalled hstop
  by_cases hempty : s.queue = []
  · have hledger := hstep.ledger
    unfold PoolState.queue at hqueue
    generalize t.ledger = ledger at hledger hqueue
    cases hledger with
    | stay => exact absurd hempty hqueue
    | insert task hp hfree hroom => exact Attended.insert hstep hsome (hstaffed.alive hbefore)
    | take hcons => cases hcons.symm.trans hempty
  · obtain ⟨w, hw⟩ := h.attended hbefore hsome hempty
    exact ⟨w, (hstep.worker w).active hw hempty (h.running.mpr hbefore) (hguard hbefore)⟩

theorem Attended.staffed_iff (h : Attended s) (hstaffed : Staffed maxQueueSize s)
    (hstep : PoolStep maxQueueSize s event t) :
    Staffed maxQueueSize t ↔ ThrowFree s event := by
  refine ⟨?_, ?_⟩
  · intro hnext hstop hthrows
    cases hstep with
    | @initThrown w hw | @thrown w position task hw =>
        refine hnext.alive hstop w ?_
        rw [PoolState.workers_setWorker, if_pos rfl]
    | initOk hw | finished hw => cases hthrows
    | _ => exact hthrows
  · intro hguard
    have hattended := h.step hstaffed hguard hstep
    refine ⟨?_, fun hstop hsome hqueue => hattended.takeable hstop hsome hqueue⟩
    intro hstop
    have hbefore := hstep.notCalled hstop
    exact hstep.alive (h.running.mpr hbefore) (hguard hbefore) (hstaffed.alive hbefore)

/-- The runs in which the pool keeps all its workers until `stop`, so that a queued task
can be taken, are those in which nothing throws before. -/
theorem staffed_run_iff (maxQueueSize : Nat) (events : List (PoolEvent ι π α))
    (s : PoolState ι π α) :
    Throughout (poolSystem ι π α maxQueueSize) (Staffed maxQueueSize) events s ↔
      Run (poolSystem ι π α maxQueueSize) ThrowFree events s := by
  refine throughout_iff Attended (Staffed maxQueueSize) ?_ ?_ ?_ events s
  · rintro s rfl
    refine ⟨⟨iff_of_true rfl rfl, nofun, ?_⟩, fun _ _ => nofun, ?_⟩
    · intro _ _ hqueue
      exact absurd rfl hqueue
    · intro _ _ hqueue
      exact absurd rfl hqueue
  · intro s event t h hstaffed hstep
    exact h.staffed_iff hstaffed hstep
  · intro s event t h hstaffed hguard hstep
    exact h.step hstaffed hguard hstep

theorem PoolStep.taken_of_exited (h : PoolStep maxQueueSize s event t)
    (hexited : ∀ w, s.workers w = .exited) : t.ledger.taken = s.ledger.taken := by
  have hledger := h.ledger
  generalize hnew : t.ledger = ledger at hledger ⊢
  cases hledger with
  | stay => rfl
  | insert task hp hfree hroom => rfl
  | @take w _ _ _ hqueue =>
      cases h with
      | take hw hfree hcons hsignal => cases (hexited w).symm.trans hw

theorem none_taken_of_exited (hexited : ∀ w, s.workers w = .exited)
    {later : List (PoolEvent ι π α)}
    (hrun : Run ((poolSystem ι π α maxQueueSize).startingAt s) (fun _ _ => True) later t) :
    t.ledger.taken = s.ledger.taken := by
  have hboth : (∀ w, t.workers w = .exited) ∧ t.ledger.taken = s.ledger.taken := by
    refine Run.invariant (fun t => (∀ w, t.workers w = .exited) ∧
      t.ledger.taken = s.ledger.taken) ?_ ?_ hrun
    · rintro _ rfl
      exact ⟨hexited, rfl⟩
    · intro u event v h _ hstep
      exact ⟨fun w => hstep.exited (h.1 w), (hstep.taken_of_exited h.1).trans h.2⟩
  exact hboth.2

/-- The only worker ends with the first task, and the second one is never taken. -/
theorem throwing_task_shrinks :
    ∃ s : PoolState Unit Unit Unit,
      Run (poolSystem Unit Unit Unit 1) (fun _ _ => True)
        [.init () false, .call () (some ()), .insert () (some ()) none, .testRunning (),
          .take () (some ()) none, .call () (some ()), .insert () (some ()) none,
          .finish () true] s ∧
      s.stop = .notCalled ∧ s.queue = [some ()] ∧ ¬ Staffed 1 s ∧
      ∀ later t, Run ((poolSystem Unit Unit Unit 1).startingAt s) (fun _ _ => True) later t →
        t.ledger.taken.length = 1 := by
  have hagain : Run (poolSystem Unit Unit Unit 1) (fun _ _ => True)
      [.init () false, .call () (some ()), .insert () (some ()) none, .testRunning (),
        .take () (some ()) none, .call () (some ())] _ :=
    run_occupied.next trivial (PoolStep.call rfl)
  have hqueued : Run (poolSystem Unit Unit Unit 1) (fun _ _ => True)
      [.init () false, .call () (some ()), .insert () (some ()) none, .testRunning (),
        .take () (some ()) none, .call () (some ()), .insert () (some ()) none] _ :=
    hagain.next trivial (PoolStep.insert rfl nofun (fun hfull => absurd hfull.2 (by decide)) nofun)
  have hthrown := hqueued.next trivial (PoolStep.thrown (w := ()) rfl)
  refine ⟨_, hthrown, rfl, rfl, fun hstaffed => hstaffed.alive rfl () rfl, ?_⟩
  intro later t hlater
  rw [none_taken_of_exited (fun _ => rfl) hlater]
  rfl

end AdServer.Executor
