import Mathlib.Data.List.Induction
import Mathlib.Data.List.Nodup
import AdServer.Executor.Pool

/-!
The queue discipline of the pool. The queue is bounded, tasks are taken in the order of
their insertion, each by one worker, and each callable task that was taken is executed once,
also if it is still running when `pendingTasks` returns 0. An empty `std::function` is taken
and dropped. A producer that is inside of `run` when `pendingTasks` returns 0 may insert its
task after the last worker has left, and then the task is not executed.
-/
namespace AdServer.Executor

open Transition

universe u

variable {ι π : Type} {α : Type u}

/-- A producer that has called `run` and not yet inserted its task. -/
def InRun (p : π) (events : List (PoolEvent ι π α)) : Prop :=
  ∃ early task late, events = early ++ .call p task :: late ∧
    ∀ inserted signalled, .insert p inserted signalled ∉ late

/-- `stop` is called only after `pendingTasks` returned 0, with no `run` in progress and no
later one. -/
def DrainedStop (events : List (PoolEvent ι π α)) : Prop :=
  .clear ∈ events → ∃ early late, events = early ++ .pendingTasks 0 :: late ∧ .clear ∈ late ∧
    (∀ p, ¬InRun p early) ∧ ∀ p task, .call p task ∉ late

/-- The queue is bounded and in order, and each task is queued or was taken by one worker. -/
structure QueueDiscipline (maxQueueSize : Nat) (events : List (PoolEvent ι π α))
    (s : PoolState ι π α) : Prop where
  bounded : s.queue.length ≤ maxQueueSize
  inserted : s.ledger.inserted = events.filterMap PoolEvent.inserted
  taken : s.ledger.taken = events.filterMap PoolEvent.taken
  ordered : s.ledger.taken.map Prod.snd ++ s.queue = s.ledger.inserted
  custody : ∀ position task, s.ledger.inserted[position]? = some task →
    (position < s.ledger.taken.length ∧ ∃! w, s.ledger.taken[position]? = some (w, task)) ∨
    (s.ledger.taken.length ≤ position ∧
      s.queue[position - s.ledger.taken.length]? = some task)

/-- Every inserted callable task was executed once, and nothing else was. -/
structure ExecutedOnce (s : PoolState ι π α) : Prop where
  once : ∀ position task, s.ledger.inserted[position]? = some (some task) →
    s.executed.count position = 1
  only : ∀ position ∈ s.executed, ∃ task, s.ledger.inserted[position]? = some (some task)

/-- What was taken is being executed by the one who took it or has been executed. -/
structure Executions (s : PoolState ι π α) : Prop where
  working : ∀ w position task, s.workers w = .executing position task →
    s.ledger.taken[position]? = some (w, some task)
  settled : ∀ position w task, s.ledger.taken[position]? = some (w, some task) →
    s.workers w = .executing position task ∨ position ∈ s.executed
  ended : ∀ position ∈ s.executed, ∃ w task, s.ledger.taken[position]? = some (w, some task) ∧
    s.workers w ≠ .executing position task
  once : s.executed.Nodup

variable {s t : PoolState ι π α} {event : PoolEvent ι π α}

/-! ### The executions -/

namespace Executions

theorem start : Executions (PoolState.start : PoolState ι π α) :=
  ⟨nofun, nofun, nofun, List.nodup_nil⟩

theorem congr (h : Executions s)
    (hworkers : ∀ w position task, t.workers w = .executing position task ↔
      s.workers w = .executing position task)
    (htaken : t.ledger.taken = s.ledger.taken) (hexecuted : t.executed = s.executed) :
    Executions t := by
  refine ⟨?_, ?_, ?_, hexecuted ▸ h.once⟩
  · intro w position task hw
    rw [htaken]
    exact h.working w position task ((hworkers w position task).mp hw)
  · intro position w task hget
    rw [htaken] at hget
    rw [hworkers, hexecuted]
    exact h.settled position w task hget
  · intro position hmem
    rw [hexecuted] at hmem
    obtain ⟨w, task, hget, hw⟩ := h.ended position hmem
    refine ⟨w, task, htaken ▸ hget, ?_⟩
    rwa [Ne, hworkers]

/-- Where everything inserted was taken and every worker has ended, everything was executed. -/
theorem executedOnce (h : Executions s) (hqueue : s.queue = [])
    (hexited : ∀ w, s.workers w = .exited) : ExecutedOnce s := by
  have hinserted := s.ledger.taken_of_empty hqueue
  refine ⟨?_, ?_⟩
  · intro position task hget
    rw [← hinserted, List.getElem?_map, Option.map_eq_some_iff] at hget
    obtain ⟨⟨w, task'⟩, htaken, rfl⟩ := hget
    cases h.settled position w task htaken with
    | inl hworking => cases (hexited w).symm.trans hworking
    | inr hmem => exact List.count_eq_one_of_mem h.once hmem
  · intro position hmem
    obtain ⟨w, task, htaken, -⟩ := h.ended position hmem
    refine ⟨task, ?_⟩
    rw [← hinserted, List.getElem?_map, htaken]
    rfl

theorem take [DecidableEq ι] (h : Executions s) {w : ι} {task : Option α} {rest : List (Option α)}
    (hw : s.workers w = .locking) (hqueue : s.queue = task :: rest) :
    Executions ({ s with ledger := s.ledger.remove w }.setWorker w
      (.next s.ledger.taken.length task)) := by
  have htaken := @Fifo.Ledger.getElem?_taken_remove _ _ s.ledger task rest hqueue w
  refine ⟨?_, ?_, ?_, h.once⟩
  · intro v position task' hv
    refine htaken.mpr ?_
    rw [PoolState.workers_setWorker] at hv
    split at hv
    · rename_i heq
      cases task with
      | none => cases hv
      | some a =>
          cases hv
          exact .inr ⟨rfl, by rw [heq]⟩
    · exact .inl (h.working v position task' hv)
  · intro position v task' hget
    rw [PoolState.workers_setWorker]
    cases htaken.mp hget with
    | inl hold =>
        cases h.settled position v task' hold with
        | inr hmem => exact .inr hmem
        | inl hworking =>
            have hne : v ≠ w := by
              rintro rfl
              cases hw.symm.trans hworking
            rw [if_neg hne]
            exact .inl hworking
    | inr hlast =>
        obtain ⟨rfl, hentry⟩ := hlast
        cases hentry
        rw [if_pos rfl]
        exact .inl rfl
  · intro position hmem
    obtain ⟨v, task', hget, hv⟩ := h.ended position hmem
    refine ⟨v, task', htaken.mpr (.inl hget), ?_⟩
    rw [PoolState.workers_setWorker]
    split
    · cases task with
      | none => exact nofun
      | some a =>
          -- the position of the new task lies behind all earlier ones
          rintro ⟨⟩
          rw [List.getElem?_eq_none (Nat.le_refl _)] at hget
          cases hget
    · exact hv

theorem finish [DecidableEq ι] (h : Executions s) {w : ι} {position : Nat} {task : α}
    (hw : s.workers w = .executing position task) :
    Executions ({ s with executed := s.executed ++ [position] }.setWorker w .looping) := by
  have htaken := h.working w position task hw
  have hnew : position ∉ s.executed := by
    intro hmem
    obtain ⟨v, task', hget, hv⟩ := h.ended position hmem
    cases htaken.symm.trans hget
    exact hv hw
  refine ⟨?_, ?_, ?_, ?_⟩
  · intro v position' task' hv
    rw [PoolState.workers_setWorker] at hv
    split at hv
    · cases hv
    · exact h.working v position' task' hv
  · intro position' v task' hget
    rw [PoolState.workers_setWorker]
    cases h.settled position' v task' hget with
    | inr hmem => exact .inr (List.mem_append_left _ hmem)
    | inl hworking =>
        split
        · rename_i heq
          subst heq
          cases hw.symm.trans hworking
          exact .inr (List.mem_append_right _ (List.mem_singleton.mpr rfl))
        · exact .inl hworking
  · intro position' hmem
    cases List.mem_append.mp hmem with
    | inl hold =>
        obtain ⟨v, task', hget, hv⟩ := h.ended position' hold
        refine ⟨v, task', hget, ?_⟩
        rw [PoolState.workers_setWorker]
        split
        · exact nofun
        · exact hv
    | inr hlast =>
        rw [List.mem_singleton] at hlast
        subst hlast
        refine ⟨w, task, htaken, ?_⟩
        rw [PoolState.workers_setWorker, if_pos rfl]
        exact nofun
  · exact List.nodup_append.mpr ⟨h.once, List.nodup_singleton position, by
      rintro old hmem _ hlast rfl
      rw [List.mem_singleton] at hlast
      exact hnew (hlast ▸ hmem)⟩

end Executions

/-- Only `take` and the end of a task change who executes what. -/
theorem WorkerMove.executing_iff {w : ι} {old new : WorkerPhase α}
    (h : WorkerMove s w event old new) (htake : event.taken = none)
    (hfinish : ∀ v thrown, event ≠ .finish v thrown) (position : Nat) (task : α) :
    new = .executing position task ↔ old = .executing position task := by
  cases h with
  | stay => exact Iff.rfl
  | take hqueue => cases htake
  | finished | thrown => exact absurd rfl (hfinish _ _)
  | _ => exact iff_of_false nofun nofun

variable [DecidableEq ι] [DecidableEq π] {maxQueueSize : Nat}

theorem Executions.step (h : Executions s) (hthrows : ∀ w, event ≠ .finish w true)
    (hstep : PoolStep maxQueueSize s event t) : Executions t := by
  have hworker := hstep.worker
  cases hstep with
  | take hw hfree hqueue hsignal =>
      rw [PoolState.wakeProducer_frame]
      exact (h.take hw hqueue).congr (fun _ _ _ => Iff.rfl) rfl rfl
  | insert hp hfree hroom hsignal =>
      refine h.congr (fun w => (hworker w).executing_iff rfl nofun) ?_ ?_
      · rw [PoolState.wakeWorker_frame]
        rfl
      · rw [PoolState.wakeWorker_frame]
        rfl
  | finished hw => exact h.finish hw
  | thrown hw => exact absurd rfl (hthrows _)
  | _ => exact h.congr (fun w => (hworker w).executing_iff rfl nofun) rfl rfl

/-! ### The bound -/

theorem PoolStep.bounded (h : PoolStep maxQueueSize s event t) (hmax : 0 < maxQueueSize)
    (hs : s.queue.length ≤ maxQueueSize) : t.queue.length ≤ maxQueueSize := by
  have hledger := h.ledger
  unfold PoolState.queue
  generalize t.ledger = ledger at hledger ⊢
  cases hledger with
  | stay _ _ => exact hs
  | insert task hp hfree hroom =>
      have hlt : s.queue.length < maxQueueSize := by
        by_contra hge
        exact hroom ⟨hmax, Nat.le_of_not_lt hge⟩
      rw [Fifo.Ledger.insert, List.length_append, List.length_singleton]
      exact hlt
  | take hqueue =>
      rw [hqueue, List.length_cons] at hs
      rw [Fifo.Ledger.queue_remove hqueue]
      omega

/-! ### The books -/

/-- The books have exactly what was inserted and taken, in this order. -/
theorem books_of_run {events : List (PoolEvent ι π α)}
    (hrun : Run (poolSystem ι π α maxQueueSize) (fun _ _ => True) events s) :
    s.ledger.inserted = events.filterMap PoolEvent.inserted ∧
      s.ledger.taken = events.filterMap PoolEvent.taken := by
  refine Run.history_invariant (fun events s =>
    s.ledger.inserted = events.filterMap PoolEvent.inserted ∧
      s.ledger.taken = events.filterMap PoolEvent.taken) ?_ ?_ hrun
  · rintro s rfl
    exact ⟨rfl, rfl⟩
  · intro events s event t ih _ hstep
    have hledger := hstep.ledger
    rw [List.filterMap_append, List.filterMap_append, ← ih.1, ← ih.2]
    generalize t.ledger = ledger at hledger ⊢
    cases hledger with
    | stay hinserted htaken =>
        rw [List.filterMap_cons_none hinserted, List.filterMap_cons_none htaken]
        exact ⟨(List.append_nil _).symm, (List.append_nil _).symm⟩
    | insert task hp hfree hroom => exact ⟨rfl, (List.append_nil _).symm⟩
    | take hqueue =>
        rw [Fifo.Ledger.inserted_remove, Fifo.Ledger.taken_remove hqueue]
        exact ⟨(List.append_nil _).symm, rfl⟩

/-! ### The end of `stop` -/

/-- A producer that is not in `run` gets there by a call only. -/
theorem PoolStep.stays_idle (h : PoolStep maxQueueSize s event t) {p : π}
    (hidle : s.producers p = .idle) (hcall : ∀ task, event ≠ .call p task) :
    t.producers p = .idle := by
  have hother : ∀ {q : π} {phase : ProducerPhase α}, s.producers q ≠ .idle →
      (s.setProducer q phase).producers p = .idle := by
    intro q phase hq
    have hne : p ≠ q := by
      rintro rfl
      exact hq hidle
    exact (Function.update_of_ne hne _ _).trans hidle
  cases h with
  | @call q task hq =>
      have hne : p ≠ q := by
        rintro rfl
        exact hcall task rfl
      exact (Function.update_of_ne hne _ _).trans hidle
  | insert hq hfree hroom hsignal =>
      rw [PoolState.wakeWorker_frame]
      exact hother (by rw [hq]; exact nofun)
  | full hq hfree hfull => exact hother (by rw [hq]; exact nofun)
  | wakeProducer hq => exact hother (by rw [hq]; exact nofun)
  | @take w task rest signalled hw hfree hqueue hsignal =>
      cases signalled with
      | none => exact hidle
      | some q =>
          obtain ⟨-, waiting, hq⟩ := hsignal
          exact hother (by rw [hq]; exact nofun)
  | _ => exact hidle

/-- A producer is in `run` after a step if it has just called it or was in it before and has not
inserted its task. -/
theorem PoolStep.producer (h : PoolStep maxQueueSize s event t) {p : π}
    (hp : t.producers p ≠ .idle) :
    (∃ task, event = .call p task) ∨
      (s.producers p ≠ .idle ∧ ∀ task signalled, event ≠ .insert p task signalled) := by
  by_cases hcall : ∃ task, event = .call p task
  · exact .inl hcall
  · refine .inr ⟨fun hidle => hp (h.stays_idle hidle (not_exists.mp hcall)), ?_⟩
    rintro task signalled rfl
    cases h with
    | insert hq hfree hroom hsignal =>
        rw [PoolState.wakeWorker_frame] at hp
        exact hp (Function.update_self ..)

/-- A producer that is not idle is in `run`. -/
theorem inRun_of_run {events : List (PoolEvent ι π α)}
    (hrun : Run (poolSystem ι π α maxQueueSize) (fun _ _ => True) events s) :
    ∀ p, s.producers p ≠ .idle → InRun p events := by
  refine Run.history_invariant (fun events s => ∀ p, s.producers p ≠ .idle → InRun p events) ?_ ?_
    hrun
  · rintro s rfl p hp
    exact absurd rfl hp
  · intro events s event t ih _ hstep p hp
    rcases hstep.producer hp with ⟨task, rfl⟩ | ⟨hbefore, hinsert⟩
    · exact ⟨events, task, [], rfl, fun _ _ => List.not_mem_nil⟩
    · obtain ⟨early, task, late, rfl, hlate⟩ := ih p hbefore
      refine ⟨early, task, late ++ [event], by rw [List.append_assoc, List.cons_append], ?_⟩
      intro inserted signalled hmem
      rcases List.mem_append.mp hmem with hold | hlast
      · exact hlate inserted signalled hold
      · exact hinsert inserted signalled (List.mem_singleton.mp hlast).symm

/-- Without a task in the queue and a producer in `run`, only a call changes this. -/
theorem PoolStep.drained (h : PoolStep maxQueueSize s event t)
    (hcall : ∀ p task, event ≠ .call p task) (hqueue : s.queue = [])
    (hidle : ∀ p, s.producers p = .idle) : t.queue = [] ∧ ∀ p, t.producers p = .idle := by
  refine ⟨?_, fun p => h.stays_idle (hidle p) (hcall p)⟩
  have hledger := h.ledger
  unfold PoolState.queue
  generalize t.ledger = ledger at hledger ⊢
  cases hledger with
  | stay _ _ => exact hqueue
  | insert task hp hfree hroom => cases (hidle _).symm.trans hp
  | take hcons => cases hcons.symm.trans hqueue

/-- If `pendingTasks` returned 0 with no `run` in progress and none was called since, the queue is
empty. -/
theorem drained_of_run {events : List (PoolEvent ι π α)}
    (hrun : Run (poolSystem ι π α maxQueueSize) (fun _ _ => True) events s) :
    ∀ early late, events = early ++ .pendingTasks 0 :: late → (∀ p, ¬InRun p early) →
      (∀ p task, .call p task ∉ late) → s.queue = [] ∧ ∀ p, s.producers p = .idle := by
  induction hrun with
  | start hinit =>
      intro early late hevents
      exact absurd hevents (by simp)
  | @next events s t event hbefore _ hstep ih =>
      intro early late hevents hidle hlate
      cases late using List.reverseRecOn with
      | nil =>
          obtain ⟨rfl, hlast⟩ := List.append_inj' hevents rfl
          cases hlast
          cases hstep with
          | pendingTasks hfree hremain =>
              refine ⟨List.length_eq_zero_iff.mp hremain.symm, fun p => ?_⟩
              by_contra hp
              exact hidle p (inRun_of_run hbefore p hp)
      | append_singleton late last =>
          rw [← List.cons_append, ← List.append_assoc] at hevents
          obtain ⟨hfront, hlast⟩ := List.append_inj' hevents rfl
          cases hlast
          obtain ⟨hqueue, hproducers⟩ := ih early late hfront hidle fun p task hmem =>
            hlate p task (List.mem_append_left _ hmem)
          refine hstep.drained ?_ hqueue hproducers
          rintro p task rfl
          exact hlate p task (List.mem_append_right _ (List.mem_singleton.mpr rfl))

theorem clear_mem_of_run {events : List (PoolEvent ι π α)}
    (hrun : Run (poolSystem ι π α maxQueueSize) (fun _ _ => True) events s) :
    s.stop ≠ .notCalled → .clear ∈ events := by
  refine Run.history_invariant (fun events s => s.stop ≠ .notCalled → .clear ∈ events) ?_ ?_ hrun
  · rintro s rfl hstop
    exact absurd rfl hstop
  · intro events s event t ih _ hstep hstop
    have hmove := hstep.control
    generalize t.running = running, t.stop = stop at hmove hstop
    cases hmove with
    | stay => exact List.mem_append_left _ (ih hstop)
    | clear _ => exact List.mem_append_right _ (List.mem_singleton.mpr rfl)
    | notifyAll hbefore | join hbefore _ =>
        refine List.mem_append_left _ (ih ?_)
        rw [hbefore]
        exact nofun

theorem exited_of_run {events : List (PoolEvent ι π α)}
    (hrun : Run (poolSystem ι π α maxQueueSize) (fun _ _ => True) events s) :
    s.stop = .returned → ∀ w, s.workers w = .exited := by
  refine Run.invariant (fun s => s.stop = .returned → ∀ w, s.workers w = .exited) ?_ ?_ hrun
  · rintro s rfl hstop
    cases hstop
  · intro s event t ih _ hstep hstop w
    refine hstep.exited ?_
    have hmove := hstep.control
    generalize t.running = running, t.stop = stop at hmove hstop
    cases hmove with
    | stay => exact ih hstop w
    | clear _ | notifyAll _ => cases hstop
    | join _ hexited => exact hexited w

/-- The queue discipline of the pool, and that a `stop` after the queue was seen empty returns
with every task executed. -/
theorem pool_discipline (maxQueueSize : Nat) (hmax : 0 < maxQueueSize)
    (events : List (PoolEvent ι π α)) (s : PoolState ι π α)
    (hrun : Run (poolSystem ι π α maxQueueSize) (fun _ _ => True) events s) :
    QueueDiscipline maxQueueSize events s ∧
      ((∀ w, .finish w true ∉ events) → DrainedStop events → s.stop = .returned →
        ExecutedOnce s) := by
  obtain ⟨hinserted, htaken⟩ := books_of_run hrun
  refine ⟨⟨?_, hinserted, htaken, s.ledger.accounted, fun _ _ => s.ledger.custody⟩, ?_⟩
  · refine Run.invariant (fun s => s.queue.length ≤ maxQueueSize) ?_ ?_ hrun
    · rintro s rfl
      exact Nat.zero_le _
    · intro s event t h _ hstep
      exact hstep.bounded hmax h
  · intro hthrows hdrained hstop
    have hexecutions : Executions s := by
      refine Run.history_invariant (fun events s => (∀ w, .finish w true ∉ events) →
        Executions s) ?_ ?_ hrun hthrows
      · rintro s rfl _
        exact Executions.start
      · intro events s event t ih _ hstep hnone
        have hbefore : Executions s := ih fun w hmem => hnone w (List.mem_append_left _ hmem)
        refine hbefore.step ?_ hstep
        rintro w rfl
        exact hnone w (List.mem_append_right _ (List.mem_singleton.mpr rfl))
    have hclear := clear_mem_of_run hrun (by rw [hstop]; exact nofun)
    obtain ⟨early, late, hevents, -, hidle, hlate⟩ := hdrained hclear
    exact hexecutions.executedOnce (drained_of_run hrun early late hevents hidle hlate).1
      (exited_of_run hrun hstop)

/-- The task is still running when the queue is seen empty and `stop` is called. -/
theorem pool_discipline_sample :
    ∃ (events : List (PoolEvent Unit Unit Unit)) (s : PoolState Unit Unit Unit),
      Run (poolSystem Unit Unit Unit 1) (fun _ _ => True) events s ∧ DrainedStop events ∧
        s.stop = .returned ∧ s.executed = [0] ∧ QueueDiscipline 1 events s ∧ ExecutedOnce s := by
  have hstopped : Run (poolSystem Unit Unit Unit 1) (fun _ _ => True)
      [.init () false, .call () (some ()), .insert () (some ()) none, .testRunning (),
        .take () (some ()) none, .pendingTasks 0, .clear] _ :=
    (run_occupied.next trivial (PoolStep.pendingTasks nofun rfl)).next trivial (PoolStep.clear rfl)
  have hreturned := (((hstopped.next trivial (PoolStep.finished (w := ()) rfl)).next trivial
    (PoolStep.leave (w := ()) rfl rfl)).next trivial (PoolStep.notifyAll rfl)).next trivial
      (PoolStep.join rfl fun _ => rfl)
  have hdrained : DrainedStop (_ : List (PoolEvent Unit Unit Unit)) := fun _ =>
    ⟨[.init () false, .call () (some ()), .insert () (some ()) none, .testRunning (),
        .take () (some ()) none],
      [.clear, .finish () false, .testRunning (), .notifyAll, .join], rfl, .head _, by
        rintro p ⟨early, task, late, hevents, hlate⟩
        refine hlate (some ()) none ?_
        match early, hevents with
        | [_], hevents => cases hevents; exact .head _
        | [_, _, _], hevents => cases hevents
        | [_, _, _, _], hevents => cases hevents
        | _ :: _ :: _ :: _ :: _ :: _, hevents => simp at hevents, by simp⟩
  obtain ⟨hqueue, hall⟩ := pool_discipline 1 (by decide) _ _ hreturned
  have honce := hall (fun w hmem => by simp at hmem) hdrained rfl
  exact ⟨_, _, hreturned, hdrained, rfl, rfl, hqueue, honce⟩

/-- The producer waits for room in `run` when the worker takes the first task. It inserts the
second one after `pendingTasks` returned 0 and the worker has left, and `stop` returns. -/
theorem late_insertion_unexecuted :
    ∃ (events : List (PoolEvent Unit Unit Unit)) (s : PoolState Unit Unit Unit),
      Run (poolSystem Unit Unit Unit 1) (fun _ _ => True) events s ∧
      (∀ w, .finish w true ∉ events) ∧
      (∃ early late, events = early ++ .pendingTasks 0 :: late ∧ .clear ∈ late ∧
        ∀ p task, .call p task ∉ late) ∧
      s.stop = .returned ∧ s.ledger.inserted = [some (), some ()] ∧ s.executed = [0] ∧
      ¬ExecutedOnce s := by
  have hstart : Run (poolSystem Unit Unit Unit 1) (fun _ _ => True) [] .start := .start rfl
  have hqueued : Run (poolSystem Unit Unit Unit 1) (fun _ _ => True)
      [.init () false, .call () (some ()), .insert () (some ()) none] _ :=
    ((hstart.next trivial (PoolStep.initOk (w := ()) rfl)).next trivial (PoolStep.call rfl)).next
      trivial (PoolStep.insert rfl nofun (fun hfull => absurd hfull.2 (by decide)) nofun)
  have hwaiting : Run (poolSystem Unit Unit Unit 1) (fun _ _ => True)
      ([.init () false, .call () (some ()), .insert () (some ()) none] ++
        [.call () (some ())] ++ [.full ()]) _ :=
    (hqueued.next trivial (PoolStep.call rfl)).next trivial
      (PoolStep.full rfl nofun ⟨by decide, by decide⟩)
  have htaken : Run (poolSystem Unit Unit Unit 1) (fun _ _ => True)
      ([.init () false, .call () (some ()), .insert () (some ()) none] ++
        [.call () (some ())] ++ [.full ()] ++ [.testRunning ()] ++
        [.take () (some ()) (some ())]) _ :=
    (hwaiting.next trivial (PoolStep.goOn (w := ()) rfl rfl)).next trivial
      (PoolStep.take rfl nofun rfl ⟨by decide, _, rfl⟩)
  have hleft := (((htaken.next trivial (PoolStep.pendingTasks nofun rfl)).next trivial
    (PoolStep.clear rfl)).next trivial (PoolStep.finished (w := ()) rfl)).next trivial
      (PoolStep.leave (w := ()) rfl rfl)
  have hinserted := (hleft.next trivial (PoolStep.notifyAll rfl)).next trivial
    (PoolStep.insert (p := ()) rfl nofun (fun hfull => absurd hfull.2 (by decide))
      (show PoolState.SignalsWorker _ none from nofun))
  have hreturned := hinserted.next trivial (PoolStep.join rfl fun _ => rfl)
  refine ⟨_, _, hreturned, by simp,
    ⟨[.init () false, .call () (some ()), .insert () (some ()) none, .call () (some ()), .full (),
        .testRunning (), .take () (some ()) (some ())],
      [.clear, .finish () false, .testRunning (), .notifyAll, .insert () (some ()) none, .join],
      rfl, .head _, by simp⟩, rfl, rfl, rfl, fun honce => ?_⟩
  exact absurd (honce.once 1 () rfl) (by decide)

end AdServer.Executor
