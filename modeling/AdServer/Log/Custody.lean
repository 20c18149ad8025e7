import AdServer.Library.Tally
import AdServer.Log.Failover
import AdServer.Log.MonitorSlot

/-!
What becomes of a pushed log. Of every text the important pushes are counted
against the copies that are delivered, await their report, are handed to the local
executor, are held by the monitor for its next `send`, or are still inside `push`.
A failed delivery, a `push` that finds the monitor slot taken, a monitor thread that
could not be created and a monitor that finds the service logger recovered each drop
their log. Where none of them happens, no copy is missing.
-/
namespace AdServer.Log

open Transition Tally

variable (log : Bytes)

def Pusher.awaitingCopies (p : Pusher) : Nat :=
  match p.producer with
  | none => 0
  | some producer => producer.awaiting.count log

def Pusher.localCopies (p : Pusher) : Nat := p.localTasks.count log

def callCopies : Option PushCall → Nat
  | none => 0
  | some call => if call.log = log then 1 else 0

/-- A monitor that has sent its message or has left its loop no longer holds it. -/
def monitorCopies : Option Monitor → Nat
  | some ⟨_, msg, .sending⟩ | some ⟨_, msg, .sleeping⟩ => if msg = log then 1 else 0
  | _ => 0

namespace LogState

noncomputable def awaitingCopies (s : LogState) : Nat := total (Pusher.awaitingCopies log) s.pushers

noncomputable def localCopies (s : LogState) : Nat := total (Pusher.localCopies log) s.pushers

noncomputable def pushingCopies (s : LogState) : Nat := total (callCopies log) s.calls

noncomputable def custody (s : LogState) : Nat :=
  s.awaitingCopies log + s.localCopies log + monitorCopies log s.monitor + s.pushingCopies log

end LogState

def LogEvent.pushes (important : Bool) : LogEvent → Nat
  | .push _ _ pushed urgent => if pushed = log ∧ urgent = important then 1 else 0
  | _ => 0

def LogEvent.deliveries : LogEvent → Nat
  | .report _ msg true => if msg = log then 1 else 0
  | _ => 0

def pushedCopies (important : Bool) (events : List LogEvent) : Nat :=
  (events.map (LogEvent.pushes log important)).sum

def deliveredCopies (events : List LogEvent) : Nat := (events.map (LogEvent.deliveries log)).sum

/-- Of every text there are at least as many copies delivered, awaiting their report,
handed to the executor, held by the monitor or still being pushed as important pushes. -/
def NoneLost (events : List LogEvent) (s : LogState) : Prop :=
  ∀ log, pushedCopies log true events ≤ deliveredCopies log events + s.custody log

/-- Deliveries succeed, the monitor slot is free whenever it is tested, threads can be
created, and the monitor wakes up while the service logger is still local. -/
def Keeping (s : LogState) : LogEvent → Prop
  | .testStarted _ => s.started = false
  | .swap _ => s.started = false
  | .create _ created => created = true
  | .report _ _ delivered => delivered = true
  | .monitorCheck => (s.pushers .service).modeLocal = true
  | _ => True

/-- The pushers and threads in use are finitely many, besides what holds of the slot. -/
structure Orderly (s : LogState) : Prop extends SlotOrderly s where
  pushers : Settled (Pusher.create false) s.pushers
  calls : Settled none s.calls

variable {s t : LogState}

theorem custody_eq (s : LogState) : s.custody log =
    s.awaitingCopies log + s.localCopies log + monitorCopies log s.monitor + s.pushingCopies log :=
  rfl

theorem custody_setMonitor (s : LogState) (monitor : Option Monitor) :
    (s.setMonitor monitor).custody log + monitorCopies log s.monitor =
      s.custody log + monitorCopies log monitor := by
  simp only [LogState.custody, LogState.setMonitor, LogState.awaitingCopies, LogState.localCopies,
    LogState.pushingCopies]
  omega

theorem custody_setMonitor_same {s : LogState} {old : Option Monitor} (hold : s.monitor = old)
    {new : Option Monitor} (hsame : monitorCopies log new = monitorCopies log old) :
    (s.setMonitor new).custody log = s.custody log := by
  have hmonitor := custody_setMonitor log s new
  rw [hold, hsame] at hmonitor
  exact Nat.add_right_cancel hmonitor

theorem Orderly.custody_setCall (h : Orderly s) (thread : Nat) (call : Option PushCall) :
    (s.setCall thread call).custody log + callCopies log (s.calls thread) =
      s.custody log + callCopies log call := by
  have hcalls : (s.setCall thread call).pushingCopies log + callCopies log (s.calls thread) =
      s.pushingCopies log + callCopies log call :=
    total_update h.calls rfl thread call
  have hawaiting : (s.setCall thread call).awaitingCopies log = s.awaitingCopies log := rfl
  have hlocal : (s.setCall thread call).localCopies log = s.localCopies log := rfl
  have hmonitor : (s.setCall thread call).monitor = s.monitor := rfl
  simp only [custody_eq, hawaiting, hlocal, hmonitor]
  omega

theorem Orderly.custody_setCall_same (h : Orderly s) {thread : Nat} {old new : PushCall}
    (hold : s.calls thread = some old) (hlog : new.log = old.log) :
    (s.setCall thread (some new)).custody log = s.custody log := by
  have hcall := h.custody_setCall log thread (some new)
  rw [hold, callCopies, callCopies, hlog] at hcall
  exact Nat.add_right_cancel hcall

theorem Orderly.custody_modify (h : Orderly s) (logger : Logger) (f : Pusher → Pusher) :
    (s.modify logger f).custody log + (s.pushers logger).awaitingCopies log +
        (s.pushers logger).localCopies log =
      s.custody log + (f (s.pushers logger)).awaitingCopies log +
        (f (s.pushers logger)).localCopies log := by
  have hawaiting : (s.modify logger f).awaitingCopies log + (s.pushers logger).awaitingCopies log =
      s.awaitingCopies log + (f (s.pushers logger)).awaitingCopies log :=
    total_update h.pushers (Multiset.count_zero log) logger _
  have hlocal : (s.modify logger f).localCopies log + (s.pushers logger).localCopies log =
      s.localCopies log + (f (s.pushers logger)).localCopies log :=
    total_update h.pushers (Multiset.count_zero log) logger _
  have hrest : (s.modify logger f).pushingCopies log = s.pushingCopies log := rfl
  have hmonitor : (s.modify logger f).monitor = s.monitor := rfl
  simp only [custody_eq, hrest, hmonitor]
  omega

theorem Orderly.custody_modify_same (h : Orderly s) (logger : Logger) {f : Pusher → Pusher}
    (hawaiting : ∀ p, (f p).awaitingCopies log = p.awaitingCopies log)
    (hlocal : ∀ p, (f p).localCopies log = p.localCopies log) :
    (s.modify logger f).custody log = s.custody log := by
  have hmodify := h.custody_modify log logger f
  rw [hawaiting, hlocal] at hmodify
  omega

theorem awaitingCopies_setWorkMode (workLocal : Bool) (p : Pusher) :
    (p.setWorkMode workLocal).awaitingCopies log = p.awaitingCopies log := by
  unfold Pusher.awaitingCopies Pusher.setWorkMode
  cases p.producer with
  | some producer => simp
  | none =>
      dsimp only
      split
      · rfl
      · rename_i hproducer
        split at hproducer
        · cases hproducer
          exact Multiset.count_zero log
        · cases hproducer

theorem awaitingCopies_withProducer {f : Producer → Producer}
    (hf : ∀ producer, (f producer).awaiting = producer.awaiting) (p : Pusher) :
    (p.withProducer f).awaitingCopies log = p.awaitingCopies log := by
  unfold Pusher.awaitingCopies Pusher.withProducer
  cases p.producer with
  | none => rfl
  | some producer => simp only [Option.map_some, hf]

theorem awaitingCopies_produce (msg : Bytes) {p : Pusher} (hproducer : p.producer.isSome) :
    (p.withProducer (Producer.produce msg)).awaitingCopies log =
      p.awaitingCopies log + if msg = log then 1 else 0 := by
  obtain ⟨producer, hp⟩ := Option.isSome_iff_exists.mp hproducer
  simp only [Pusher.awaitingCopies, Pusher.withProducer, hp, Option.map_some, Producer.produce,
    Multiset.count_cons, eq_comm]

theorem awaitingCopies_reported {msg : Bytes} {p : Pusher} {producer : Producer}
    (hproducer : p.producer = some producer) (hawaiting : msg ∈ producer.awaiting) :
    (p.withProducer (Producer.reported msg)).awaitingCopies log + (if msg = log then 1 else 0) =
      p.awaitingCopies log := by
  have hcons := congrArg (Multiset.count log) (Multiset.cons_erase hawaiting)
  rw [Multiset.count_cons] at hcons
  simp only [Pusher.awaitingCopies, Pusher.withProducer, hproducer, Option.map_some,
    Producer.reported, eq_comm (a := msg)]
  exact hcons

namespace Orderly

theorem start : Orderly remoteStart where
  pushers := settled_const _
  calls := settled_const _
  free _ := ⟨rfl, nofun⟩
  alone _ _ hcall := by cases hcall

theorem modify (h : Orderly s) (logger : Logger) (f : Pusher → Pusher) :
    Orderly (s.modify logger f) :=
  ⟨h.toSlotOrderly.modify logger f, h.pushers.update logger _, h.calls⟩

theorem setCall (h : Orderly s) (thread : Nat) {new : Option PushCall}
    (hnew : ∀ call, new = some call → call.phase ≠ .initializing) :
    Orderly (s.setCall thread new) :=
  ⟨h.toSlotOrderly.setCall thread hnew, h.pushers, h.calls.update thread new⟩

theorem setMonitor (h : Orderly s) {monitor : Monitor} (hmonitor : s.monitor = some monitor)
    (new : Option Monitor) : Orderly (s.setMonitor new) :=
  ⟨h.toSlotOrderly.setMonitor hmonitor new, h.pushers, h.calls⟩

theorem custody_drCb (h : Orderly s) (logger : Logger) (delivered : Bool) :
    (s.drCb logger delivered).custody log = s.custody log := by
  have hmode : ∀ (s : LogState), Orderly s → ∀ workLocal,
      (s.modify .service (Pusher.setWorkMode workLocal)).custody log = s.custody log :=
    fun s hs workLocal =>
      hs.custody_modify_same log .service (awaitingCopies_setWorkMode log workLocal) fun _ => rfl
  have hrecover : ∀ (s : LogState), Orderly s → ∀ needRecover,
      (s.setNeedRecover logger needRecover).custody log = s.custody log :=
    fun s hs _ => hs.custody_modify_same log logger
      (awaitingCopies_withProducer log fun _ => rfl) fun _ => rfl
  simp only [LogState.drCb]
  split
  · rfl
  · split
    · exact (hrecover _ (h.modify _ _) true).trans (hmode _ h true)
    · split
      · exact (hmode _ (h.modify _ _) false).trans (hrecover _ h false)
      · rfl

theorem swap (h : Orderly s) (hstarted : s.started = false) (thread : Nat) (call : PushCall) :
    Orderly ({ s with started := true }.setCall thread (some call)) :=
  ⟨h.toSlotOrderly.swap hstarted thread call, h.pushers, h.calls.update thread _⟩

theorem create (h : Orderly s) {thread : Nat} {call : PushCall} (hcall : s.calls thread = some call)
    (hphase : call.phase = .initializing) (monitor : Monitor) :
    Orderly ((s.setMonitor (some monitor)).setCall thread none) :=
  ⟨h.toSlotOrderly.create hcall hphase monitor, h.pushers, h.calls.update thread none⟩

theorem exit (h : Orderly s) {monitor : Monitor} (hmonitor : s.monitor = some monitor) :
    Orderly { s with started := false, monitor := none } :=
  ⟨h.toSlotOrderly.exit hmonitor, h.pushers, h.calls⟩

theorem changes : KeptByChanges Orderly where
  modify := modify
  setCall := setCall
  setMonitor := setMonitor
  swap := swap
  create := create
  exit := exit

theorem step (h : Orderly s) {event : LogEvent} (hstep : LogStep s event t) : Orderly t :=
  changes.step h hstep

theorem custody_runLocal (h : Orderly s) (logger : Logger) (pushed : Bytes) :
    (s.modify logger (Pusher.runLocal pushed)).custody log =
      s.custody log + if pushed = log then 1 else 0 := by
  have hmodify := h.custody_modify log logger (Pusher.runLocal pushed)
  have hawaiting : ((s.pushers logger).runLocal pushed).awaitingCopies log =
    (s.pushers logger).awaitingCopies log := rfl
  have hlocal : ((s.pushers logger).runLocal pushed).localCopies log =
      (s.pushers logger).localCopies log + if pushed = log then 1 else 0 := by
    simp only [Pusher.localCopies, Pusher.runLocal, Multiset.count_cons, eq_comm]
  omega

theorem custody_produce (h : Orderly s) {logger : Logger} (msg : Bytes)
    (hproducer : (s.pushers logger).producer.isSome) :
    (s.modify logger (Pusher.withProducer (Producer.produce msg))).custody log =
      s.custody log + if msg = log then 1 else 0 := by
  have hmodify := h.custody_modify log logger (Pusher.withProducer (Producer.produce msg))
  have hawaiting := awaitingCopies_produce log msg hproducer
  have hlocal : ((s.pushers logger).withProducer (Producer.produce msg)).localCopies log =
    (s.pushers logger).localCopies log := rfl
  omega

theorem custody_reported (h : Orderly s) {logger : Logger} {producer : Producer} {msg : Bytes}
    (hproducer : (s.pushers logger).producer = some producer)
    (hawaiting : msg ∈ producer.awaiting) :
    (s.modify logger (Pusher.withProducer (Producer.reported msg))).custody log +
      (if msg = log then 1 else 0) = s.custody log := by
  have hmodify := h.custody_modify log logger (Pusher.withProducer (Producer.reported msg))
  have herase := awaitingCopies_reported log hproducer hawaiting
  have hlocal : ((s.pushers logger).withProducer (Producer.reported msg)).localCopies log =
    (s.pushers logger).localCopies log := rfl
  omega

/-- A log that a thread sends goes from its call to the producer. -/
theorem custody_sent (h : Orderly s) {thread : Nat} {logger : Logger} {sent : Bytes}
    (hcall : s.calls thread = some ⟨logger, sent, .sending⟩)
    (hproducer : (s.pushers logger).producer.isSome) :
    ((s.modify logger (Pusher.withProducer (Producer.produce sent))).setCall thread none).custody
      log = s.custody log := by
  have hmove := (h.modify logger (Pusher.withProducer (Producer.produce sent))).custody_setCall
    log thread none
  have hproduce := h.custody_produce log sent hproducer
  rw [LogState.calls_modify, hcall] at hmove
  simp only [callCopies] at hmove
  omega

/-- The monitor takes the log of the thread that creates it. -/
theorem custody_created (h : Orderly s) {thread : Nat} {logger : Logger} {sent : Bytes}
    (hcall : s.calls thread = some ⟨logger, sent, .initializing⟩) :
    ((s.setMonitor (some ⟨logger, sent, .sending⟩)).setCall thread none).custody log =
      s.custody log := by
  have hmove := h.custody_setCall log thread none
  have hhold := custody_setMonitor log (s.setCall thread none) (some ⟨logger, sent, .sending⟩)
  have hmonitor : (s.setCall thread none).monitor = none := (h.alone thread _ hcall rfl).1
  have hcommute : (s.setMonitor (some ⟨logger, sent, .sending⟩)).setCall thread none =
    (s.setCall thread none).setMonitor (some ⟨logger, sent, .sending⟩) := rfl
  rw [hcall] at hmove
  rw [hmonitor] at hhold
  simp only [hcommute, callCopies, monitorCopies] at hmove hhold ⊢
  omega

/-- A message that the monitor sends goes from it to the producer. -/
theorem custody_monitorSent (h : Orderly s) {producer : Logger} {msg : Bytes}
    (hmonitor : s.monitor = some ⟨producer, msg, .sending⟩)
    (hproducer : (s.pushers producer).producer.isSome) :
    ((s.modify producer (Pusher.withProducer (Producer.produce msg))).setMonitor
      (some ⟨producer, msg, .recovered⟩)).custody log = s.custody log := by
  have hhold := custody_setMonitor log
    (s.modify producer (Pusher.withProducer (Producer.produce msg)))
    (some ⟨producer, msg, .recovered⟩)
  have hproduce := h.custody_produce log msg hproducer
  have hsame : (s.modify producer (Pusher.withProducer (Producer.produce msg))).monitor =
    some ⟨producer, msg, .sending⟩ := hmonitor
  rw [hsame] at hhold
  simp only [monitorCopies] at hhold
  omega

/-- A step that keeps its log moves it from place to place: what is new in the
places and delivered was pushed, an unimportant push being free to count or not. -/
theorem custody_step (h : Orderly s) {event : LogEvent} (hguard : Keeping s event)
    (hstep : LogStep s event t) (log : Bytes) :
    ∃ others ≤ event.pushes log false,
      t.custody log + event.deliveries log = s.custody log + event.pushes log true + others := by
  cases hstep with
  | @pushRemote thread logger pushed important hidle hmode =>
      have hcall := h.custody_setCall log thread (some ⟨logger, pushed, .sending⟩)
      refine ⟨_, le_rfl, ?_⟩
      cases important <;> simpa [LogEvent.pushes, LogEvent.deliveries, callCopies, hidle] using hcall
  | @pushLocal thread logger pushed hidle hmode =>
      refine ⟨0, Nat.zero_le _, ?_⟩
      simp only [LogEvent.pushes, LogEvent.deliveries, and_true]
      exact h.custody_runLocal log logger pushed
  | pushDropped hidle hmode =>
      refine ⟨0, Nat.zero_le _, ?_⟩
      simp [LogEvent.pushes, LogEvent.deliveries]
  | sendOk hcall hproducer => exact ⟨0, Nat.zero_le _, h.custody_sent log hcall hproducer⟩
  | sendError hcall hproducer => exact ⟨0, Nat.zero_le _, h.custody_setCall_same log hcall rfl⟩
  | @setLocal thread logger sent hcall =>
      have hmode := h.custody_modify_same log logger (awaitingCopies_setWorkMode log true)
        fun _ => rfl
      have hmove := (h.modify logger (Pusher.setWorkMode true)).custody_setCall_same log hcall
        (show (PushCall.mk logger sent .starting).log = sent from rfl)
      exact ⟨0, Nat.zero_le _, hmove.trans hmode⟩
  | alreadyStarted hcall hstarted => cases hstarted.symm.trans hguard
  | notStarted hcall hstarted => exact ⟨0, Nat.zero_le _, h.custody_setCall_same log hcall rfl⟩
  | swapLost hcall hstarted => cases hstarted.symm.trans hguard
  | @swapWon thread logger sent hcall hstarted =>
      have hmove : (s.setCall thread (some ⟨logger, sent, .initializing⟩)).custody log =
        s.custody log := h.custody_setCall_same log hcall rfl
      exact ⟨0, Nat.zero_le _, hmove⟩
  | created hcall => exact ⟨0, Nat.zero_le _, h.custody_created log hcall⟩
  | notCreated hcall => cases hguard
  | @report logger producer msg delivered hproducer hawaiting =>
      cases hguard
      refine ⟨0, Nat.zero_le _, ?_⟩
      rw [(h.modify logger _).custody_drCb]
      exact h.custody_reported log hproducer hawaiting
  | monitorSendOk hmonitor hproducer =>
      exact ⟨0, Nat.zero_le _, h.custody_monitorSent log hmonitor hproducer⟩
  | monitorSendError hmonitor hproducer =>
      exact ⟨0, Nat.zero_le _, custody_setMonitor_same log hmonitor rfl⟩
  | monitorRecover hmonitor =>
      have hmode := h.custody_modify_same log .service (awaitingCopies_setWorkMode log false)
        fun _ => rfl
      have hhold : (s.modify .service (Pusher.setWorkMode false)).monitor = _ := hmonitor
      exact ⟨0, Nat.zero_le _, (custody_setMonitor_same log hhold rfl).trans hmode⟩
  | monitorRetry hmonitor hmode =>
      exact ⟨0, Nat.zero_le _, custody_setMonitor_same log hmonitor rfl⟩
  | monitorLeave hmonitor hmode => cases hmode.symm.trans hguard
  | monitorExit hmonitor =>
      have hhold : (s.setMonitor none).custody log = s.custody log :=
        custody_setMonitor_same log hmonitor rfl
      exact ⟨0, Nat.zero_le _, hhold⟩

end Orderly

theorem pushedCopies_concat (important : Bool) (events : List LogEvent) (event : LogEvent) :
    pushedCopies log important (events ++ [event]) =
      pushedCopies log important events + event.pushes log important := by
  simp [pushedCopies]

theorem deliveredCopies_concat (events : List LogEvent) (event : LogEvent) :
    deliveredCopies log (events ++ [event]) =
      deliveredCopies log events + event.deliveries log := by
  simp [deliveredCopies]

/-- Delivered and kept are the important pushes and some of the others. -/
def Balanced (events : List LogEvent) (s : LogState) : Prop :=
  ∀ log, ∃ others ≤ pushedCopies log false events,
    deliveredCopies log events + s.custody log = pushedCopies log true events + others

theorem custody_remoteStart : remoteStart.custody log = 0 := by
  have hawaiting : remoteStart.awaitingCopies log = 0 :=
    total_eq_zero fun _ => Multiset.count_zero log
  have hlocal : remoteStart.localCopies log = 0 := total_eq_zero fun _ => Multiset.count_zero log
  have hpushing : remoteStart.pushingCopies log = 0 := total_eq_zero fun _ => rfl
  rw [custody_eq, hawaiting, hlocal, hpushing]
  rfl

theorem Balanced.step {events : List LogEvent} (h : Balanced events s) (horderly : Orderly s)
    {event : LogEvent} (hguard : Keeping s event) (hstep : LogStep s event t) :
    Balanced (events ++ [event]) t := by
  intro log
  obtain ⟨before, hbefore, hbalance⟩ := h log
  obtain ⟨others, hothers, hmoved⟩ := horderly.custody_step hguard hstep log
  refine ⟨before + others, ?_, ?_⟩
  · rw [pushedCopies_concat]
    omega
  · rw [pushedCopies_concat, deliveredCopies_concat]
    omega

/-- Along every run that keeps its logs no important log is lost. -/
theorem noneLost_keeping (events : List LogEvent) (s : LogState)
    (hrun : Run logSystem Keeping events s) : NoneLost events s := by
  have hs : Orderly s ∧ Balanced events s := by
    refine Run.history_invariant (fun events s => Orderly s ∧ Balanced events s) ?_ ?_ hrun
    · rintro s rfl
      refine ⟨Orderly.start, fun log => ⟨0, Nat.zero_le _, ?_⟩⟩
      rw [custody_remoteStart]
      rfl
    · intro events s event t h hguard hstep
      exact ⟨h.1.step hstep, h.2.step h.1 hguard hstep⟩
  intro log
  obtain ⟨others, -, hbalance⟩ := hs.2 log
  omega

theorem noneLost_keeping_sample :
    ∃ events s, Run logSystem Keeping events s ∧ (s.pushers .service).modeLocal = true ∧
      pushedCopies (bytes "imp=1") true events = 1 ∧ NoneLost events s := by
  have hstart : Run logSystem Keeping [] remoteStart := .start rfl
  have hpush : Run logSystem Keeping [.push 0 .service (bytes "imp=1") true] _ :=
    hstart.next trivial (.pushRemote rfl rfl)
  have hsend : Run logSystem Keeping
      [.push 0 .service (bytes "imp=1") true, .send 0 .sendError] _ :=
    hpush.next trivial (.sendError rfl rfl)
  have hlocal : Run logSystem Keeping
      [.push 0 .service (bytes "imp=1") true, .send 0 .sendError, .setLocal 0] _ :=
    hsend.next trivial (.setLocal rfl)
  have htest : Run logSystem Keeping
      [.push 0 .service (bytes "imp=1") true, .send 0 .sendError, .setLocal 0, .testStarted 0] _ :=
    hlocal.next (by exact rfl) (.notStarted (by exact rfl) (by exact rfl))
  exact ⟨_, _, htest, rfl, by decide, noneLost_keeping _ _ htest⟩

theorem custody_undelivered : (undelivered log).custody log = 0 := by
  have hstuck := stuck_undelivered log
  have hawaiting : ∀ logger, ((undelivered log).pushers logger).awaitingCopies log = 0 := by
    intro logger
    unfold Pusher.awaitingCopies
    split
    · rfl
    · rename_i producer hproducer
      rw [hstuck.noneAwaiting logger producer hproducer, Multiset.count_zero]
  have hlocal : ∀ logger, ((undelivered log).pushers logger).localCopies log = 0 := by
    intro logger
    cases logger <;> exact Multiset.count_zero log
  have hcalls : ∀ thread, callCopies log ((undelivered log).calls thread) = 0 := by
    intro thread
    rw [undelivered, LogState.calls_drCb, LogState.calls_modify, LogState.calls_setCall]
    split
    · rfl
    · rename_i hthread
      rw [LogState.calls_modify, LogState.calls_setCall, if_neg hthread]
      rfl
  rw [custody_eq, LogState.awaitingCopies, LogState.localCopies, LogState.pushingCopies,
    total_eq_zero hawaiting, total_eq_zero hlocal, total_eq_zero hcalls, hstuck.noMonitor]
  rfl

/-- A log whose delivery fails is nowhere any more. -/
theorem lost_reachable :
    ¬∀ (events : List LogEvent) (s : LogState), Run logSystem (fun _ _ => True) events s →
      NoneLost events s := by
  intro h
  have hlost := h _ _ (run_undelivered (bytes "imp=1")) (bytes "imp=1")
  rw [custody_undelivered] at hlost
  revert hlost
  decide

end AdServer.Log
