import Mathlib.Data.Multiset.AddSub
import Mathlib.Logic.Function.Basic
import AdServer.Basic
import AdServer.Library.Transition

/-!
The log pushers and their failover. A pusher in remote mode hands a log to its
Kafka producer; when that fails it switches to local mode and starts the one
monitor thread of the process, which tries to send until it succeeds. Delivery
reports reach the producer's callback. The service logger is the only one that
the callback and the monitor switch, whichever pusher they work for.

Every access to the flags the threads share is a step of its own. A producer
carries the state of its `LogDeliverReportCb` and the messages not yet reported;
a pusher whose producer is `NULL` has none. `localTasks` are the logs handed to
the executor as `LogPushLocalTask`.
-/
namespace AdServer.Log

open Transition

inductive Logger where
  | service
  | named (name : Bytes)
  deriving DecidableEq, Repr

inductive SendResult where
  | sendOk
  | sendError
  deriving DecidableEq, Repr

structure Producer where
  needRecover : Bool
  awaiting : Multiset Bytes

def Producer.create : Producer := { needRecover := false, awaiting := 0 }

def Producer.produce (msg : Bytes) (p : Producer) : Producer :=
  { p with awaiting := msg ::ₘ p.awaiting }

def Producer.reported (msg : Bytes) (p : Producer) : Producer :=
  { p with awaiting := p.awaiting.erase msg }

structure Pusher where
  modeLocal : Bool
  producer : Option Producer
  localTasks : Multiset Bytes

def Pusher.create (modeLocal : Bool) : Pusher :=
  { modeLocal := modeLocal
    producer := if modeLocal then none else some Producer.create
    localTasks := 0 }

def Pusher.setWorkMode (workLocal : Bool) (p : Pusher) : Pusher :=
  { p with
    producer :=
      if !workLocal && p.modeLocal == false && p.producer.isNone then some Producer.create
      else p.producer
    modeLocal := workLocal }

def Pusher.withProducer (f : Producer → Producer) (p : Pusher) : Pusher :=
  { p with producer := p.producer.map f }

def Pusher.runLocal (log : Bytes) (p : Pusher) : Pusher :=
  { p with localTasks := log ::ₘ p.localTasks }

/-- Where a thread stands inside `push` once it has read `modeLocal` as false: before
`send`, before `setWorkMode(true)` after a failed one, and in `startRemoteMonitor`
before it reads `param.started`, before it swaps it and before it creates the thread. -/
inductive PushPhase where
  | sending
  | failed
  | starting
  | swapping
  | initializing
  deriving DecidableEq, Repr

structure PushCall where
  logger : Logger
  log : Bytes
  phase : PushPhase
  deriving DecidableEq, Repr

/-- Where the monitor stands: before `send`, before it switches the service logger back,
before it reads that logger's mode after a failed `send`, and before it resets
`param.started`. -/
inductive MonitorPhase where
  | sending
  | recovered
  | sleeping
  | exiting
  deriving DecidableEq, Repr

structure Monitor where
  producer : Logger
  msg : Bytes
  phase : MonitorPhase
  deriving DecidableEq, Repr

structure LogState where
  pushers : Logger → Pusher
  calls : Nat → Option PushCall
  started : Bool
  monitor : Option Monitor

namespace LogState

def modify (s : LogState) (logger : Logger) (f : Pusher → Pusher) : LogState :=
  { s with pushers := Function.update s.pushers logger (f (s.pushers logger)) }

def setCall (s : LogState) (thread : Nat) (call : Option PushCall) : LogState :=
  { s with calls := Function.update s.calls thread call }

def setMonitor (s : LogState) (monitor : Option Monitor) : LogState :=
  { s with monitor := monitor }

def setNeedRecover (s : LogState) (logger : Logger) (needRecover : Bool) : LogState :=
  s.modify logger (Pusher.withProducer fun p => { p with needRecover := needRecover })

/-- `LogDeliverReportCb::dr_cb` of the pusher's producer. -/
def drCb (s : LogState) (logger : Logger) (delivered : Bool) : LogState :=
  match (s.pushers logger).producer with
  | none => s
  | some p =>
    if !delivered && !p.needRecover then
      (s.modify .service (Pusher.setWorkMode true)).setNeedRecover logger true
    else if delivered && p.needRecover then
      (s.setNeedRecover logger false).modify .service (Pusher.setWorkMode false)
    else s

end LogState

inductive LogEvent where
  | push (thread : Nat) (logger : Logger) (log : Bytes) (important : Bool)
  | send (thread : Nat) (result : SendResult)
  | setLocal (thread : Nat)
  | testStarted (thread : Nat)
  | swap (thread : Nat)
  | create (thread : Nat) (created : Bool)
  | report (logger : Logger) (msg : Bytes) (delivered : Bool)
  | monitorSend (result : SendResult)
  | monitorRecover
  | monitorCheck
  | monitorExit

inductive LogStep : LogState → LogEvent → LogState → Prop where
  | pushRemote {s : LogState} {thread : Nat} {logger : Logger} {log : Bytes} {important : Bool}
      (hidle : s.calls thread = none) (hmode : (s.pushers logger).modeLocal = false) :
      LogStep s (.push thread logger log important)
        (s.setCall thread (some ⟨logger, log, .sending⟩))
  | pushLocal {s : LogState} {thread : Nat} {logger : Logger} {log : Bytes}
      (hidle : s.calls thread = none) (hmode : (s.pushers logger).modeLocal = true) :
      LogStep s (.push thread logger log true) (s.modify logger (Pusher.runLocal log))
  | pushDropped {s : LogState} {thread : Nat} {logger : Logger} {log : Bytes}
      (hidle : s.calls thread = none) (hmode : (s.pushers logger).modeLocal = true) :
      LogStep s (.push thread logger log false) s
  | sendOk {s : LogState} {thread : Nat} {logger : Logger} {log : Bytes}
      (hcall : s.calls thread = some ⟨logger, log, .sending⟩)
      (hproducer : (s.pushers logger).producer.isSome) :
      LogStep s (.send thread .sendOk)
        ((s.modify logger (Pusher.withProducer (Producer.produce log))).setCall thread none)
  | sendError {s : LogState} {thread : Nat} {logger : Logger} {log : Bytes}
      (hcall : s.calls thread = some ⟨logger, log, .sending⟩)
      (hproducer : (s.pushers logger).producer.isSome) :
      LogStep s (.send thread .sendError) (s.setCall thread (some ⟨logger, log, .failed⟩))
  | setLocal {s : LogState} {thread : Nat} {logger : Logger} {log : Bytes}
      (hcall : s.calls thread = some ⟨logger, log, .failed⟩) :
      LogStep s (.setLocal thread)
        ((s.modify logger (Pusher.setWorkMode true)).setCall thread (some ⟨logger, log, .starting⟩))
  | alreadyStarted {s : LogState} {thread : Nat} {logger : Logger} {log : Bytes}
      (hcall : s.calls thread = some ⟨logger, log, .starting⟩) (hstarted : s.started = true) :
      LogStep s (.testStarted thread) (s.setCall thread none)
  | notStarted {s : LogState} {thread : Nat} {logger : Logger} {log : Bytes}
      (hcall : s.calls thread = some ⟨logger, log, .starting⟩) (hstarted : s.started = false) :
      LogStep s (.testStarted thread) (s.setCall thread (some ⟨logger, log, .swapping⟩))
  | swapLost {s : LogState} {thread : Nat} {logger : Logger} {log : Bytes}
      (hcall : s.calls thread = some ⟨logger, log, .swapping⟩) (hstarted : s.started = true) :
      LogStep s (.swap thread) (s.setCall thread none)
  | swapWon {s : LogState} {thread : Nat} {logger : Logger} {log : Bytes}
      (hcall : s.calls thread = some ⟨logger, log, .swapping⟩) (hstarted : s.started = false) :
      LogStep s (.swap thread)
        ({ s with started := true }.setCall thread (some ⟨logger, log, .initializing⟩))
  | created {s : LogState} {thread : Nat} {logger : Logger} {log : Bytes}
      (hcall : s.calls thread = some ⟨logger, log, .initializing⟩) :
      LogStep s (.create thread true)
        ((s.setMonitor (some ⟨logger, log, .sending⟩)).setCall thread none)
  | notCreated {s : LogState} {thread : Nat} {logger : Logger} {log : Bytes}
      (hcall : s.calls thread = some ⟨logger, log, .initializing⟩) :
      LogStep s (.create thread false) (s.setCall thread none)
  | report {s : LogState} {logger : Logger} {p : Producer} {msg : Bytes} {delivered : Bool}
      (hproducer : (s.pushers logger).producer = some p) (hawaiting : msg ∈ p.awaiting) :
      LogStep s (.report logger msg delivered)
        ((s.modify logger (Pusher.withProducer (Producer.reported msg))).drCb logger delivered)
  | monitorSendOk {s : LogState} {producer : Logger} {msg : Bytes}
      (hmonitor : s.monitor = some ⟨producer, msg, .sending⟩)
      (hproducer : (s.pushers producer).producer.isSome) :
      LogStep s (.monitorSend .sendOk)
        ((s.modify producer (Pusher.withProducer (Producer.produce msg))).setMonitor
          (some ⟨producer, msg, .recovered⟩))
  | monitorSendError {s : LogState} {producer : Logger} {msg : Bytes}
      (hmonitor : s.monitor = some ⟨producer, msg, .sending⟩)
      (hproducer : (s.pushers producer).producer.isSome) :
      LogStep s (.monitorSend .sendError) (s.setMonitor (some ⟨producer, msg, .sleeping⟩))
  | monitorRecover {s : LogState} {producer : Logger} {msg : Bytes}
      (hmonitor : s.monitor = some ⟨producer, msg, .recovered⟩) :
      LogStep s .monitorRecover
        ((s.modify .service (Pusher.setWorkMode false)).setMonitor
          (some ⟨producer, msg, .exiting⟩))
  | monitorRetry {s : LogState} {producer : Logger} {msg : Bytes}
      (hmonitor : s.monitor = some ⟨producer, msg, .sleeping⟩)
      (hmode : (s.pushers .service).modeLocal = true) :
      LogStep s .monitorCheck (s.setMonitor (some ⟨producer, msg, .sending⟩))
  | monitorLeave {s : LogState} {producer : Logger} {msg : Bytes}
      (hmonitor : s.monitor = some ⟨producer, msg, .sleeping⟩)
      (hmode : (s.pushers .service).modeLocal = false) :
      LogStep s .monitorCheck (s.setMonitor (some ⟨producer, msg, .exiting⟩))
  | monitorExit {s : LogState} {producer : Logger} {msg : Bytes}
      (hmonitor : s.monitor = some ⟨producer, msg, .exiting⟩) :
      LogStep s .monitorExit { s with started := false, monitor := none }

def remoteStart : LogState :=
  { pushers := fun _ => Pusher.create false
    calls := fun _ => none
    started := false
    monitor := none }

def logSystem : System LogState LogEvent where
  init s := s = remoteStart
  step := LogStep

namespace LogState

theorem calls_modify (s : LogState) (logger : Logger) (f : Pusher → Pusher) :
    (s.modify logger f).calls = s.calls := rfl

theorem calls_setCall (s : LogState) (thread other : Nat) (call : Option PushCall) :
    (s.setCall thread call).calls other = if other = thread then call else s.calls other := by
  simp only [setCall, Function.update_apply]

theorem pushers_modify (s : LogState) (logger other : Logger) (f : Pusher → Pusher) :
    (s.modify logger f).pushers other =
      if other = logger then f (s.pushers logger) else s.pushers other := by
  simp only [modify, Function.update_apply]

theorem modeLocal_modify_of_same {f : Pusher → Pusher} (hf : ∀ p, (f p).modeLocal = p.modeLocal)
    (s : LogState) (logger other : Logger) :
    ((s.modify logger f).pushers other).modeLocal = (s.pushers other).modeLocal := by
  rw [pushers_modify]
  split
  · rename_i heq
    rw [hf, heq]
  · rfl

theorem modeLocal_modify_setWorkMode (s : LogState) (logger other : Logger) (workLocal : Bool) :
    ((s.modify logger (Pusher.setWorkMode workLocal)).pushers other).modeLocal =
      if other = logger then workLocal else (s.pushers other).modeLocal := by
  rw [pushers_modify]
  split
  · rfl
  · rfl

/-- The delivery report callback touches nothing but the pushers. -/
theorem drCb_frame (s : LogState) (logger : Logger) (delivered : Bool) :
    s.drCb logger delivered = { s with pushers := (s.drCb logger delivered).pushers } := by
  simp only [drCb]
  split
  · rfl
  · split
    · rfl
    · split <;> rfl

theorem calls_drCb (s : LogState) (logger : Logger) (delivered : Bool) :
    (s.drCb logger delivered).calls = s.calls := by
  rw [drCb_frame]

theorem started_drCb (s : LogState) (logger : Logger) (delivered : Bool) :
    (s.drCb logger delivered).started = s.started := by
  rw [drCb_frame]

theorem monitor_drCb (s : LogState) (logger : Logger) (delivered : Bool) :
    (s.drCb logger delivered).monitor = s.monitor := by
  rw [drCb_frame]

end LogState

end AdServer.Log
