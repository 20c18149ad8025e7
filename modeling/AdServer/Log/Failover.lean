import AdServer.Log.Pusher

/-!
When the log pushers can get stuck in local mode. A pusher leaves local mode only
through the monitor thread or through a delivery report. A failed delivery
switches the service logger to local mode and starts no monitor; the monitor
switches only the service logger back; a monitor that has left its loop still
holds its slot; a slot whose thread could not be created is never released. Where
none of the four can happen, a pusher in local mode always has somebody to bring
it back.
-/
namespace AdServer.Log

open Transition

/-- A push that has switched its pusher to local mode and has not yet returned. -/
def PushPhase.recovering : PushPhase → Bool
  | .sending | .failed => false
  | .starting | .swapping | .initializing => true

/-- A monitor thread that will still try to send or switch the service logger back. -/
def LiveMonitor (s : LogState) : Prop :=
  ∃ monitor, s.monitor = some monitor ∧ monitor.phase ≠ .exiting

/-- Somebody will bring the service logger back. -/
def Covered (s : LogState) : Prop :=
  LiveMonitor s ∨ ∃ thread call, s.calls thread = some call ∧ call.phase.recovering = true

/-- Somebody holds the monitor slot and will not just release it. -/
def Held (s : LogState) : Prop :=
  LiveMonitor s ∨ ∃ thread call, s.calls thread = some call ∧ call.phase = .initializing

/-- Some pusher is in local mode, no monitor runs or is being started, and no message
awaits its report. -/
structure Stuck (s : LogState) : Prop where
  isLocal : ∃ logger, (s.pushers logger).modeLocal = true
  noMonitor : s.monitor = none
  noRecovery : ∀ thread call, s.calls thread = some call → call.phase.recovering = false
  noneAwaiting : ∀ logger p, (s.pushers logger).producer = some p → p.awaiting = 0

/-- Produce failures happen to the service logger only, the monitor slot is tested
while it is free or its holder goes on, threads can be created, and a first failed
delivery finds somebody who brings the service logger back. -/
def Supervised (s : LogState) : LogEvent → Prop
  | .send thread .sendError => ∀ call, s.calls thread = some call → call.logger = .service
  | .testStarted _ => s.started = true → Held s
  | .swap _ => s.started = true → Held s
  | .create _ created => created = true
  | .report logger _ false =>
    ∀ p, (s.pushers logger).producer = some p → p.needRecover = false → Covered s
  | _ => True

structure Recoverability (s : LogState) : Prop where
  others : ∀ name, (s.pushers (.named name)).modeLocal = false
  failures : ∀ thread call, s.calls thread = some call → call.phase ≠ .sending →
    call.logger = .service
  covered : (s.pushers .service).modeLocal = true → Covered s

theorem covered_congr {s t : LogState} (hmonitor : t.monitor = s.monitor) (hcalls : t.calls = s.calls) :
    Covered t ↔ Covered s := by
  simp only [Covered, LiveMonitor, hmonitor, hcalls]

theorem covered_setCall_recovering (s : LogState) (thread : Nat) {call : PushCall}
    (hphase : call.phase.recovering = true) : Covered (s.setCall thread (some call)) := by
  refine .inr ⟨thread, call, ?_, hphase⟩
  rw [LogState.calls_setCall, if_pos rfl]

theorem Covered.setCall {s : LogState} (h : Covered s) {thread : Nat} {old : Option PushCall}
    (hold : s.calls thread = old) (hphase : ∀ call, old = some call → call.phase.recovering = false)
    (new : Option PushCall) : Covered (s.setCall thread new) := by
  cases h with
  | inl hlive => exact .inl hlive
  | inr hpush =>
      obtain ⟨other, call, hcall, hrecovering⟩ := hpush
      have hother : other ≠ thread := by
        rintro rfl
        rw [hphase call (hold.symm.trans hcall)] at hrecovering
        cases hrecovering
      refine .inr ⟨other, call, ?_, hrecovering⟩
      rw [LogState.calls_setCall, if_neg hother, hcall]

theorem Held.covered_setCall {s : LogState} (h : Held s) {thread : Nat} {old : PushCall}
    (hold : s.calls thread = some old) (hphase : old.phase ≠ .initializing)
    (new : Option PushCall) : Covered (s.setCall thread new) := by
  cases h with
  | inl hlive => exact .inl hlive
  | inr hpush =>
      obtain ⟨other, call, hcall, hinitializing⟩ := hpush
      have hother : other ≠ thread := by
        rintro rfl
        cases hold.symm.trans hcall
        exact hphase hinitializing
      refine .inr ⟨other, call, ?_, ?_⟩
      · rw [LogState.calls_setCall, if_neg hother, hcall]
      · rw [hinitializing]
        rfl

namespace Recoverability

variable {s t : LogState}

theorem of_modes (h : Recoverability s)
    (hmodes : ∀ logger, (t.pushers logger).modeLocal = (s.pushers logger).modeLocal)
    (hfailures : ∀ thread call, t.calls thread = some call → call.phase ≠ .sending →
      call.logger = .service)
    (hcovered : Covered s → Covered t) : Recoverability t where
  others name := (hmodes _).trans (h.others name)
  failures := hfailures
  covered hlocal := hcovered (h.covered ((hmodes _).symm.trans hlocal))

theorem failures_setCall (h : Recoverability s) (thread : Nat) {new : Option PushCall}
    (hnew : ∀ call, new = some call → call.phase ≠ .sending → call.logger = .service) :
    ∀ other call, (s.setCall thread new).calls other = some call → call.phase ≠ .sending →
      call.logger = .service := by
  intro other call hcall hphase
  rw [LogState.calls_setCall] at hcall
  split at hcall
  · exact hnew call hcall hphase
  · exact h.failures other call hcall hphase

theorem setCall (h : Recoverability s) {thread : Nat} {old new : Option PushCall}
    (hold : s.calls thread = old) (hphase : ∀ call, old = some call → call.phase.recovering = false)
    (hnew : ∀ call, new = some call → call.phase ≠ .sending → call.logger = .service) :
    Recoverability (s.setCall thread new) :=
  h.of_modes (fun _ => rfl) (h.failures_setCall thread hnew) fun hs => hs.setCall hold hphase new

theorem setCall_held (h : Recoverability s) {thread : Nat} {old : PushCall}
    (hold : s.calls thread = some old) (hphase : old.phase ≠ .initializing) (hheld : Held s) :
    Recoverability (s.setCall thread none) :=
  h.of_modes (fun _ => rfl) (h.failures_setCall thread nofun) fun _ =>
    hheld.covered_setCall hold hphase none

theorem setCall_recovering (h : Recoverability s) {thread : Nat} {old new : PushCall}
    (hold : s.calls thread = some old) (hphase : old.phase ≠ .sending)
    (hlogger : new.logger = old.logger) (hnew : new.phase.recovering = true) :
    Recoverability (s.setCall thread (some new)) := by
  refine h.of_modes (fun _ => rfl) (h.failures_setCall thread ?_) fun _ =>
    covered_setCall_recovering s thread hnew
  rintro call ⟨⟩ -
  exact hlogger.trans (h.failures thread old hold hphase)

theorem modify (h : Recoverability s) (f : Pusher → Pusher)
    (hf : ∀ p, (f p).modeLocal = p.modeLocal) (logger : Logger) :
    Recoverability (s.modify logger f) :=
  h.of_modes (s.modeLocal_modify_of_same hf logger) h.failures (covered_congr rfl rfl).mpr

theorem withProducer (h : Recoverability s) (f : Producer → Producer) (logger : Logger) :
    Recoverability (s.modify logger (Pusher.withProducer f)) :=
  h.modify (Pusher.withProducer f) (fun _ => rfl) logger

theorem modify_remote (h : Recoverability s) :
    Recoverability (s.modify .service (Pusher.setWorkMode false)) := by
  refine ⟨?_, h.failures, ?_⟩
  · intro name
    rw [LogState.modeLocal_modify_setWorkMode, if_neg nofun, h.others]
  · intro hlocal
    rw [LogState.modeLocal_modify_setWorkMode, if_pos rfl] at hlocal
    cases hlocal

theorem modify_local (h : Recoverability s) (hcovered : Covered s) :
    Recoverability (s.modify .service (Pusher.setWorkMode true)) := by
  refine ⟨?_, h.failures, fun _ => (covered_congr rfl rfl).mpr hcovered⟩
  intro name
  rw [LogState.modeLocal_modify_setWorkMode, if_neg nofun, h.others]

theorem drCb (h : Recoverability s) (logger : Logger) (delivered : Bool)
    (hfirst : delivered = false → ∀ p, (s.pushers logger).producer = some p →
      p.needRecover = false → Covered s) : Recoverability (s.drCb logger delivered) := by
  simp only [LogState.drCb]
  split
  · exact h
  · rename_i p hp
    split
    · rename_i hfailed
      rw [Bool.and_eq_true, Bool.not_eq_true', Bool.not_eq_true'] at hfailed
      exact (h.modify_local (hfirst hfailed.1 p hp hfailed.2)).withProducer _ logger
    · split
      · exact (h.withProducer _ logger).modify_remote
      · exact h

theorem setStarted (h : Recoverability s) (started : Bool) :
    Recoverability { s with started := started } :=
  ⟨h.others, h.failures, h.covered⟩

theorem setMonitor (h : Recoverability s) {monitor : Option Monitor}
    (hmonitor : (s.pushers .service).modeLocal = true →
      ∃ m, monitor = some m ∧ m.phase ≠ .exiting) : Recoverability (s.setMonitor monitor) where
  others := h.others
  failures := h.failures
  covered hlocal := .inl (hmonitor hlocal)

theorem start : Recoverability remoteStart := by
  refine ⟨fun _ => rfl, ?_, ?_⟩
  · intro thread call hcall
    cases hcall
  · intro hlocal
    cases hlocal

theorem step (h : Recoverability s) {event : LogEvent} (hguard : Supervised s event)
    (hstep : LogStep s event t) : Recoverability t := by
  cases hstep with
  | pushRemote hidle hmode =>
      refine h.setCall hidle nofun ?_
      rintro call ⟨⟩ hphase
      exact absurd rfl hphase
  | pushLocal hidle hmode => exact h.modify (Pusher.runLocal _) (fun _ => rfl) _
  | pushDropped hidle hmode => exact h
  | sendOk hcall hproducer =>
      refine (h.withProducer _ _).setCall hcall ?_ nofun
      rintro call ⟨⟩
      rfl
  | sendError hcall hproducer =>
      refine h.setCall hcall ?_ ?_
      · rintro call ⟨⟩
        rfl
      · rintro call ⟨⟩ -
        have hservice := hguard _ hcall
        exact hservice
  | @setLocal thread logger log hcall =>
      have hservice : logger = .service := h.failures thread _ hcall nofun
      subst hservice
      -- the switch of the mode and the move of the call commute
      have hmoved : Recoverability (s.setCall thread (some ⟨.service, log, .starting⟩)) :=
        h.setCall_recovering hcall nofun rfl rfl
      exact hmoved.modify_local (covered_setCall_recovering s thread rfl)
  | alreadyStarted hcall hstarted => exact h.setCall_held hcall nofun (hguard hstarted)
  | notStarted hcall hstarted => exact h.setCall_recovering hcall nofun rfl rfl
  | swapLost hcall hstarted => exact h.setCall_held hcall nofun (hguard hstarted)
  | swapWon hcall hstarted => exact (h.setStarted true).setCall_recovering hcall nofun rfl rfl
  | created hcall =>
      exact h.of_modes (fun _ => rfl) (h.failures_setCall _ nofun) fun _ => .inl ⟨_, rfl, nofun⟩
  | notCreated hcall => cases hguard
  | @report logger p msg delivered hproducer hawaiting =>
      refine (h.withProducer _ logger).drCb logger delivered ?_
      rintro rfl p' hp' hneed
      rw [LogState.pushers_modify, if_pos rfl, Pusher.withProducer, hproducer] at hp'
      cases hp'
      exact (covered_congr rfl rfl).mpr (hguard p hproducer hneed)
  | monitorSendOk hmonitor hproducer =>
      exact (h.withProducer _ _).setMonitor fun _ => ⟨_, rfl, nofun⟩
  | monitorSendError hmonitor hproducer => exact h.setMonitor fun _ => ⟨_, rfl, nofun⟩
  | monitorRecover hmonitor =>
      refine h.modify_remote.setMonitor fun hlocal => ?_
      rw [LogState.modeLocal_modify_setWorkMode, if_pos rfl] at hlocal
      cases hlocal
  | monitorRetry hmonitor hmode => exact h.setMonitor fun _ => ⟨_, rfl, nofun⟩
  | monitorLeave hmonitor hmode =>
      refine h.setMonitor fun hlocal => ?_
      cases hmode.symm.trans hlocal
  | monitorExit hmonitor =>
      refine ⟨h.others, h.failures, fun hlocal => ?_⟩
      cases h.covered hlocal with
      | inl hlive =>
          obtain ⟨m, hm, hphase⟩ := hlive
          cases hmonitor.symm.trans hm
          exact absurd rfl hphase
      | inr hpush => exact .inr hpush

theorem not_stuck (h : Recoverability s) : ¬Stuck s := by
  intro hstuck
  obtain ⟨logger, hlocal⟩ := hstuck.isLocal
  cases logger with
  | named name => cases (h.others name).symm.trans hlocal
  | service =>
      cases h.covered hlocal with
      | inl hlive =>
          obtain ⟨m, hm, -⟩ := hlive
          cases hstuck.noMonitor.symm.trans hm
      | inr hpush =>
          obtain ⟨thread, call, hcall, hphase⟩ := hpush
          cases (hstuck.noRecovery thread call hcall).symm.trans hphase

end Recoverability

/-- Along every supervised run no pusher gets stuck in local mode. -/
theorem not_stuck_supervised (events : List LogEvent) (s : LogState)
    (hrun : Run logSystem Supervised events s) : ¬Stuck s := by
  have hs : Recoverability s := by
    refine Run.invariant Recoverability ?_ ?_ hrun
    · rintro s rfl
      exact Recoverability.start
    · intro s event t h hguard hstep
      exact h.step hguard hstep
  exact hs.not_stuck

theorem not_stuck_supervised_sample :
    ∃ events s, Run logSystem Supervised events s ∧ (s.pushers .service).modeLocal = true ∧
      ¬Stuck s := by
  have hstart : Run logSystem Supervised [] remoteStart := .start rfl
  have hpush : Run logSystem Supervised [.push 0 .service (bytes "imp=1") true] _ :=
    hstart.next trivial (.pushRemote rfl rfl)
  have hsend : Run logSystem Supervised
      [.push 0 .service (bytes "imp=1") true, .send 0 .sendError] _ :=
    hpush.next (fun call hcall => by cases hcall; rfl) (.sendError rfl rfl)
  have hlocal : Run logSystem Supervised
      [.push 0 .service (bytes "imp=1") true, .send 0 .sendError, .setLocal 0] _ :=
    hsend.next trivial (.setLocal rfl)
  exact ⟨_, _, hlocal, rfl, not_stuck_supervised _ _ hlocal⟩

def undelivered (log : Bytes) : LogState :=
  (((remoteStart.setCall 0 (some ⟨.service, log, .sending⟩)).modify .service
    (Pusher.withProducer (Producer.produce log))).setCall 0 none |>.modify .service
      (Pusher.withProducer (Producer.reported log))).drCb .service false

theorem run_undelivered (log : Bytes) :
    Run logSystem (fun _ _ => True)
      [.push 0 .service log true, .send 0 .sendOk, .report .service log false]
      (undelivered log) := by
  have hstart : Run logSystem (fun _ _ => True) [] remoteStart := .start rfl
  have hpush : LogStep remoteStart (.push 0 .service log true) _ := .pushRemote rfl rfl
  have hsend : LogStep (remoteStart.setCall 0 (some ⟨.service, log, .sending⟩))
      (.send 0 .sendOk) _ := .sendOk rfl rfl
  refine ((hstart.next trivial hpush).next trivial hsend).next trivial ?_
  exact LogStep.report rfl (Multiset.mem_cons_self log 0)

theorem stuck_undelivered (log : Bytes) : Stuck (undelivered log) := by
  refine ⟨⟨.service, rfl⟩, rfl, ?_, ?_⟩
  · intro thread call hcall
    rw [undelivered, LogState.calls_drCb, LogState.calls_modify, LogState.calls_setCall,
      LogState.calls_modify, LogState.calls_setCall] at hcall
    split at hcall <;> cases hcall
  · intro logger p hp
    cases logger with
    | named name =>
        have hnamed : (undelivered log).pushers (.named name) = Pusher.create false := rfl
        rw [hnamed] at hp
        cases hp
        rfl
    | service =>
        have hservice : ((undelivered log).pushers .service).producer =
            some ⟨true, (log ::ₘ 0).erase log⟩ := rfl
        rw [hservice] at hp
        cases hp
        exact Multiset.erase_cons_head log 0

theorem stuck_reachable :
    ¬∀ (events : List LogEvent) (s : LogState), Run logSystem (fun _ _ => True) events s →
      ¬Stuck s := by
  intro h
  exact h _ _ (run_undelivered (bytes "imp=1")) (stuck_undelivered (bytes "imp=1"))

end AdServer.Log
