import AdServer.Log.Pusher

/-!
The work mode of the pushers and their producers. A pusher is constructed in local or in
remote mode, and `setWorkMode` may be called on it from anywhere. `setWorkMode(false)` is
to create the producer that a pusher constructed in local mode has not got, but it tests
the mode that it is about to leave, so the call that would need the producer does not
create it.
-/
namespace AdServer.Log

open Transition

/-- What happens to the pushers: the steps of their own threads, and a call from outside. -/
inductive PusherEvent where
  | log (event : LogEvent)
  | setWorkMode (logger : Logger) (workLocal : Bool)

inductive PusherStep : LogState → PusherEvent → LogState → Prop where
  | log {s t : LogState} {event : LogEvent} (hstep : LogStep s event t) :
      PusherStep s (.log event) t
  | setWorkMode {s : LogState} {logger : Logger} {workLocal : Bool} :
      PusherStep s (.setWorkMode logger workLocal)
        (s.modify logger (Pusher.setWorkMode workLocal))

def startIn (modes : Logger → Bool) : LogState :=
  { remoteStart with pushers := fun logger => Pusher.create (modes logger) }

def pusherSystem (modes : Logger → Bool) : System LogState PusherEvent where
  init s := s = startIn modes
  step := PusherStep

/-- The call of `setWorkMode` that `dr_cb` makes. -/
def LogState.drSwitch (s : LogState) (logger : Logger) (delivered : Bool) :
    Option (Logger × Bool) :=
  match (s.pushers logger).producer with
  | none => none
  | some p =>
    if !delivered && !p.needRecover then some (.service, true)
    else if delivered && p.needRecover then some (.service, false)
    else none

/-- The call of `setWorkMode` that an event makes. -/
def PusherEvent.switch (s : LogState) : PusherEvent → Option (Logger × Bool)
  | .setWorkMode logger workLocal => some (logger, workLocal)
  | .log (.setLocal thread) => (s.calls thread).map fun call => (call.logger, true)
  | .log .monitorRecover => some (.service, false)
  | .log (.report logger _ delivered) => s.drSwitch logger delivered
  | _ => none

def Pusher.shape (p : Pusher) : Bool × Bool := (p.modeLocal, p.producer.isSome)

def switched (call : Option (Logger × Bool)) (logger : Logger) (p : Pusher) : Pusher :=
  match call with
  | some (target, workLocal) => if logger = target then p.setWorkMode workLocal else p
  | none => p

namespace Pusher

theorem shape_withProducer (f : Producer → Producer) (p : Pusher) :
    (p.withProducer f).shape = p.shape := by
  simp only [shape, withProducer, Option.isSome_map]

theorem shape_setWorkMode (workLocal : Bool) (p : Pusher) :
    (p.setWorkMode workLocal).shape =
      (workLocal, p.producer.isSome || (!workLocal && !p.modeLocal)) := by
  obtain ⟨modeLocal, producer, localTasks⟩ := p
  cases workLocal <;> cases modeLocal <;> cases producer <;> rfl

end Pusher

theorem shape_modify {f : Pusher → Pusher} (hf : ∀ p, (f p).shape = p.shape) (s : LogState)
    (logger other : Logger) :
    ((s.modify logger f).pushers other).shape = (s.pushers other).shape := by
  rw [LogState.pushers_modify]
  split
  · rename_i heq
    rw [hf, heq]
  · rfl

theorem modify_setWorkMode (s : LogState) (logger other : Logger) (workLocal : Bool) :
    (s.modify logger (Pusher.setWorkMode workLocal)).pushers other =
      switched (some (logger, workLocal)) other (s.pushers other) := by
  rw [LogState.pushers_modify, switched]
  split
  · rename_i heq
    rw [heq]
  · rfl

theorem shape_switched_congr {p q : Pusher} (h : p.shape = q.shape)
    (call : Option (Logger × Bool)) (logger : Logger) :
    (switched call logger p).shape = (switched call logger q).shape := by
  have hmode : p.modeLocal = q.modeLocal := congrArg Prod.fst h
  have hproducer : p.producer.isSome = q.producer.isSome := congrArg Prod.snd h
  unfold switched
  split
  · split
    · rw [Pusher.shape_setWorkMode, Pusher.shape_setWorkMode, hmode, hproducer]
    · exact h
  · exact h

theorem shape_drCb (s : LogState) (logger other : Logger) (delivered : Bool) :
    ((s.drCb logger delivered).pushers other).shape =
      (switched (s.drSwitch logger delivered) other (s.pushers other)).shape := by
  cases hproducer : (s.pushers logger).producer with
  | none => simp only [LogState.drCb, LogState.drSwitch, hproducer, switched]
  | some p =>
      simp only [LogState.drCb, LogState.drSwitch, hproducer]
      split
      · rw [LogState.setNeedRecover, shape_modify (Pusher.shape_withProducer _),
          modify_setWorkMode]
      · split
        · rw [modify_setWorkMode]
          exact shape_switched_congr (shape_modify (Pusher.shape_withProducer _) s logger other) _ _
        · rfl

theorem drSwitch_reported (s : LogState) (logger : Logger) (msg : Bytes) (delivered : Bool) :
    (s.modify logger (Pusher.withProducer (Producer.reported msg))).drSwitch logger delivered =
      s.drSwitch logger delivered := by
  unfold LogState.drSwitch
  rw [LogState.pushers_modify, if_pos rfl, Pusher.withProducer]
  cases (s.pushers logger).producer <;> rfl

/-- All that a step does to the modes and producers is its call of `setWorkMode`. -/
theorem PusherStep.shape {s t : LogState} {event : PusherEvent} (h : PusherStep s event t)
    (logger : Logger) :
    (t.pushers logger).shape = (switched (event.switch s) logger (s.pushers logger)).shape := by
  cases h with
  | setWorkMode => rw [modify_setWorkMode, PusherEvent.switch]
  | log hstep =>
      cases hstep with
      | pushRemote hidle hmode | pushDropped hidle hmode => rfl
      | pushLocal hidle hmode =>
          exact shape_modify (f := Pusher.runLocal _) (fun _ => rfl) s _ logger
      | sendOk hcall hproducer => exact shape_modify (Pusher.shape_withProducer _) s _ logger
      | sendError hcall hproducer => rfl
      | @setLocal thread target log hcall =>
          have hmoved := modify_setWorkMode s target logger true
          rw [PusherEvent.switch, hcall]
          exact congrArg Pusher.shape hmoved
      | alreadyStarted hcall hstarted | notStarted hcall hstarted | swapLost hcall hstarted
      | swapWon hcall hstarted => rfl
      | created hcall | notCreated hcall => rfl
      | @report target p msg delivered hproducer hawaiting =>
          rw [shape_drCb, drSwitch_reported, PusherEvent.switch]
          exact shape_switched_congr (shape_modify (Pusher.shape_withProducer _) s _ logger) _ _
      | monitorSendOk hmonitor hproducer =>
          exact shape_modify (Pusher.shape_withProducer _) s _ logger
      | monitorSendError hmonitor hproducer => rfl
      | monitorRecover hmonitor =>
          exact congrArg Pusher.shape (modify_setWorkMode s .service logger false)
      | monitorRetry hmonitor hmode | monitorLeave hmonitor hmode => rfl
      | monitorExit hmonitor => rfl

/-- A thread is about to send only what it was about to send before, or what it has just
found its pusher in remote mode for. -/
theorem PusherStep.sending {s t : LogState} {event : PusherEvent} (h : PusherStep s event t)
    {thread : Nat} {call : PushCall} (hcall : t.calls thread = some call)
    (hphase : call.phase = .sending) :
    s.calls thread = some call ∨ (s.pushers call.logger).modeLocal = false := by
  have hset : ∀ {other : Nat} {new : Option PushCall},
      (s.setCall other new).calls thread = some call →
      s.calls thread = some call ∨ new = some call := by
    intro other new hnew
    rw [LogState.calls_setCall] at hnew
    split at hnew
    · exact .inr hnew
    · exact .inl hnew
  cases h with
  | setWorkMode => exact .inl hcall
  | log hstep =>
      cases hstep with
      | pushRemote hidle hmode =>
          rcases hset hcall with hsame | hnew
          · exact .inl hsame
          · cases hnew
            exact .inr hmode
      | pushLocal hidle hmode | pushDropped hidle hmode => exact .inl hcall
      | sendOk hold hproducer | alreadyStarted hold hstarted | swapLost hold hstarted
      | created hold | notCreated hold =>
          rcases hset hcall with hsame | hnew
          · exact .inl hsame
          · cases hnew
      | sendError hold hproducer | setLocal hold | notStarted hold hstarted
      | swapWon hold hstarted =>
          rcases hset hcall with hsame | hnew
          · exact .inl hsame
          · cases hnew
            cases hphase
      | report hproducer hawaiting =>
          rw [LogState.calls_drCb] at hcall
          exact .inl hcall
      | monitorSendOk hmonitor hproducer | monitorSendError hmonitor hproducer => exact .inl hcall
      | monitorRecover hmonitor | monitorExit hmonitor => exact .inl hcall
      | monitorRetry hmonitor hmode | monitorLeave hmonitor hmode => exact .inl hcall

/-! ### The producer of a pusher in remote mode -/

/-- Every pusher in remote mode has a producer, and so has every pusher that a thread is
about to send with. -/
structure RemoteReady (s : LogState) : Prop where
  producer : ∀ logger, (s.pushers logger).modeLocal = false → (s.pushers logger).producer.isSome
  send : ∀ thread call, s.calls thread = some call → call.phase = .sending →
    (s.pushers call.logger).producer.isSome

/-- `setWorkMode(false)` is called on pushers that were constructed in remote mode only. -/
def KeepsLocal (modes : Logger → Bool) (s : LogState) (event : PusherEvent) : Prop :=
  ∀ logger, event.switch s = some (logger, false) → modes logger = false

/-- A pusher has the producer that it was constructed with, and without one it is still in
local mode. -/
def AsConstructed (modes : Logger → Bool) (s : LogState) : Prop :=
  ∀ logger, (s.pushers logger).producer.isSome = !modes logger ∧
    (modes logger = true → (s.pushers logger).modeLocal = true)

section
variable {modes : Logger → Bool} {s t : LogState} {event : PusherEvent}

/-- A switched pusher keeps its producer, and gets one where it had none only if it is
switched to remote mode and was in remote mode. -/
theorem producer_switched (call : Option (Logger × Bool)) (logger : Logger) (p : Pusher) :
    (switched call logger p).producer.isSome =
      (p.producer.isSome || (decide (call = some (logger, false)) && !p.modeLocal)) := by
  unfold switched
  split
  · rename_i target workLocal
    split
    · rename_i heq
      have hshape := congrArg Prod.snd (Pusher.shape_setWorkMode workLocal p)
      simp only [Pusher.shape] at hshape
      cases workLocal <;> simp [hshape, heq]
    · rename_i hne
      simp [Ne.symm hne]
  · simp

theorem modeLocal_switched (call : Option (Logger × Bool)) (logger : Logger) (p : Pusher) :
    (switched call logger p).modeLocal =
      if call = some (logger, false) then false
      else if call = some (logger, true) then true else p.modeLocal := by
  unfold switched
  split
  · rename_i target workLocal
    split
    · rename_i heq
      cases workLocal <;> simp [Pusher.setWorkMode, heq]
    · rename_i hne
      simp [Ne.symm hne]
  · simp

theorem AsConstructed.step (h : AsConstructed modes s) (hguard : KeepsLocal modes s event)
    (hstep : PusherStep s event t) : AsConstructed modes t := by
  intro logger
  obtain ⟨hproducer, hlocal⟩ := h logger
  have hshape := hstep.shape logger
  have hproducer' := congrArg Prod.snd hshape
  have hmode' := congrArg Prod.fst hshape
  simp only [Pusher.shape, producer_switched, modeLocal_switched] at hproducer' hmode'
  cases hbuilt : modes logger with
  | true =>
      have hkeeps : event.switch s ≠ some (logger, false) := fun hcall => by
        cases hbuilt.symm.trans (hguard logger hcall)
      rw [hbuilt] at hproducer
      rw [if_neg hkeeps, hlocal hbuilt, ite_self] at hmode'
      refine ⟨?_, fun _ => hmode'⟩
      rw [hproducer', hproducer]
      simp [hkeeps]
  | false =>
      rw [hbuilt] at hproducer
      refine ⟨?_, nofun⟩
      rw [hproducer', hproducer]
      rfl

theorem AsConstructed.ready_iff (h : AsConstructed modes s) (hready : RemoteReady s)
    (hstep : PusherStep s event t) : RemoteReady t ↔ KeepsLocal modes s event := by
  refine ⟨?_, ?_⟩
  · intro hnext logger hcall
    -- the switch itself would leave a pusher without a producer in remote mode
    by_contra hbuilt
    rw [Bool.not_eq_false] at hbuilt
    obtain ⟨hproducer, hlocal⟩ := h logger
    have hshape := hstep.shape logger
    have hproducer' := congrArg Prod.snd hshape
    have hmode' := congrArg Prod.fst hshape
    simp only [Pusher.shape, producer_switched, modeLocal_switched, hcall, if_true]
      at hproducer' hmode'
    have hsome := hnext.producer logger hmode'
    rw [hproducer', hproducer, hbuilt, hlocal hbuilt] at hsome
    cases hsome
  · intro hguard
    have hnext := h.step hguard hstep
    refine ⟨?_, ?_⟩
    · intro logger hmode
      obtain ⟨hproducer, hlocal⟩ := hnext logger
      rw [hproducer]
      cases hbuilt : modes logger with
      | false => rfl
      | true => cases hmode.symm.trans (hlocal hbuilt)
    · intro thread call hcall hphase
      have hsame : (t.pushers call.logger).producer.isSome =
          (s.pushers call.logger).producer.isSome :=
        (hnext call.logger).1.trans (h call.logger).1.symm
      rw [hsame]
      rcases hstep.sending hcall hphase with hold | hmode
      · exact hready.send thread call hold hphase
      · exact hready.producer call.logger hmode

end

/-- The runs in which every pusher in remote mode has a producer throughout, so that no
`send` is called on a null producer, are those in which `setWorkMode(false)` is never
called on a pusher that was constructed in local mode. -/
theorem remoteReady_iff (modes : Logger → Bool) (events : List PusherEvent) (s : LogState) :
    Throughout (pusherSystem modes) RemoteReady events s ↔
      Run (pusherSystem modes) (KeepsLocal modes) events s := by
  refine throughout_iff (AsConstructed modes) RemoteReady ?_ ?_ ?_ events s
  · rintro s rfl
    refine ⟨?_, ?_, ?_⟩
    · intro logger
      simp only [startIn, Pusher.create]
      cases modes logger <;> simp
    · intro logger hmode
      simp only [startIn, Pusher.create] at hmode ⊢
      rw [hmode]
      rfl
    · intro thread call hcall
      cases hcall
  · intro s event t h hready hstep
    exact h.ready_iff hready hstep
  · intro s event t h _ hguard hstep
    exact h.step hguard hstep

/-- A pusher constructed in local mode and switched to remote mode has no producer. -/
theorem remote_without_producer :
    Run (pusherSystem fun _ => true) (fun _ _ => True) [.setWorkMode .service false]
        ((startIn fun _ => true).modify .service (Pusher.setWorkMode false)) ∧
      ¬ RemoteReady ((startIn fun _ => true).modify .service (Pusher.setWorkMode false)) := by
  have hstart : Run (pusherSystem fun _ => true) (fun _ _ => True) [] (startIn fun _ => true) :=
    .start rfl
  refine ⟨hstart.next trivial .setWorkMode, ?_⟩
  intro h
  cases h.producer .service rfl

end AdServer.Log
