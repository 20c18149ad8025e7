import AdServer.Log.WorkMode

/-!
The slot of the monitor thread. `param.started` is set by the compare-and-swap of
`startRemoteMonitor` and reset by the monitor at its end. Whoever wins the swap is alone
in creating the thread. If `pthread_create` fails it returns without a reset, and nobody
is left who would release the slot.
-/
namespace AdServer.Log

open Transition

/-- Whoever creates the monitor thread holds the slot, is alone in doing so and finds no
monitor. -/
structure SlotOrderly (s : LogState) : Prop where
  free : s.started = false → s.monitor = none ∧
    ∀ thread call, s.calls thread = some call → call.phase ≠ .initializing
  alone : ∀ thread call, s.calls thread = some call → call.phase = .initializing →
    s.monitor = none ∧ ∀ other call', s.calls other = some call' → call'.phase = .initializing →
      other = thread

theorem some_not_initializing {call : PushCall} (h : call.phase ≠ .initializing) :
    ∀ call', some call = some call' → call'.phase ≠ .initializing := by
  rintro call' ⟨⟩
  exact h

/-- The changes of the state that the steps are made of keep a property. -/
structure KeptByChanges (P : LogState → Prop) : Prop where
  modify : ∀ {s}, P s → ∀ logger f, P (s.modify logger f)
  setCall : ∀ {s}, P s → ∀ thread {new : Option PushCall},
    (∀ call, new = some call → call.phase ≠ .initializing) → P (s.setCall thread new)
  setMonitor : ∀ {s}, P s → ∀ {monitor}, s.monitor = some monitor → ∀ new, P (s.setMonitor new)
  swap : ∀ {s}, P s → s.started = false → ∀ thread call,
    P ({ s with started := true }.setCall thread (some call))
  create : ∀ {s}, P s → ∀ {thread call}, s.calls thread = some call →
    call.phase = .initializing → ∀ monitor,
      P ((s.setMonitor (some monitor)).setCall thread none)
  exit : ∀ {s}, P s → ∀ {monitor}, s.monitor = some monitor →
    P { s with started := false, monitor := none }

section
variable {P : LogState → Prop} {s t : LogState}

theorem KeptByChanges.drCb (hP : KeptByChanges P) (h : P s) (logger : Logger) (delivered : Bool) :
    P (s.drCb logger delivered) := by
  simp only [LogState.drCb]
  split
  · exact h
  · split
    · exact hP.modify (hP.modify h _ _) _ _
    · split
      · exact hP.modify (hP.modify h _ _) _ _
      · exact h

/-- So does every step. -/
theorem KeptByChanges.step (hP : KeptByChanges P) (h : P s) {event : LogEvent}
    (hstep : LogStep s event t) : P t := by
  cases hstep with
  | pushRemote hidle hmode => exact hP.setCall h _ (some_not_initializing nofun)
  | pushLocal hidle hmode => exact hP.modify h _ _
  | pushDropped hidle hmode => exact h
  | sendOk hcall hproducer => exact hP.setCall (hP.modify h _ _) _ nofun
  | sendError hcall hproducer => exact hP.setCall h _ (some_not_initializing nofun)
  | setLocal hcall => exact hP.setCall (hP.modify h _ _) _ (some_not_initializing nofun)
  | alreadyStarted hcall hstarted => exact hP.setCall h _ nofun
  | notStarted hcall hstarted => exact hP.setCall h _ (some_not_initializing nofun)
  | swapLost hcall hstarted => exact hP.setCall h _ nofun
  | swapWon hcall hstarted => exact hP.swap h hstarted _ _
  | created hcall => exact hP.create h hcall rfl _
  | notCreated hcall => exact hP.setCall h _ nofun
  | report hproducer hawaiting => exact hP.drCb (hP.modify h _ _) _ _
  | monitorSendOk hmonitor hproducer => exact hP.setMonitor (hP.modify h _ _) hmonitor _
  | monitorSendError hmonitor hproducer => exact hP.setMonitor h hmonitor _
  | monitorRecover hmonitor => exact hP.setMonitor (hP.modify h _ _) hmonitor _
  | monitorRetry hmonitor hmode => exact hP.setMonitor h hmonitor _
  | monitorLeave hmonitor hmode => exact hP.setMonitor h hmonitor _
  | monitorExit hmonitor => exact hP.exit h hmonitor

end

namespace SlotOrderly

variable {s t : LogState}

theorem of_calls (h : SlotOrderly s) (hstarted : t.started = s.started)
    (hmonitor : t.monitor = s.monitor)
    (hcalls : ∀ thread call, t.calls thread = some call → call.phase = .initializing →
      s.calls thread = some call) : SlotOrderly t := by
  refine ⟨?_, ?_⟩
  · intro hfree
    obtain ⟨hnone, hphases⟩ := h.free (hstarted.symm.trans hfree)
    exact ⟨hmonitor.trans hnone, fun thread call hcall hphase =>
      hphases thread call (hcalls thread call hcall hphase) hphase⟩
  · intro thread call hcall hphase
    obtain ⟨hnone, halone⟩ := h.alone thread call (hcalls thread call hcall hphase) hphase
    exact ⟨hmonitor.trans hnone, fun other call' hcall' hphase' =>
      halone other call' (hcalls other call' hcall' hphase') hphase'⟩

theorem modify (h : SlotOrderly s) (logger : Logger) (f : Pusher → Pusher) :
    SlotOrderly (s.modify logger f) :=
  h.of_calls rfl rfl fun _ _ hcall _ => hcall

theorem setCall (h : SlotOrderly s) (thread : Nat) {new : Option PushCall}
    (hnew : ∀ call, new = some call → call.phase ≠ .initializing) :
    SlotOrderly (s.setCall thread new) := by
  refine h.of_calls rfl rfl ?_
  intro other call hcall hphase
  rw [LogState.calls_setCall] at hcall
  split at hcall
  · exact absurd hphase (hnew call hcall)
  · exact hcall

theorem setMonitor (h : SlotOrderly s) {monitor : Monitor} (hmonitor : s.monitor = some monitor)
    (new : Option Monitor) : SlotOrderly (s.setMonitor new) where
  free hstarted := by cases hmonitor.symm.trans (h.free hstarted).1
  alone thread call hcall hphase := by
    cases hmonitor.symm.trans (h.alone thread call hcall hphase).1

theorem swap (h : SlotOrderly s) (hstarted : s.started = false) (thread : Nat)
    (call : PushCall) : SlotOrderly ({ s with started := true }.setCall thread (some call)) := by
  obtain ⟨hmonitor, hfree⟩ := h.free hstarted
  have hthread : ∀ other call',
      ({ s with started := true }.setCall thread (some call)).calls other = some call' →
      call'.phase = .initializing → other = thread := by
    intro other call' hcall hphase
    rw [LogState.calls_setCall] at hcall
    split at hcall
    · assumption
    · exact absurd hphase (hfree other call' hcall)
  refine ⟨nofun, ?_⟩
  intro other call' hcall hphase
  refine ⟨hmonitor, fun other' call'' hcall' hphase' => ?_⟩
  rw [hthread other call' hcall hphase, hthread other' call'' hcall' hphase']

/-- Once the thread that creates the monitor has returned, no other creates one. -/
theorem none_initializing (h : SlotOrderly s) {thread : Nat} {call : PushCall}
    (hcall : s.calls thread = some call) (hphase : call.phase = .initializing) {other : Nat}
    {call' : PushCall} (hcall' : (s.setCall thread none).calls other = some call') :
    call'.phase ≠ .initializing := by
  intro hphase'
  rw [LogState.calls_setCall] at hcall'
  split at hcall'
  · cases hcall'
  · rename_i hother
    exact hother ((h.alone thread call hcall hphase).2 other call' hcall' hphase')

theorem create (h : SlotOrderly s) {thread : Nat} {call : PushCall}
    (hcall : s.calls thread = some call) (hphase : call.phase = .initializing)
    (monitor : Monitor) : SlotOrderly ((s.setMonitor (some monitor)).setCall thread none) where
  free hstarted := absurd hphase ((h.free hstarted).2 thread call hcall)
  alone _ _ hcall' hphase' := absurd hphase' (h.none_initializing hcall hphase hcall')

theorem exit (h : SlotOrderly s) {monitor : Monitor} (hmonitor : s.monitor = some monitor) :
    SlotOrderly { s with started := false, monitor := none } where
  free _ := by
    refine ⟨rfl, fun thread call hcall hphase => ?_⟩
    cases hmonitor.symm.trans (h.alone thread call hcall hphase).1
  alone thread call hcall hphase := by
    cases hmonitor.symm.trans (h.alone thread call hcall hphase).1

theorem changes : KeptByChanges SlotOrderly where
  modify := modify
  setCall := setCall
  setMonitor := setMonitor
  swap := swap
  create := create
  exit := exit

theorem step (h : SlotOrderly s) {event : LogEvent} (hstep : LogStep s event t) :
    SlotOrderly t :=
  changes.step h hstep

theorem pusherStep (h : SlotOrderly s) {event : PusherEvent} (hstep : PusherStep s event t) :
    SlotOrderly t := by
  cases hstep with
  | log hlog => exact h.step hlog
  | setWorkMode => exact h.modify _ _

end SlotOrderly

/-! ### Who holds the slot -/

/-- A thread is between its compare-and-swap and its return from `startRemoteMonitor`. -/
def Creating (s : LogState) : Prop :=
  ∃ thread call, s.calls thread = some call ∧ call.phase = .initializing

/-- A slot that is taken is held by the monitor or by the thread that creates it, and
otherwise the next thread that has failed to send can create one. -/
structure SlotAccurate (s : LogState) : Prop where
  held : s.started = true → s.monitor.isSome ∨ Creating s
  startable : s.monitor = none → ¬ Creating s → ∀ thread call, s.calls thread = some call →
    call.phase = .starting → ∃ tested swapped created,
      LogStep s (.testStarted thread) tested ∧ LogStep tested (.swap thread) swapped ∧
      LogStep swapped (.create thread true) created ∧ created.monitor.isSome

def NoCreateFails : PusherEvent → Prop
  | .log (.create _ created) => created = true
  | _ => True

/-- A thread that finds the slot free and is not disturbed wins it. -/
theorem win_slot {s : LogState} (hfree : s.started = false) {thread : Nat} {call : PushCall}
    (hcall : s.calls thread = some call) (hphase : call.phase = .starting) :
    ∃ tested swapped, LogStep s (.testStarted thread) tested ∧
      LogStep tested (.swap thread) swapped ∧
      swapped.calls thread = some ⟨call.logger, call.log, .initializing⟩ := by
  obtain ⟨logger, log, phase⟩ := call
  cases hphase
  have hset : ∀ (s : LogState) (new : Option PushCall), (s.setCall thread new).calls thread = new :=
    fun s new => by rw [LogState.calls_setCall, if_pos rfl]
  exact ⟨_, _, .notStarted hcall hfree, .swapWon (hset _ _) hfree, hset _ _⟩

theorem slotAccurate_of_held {s : LogState}
    (hheld : s.started = true → s.monitor.isSome ∨ Creating s) : SlotAccurate s := by
  refine ⟨hheld, ?_⟩
  intro hmonitor hcreating thread call hcall hphase
  have hfree : s.started = false := by
    by_contra hstarted
    rw [Bool.not_eq_false] at hstarted
    cases hheld hstarted with
    | inl hsome =>
        rw [hmonitor] at hsome
        cases hsome
    | inr hcreates => exact hcreating hcreates
  obtain ⟨tested, swapped, htest, hswap, hwon⟩ := win_slot hfree hcall hphase
  exact ⟨tested, swapped, _, htest, hswap, .created hwon, rfl⟩

section
variable {s t : LogState}

theorem creating_setCall_of_ne {thread : Nat} {old : Option PushCall} (hold : s.calls thread = old)
    (hphase : ∀ call, old = some call → call.phase ≠ .initializing) (new : Option PushCall)
    (h : Creating s) : Creating (s.setCall thread new) := by
  obtain ⟨other, call, hcall, hcreates⟩ := h
  have hother : other ≠ thread := by
    rintro rfl
    exact hphase call (hold.symm.trans hcall) hcreates
  refine ⟨other, call, ?_, hcreates⟩
  rw [LogState.calls_setCall, if_neg hother, hcall]

theorem creating_congr (hcalls : t.calls = s.calls) : Creating t ↔ Creating s := by
  simp only [Creating, hcalls]

def SlotHeld (s : LogState) : Prop := s.started = true → s.monitor.isSome ∨ Creating s

namespace SlotHeld

theorem congr (h : SlotHeld s) (hstarted : t.started = s.started) (hmonitor : t.monitor = s.monitor)
    (hcalls : t.calls = s.calls) : SlotHeld t := by
  intro htaken
  rw [hmonitor, creating_congr hcalls]
  exact h (hstarted.symm.trans htaken)

theorem modify (h : SlotHeld s) (logger : Logger) (f : Pusher → Pusher) :
    SlotHeld (s.modify logger f) :=
  h.congr rfl rfl rfl

theorem drCb (h : SlotHeld s) (logger : Logger) (delivered : Bool) :
    SlotHeld (s.drCb logger delivered) :=
  h.congr (LogState.started_drCb s logger delivered) (LogState.monitor_drCb s logger delivered)
    (LogState.calls_drCb s logger delivered)

theorem setCall (h : SlotHeld s) {thread : Nat} {old : Option PushCall}
    (hold : s.calls thread = old) (hphase : ∀ call, old = some call → call.phase ≠ .initializing)
    (new : Option PushCall) : SlotHeld (s.setCall thread new) := by
  intro htaken
  cases h htaken with
  | inl hmonitor => exact .inl hmonitor
  | inr hcreating => exact .inr (creating_setCall_of_ne hold hphase new hcreating)

theorem step (h : SlotHeld s) {event : LogEvent} (hcreate : NoCreateFails (.log event))
    (hstep : LogStep s event t) : SlotHeld t := by
  cases hstep with
  | pushRemote hidle hmode => exact h.setCall hidle nofun _
  | pushLocal hidle hmode => exact h.modify _ _
  | pushDropped hidle hmode => exact h
  | sendOk hcall hproducer => exact (h.modify _ _).setCall hcall (some_not_initializing nofun) _
  | sendError hcall hproducer => exact h.setCall hcall (some_not_initializing nofun) _
  | setLocal hcall => exact (h.modify _ _).setCall hcall (some_not_initializing nofun) _
  | alreadyStarted hcall hstarted => exact h.setCall hcall (some_not_initializing nofun) _
  | notStarted hcall hstarted => exact h.setCall hcall (some_not_initializing nofun) _
  | swapLost hcall hstarted => exact h.setCall hcall (some_not_initializing nofun) _
  | @swapWon thread logger log hcall hstarted =>
      intro _
      refine .inr ⟨thread, ⟨logger, log, .initializing⟩, ?_, rfl⟩
      rw [LogState.calls_setCall, if_pos rfl]
  | created hcall => exact fun _ => .inl rfl
  | notCreated hcall => cases hcreate
  | report hproducer hawaiting => exact (h.modify _ _).drCb _ _
  | monitorSendOk hmonitor hproducer => exact fun _ => .inl rfl
  | monitorSendError hmonitor hproducer => exact fun _ => .inl rfl
  | monitorRecover hmonitor => exact fun _ => .inl rfl
  | monitorRetry hmonitor hmode => exact fun _ => .inl rfl
  | monitorLeave hmonitor hmode => exact fun _ => .inl rfl
  | monitorExit hmonitor => nofun

end SlotHeld

/-- If the thread cannot be created, the slot stays taken and nobody holds it. -/
theorem SlotOrderly.not_held (h : SlotOrderly s) {thread : Nat} {call : PushCall}
    (hcall : s.calls thread = some call) (hphase : call.phase = .initializing) :
    ¬ SlotHeld (s.setCall thread none) := by
  intro hheld
  obtain ⟨hmonitor, -⟩ := h.alone thread call hcall hphase
  have hstarted : s.started = true := by
    by_contra hfree
    rw [Bool.not_eq_true] at hfree
    exact (h.free hfree).2 thread call hcall hphase
  cases hheld hstarted with
  | inl hsome =>
      have hnone : (s.setCall thread none).monitor = none := hmonitor
      rw [hnone] at hsome
      cases hsome
  | inr hcreating =>
      obtain ⟨other, call', hcall', hphase'⟩ := hcreating
      exact h.none_initializing hcall hphase hcall' hphase'

theorem SlotOrderly.held_iff (h : SlotOrderly s) (hheld : SlotHeld s) {event : PusherEvent}
    (hstep : PusherStep s event t) : SlotHeld t ↔ NoCreateFails event := by
  refine ⟨?_, ?_⟩
  · intro hnext
    cases hstep with
    | setWorkMode => trivial
    | log hlog =>
        cases hlog with
        | notCreated hcall => exact absurd hnext (h.not_held hcall rfl)
        | created hcall => rfl
        | _ => trivial
  · intro hcreate
    cases hstep with
    | setWorkMode => exact hheld.modify _ _
    | log hlog => exact hheld.step hcreate hlog

end

theorem slotAccurate_iff_held {s : LogState} : SlotAccurate s ↔ SlotHeld s :=
  ⟨SlotAccurate.held, slotAccurate_of_held⟩

theorem SlotOrderly.start (modes : Logger → Bool) : SlotOrderly (startIn modes) :=
  ⟨fun _ => ⟨rfl, nofun⟩, nofun⟩

/-- The runs in which the slot is accurate throughout are those in which no creation of the
monitor thread fails. -/
theorem slot_accurate_iff (modes : Logger → Bool) (events : List PusherEvent) (s : LogState) :
    Throughout (pusherSystem modes) SlotAccurate events s ↔
      Run (pusherSystem modes) (fun _ event => NoCreateFails event) events s := by
  refine throughout_iff SlotOrderly SlotAccurate ?_ ?_ ?_ events s
  · rintro s rfl
    exact ⟨SlotOrderly.start modes, slotAccurate_iff_held.mpr nofun⟩
  · intro s event t h haccurate hstep
    rw [slotAccurate_iff_held]
    exact h.held_iff haccurate.held hstep
  · intro s event t h _ _ hstep
    exact h.pusherStep hstep

def unsent (log : Bytes) : LogState :=
  (((startIn fun _ => false).setCall 0 (some ⟨.service, log, .sending⟩)).setCall 0
    (some ⟨.service, log, .failed⟩)).modify .service (Pusher.setWorkMode true) |>.setCall 0
      (some ⟨.service, log, .starting⟩)

theorem run_unsent (log : Bytes) :
    Run (pusherSystem fun _ => false) (fun _ _ => True)
      [.log (.push 0 .service log true), .log (.send 0 .sendError), .log (.setLocal 0)]
      (unsent log) := by
  have hpush : Run (pusherSystem fun _ => false) (fun _ _ => True)
      [.log (.push 0 .service log true)] _ :=
    (Run.start rfl).next trivial (.log (.pushRemote rfl rfl))
  have hsend : Run (pusherSystem fun _ => false) (fun _ _ => True)
      [.log (.push 0 .service log true), .log (.send 0 .sendError)] _ :=
    hpush.next trivial (.log (.sendError rfl rfl))
  exact hsend.next trivial (.log (.setLocal rfl))

/-- After a failed creation the slot is taken, no monitor runs and no start is in progress. -/
theorem slot_inaccurate :
    ∃ s, Run (pusherSystem fun _ => false) (fun _ _ => True)
        [.log (.push 0 .service (bytes "imp=1") true), .log (.send 0 .sendError),
          .log (.setLocal 0), .log (.testStarted 0), .log (.swap 0), .log (.create 0 false)] s ∧
      ¬ SlotAccurate s := by
  have hcall : (unsent (bytes "imp=1")).calls 0 = some ⟨.service, bytes "imp=1", .starting⟩ := rfl
  obtain ⟨tested, swapped, htest, hswap, hwon⟩ := win_slot rfl hcall rfl
  have hswapped := ((run_unsent (bytes "imp=1")).next trivial (.log htest)).next trivial
    (.log hswap)
  have horderly : SlotOrderly swapped := by
    refine Run.invariant SlotOrderly ?_ (fun s event t h _ hstep => h.pusherStep hstep) hswapped
    rintro s rfl
    exact SlotOrderly.start _
  refine ⟨_, hswapped.next trivial (.log (.notCreated hwon)), ?_⟩
  rw [slotAccurate_iff_held]
  exact horderly.not_held hwon rfl

end AdServer.Log
