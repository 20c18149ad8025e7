import AdServer.Trace.Source
import AdServer.Library.LastWrite
import AdServer.Library.Mealy

/-!
A conversion is attributed to a click through the index of source ids. Clicks write
the index under the text of their user followed by that of their advertiser, and a
trace request reads it under the text of its own two. Pairs with the same text share
an entry, and the last click of all of them owns it.
-/
namespace AdServer.Trace

open Url Billing LastWrite

/-- A click that is recorded: the user, the advertiser and the landing URL are known. -/
structure Click (Rate : Type) (keys : UrlConst → Bytes) where
  userIp : Bytes
  params : ParamMap
  log : LogItem Rate
  user : log.userId ≠ []
  owner : params.value (keys .adownerId) ≠ []
  landing : log.adInfo.landingUrl ≠ []

section
variable {Rate : Type} {keys : UrlConst → Bytes}

def Click.userId (c : Click Rate keys) : Bytes := c.log.userId

def Click.ownerId (c : Click Rate keys) : Bytes := c.params.value (keys .adownerId)

def Click.indexKey (c : Click Rate keys) : Bytes := Trace.indexKey c.userId c.ownerId

/-- The store after a click without failures. A landing URL that does not fit its buffers
does harm only after the writes. -/
def Click.after (c : Click Rate keys) (s : TraceState) : TraceState :=
  ((customLogic keys {} c.userIp c.params c.log s).map ClickOutcome.state).getD
    (recordSource keys {} c.params c.log s).1

/-- The source id that `HandleTraceTask::customLogic` works with. -/
def traceSourceId (keys : UrlConst → Bytes) (userId : Bytes) (m : ParamMap) (s : TraceState) :
    Bytes :=
  let sourceId := m.value (bytes "g")
  if sourceId = [] then (s.index (indexKey userId (m.value (keys .adownerId)))).getD []
  else sourceId

theorem countOrder_eq (fails : Bool) (orderId : Bytes) (s : TraceState) :
    ∃ orders, countOrder fails orderId s = { s with orders := orders } := by
  unfold countOrder
  split
  · split
    · exact ⟨s.orders, rfl⟩
    · exact ⟨_, rfl⟩
  · exact ⟨s.orders, rfl⟩

theorem Click.after_eq (c : Click Rate keys) (s : TraceState) :
    ∃ orders, c.after s = { (recordSource keys {} c.params c.log s).1 with orders := orders } := by
  rw [Click.after, customLogic, if_neg c.landing]
  simp only
  cases expandLanding (landingParams keys c.userIp (recordSource keys {} c.params c.log s).2)
      c.log.adInfo.landingUrl with
  | none => exact ⟨_, rfl⟩
  | some location => exact countOrder_eq _ _ _

theorem Click.after_fresh (c : Click Rate keys) {s : TraceState} (h : s.Fresh) :
    (c.after s).Fresh := by
  obtain ⟨orders, hafter⟩ := c.after_eq s
  rw [hafter]
  exact recordSource_fresh h

theorem Click.issued_eq (c : Click Rate keys) (s : TraceState) :
    issued keys {} c.params c.log s = s.counter := by
  simp [issued, c.user, c.owner]

theorem Click.after_spec (c : Click Rate keys) {s : TraceState} {n : Nat}
    (h : s.counter = some n) :
    (c.after s).counter = some (n + 1) ∧
      (c.after s).index = write s.index (c.indexKey, sourceIdText n) := by
  obtain ⟨orders, hafter⟩ := c.after_eq s
  rw [hafter, recordSource_of_issued ((c.issued_eq s).trans h)]
  exact ⟨rfl, rfl⟩

/-- A click as a step of the store; it puts out itself and the source id it generates. -/
def clickStep (store : TraceStore) (c : Click Rate keys) :
    TraceStore × List (Click Rate keys × Bytes) :=
  (⟨c.after store.toTraceState, c.after_fresh store.fresh⟩,
    ((issued keys {} c.params c.log store.toTraceState).map fun val =>
      (c, sourceIdText val)).toList)

/-- The clicks of a run with their source ids, which are numbered from `n` on. -/
def numbered (n : Nat) (clicks : List (Click Rate keys)) : List (Click Rate keys × Bytes) :=
  (clicks.zipIdx n).map fun entry => (entry.1, sourceIdText entry.2)

theorem run_clickStep {store : TraceStore} {n : Nat} (h : store.counter = some n)
    (clicks : List (Click Rate keys)) :
    (Mealy.run clickStep store clicks).2 = numbered n clicks ∧
      (Mealy.run clickStep store clicks).1.index =
        ((numbered n clicks).map fun entry => (entry.1.indexKey, entry.2)).foldl write
          store.index := by
  induction clicks generalizing store n with
  | nil => exact ⟨rfl, rfl⟩
  | cons c clicks ih =>
      obtain ⟨hcounter, hindex⟩ := c.after_spec h
      have hstep : clickStep store c =
          (⟨c.after store.toTraceState, c.after_fresh store.fresh⟩, [(c, sourceIdText n)]) := by
        rw [clickStep, c.issued_eq, h]
        rfl
      have hnext : (clickStep store c).1.counter = some (n + 1) := by
        rw [hstep]
        exact hcounter
      obtain ⟨hout, hrest⟩ := ih hnext
      rw [Mealy.run_cons, hout, hrest, hstep]
      refine ⟨rfl, ?_⟩
      rw [hindex]
      rfl

theorem numbered_clicks (n : Nat) (clicks : List (Click Rate keys)) :
    (numbered n clicks).map Prod.fst = clicks := by
  rw [numbered, List.map_map]
  exact List.zipIdx_map_fst n clicks

theorem numbered_unique {n : Nat} {clicks : List (Click Rate keys)}
    {entry entry' : Click Rate keys × Bytes} (h : entry ∈ numbered n clicks)
    (h' : entry' ∈ numbered n clicks) (hid : entry.2 = entry'.2) : entry = entry' := by
  obtain ⟨⟨c, k⟩, hk, rfl⟩ := List.mem_map.mp h
  obtain ⟨⟨c', k'⟩, hk', rfl⟩ := List.mem_map.mp h'
  cases sourceIdText_injective hid
  have hc := (List.mk_mem_zipIdx_iff_le_and_getElem?_sub.mp hk).2
  have hc' := (List.mk_mem_zipIdx_iff_le_and_getElem?_sub.mp hk').2
  cases hc.symm.trans hc'
  rfl

theorem numbered_id_ne_nil {n : Nat} {clicks : List (Click Rate keys)}
    {entry : Click Rate keys × Bytes} (h : entry ∈ numbered n clicks) : entry.2 ≠ [] := by
  obtain ⟨indexed, -, rfl⟩ := List.mem_map.mp h
  exact sourceIdText_ne_nil _

def Click.IsOf (u o : Bytes) (c : Click Rate keys) : Bool := c.userId = u ∧ c.ownerId = o

def Click.SharesIndex (u o : Bytes) (c : Click Rate keys) : Bool := c.indexKey = Trace.indexKey u o

theorem Click.sharesIndex_of_isOf {u o : Bytes} {c : Click Rate keys} (h : c.IsOf u o = true) :
    c.SharesIndex u o = true := by
  obtain ⟨rfl, rfl⟩ := of_decide_eq_true h
  exact decide_eq_true rfl

theorem traceSourceId_run (n : Nat) (clicks : List (Click Rate keys)) (u : Bytes) {m : ParamMap}
    (hg : m.value (bytes "g") = []) :
    traceSourceId keys u m (Mealy.run clickStep (seededStore n) clicks).1.toTraceState =
      ((last? (fun entry => entry.1.SharesIndex u (m.value (keys .adownerId)))
        (numbered n clicks)).map Prod.snd).getD [] := by
  have hrun := (run_clickStep (show (seededStore n).counter = some n from rfl) clicks).2
  rw [traceSourceId, hg, if_pos rfl, hrun, foldl_write, last?_map, Option.map_map]
  exact congrArg (Option.getD · []) (Option.or_none ..)

end

/-- After any clicks, a trace request without a source id finds that of the last click of
its user for its advertiser, or none if there is none, if and only if the last click that
shares the index entry is of this user for this advertiser. -/
theorem attribution_iff {Rate : Type} (keys : UrlConst → Bytes) (n : Nat)
    (clicks : List (Click Rate keys)) (u : Bytes) (m : ParamMap) (hg : m.value (bytes "g") = []) :
    traceSourceId keys u m (Mealy.run clickStep (seededStore n) clicks).1.toTraceState =
        ((last? (fun entry => entry.1.IsOf u (m.value (keys .adownerId)))
          (Mealy.run clickStep (seededStore n) clicks).2).map Prod.snd).getD [] ↔
      ∀ c, last? (fun c => c.SharesIndex u (m.value (keys .adownerId))) clicks = some c →
        c.IsOf u (m.value (keys .adownerId)) = true := by
  have himp : ∀ entry : Click Rate keys × Bytes,
      entry.1.IsOf u (m.value (keys .adownerId)) = true →
        entry.1.SharesIndex u (m.value (keys .adownerId)) = true :=
    fun _ h => Click.sharesIndex_of_isOf h
  have hclicks := last?_map Prod.fst
    (fun c : Click Rate keys => c.SharesIndex u (m.value (keys .adownerId))) (numbered n clicks)
  rw [numbered_clicks, Function.comp_def] at hclicks
  rw [traceSourceId_run n clicks u hg, hclicks,
    (run_clickStep (show (seededStore n).counter = some n from rfl) clicks).1]
  cases hlast : last? (fun entry => entry.1.SharesIndex u (m.value (keys .adownerId)))
      (numbered n clicks) with
  | none =>
      rw [last?_none_of_imp himp hlast]
      simp
  | some entry =>
      have hmem := (last?_some hlast).2
      simp only [Option.map_some, Option.getD_some, Option.some.injEq, forall_eq']
      refine ⟨?_, ?_⟩
      · intro hfound
        cases hown : last? (fun entry => entry.1.IsOf u (m.value (keys .adownerId)))
            (numbered n clicks) with
        | none =>
            rw [hown] at hfound
            exact absurd hfound (numbered_id_ne_nil hmem)
        | some own =>
            rw [hown] at hfound
            obtain ⟨hof, hownMem⟩ := last?_some hown
            rw [numbered_unique hmem hownMem hfound]
            exact hof
      · intro hof
        rw [last?_of_imp himp hlast hof]
        rfl

def clickOf (user owner : Bytes) (hu : user ≠ []) (ho : owner ≠ []) : Click Unit sampleKeys where
  userIp := []
  params := Finmap.insert (sampleKeys .adownerId) owner ∅
  log := { userId := user, adInfo.landingUrl := bareLanding }
  user := hu
  owner := by
    rw [ParamMap.value, Finmap.lookup_insert]
    exact ho
  landing := show bareLanding ≠ [] by decide

def traceParams : ParamMap := Finmap.insert (sampleKeys .adownerId) (bytes "3") ∅

theorem attribution_sample :
    traceSourceId sampleKeys (bytes "12") traceParams
        (Mealy.run clickStep (seededStore 1)
          [clickOf (bytes "12") (bytes "3") (by decide) (by decide)]).1.toTraceState =
      ((last? (fun entry => entry.1.IsOf (bytes "12") (bytes "3"))
        (Mealy.run clickStep (seededStore 1)
          [clickOf (bytes "12") (bytes "3") (by decide) (by decide)]).2).map Prod.snd).getD [] :=
  (attribution_iff sampleKeys 1 [clickOf (bytes "12") (bytes "3") (by decide) (by decide)]
    (bytes "12") traceParams (by decide)).mpr (by
      intro c hc
      cases (last?_some hc).2 with
      | head => decide
      | tail _ h => cases h)

/-- User 1 clicks for advertiser 23, and user 12 gets the conversion with advertiser 3. -/
theorem attribution_mixed_up :
    traceSourceId sampleKeys (bytes "12") traceParams
        (Mealy.run clickStep (seededStore 1)
          [clickOf (bytes "1") (bytes "23") (by decide) (by decide)]).1.toTraceState ≠
      ((last? (fun entry => entry.1.IsOf (bytes "12") (bytes "3"))
        (Mealy.run clickStep (seededStore 1)
          [clickOf (bytes "1") (bytes "23") (by decide) (by decide)]).2).map Prod.snd).getD [] := by
  rw [traceSourceId_run 1 _ _ (by decide),
    (run_clickStep (show (seededStore 1).counter = some 1 from rfl) _).1]
  decide +kernel

end AdServer.Trace
