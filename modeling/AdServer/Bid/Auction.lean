import AdServer.Bid.SlotLog
import AdServer.Server.Service

/-!
The auction of a bid request. A handler keeps its response from one request to the next. The
callback of `HandleBidQueryTask::customLogic` searches an ad for one slot after the other: an
ad that is found goes into the response, and its solution is banned from the searches that
follow. At last the response is written, or one without a bid.

A bid has its slot, its price and the ad that the rest of it is made of. What a select
server finds for a slot may depend on the slot and on the solutions that are banned; an
exception in a round leaves the response as it happens to be.
-/
namespace AdServer.Bid

open Url Server

/-- `float n` is `(float)n` and `hundredths n` is `n / 100.0`. -/
inductive BidPrice
  | int (n : Int)
  | float (n : Int)
  | hundredths (n : Int)
  | text (text : Bytes)
  deriving DecidableEq, Repr

structure SelectedAd extends SelectResult where
  sId : Int
  bId : Int
  bidPrice : Int
  deriving DecidableEq, Repr

/-- A slot of the request: what a bid names it by, and the floor that Baidu bids at least. -/
structure OfferedSlot where
  name : Bytes
  minimumCpm : Int := 0
  deriving DecidableEq, Repr

/-- `complete` if the creative and the URLs are there. -/
structure PlacedBid where
  slot : Bytes
  price : Option BidPrice
  ad : SelectedAd
  complete : Bool
  deriving DecidableEq, Repr

/-- `bidResponse` once it is begun: the fields of the response itself, and its bids. -/
structure BidDraft where
  head : List (Bytes × Bytes)
  bids : List PlacedBid
  deriving DecidableEq, Repr

inductive SearchOutcome
  | notFound
  | found (ad : SelectedAd)
  /-- An exception in the round, and the response it leaves. -/
  | throws (leftover : Option BidDraft)

/-- How `filter` comes to the callback. -/
inductive FilterOutcome
  | returns
  | calls (slots : List OfferedSlot)
  | throws

/-- The two bid ids are those that `randomId(3)` gives for a bid and for a rejection. -/
structure BidPost where
  id : Bytes
  version : Bytes := []
  tagid : Bytes := []
  randomBidid : Bytes := []
  rejectBidid : Bytes := []
  filter : FilterOutcome
  search : Nat → List Int → SearchOutcome

namespace LogHandler

/-- The others bid for the first slot only. -/
def offersAll : LogHandler → Bool
  | .exchange .baidu | .exchange .youku | .exchange .nex | .exchange .liebao | .adx2345 => true
  | .exchange .tanx | .exchange .juxiaoMax | .exchange .gdt | .exchange .sohu
  | .exchange .guangyin | .exchange .inmobi | .exchange .netEase | .exchange .yidian
  | .kupai => false

def offered (h : LogHandler) (slots : List OfferedSlot) : List OfferedSlot :=
  if h.offersAll then slots else slots.take 1

def price (slot : OfferedSlot) (ad : SelectedAd) : LogHandler → Option BidPrice
  | .exchange .juxiaoMax => some (.int (wrapInt32 (wrapInt32 ad.bidPrice * 10000)))
  | .exchange .baidu => some (.int (max (wrapInt32 ad.bidPrice) slot.minimumCpm))
  | .exchange .guangyin | .kupai => some (.float ad.bidPrice)
  | .exchange .inmobi => some (.hundredths (wrapInt32 ad.bidPrice))
  | .exchange .yidian => some (.text (intToString ad.bidPrice))
  | .exchange .netEase => none
  | .exchange .tanx | .exchange .youku | .exchange .gdt | .exchange .sohu | .exchange .liebao
  | .exchange .nex | .adx2345 => some (.int (wrapInt32 ad.bidPrice))

/-- Sohu names the place of the slot in the request. -/
def slotName (slot : OfferedSlot) (seq : Nat) : LogHandler → Bytes
  | .exchange .sohu => intToString seq
  | _ => slot.name

/-- Yidian returns when it has set the price of a native creative of an unknown type. -/
def completes (ad : SelectedAd) : LogHandler → Bool
  | .exchange .yidian =>
    ¬(ad.bannerType = .primitive ∧ ¬(1 ≤ ad.nativeType ∧ ad.nativeType ≤ 5))
  | _ => true

def placed (h : LogHandler) (slot : OfferedSlot) (ad : SelectedAd) (seq : Nat) : PlacedBid where
  slot := h.slotName slot seq
  price := h.price slot ad
  ad := ad
  complete := h.completes ad

def head (q : BidPost) : LogHandler → List (Bytes × Bytes)
  | .exchange .tanx => [(bytes "version", q.version), (bytes "bid", q.id)]
  | .exchange .juxiaoMax => [(bytes "bid", q.id)]
  | .exchange .baidu => [(bytes "id", q.id)]
  | .exchange .gdt => [(bytes "request_id", q.id)]
  | .exchange .sohu => [(bytes "version", q.version), (bytes "bidid", q.id)]
  | .exchange .guangyin | .kupai => [(bytes "id", q.id), (bytes "bidid", q.randomBidid)]
  | .exchange .youku | .exchange .liebao | .exchange .inmobi =>
    [(bytes "id", q.id), (bytes "bidid", bytes "1")]
  | .exchange .nex => [(bytes "id", q.id), (bytes "bidid", bytes "1"), (bytes "cur", bytes "CNY")]
  | .adx2345 =>
    [(bytes "id", q.id), (bytes "bid", bytes "1"), (bytes "bidid", bytes "2345" ++ q.id)]
  | .exchange .yidian => [(bytes "id", q.id), (bytes "tagid", q.tagid)]
  | .exchange .netEase => []

/-- The fields of the response of `reject`; `none` where it sends none. -/
def rejectHead (q : BidPost) : LogHandler → Option (List (Bytes × Bytes))
  | .exchange .tanx => some [(bytes "version", q.version), (bytes "bid", q.id)]
  | .exchange .juxiaoMax => some [(bytes "bid", q.id)]
  | .exchange .baidu => some [(bytes "id", q.id)]
  | .exchange .gdt => some [(bytes "request_id", q.id)]
  | .exchange .sohu => some [(bytes "version", q.version), (bytes "bidid", q.id)]
  | .exchange .guangyin =>
    some [(bytes "id", q.id), (bytes "bidid", q.rejectBidid),
      (bytes "nbr", bytes "TECHNICAL_ERROR")]
  | .kupai => some [(bytes "id", q.id), (bytes "bidid", q.rejectBidid)]
  | .exchange .youku | .exchange .liebao | .exchange .inmobi | .exchange .nex | .adx2345
  | .exchange .yidian | .exchange .netEase => none

def contentType : LogHandler → Option Bytes
  | .exchange .tanx | .exchange .juxiaoMax => some (bytes "application/octet-stream")
  | .exchange .gdt | .exchange .sohu => some (bytes "application/x-protobuf")
  | .exchange .baidu | .exchange .guangyin | .kupai => none
  | .exchange .youku | .exchange .liebao | .exchange .inmobi | .exchange .nex | .adx2345
  | .exchange .yidian | .exchange .netEase => some (bytes "application/json; charset=utf-8")

def rejectStatus : LogHandler → Int
  | .exchange .youku | .exchange .inmobi | .exchange .nex | .adx2345 | .exchange .yidian => 204
  | _ => 200

def contentWrites (h : LogHandler) : List ResponseWrite :=
  h.contentType.toList.map fun type => .header (contentTypeKey, type)

/-- A response is begun by its first bid. -/
def buildBidResult (h : LogHandler) (q : BidPost) (draft : Option BidDraft) (slot : OfferedSlot)
    (ad : SelectedAd) (seq : Nat) : BidDraft :=
  let draft := draft.getD { head := h.head q, bids := [] }
  { draft with bids := draft.bids ++ [h.placed slot ad seq] }

end LogHandler

/-- The variables of the callback, with the response of the handler. -/
structure CallbackState where
  draft : Option BidDraft
  bannedSolutions : List Int := []
  conditionIdx : Nat := 0
  result : Bool := false

/-- One round of the callback; an exception leaves a response behind. -/
def bidRound (h : LogHandler) (q : BidPost) (s : CallbackState) (slot : OfferedSlot) :
    Except (Option BidDraft) CallbackState :=
  match q.search s.conditionIdx s.bannedSolutions with
  | .notFound => .ok { s with conditionIdx := s.conditionIdx + 1 }
  | .found ad =>
    .ok {
      draft := some (h.buildBidResult q s.draft slot ad s.conditionIdx)
      bannedSolutions := s.bannedSolutions ++ [ad.sId]
      conditionIdx := s.conditionIdx + 1
      result := true }
  | .throws leftover => .error leftover

section
-- the text of a response, which is not empty; `none` if it cannot be written
variable (write : BidDraft → Option { text : Bytes // text ≠ [] }) (h : LogHandler) (q : BidPost)

def reject (draft : Option BidDraft) : Option BidDraft × List ResponseWrite :=
  match h.rejectHead q with
  | none => (draft, .status h.rejectStatus [] :: h.contentWrites)
  | some head =>
    (some ⟨head, []⟩,
      match write ⟨head, []⟩ with
      | none => []
      | some text => .status 200 [] :: h.contentWrites ++ [.body text])

def matchBid (draft : Option BidDraft) : Option BidDraft × List ResponseWrite :=
  match write (draft.getD ⟨[], []⟩) with
  | none => reject write h q draft
  | some text => (draft, .status 200 [] :: h.contentWrites ++ [.body text])

/-- Every handler clears its response before it parses a request. -/
def parseRequestData (_ : Option BidDraft) : Option BidDraft := none

/-- The handler's part of a request: the response it keeps, what it writes, and how it ends. -/
def customLogic (draft : Option BidDraft) : Option BidDraft × List ResponseWrite × Ending :=
  let draft := parseRequestData draft
  match q.filter with
  | .throws => (draft, [], .stdException)
  | .returns => ((reject write h q draft).1, (reject write h q draft).2, .returns)
  | .calls slots =>
    match (h.offered slots).foldlM (bidRound h q) { draft := draft } with
    | .error leftover => (leftover, [], .stdException)
    | .ok s =>
      let sent := if s.result then matchBid write h q s.draft else reject write h q s.draft
      (sent.1, sent.2, .returns)

end

/-! The auction that is meant: each slot gets what the search finds for it while the solutions of
the bids before are banned. -/

section
variable (h : LogHandler) (q : BidPost)

/-- `none` if a round throws. -/
def award : List OfferedSlot → List Int → Nat → Option (List PlacedBid)
  | [], _, _ => some []
  | slot :: slots, banned, seq =>
    match q.search seq banned with
    | .notFound => award slots banned (seq + 1)
    | .found ad =>
      (award slots (banned ++ [ad.sId]) (seq + 1)).map fun bids => h.placed slot ad seq :: bids
    | .throws _ => none

end

section
variable {h : LogHandler} {q : BidPost}

/-- The variables of the callback after some rounds that placed these bids. -/
def CallbackState.after (h : LogHandler) (q : BidPost) (s : CallbackState) (rounds : Nat)
    (bids : List PlacedBid) : CallbackState where
  draft :=
    if bids = [] then s.draft
    else
      some {
        head := (s.draft.map BidDraft.head).getD (h.head q)
        bids := (s.draft.map BidDraft.bids).getD [] ++ bids }
  bannedSolutions := s.bannedSolutions ++ bids.map fun bid => bid.ad.sId
  conditionIdx := s.conditionIdx + rounds
  result := s.result || !bids.isEmpty

theorem after_after (s : CallbackState) (rounds more : Nat) (bids others : List PlacedBid) :
    (s.after h q rounds bids).after h q more others =
      s.after h q (rounds + more) (bids ++ others) := by
  cases bids <;> cases others <;> simp [CallbackState.after, Nat.add_assoc]

theorem bidRound_notFound {s : CallbackState} (slot : OfferedSlot)
    (hsearch : q.search s.conditionIdx s.bannedSolutions = .notFound) :
    bidRound h q s slot = .ok (s.after h q 1 []) := by
  rw [bidRound, hsearch]
  simp [CallbackState.after]

theorem bidRound_found {s : CallbackState} {ad : SelectedAd} (slot : OfferedSlot)
    (hsearch : q.search s.conditionIdx s.bannedSolutions = .found ad) :
    bidRound h q s slot = .ok (s.after h q 1 [h.placed slot ad s.conditionIdx]) := by
  rw [bidRound, hsearch]
  cases hdraft : s.draft <;>
    simp [CallbackState.after, LogHandler.buildBidResult, LogHandler.placed, hdraft]

theorem foldlM_bidRound_awarded {slots : List OfferedSlot} {bids : List PlacedBid}
    (s : CallbackState)
    (haward : award h q slots s.bannedSolutions s.conditionIdx = some bids) :
    slots.foldlM (bidRound h q) s = .ok (s.after h q slots.length bids) := by
  induction slots generalizing s bids with
  | nil =>
      cases haward
      simp [CallbackState.after, pure, Except.pure]
  | cons slot slots ih =>
      rw [List.foldlM_cons, List.length_cons, Nat.add_comm]
      rw [award] at haward
      cases hsearch : q.search s.conditionIdx s.bannedSolutions with
      | notFound =>
          rw [hsearch] at haward
          have hrest : award h q slots (s.after h q 1 []).bannedSolutions
              (s.after h q 1 []).conditionIdx = some bids := by
            simpa only [CallbackState.after, List.map_nil, List.append_nil] using haward
          rw [bidRound_notFound slot hsearch]
          exact (ih _ hrest).trans (by rw [after_after, List.nil_append])
      | found ad =>
          rw [hsearch] at haward
          obtain ⟨rest, hrest, rfl⟩ := Option.map_eq_some_iff.mp haward
          rw [bidRound_found slot hsearch]
          exact (ih _ hrest).trans (by rw [after_after, List.singleton_append])
      | throws leftover =>
          rw [hsearch] at haward
          cases haward

theorem foldlM_bidRound_thrown {slots : List OfferedSlot} (s : CallbackState)
    (haward : award h q slots s.bannedSolutions s.conditionIdx = none) :
    ∃ leftover, slots.foldlM (bidRound h q) s = .error leftover := by
  induction slots generalizing s with
  | nil => cases haward
  | cons slot slots ih =>
      rw [List.foldlM_cons, bidRound]
      rw [award] at haward
      cases hsearch : q.search s.conditionIdx s.bannedSolutions with
      | notFound =>
          rw [hsearch] at haward
          exact ih { s with conditionIdx := s.conditionIdx + 1 } haward
      | found ad =>
          rw [hsearch] at haward
          exact ih _ (Option.map_eq_none_iff.mp haward)
      | throws leftover => exact ⟨leftover, rfl⟩

end

section
variable {h : LogHandler} {q : BidPost}

/-- What the bids of a request may name its slots by. -/
def slotNames (h : LogHandler) (q : BidPost) : List Bytes :=
  match q.filter with
  | .calls slots => (h.offered slots).mapIdx fun seq slot => h.slotName slot seq
  | .returns | .throws => []

theorem award_nodup (hban : ∀ seq banned ad, q.search seq banned = .found ad → ad.sId ∉ banned)
    {slots : List OfferedSlot} {banned : List Int} {seq : Nat} {bids : List PlacedBid}
    (haward : award h q slots banned seq = some bids) (hbanned : banned.Nodup) :
    (banned ++ bids.map fun bid => bid.ad.sId).Nodup := by
  induction slots generalizing banned seq bids with
  | nil =>
      cases haward
      simpa using hbanned
  | cons slot slots ih =>
      rw [award] at haward
      cases hsearch : q.search seq banned with
      | notFound =>
          rw [hsearch] at haward
          exact ih haward hbanned
      | found ad =>
          rw [hsearch] at haward
          obtain ⟨rest, hrest, rfl⟩ := Option.map_eq_some_iff.mp haward
          have hnew : (banned ++ [ad.sId]).Nodup :=
            List.nodup_append_comm.mp (hbanned.cons (hban seq banned ad hsearch))
          have happend := ih hrest hnew
          rwa [List.append_assoc, List.singleton_append] at happend
      | throws leftover =>
          rw [hsearch] at haward
          cases haward

theorem award_sublist {slots : List OfferedSlot} {banned : List Int} {seq : Nat}
    {bids : List PlacedBid} (haward : award h q slots banned seq = some bids) :
    (bids.map PlacedBid.slot).Sublist (slots.mapIdx fun k slot => h.slotName slot (seq + k)) := by
  induction slots generalizing banned seq bids with
  | nil =>
      cases haward
      exact List.Sublist.refl _
  | cons slot slots ih =>
      have hshift : (slot :: slots).mapIdx (fun k slot => h.slotName slot (seq + k)) =
          h.slotName slot seq ::
            slots.mapIdx fun k slot => h.slotName slot (seq + 1 + k) := by
        simp [List.mapIdx_cons, Nat.add_assoc, Nat.add_comm 1]
      rw [award] at haward
      rw [hshift]
      cases hsearch : q.search seq banned with
      | notFound =>
          rw [hsearch] at haward
          exact (ih haward).cons _
      | found ad =>
          rw [hsearch] at haward
          obtain ⟨rest, hrest, rfl⟩ := Option.map_eq_some_iff.mp haward
          exact (ih hrest).cons_cons _
      | throws leftover =>
          rw [hsearch] at haward
          cases haward

variable {write : BidDraft → Option { text : Bytes // text ≠ [] }} {draft : Option BidDraft}
  {kept : BidDraft}

theorem kept_reject (hkept : (reject write h q draft).1 = some kept) :
    kept.bids = [] ∨ draft = some kept := by
  unfold reject at hkept
  cases hhead : h.rejectHead q with
  | none =>
      rw [hhead] at hkept
      exact .inr hkept
  | some head =>
      rw [hhead] at hkept
      cases hkept
      exact .inl rfl

theorem kept_matchBid (hkept : (matchBid write h q draft).1 = some kept) :
    kept.bids = [] ∨ draft = some kept := by
  unfold matchBid at hkept
  cases hwrite : write (draft.getD ⟨[], []⟩) with
  | none =>
      rw [hwrite] at hkept
      exact kept_reject hkept
  | some text =>
      rw [hwrite] at hkept
      exact .inr hkept

theorem kept_after {slots : List OfferedSlot} {bids : List PlacedBid}
    (hdraft : (CallbackState.after h q { draft := none } slots.length bids).draft = some kept) :
    kept.bids = bids := by
  unfold CallbackState.after at hdraft
  split at hdraft
  · cases hdraft
  · rw [← Option.some.inj hdraft]
    rfl

/-- The response that a handler keeps after a request has no bids, or those of the auction. -/
theorem kept_customLogic (hends : (customLogic write h q draft).2.2 = .returns)
    (hkept : (customLogic write h q draft).1 = some kept) :
    kept.bids = [] ∨ ∃ slots, q.filter = .calls slots ∧
      award h q (h.offered slots) [] 0 = some kept.bids := by
  unfold customLogic at hends hkept
  cases hfilter : q.filter with
  | throws =>
      rw [hfilter] at hends
      cases hends
  | returns =>
      rw [hfilter] at hkept
      exact .inl ((kept_reject hkept).resolve_right (fun hnone => nomatch hnone))
  | calls slots =>
      simp only [hfilter] at hends hkept
      cases haward : award h q (h.offered slots) [] 0 with
      | none =>
          obtain ⟨leftover, hthrown⟩ :=
            foldlM_bidRound_thrown { draft := parseRequestData draft } haward
          rw [hthrown] at hends
          cases hends
      | some bids =>
          rw [foldlM_bidRound_awarded { draft := parseRequestData draft } haward] at hkept
          have hdraft : kept.bids = [] ∨
              (CallbackState.after h q { draft := none } (h.offered slots).length bids).draft =
                some kept := by
            simp only at hkept
            split at hkept
            · exact kept_matchBid hkept
            · exact kept_reject hkept
          refine hdraft.imp_right fun hdraft => ⟨slots, rfl, ?_⟩
          rw [kept_after hdraft, haward]

/-- The bids of a response are for different solutions and name different slots of the request in
their order, as long as the select server keeps to the solutions that are banned. -/
theorem kept_bids_distinct
    (hban : ∀ seq banned ad, q.search seq banned = .found ad → ad.sId ∉ banned)
    (hends : (customLogic write h q draft).2.2 = .returns)
    (hkept : (customLogic write h q draft).1 = some kept) :
    (kept.bids.map fun bid => bid.ad.sId).Nodup ∧
      (kept.bids.map PlacedBid.slot).Sublist (slotNames h q) := by
  rcases kept_customLogic hends hkept with hnone | ⟨slots, hfilter, haward⟩
  · rw [hnone]
    exact ⟨List.nodup_nil, List.nil_sublist _⟩
  · refine ⟨by simpa using award_nodup hban haward List.nodup_nil, ?_⟩
    simpa only [slotNames, hfilter, Nat.zero_add] using award_sublist haward

def twoSlots : BidPost where
  id := bytes "7"
  filter := .calls [⟨bytes "a", 0⟩, ⟨bytes "b", 0⟩]
  search := fun _ banned =>
    if 1 ∈ banned then .notFound else .found ⟨⟨.other, 0, []⟩, 1, 5, 300⟩

theorem kept_bids_distinct_banned :
    ∃ kept, (customLogic (fun _ => none) .adx2345 twoSlots none).1 = some kept ∧
      kept.bids.length = 1 ∧ (kept.bids.map fun bid => bid.ad.sId).Nodup ∧
      (kept.bids.map PlacedBid.slot).Sublist (slotNames .adx2345 twoSlots) := by
  have hban : ∀ seq banned ad, twoSlots.search seq banned = .found ad → ad.sId ∉ banned := by
    intro seq banned ad hfound
    simp only [twoSlots] at hfound
    split at hfound
    · cases hfound
    · rename_i hnone
      cases hfound
      exact hnone
  obtain ⟨kept, hkept, hlength⟩ : ∃ kept,
      (customLogic (fun _ => none) .adx2345 twoSlots none).1 = some kept ∧
        kept.bids.length = 1 := ⟨_, rfl, rfl⟩
  exact ⟨kept, hkept, hlength, kept_bids_distinct hban rfl hkept⟩

end

end AdServer.Bid
