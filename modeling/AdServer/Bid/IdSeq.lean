import AdServer.Url.Basic

/-!
The identifiers that a process makes from its number `uniqueIdSeq` and the clock:
the ids of `newIdSeq` and the impression ids of `fillAdInfo`. Nothing counts the
calls, so two calls of one kind get the same identifier in the same millisecond,
and only then.
-/
namespace AdServer.Bid

open Url

structure UserIDEntity where
  id : Int
  time : Int
  deriving DecidableEq, Repr

/-- `setId`; the negation of the least `int16_t` is that number itself. -/
def UserIDEntity.setId (entity : UserIDEntity) (id : BitVec 16) : UserIDEntity :=
  { entity with id := (if 0 < id.toInt then id else -id).toInt }

def newIdSeq (uniqueIdSeq : BitVec 64) (randomInt : BitVec 32) (time : Int) : UserIDEntity :=
  let entity : UserIDEntity := { id := 0, time }
  if uniqueIdSeq = 0 then entity.setId (randomInt.setWidth 16)
  else entity.setId (uniqueIdSeq.setWidth 16)

/-- The `imp_id` of an accepted slot. -/
def impId (uniqueIdSeq : BitVec 64) (randomId : Bytes) (time : Int) : Bytes :=
  intToString time ++
    if uniqueIdSeq = 0 then randomId else intToString (uniqueIdSeq &&& 0x7FFF).toInt

inductive IdKind
  | newIdSeq | fillAdInfo
  deriving DecidableEq, Repr

/-- A call with the time it reads off the clock and the random numbers it may draw. -/
structure IdCall where
  kind : IdKind
  time : Int
  randomInt : BitVec 32 := 0
  randomId : Bytes := []

inductive Identifier
  | user (entity : UserIDEntity)
  | impression (id : Bytes)
  deriving DecidableEq, Repr

def IdCall.issue (uniqueIdSeq : BitVec 64) (call : IdCall) : Identifier :=
  match call.kind with
  | .newIdSeq => .user (newIdSeq uniqueIdSeq call.randomInt call.time)
  | .fillAdInfo => .impression (impId uniqueIdSeq call.randomId call.time)

section
variable {uniqueIdSeq : BitVec 64} (hseq : uniqueIdSeq ≠ 0)

include hseq

theorem newIdSeq_eq_iff (r r' : BitVec 32) (time time' : Int) :
    newIdSeq uniqueIdSeq r time = newIdSeq uniqueIdSeq r' time' ↔ time = time' := by
  simp only [newIdSeq, hseq, if_false, UserIDEntity.setId, UserIDEntity.mk.injEq, true_and]

/-- The width of the text may vary, but what follows the time is always the same. -/
theorem impId_eq_iff (r r' : Bytes) (time time' : Int) :
    impId uniqueIdSeq r time = impId uniqueIdSeq r' time' ↔ time = time' := by
  simp only [impId, hseq, if_false, List.append_cancel_right_eq]
  exact intToString_injective.eq_iff

theorem issue_eq_iff (a b : IdCall) :
    a.issue uniqueIdSeq = b.issue uniqueIdSeq ↔ a.kind = b.kind ∧ a.time = b.time := by
  obtain ⟨kind, time, r, text⟩ := a
  obtain ⟨kind', time', r', text'⟩ := b
  cases kind <;> cases kind' <;>
    simp [IdCall.issue, newIdSeq_eq_iff hseq, impId_eq_iff hseq]

end

/-- With a clock that does not go back, the calls of a process get different identifiers
exactly if the clock moves on between any two calls of one kind. -/
theorem identifiers_distinct_iff (uniqueIdSeq : BitVec 64) (hseq : uniqueIdSeq ≠ 0)
    (calls : List IdCall) (hclock : calls.Pairwise fun a b => a.time ≤ b.time) :
    (calls.map (IdCall.issue uniqueIdSeq)).Nodup ↔
      calls.Pairwise fun a b => a.kind = b.kind → a.time < b.time := by
  rw [List.Nodup, List.pairwise_map]
  constructor
  · intro h
    refine hclock.imp₂ ?_ h
    intro a b hle hne hkind
    have htime : a.time ≠ b.time := fun heq => hne ((issue_eq_iff hseq a b).mpr ⟨hkind, heq⟩)
    omega
  · intro h
    refine h.imp ?_
    intro a b hlt heq
    obtain ⟨hkind, htime⟩ := (issue_eq_iff hseq a b).mp heq
    exact absurd htime (hlt hkind).ne

theorem identifiers_distinct_sample :
    let calls : List IdCall := [⟨.newIdSeq, 99, 0, []⟩, ⟨.fillAdInfo, 99, 0, []⟩,
      ⟨.fillAdInfo, 100, 0, []⟩]
    (calls.map (IdCall.issue 7)).Nodup :=
  (identifiers_distinct_iff 7 (by decide) _ (by simp)).mpr (by simp)

/-- Two slots accepted in one millisecond have one impression id, and two calls of
`newIdSeq` have one id. -/
theorem identifiers_collide :
    let slots : List IdCall := [⟨.fillAdInfo, 1470000000000, 0, []⟩,
      ⟨.fillAdInfo, 1470000000000, 0, []⟩]
    let users : List IdCall := [⟨.newIdSeq, 1470000000000, 0, []⟩,
      ⟨.newIdSeq, 1470000000000, 0, []⟩]
    ¬ (slots.map (IdCall.issue 7)).Nodup ∧ ¬ (users.map (IdCall.issue 7)).Nodup := by
  refine ⟨?_, ?_⟩
  all_goals
    intro h
    exact (List.nodup_cons.mp h).1 List.mem_cons_self

end AdServer.Bid
