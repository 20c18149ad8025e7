import AdServer.Library.Tally
import AdServer.Library.Transition

/-!
The show counters of one user. A show request asks the store whether the daily
record exists and sends either a fresh record or an increment of the present one,
then does the same for the hourly record. The store executes one message at a time,
and no record expires.

A request that finds no record while the fresh record of another request is still
under way sends a fresh record of its own, which replaces the counts made in between.
-/
namespace AdServer.Show

open Transition Tally

/-- The keys `userId + "d"` and `userId + "h"` of the set `user-freq`. -/
inductive FreqKey where
  | daily
  | hourly
  deriving DecidableEq, Repr

instance : Fintype FreqKey where
  elems := {.daily, .hourly}
  complete key := by cases key <;> decide

structure Impression where
  bannerId : Int
  bgid : Int
  sid : Int
  deriving DecidableEq, Repr

structure UserShowCounter where
  banners : Int → Nat
  bannergroups : Int → Nat
  solutions : Int → Nat

def mapIncr (id : Int) (counts : Int → Nat) : Int → Nat :=
  fun other => if other = id then counts other + 1 else counts other

namespace UserShowCounter

def empty : UserShowCounter := ⟨fun _ => 0, fun _ => 0, fun _ => 0⟩

def incr (imp : Impression) (counter : UserShowCounter) : UserShowCounter where
  banners := mapIncr imp.bannerId counter.banners
  bannergroups := mapIncr imp.bgid counter.bannergroups
  solutions := mapIncr imp.sid counter.solutions

/-- A fresh counter holds one show of each of the three. -/
def create (imp : Impression) : UserShowCounter := empty.incr imp

end UserShowCounter

/-- The next message of a request: `exists`, or the write that its answer decided. -/
inductive ShowPhase where
  | check (key : FreqKey)
  | write (key : FreqKey) (found : Bool)
  | finished
  deriving DecidableEq, Repr

def ShowPhase.after : FreqKey → ShowPhase
  | .daily => .check .hourly
  | .hourly => .finished

structure FreqState (n : Nat) where
  store : FreqKey → Option UserShowCounter
  phase : Fin n → ShowPhase

namespace FreqState

variable {n : Nat}

def move (s : FreqState n) (request : Fin n) (phase : ShowPhase) : FreqState n :=
  { s with phase := Function.update s.phase request phase }

def put (s : FreqState n) (key : FreqKey) (counter : UserShowCounter) : FreqState n :=
  { s with store := Function.update s.store key (some counter) }

end FreqState

/-- The store executes the next message of the request; the answer of `exists` decides
what the request sends next. -/
def FreqState.execute {n : Nat} (imp : Impression) (s : FreqState n) (request : Fin n) :
    FreqState n :=
  match s.phase request with
  | .check key => s.move request (.write key (s.store key).isSome)
  | .write key false => (s.put key (UserShowCounter.create imp)).move request (.after key)
  | .write key true =>
    (s.put key (((s.store key).getD .empty).incr imp)).move request (.after key)
  | .finished => s

def freqStart (n : Nat) : FreqState n := { store := fun _ => none, phase := fun _ => .check .daily }

def freqSystem (n : Nat) (imp : Impression) : System (FreqState n) (Fin n) where
  init s := s = freqStart n
  step s request t := s.phase request ≠ .finished ∧ t = s.execute imp request

/-- The counts of the three maps under the key. -/
def Counts (imp : Impression) (total : Nat) (record : Option UserShowCounter) : Prop :=
  let counter := record.getD .empty
  counter.banners imp.bannerId = total ∧ counter.bannergroups imp.bgid = total ∧
    counter.solutions imp.sid = total

/-- A record is looked up and found missing only while nobody else is about to create it. -/
def Undisturbed {n : Nat} (s : FreqState n) (request : Fin n) : Prop :=
  ∀ key, s.phase request = .check key → (s.store key).isNone →
    ∀ other, s.phase other ≠ .write key false

instance {n : Nat} (s : FreqState n) (request : Fin n) : Decidable (Undisturbed s request) :=
  inferInstanceAs (Decidable (∀ _, _))

/-- Whether a request has made its write under the key. -/
def ShowPhase.wrote : FreqKey → ShowPhase → Bool
  | .daily, .check .hourly => true
  | _, .finished => true
  | .daily, .write .hourly _ => true
  | _, _ => false

def wroteWeight (key : FreqKey) (phase : ShowPhase) : Nat := (phase.wrote key).toNat

/-- Under the key either nobody has written and at most one request is about to create
the record, or the record exists, nobody is about to create it and it holds one show of
each request that has written. -/
inductive KeyState {n : Nat} (imp : Impression) (s : FreqState n) (key : FreqKey) : Prop where
  | missing (hstore : s.store key = none)
      (hwrote : ∀ request, (s.phase request).wrote key = false)
      (hincr : ∀ request, s.phase request ≠ .write key true)
      (halone : ∀ request other, s.phase request = .write key false →
        s.phase other = .write key false → other = request)
  | counted (counter : UserShowCounter) (hstore : s.store key = some counter)
      (hput : ∀ request, s.phase request ≠ .write key false)
      (hcounts : Counts imp (total (wroteWeight key) s.phase) (some counter))

section
variable {n : Nat} {imp : Impression} {s : FreqState n}

theorem settled_phase (s : FreqState n) : Settled (.check .daily) s.phase :=
  ⟨Finset.univ, fun request hrequest => absurd (Finset.mem_univ request) hrequest⟩

theorem total_move (s : FreqState n) (key : FreqKey) (request : Fin n) (phase : ShowPhase) :
    total (wroteWeight key) (s.move request phase).phase + wroteWeight key (s.phase request) =
      total (wroteWeight key) s.phase + wroteWeight key phase :=
  total_update (settled_phase s) (by cases key <;> rfl) request phase

theorem phase_move (s : FreqState n) (request other : Fin n) (phase : ShowPhase) :
    (s.move request phase).phase other = if other = request then phase else s.phase other := by
  simp only [FreqState.move, Function.update_apply]

/-- The requests about to write under a key after one of them has moved. -/
theorem write_of_move {request other : Fin n} {phase : ShowPhase} {key : FreqKey} {found : Bool}
    (h : (s.move request phase).phase other = .write key found) :
    other = request ∧ phase = .write key found ∨
      other ≠ request ∧ s.phase other = .write key found := by
  rw [phase_move] at h
  split at h
  · exact .inl ⟨by assumption, h⟩
  · exact .inr ⟨by assumption, h⟩

theorem store_put (s : FreqState n) (key other : FreqKey) (counter : UserShowCounter) :
    (s.put key counter).store other = if other = key then some counter else s.store other := by
  simp only [FreqState.put, Function.update_apply]

theorem wrote_after_self (key : FreqKey) : (ShowPhase.after key).wrote key = true := by
  cases key <;> rfl

theorem wrote_check (key other : FreqKey) (found : Bool) :
    (ShowPhase.check other).wrote key = (ShowPhase.write other found).wrote key := by
  cases key <;> cases other <;> rfl

theorem wrote_after_of_ne {key other : FreqKey} (h : key ≠ other) (found : Bool) :
    (ShowPhase.after other).wrote key = (ShowPhase.write other found).wrote key := by
  cases key <;> cases other <;> first | exact absurd rfl h | rfl

theorem after_ne_write (key other : FreqKey) (found : Bool) :
    ShowPhase.after other ≠ .write key found := by
  cases other <;> nofun

theorem total_move_same {key : FreqKey} {request : Fin n} {phase : ShowPhase}
    (hwrote : phase.wrote key = (s.phase request).wrote key) :
    total (wroteWeight key) (s.move request phase).phase = total (wroteWeight key) s.phase := by
  have htotal := total_move s key request phase
  rw [wroteWeight, wroteWeight, hwrote] at htotal
  exact Nat.add_right_cancel htotal

theorem total_move_after {key : FreqKey} {request : Fin n}
    (hwrote : (s.phase request).wrote key = false) :
    total (wroteWeight key) (s.move request (.after key)).phase =
      total (wroteWeight key) s.phase + 1 := by
  have htotal := total_move s key request (.after key)
  rw [wroteWeight, wroteWeight, hwrote, wrote_after_self] at htotal
  exact htotal

theorem Counts.incr {total : Nat} {record : Option UserShowCounter} (h : Counts imp total record) :
    Counts imp (total + 1) (some ((record.getD .empty).incr imp)) := by
  obtain ⟨hbanner, hgroup, hsolution⟩ := h
  refine ⟨?_, ?_, ?_⟩ <;>
    simp only [Option.getD_some, UserShowCounter.incr, mapIncr, if_true, hbanner, hgroup, hsolution]

namespace KeyState

variable {key : FreqKey}

/-- A request that neither writes under the key nor is about to leaves its state alone. -/
theorem move (h : KeyState imp s key) {request : Fin n} {phase : ShowPhase}
    (hwrote : phase.wrote key = (s.phase request).wrote key)
    (hphase : ∀ found, phase ≠ .write key found) : KeyState imp (s.move request phase) key := by
  have hold : ∀ other found, (s.move request phase).phase other = .write key found →
      s.phase other = .write key found := by
    intro other found hother
    rcases write_of_move hother with ⟨-, hmoved⟩ | ⟨-, hother⟩
    · exact absurd hmoved (hphase found)
    · exact hother
  cases h with
  | missing hstore hnone hincr halone =>
      refine .missing hstore ?_ ?_ ?_
      · intro other
        rw [phase_move]
        split
        · exact hwrote.trans (hnone request)
        · exact hnone other
      · exact fun other hother => hincr other (hold other true hother)
      · exact fun one other hone hother =>
          halone one other (hold one false hone) (hold other false hother)
  | counted counter hstore hput hcounts =>
      refine .counted counter hstore (fun other hother => hput other (hold other false hother)) ?_
      rwa [total_move_same hwrote]

theorem put_other (h : KeyState imp s key) {other : FreqKey} (hne : key ≠ other)
    (counter : UserShowCounter) : KeyState imp (s.put other counter) key := by
  have hsame : (s.put other counter).store key = s.store key := by
    rw [store_put, if_neg hne]
  cases h with
  | missing hstore hwrote hincr halone => exact .missing (hsame.trans hstore) hwrote hincr halone
  | counted c hstore hput hcounts => exact .counted c (hsame.trans hstore) hput hcounts

theorem check (h : KeyState imp s key) {request : Fin n} (hphase : s.phase request = .check key)
    (hguard : (s.store key).isNone → ∀ other, s.phase other ≠ .write key false) :
    KeyState imp (s.move request (.write key (s.store key).isSome)) key := by
  cases h with
  | missing hstore hwrote hincr halone =>
      rw [hstore, Option.isSome_none]
      have hmoved : ∀ other, (s.move request (.write key false)).phase other = .write key false →
          other = request := by
        intro other hother
        rcases write_of_move hother with ⟨hself, -⟩ | ⟨-, hother⟩
        · exact hself
        · exact absurd hother (hguard (by rw [hstore]; rfl) other)
      refine .missing hstore ?_ ?_ ?_
      · intro other
        rw [phase_move]
        split
        · rw [← wrote_check, ← hphase]
          exact hwrote request
        · exact hwrote other
      · intro other hother
        rcases write_of_move hother with ⟨-, hmoved⟩ | ⟨-, hother⟩
        · cases hmoved
        · exact hincr other hother
      · intro one other hone hother
        rw [hmoved one hone, hmoved other hother]
  | counted counter hstore hput hcounts =>
      rw [hstore, Option.isSome_some]
      refine .counted counter hstore ?_ ?_
      · intro other hother
        rcases write_of_move hother with ⟨-, hmoved⟩ | ⟨-, hother⟩
        · cases hmoved
        · exact hput other hother
      · have hsame : (ShowPhase.write key true).wrote key = (s.phase request).wrote key := by
          rw [hphase, wrote_check]
        rwa [total_move_same hsame]

theorem putAsync (h : KeyState imp s key) {request : Fin n}
    (hphase : s.phase request = .write key false) :
    KeyState imp ((s.put key (UserShowCounter.create imp)).move request (.after key)) key := by
  cases h with
  | counted counter hstore hput hcounts => exact absurd hphase (hput request)
  | missing hstore hwrote hincr halone =>
      refine .counted (UserShowCounter.create imp) ?_ ?_ ?_
      · exact (store_put s key key _).trans (if_pos rfl)
      · intro other hother
        rcases write_of_move hother with ⟨-, hmoved⟩ | ⟨hne, hother⟩
        · exact after_ne_write _ _ _ hmoved
        · exact hne (halone request other hphase hother)
      · have hzero : total (wroteWeight key) s.phase = 0 :=
          total_eq_zero fun other => congrArg Bool.toNat (hwrote other)
        have hnone : Counts imp (total (wroteWeight key) s.phase) none := by
          rw [hzero]
          exact ⟨rfl, rfl, rfl⟩
        rw [total_move_after (s := s.put key _) (hwrote request)]
        exact hnone.incr

theorem operateAsync (h : KeyState imp s key) {request : Fin n}
    (hphase : s.phase request = .write key true) :
    KeyState imp ((s.put key (((s.store key).getD .empty).incr imp)).move request (.after key))
      key := by
  cases h with
  | missing hstore hwrote hincr halone => exact absurd hphase (hincr request)
  | counted counter hstore hput hcounts =>
      refine .counted _ ((store_put s key key _).trans (if_pos rfl)) ?_ ?_
      · intro other hother
        rcases write_of_move hother with ⟨-, hmoved⟩ | ⟨-, hother⟩
        · exact after_ne_write _ _ _ hmoved
        · exact hput other hother
      · have hwrote : (s.phase request).wrote key = false := by
          rw [hphase]
          cases key <;> rfl
        rw [total_move_after (s := s.put key _) hwrote, hstore]
        exact hcounts.incr

theorem execute (h : KeyState imp s key) {request : Fin n} (hguard : Undisturbed s request) :
    KeyState imp (s.execute imp request) key := by
  unfold FreqState.execute
  split
  · rename_i other hphase
    by_cases hkey : key = other
    · subst hkey
      exact h.check hphase (hguard key hphase)
    · refine h.move ?_ ?_
      · rw [hphase, ← wrote_check]
      · rintro found ⟨⟩
        exact hkey rfl
  · rename_i other hphase
    by_cases hkey : key = other
    · subst hkey
      exact h.putAsync hphase
    · refine (h.put_other hkey _).move ?_ fun found => after_ne_write key other found
      exact (wrote_after_of_ne hkey false).trans (congrArg _ hphase.symm)
  · rename_i other hphase
    by_cases hkey : key = other
    · subst hkey
      exact h.operateAsync hphase
    · refine (h.put_other hkey _).move ?_ fun found => after_ne_write key other found
      exact (wrote_after_of_ne hkey true).trans (congrArg _ hphase.symm)
  · exact h

theorem start (imp : Impression) (key : FreqKey) : KeyState imp (freqStart n) key := by
  refine .missing rfl ?_ nofun nofun
  intro request
  cases key <;> rfl

/-- When every request has finished, the record counts them all. -/
theorem finished (h : KeyState imp s key) (hdone : ∀ request, s.phase request = .finished) :
    Counts imp n (s.store key) := by
  have hweight : ∀ request, wroteWeight key (s.phase request) = 1 := by
    intro request
    rw [hdone]
    cases key <;> rfl
  cases h with
  | missing hstore hwrote hincr halone =>
      have hempty : n = 0 := by
        by_contra hn
        have hrequest := hwrote ⟨0, Nat.pos_of_ne_zero hn⟩
        rw [hdone] at hrequest
        cases key <;> cases hrequest
      subst hempty
      rw [hstore]
      exact ⟨rfl, rfl, rfl⟩
  | counted counter hstore hput hcounts =>
      have htotal : total (wroteWeight key) s.phase = n := by
        rw [total, finsum_eq_sum_of_fintype, Finset.sum_congr rfl fun request _ => hweight request]
        simp
      rw [hstore]
      exact htotal ▸ hcounts

end KeyState

end

/-- Where every lookup is undisturbed, both counters count all requests once all
messages have been executed. -/
theorem counters_undisturbed (n : Nat) (imp : Impression) (events : List (Fin n)) (s : FreqState n)
    (hrun : Run (freqSystem n imp) Undisturbed events s)
    (hdone : ∀ request, s.phase request = .finished) (key : FreqKey) :
    Counts imp n (s.store key) := by
  have hkey : ∀ key, KeyState imp s key := by
    refine Run.invariant (fun s => ∀ key, KeyState imp s key) ?_ ?_ hrun
    · rintro s rfl key
      exact KeyState.start imp key
    · rintro s request _ h hguard ⟨-, rfl⟩ key
      exact (h key).execute hguard
  exact (hkey key).finished hdone

theorem run_execute (n : Nat) (imp : Impression) (guard : FreqState n → Fin n → Prop)
    (requests : List (Fin n))
    (hpermitted : Permitted (FreqState.execute imp)
      (fun s request => guard s request ∧ s.phase request ≠ .finished) (freqStart n) requests) :
    Run (freqSystem n imp) guard requests (requests.foldl (FreqState.execute imp) (freqStart n)) := by
  have hstart : Run (freqSystem n imp) guard [] (freqStart n) := .start rfl
  exact hstart.execute (FreqState.execute imp) _ (fun _ _ h => h.1) (fun _ _ h => ⟨h.2, rfl⟩)
    requests hpermitted

theorem counters_undisturbed_sample :
    let imp : Impression := ⟨1, 2, 3⟩
    ∃ events s, Run (freqSystem 2 imp) Undisturbed events s ∧
      (∀ request, s.phase request = .finished) ∧ Counts imp 2 (s.store .daily) := by
  intro imp
  have hrun := run_execute 2 imp Undisturbed [0, 0, 0, 0, 1, 1, 1, 1] (by decide)
  exact ⟨_, _, hrun, by decide, counters_undisturbed 2 imp _ _ hrun (by decide) .daily⟩

/-- Two requests that both find no record each send a fresh one. -/
theorem counters_lost :
    let imp : Impression := ⟨1, 2, 3⟩
    ¬∀ (events : List (Fin 2)) (s : FreqState 2),
      Run (freqSystem 2 imp) (fun _ _ => True) events s →
      (∀ request, s.phase request = .finished) → ∀ key, Counts imp 2 (s.store key) := by
  intro imp h
  have hrun := run_execute 2 imp (fun _ _ => True) [0, 1, 0, 1, 0, 1, 0, 1] (by decide)
  have hdaily := (h _ _ hrun (by decide) .daily).1
  revert hdaily
  decide

end AdServer.Show
