import AdServer.Basic
import AdServer.Library.BoundedQueue
import AdServer.Library.Cells
import AdServer.Library.Lockstep

/-!
The ring buffer `AdRingBufferSRSW`. The items stand between a read and a write position that go
around a vector. Equal positions mean that the ring is empty, so one cell always stays free.
-/
namespace AdServer.Buffer

open BoundedQueue Ring Lockstep

structure RingBufferBase (ρ : Type) where
  vRing : List ρ
  iSize : Int
  iReadPosition : Int
  iWritePosition : Int

namespace RingBufferBase

variable {ρ : Type}

/-- `init` on a vector that may have cells already. `resize` fills up with the default value. -/
def init [Inhabited ρ] (vRing : List ρ) (iSize : BitVec 32) : RingBufferBase ρ where
  vRing :=
    if 0 < iSize.toInt then
      vRing.take iSize.toNat ++ List.replicate (iSize.toNat - vRing.length) default
    else vRing
  iSize := iSize.toInt
  iReadPosition := 0
  iWritePosition := 0

/-- `(position + 1) % m_iSize`; `none` is a division by zero. -/
def next (ring : RingBufferBase ρ) (position : Int) : Option Int :=
  if ring.iSize = 0 then none else some ((wrapInt32 (position + 1)).tmod ring.iSize)

/-- `__push`; `none` is also a write outside of the vector. -/
def push (ring : RingBufferBase ρ) (request : ρ) : Option (RingBufferBase ρ) := do
  let vRing ← Cells.put ring.vRing ring.iWritePosition request
  let position ← ring.next ring.iWritePosition
  some { ring with vRing := vRing, iWritePosition := position }

def full (ring : RingBufferBase ρ) : Option Bool := do
  let fullReadPosition ← ring.next ring.iWritePosition
  some (ring.iReadPosition = fullReadPosition)

def empty (ring : RingBufferBase ρ) : Bool := ring.iReadPosition = ring.iWritePosition

def pop (ring : RingBufferBase ρ) : Option (RingBufferBase ρ × ρ) := do
  let request ← Cells.entry ring.vRing ring.iReadPosition
  let position ← ring.next ring.iReadPosition
  some ({ ring with iReadPosition := position }, request)

def size (ring : RingBufferBase ρ) : BitVec 32 :=
  if ring.iReadPosition = ring.iWritePosition then 0
  else if ring.iReadPosition > ring.iWritePosition then
    BitVec.ofInt 32 (ring.iSize - ring.iReadPosition + ring.iWritePosition)
  else BitVec.ofInt 32 (ring.iWritePosition - ring.iReadPosition)

end RingBufferBase

structure RingBufferSRSW (ρ : Type) extends RingBufferBase ρ where
  uiReadCount : BitVec 32
  uiWriteCount : BitVec 32

namespace RingBufferSRSW

variable {ρ : Type}

def create [Inhabited ρ] (size : BitVec 32) : RingBufferSRSW ρ where
  toRingBufferBase := .init [] size
  uiReadCount := 0
  uiWriteCount := 0

def tryPush (ring : RingBufferSRSW ρ) (request : ρ) : Option (RingBufferSRSW ρ × Bool) := do
  if ← ring.full then some (ring, false)
  else
    let base ← ring.push request
    some ({ ring with toRingBufferBase := base, uiWriteCount := ring.uiWriteCount + 1 }, true)

/-- `tryPop`, with the result if there is one. -/
def tryPop (ring : RingBufferSRSW ρ) : Option (RingBufferSRSW ρ × Option ρ) :=
  if ring.empty then some (ring, none)
  else do
    let (base, result) ← ring.pop
    some ({ ring with toRingBufferBase := base, uiReadCount := ring.uiReadCount + 1 }, some result)

def answer (ring : RingBufferSRSW ρ) : Request ρ → Option (RingBufferSRSW ρ × Answer ρ)
  | .push request => do
    let (ring, success) ← ring.tryPush request
    some (ring, .pushed success)
  | .pop => do
    let (ring, result) ← ring.tryPop
    some (ring, .popped result)

end RingBufferSRSW

/-- The ring of `n` cells holds the items from its read to its write position. The calls are
counted modulo 2^32. -/
structure Represents {ρ : Type} (n r : Nat) (ring : RingBufferSRSW ρ) (items : List ρ) : Prop where
  iSize : ring.iSize = n
  length : ring.vRing.length = n
  inside : r < n
  room : items.length < n
  readPosition : ring.iReadPosition = r
  writePosition : ring.iWritePosition = place n r items.length
  holds : Holds ring.vRing r items
  counts : ring.uiWriteCount = ring.uiReadCount + BitVec.ofNat 32 items.length

namespace Represents

variable {ρ : Type} {n r : Nat} {ring : RingBufferSRSW ρ} {items : List ρ}

theorem next_eq (h : Represents n r ring items) (hn : n < 2 ^ 31) {position : Nat}
    (hposition : position < n) :
    ring.next position = some (place n position 1 : Nat) := by
  have hsize : (n : Int) ≠ 0 := by omega
  have hwrap : wrapInt32 ((position : Int) + 1) = (position + 1 : Nat) :=
    wrapInt32_eq_self_iff.mpr (by omega)
  rw [RingBufferBase.next, h.iSize, if_neg hsize, hwrap, Int.tmod_eq_emod_of_nonneg (by omega)]
  rfl

theorem write_lt (h : Represents n r ring items) : place n r items.length < n :=
  place_lt (Nat.zero_lt_of_lt h.inside) r items.length

theorem next_write (h : Represents n r ring items) (hn : n < 2 ^ 31) :
    ring.next ring.iWritePosition = some (place n r (items.length + 1) : Nat) := by
  rw [h.writePosition, h.next_eq hn h.write_lt, place_place]

theorem next_read (h : Represents n r ring items) (hn : n < 2 ^ 31) :
    ring.next ring.iReadPosition = some (place n r 1 : Nat) := by
  rw [h.readPosition, h.next_eq hn h.inside]

theorem full_eq (h : Represents n r ring items) (hn : n < 2 ^ 31) :
    ring.full = some (decide (items.length + 1 = n)) := by
  have hplace := place_eq_ite h.inside (Nat.succ_le_of_lt h.room)
  have hfull : (r : Int) = (place n r (items.length + 1) : Nat) ↔ items.length + 1 = n := by
    rw [hplace]
    have hinside := h.inside
    split <;> omega
  rw [RingBufferBase.full, h.next_write hn, h.readPosition]
  exact congrArg some (decide_eq_decide.mpr hfull)

theorem empty_eq (h : Represents n r ring items) : ring.empty = decide (items = []) := by
  have hempty : (r : Int) = (place n r items.length : Nat) ↔ items = [] := by
    rw [Int.ofNat_inj, eq_comm, ← List.length_eq_zero_iff]
    nth_rewrite 2 [← place_zero h.inside]
    exact place_inj h.room (Nat.zero_lt_of_lt h.inside)
  rw [RingBufferBase.empty, h.readPosition, h.writePosition]
  exact decide_eq_decide.mpr hempty

theorem size_eq (h : Represents n r ring items) (hn : n < 2 ^ 31) :
    ring.size.toNat = items.length := by
  have hinside := h.inside
  have hroom := h.room
  have hplace := place_eq_ite h.inside (Nat.le_of_lt h.room)
  have htoNat : ∀ z : Int, z = items.length → (BitVec.ofInt 32 z).toNat = items.length := by
    rintro z rfl
    rw [BitVec.ofInt_natCast, BitVec.toNat_ofNat]
    exact Nat.mod_eq_of_lt (by omega)
  have hwrite : r + items.length < n ∧ place n r items.length = r + items.length ∨
      n ≤ r + items.length ∧ place n r items.length + n = r + items.length := by
    rw [hplace]
    split <;> omega
  rw [RingBufferBase.size, h.iSize, h.readPosition, h.writePosition]
  split
  · have hnone : items.length = 0 := by omega
    rw [hnone]
    rfl
  · split
    · exact htoNat _ (by omega)
    · exact htoNat _ (by omega)

/-- A push into a ring with room puts the item behind the others. -/
theorem push (h : Represents n r ring items) (hn : n < 2 ^ 31) (hroom : items.length + 1 < n)
    (request : ρ) :
    ∃ next, ring.tryPush request = some (next, true) ∧
      Represents n r next (items ++ [request]) := by
  have hput : Cells.put ring.vRing ring.iWritePosition request =
      some (ring.vRing.set (place n r items.length) request) := by
    have hlt := h.write_lt
    rw [Cells.put, h.writePosition, h.length, Int.toNat_natCast]
    exact if_pos (by omega)
  have hfull : ring.full = some false := by
    rw [h.full_eq hn, decide_eq_false (Nat.ne_of_lt hroom)]
  refine ⟨{ ring with
    vRing := ring.vRing.set (place n r items.length) request
    iWritePosition := (place n r (items.length + 1) : Nat)
    uiWriteCount := ring.uiWriteCount + 1 }, ?_, ?_⟩
  · simp [RingBufferSRSW.tryPush, hfull, RingBufferBase.push, hput, h.next_write hn]
  · refine ⟨h.iSize, ?_, h.inside, ?_, h.readPosition, ?_, ?_, ?_⟩
    · rw [List.length_set, h.length]
    · rwa [List.length_append, List.length_singleton]
    · rw [List.length_append, List.length_singleton]
    · have hholds := h.holds.push (h.length.symm ▸ h.room) request
      rwa [h.length] at hholds
    · rw [List.length_append, List.length_singleton, h.counts, BitVec.ofNat_add, BitVec.add_assoc]
      rfl

theorem push_full (h : Represents n r ring items) (hn : n < 2 ^ 31) (hfull : items.length + 1 = n)
    (request : ρ) : ring.tryPush request = some (ring, false) := by
  simp [RingBufferSRSW.tryPush, h.full_eq hn, hfull]

theorem pop {oldest : ρ} (h : Represents n r ring (oldest :: items)) (hn : n < 2 ^ 31) :
    ∃ next, ring.tryPop = some (next, some oldest) ∧
      Represents n (place n r 1) next items := by
  have hentry : Cells.entry ring.vRing ring.iReadPosition = some oldest := by
    rw [h.readPosition, Cells.entry_natCast]
    exact h.holds.oldest (h.length.symm ▸ h.inside)
  have hempty : ring.empty = false := h.empty_eq
  refine ⟨{ ring with
    iReadPosition := (place n r 1 : Nat)
    uiReadCount := ring.uiReadCount + 1 }, ?_, ?_⟩
  · simp [RingBufferSRSW.tryPop, hempty, RingBufferBase.pop, hentry, h.next_read hn]
  · have hroom := h.room
    rw [List.length_cons] at hroom
    refine ⟨h.iSize, h.length, place_lt (Nat.zero_lt_of_lt h.inside) r 1, by omega, rfl, ?_, ?_, ?_⟩
    · rw [place_place, Nat.add_comm 1]
      exact h.writePosition
    · have hholds := h.holds.pop
      rwa [h.length] at hholds
    · rw [h.counts, List.length_cons, Nat.add_comm items.length, BitVec.ofNat_add,
        ← BitVec.add_assoc]
      rfl

theorem pop_empty (h : Represents n r ring []) : ring.tryPop = some (ring, none) := by
  rw [RingBufferSRSW.tryPop, h.empty_eq]
  rfl

end Represents

/-- The ring of `n` cells stands for a queue with the capacity `n - 1`. -/
def Refines {ρ : Type} (n : Nat) (ring : RingBufferSRSW ρ) (queue : BoundedQueue ρ (n - 1)) :
    Prop :=
  ∃ r, Represents n r ring queue.items

variable {ρ : Type} {n : Nat}

/-- Every call on the ring answers as the queue does. -/
theorem simulates_queue (hn : n < 2 ^ 31) :
    Simulates RingBufferSRSW.answer BoundedQueue.answer (@Refines ρ n) := by
  rintro ring queue request ⟨r, h⟩
  have hinside := h.inside
  cases request with
  | push item =>
      by_cases hroom : queue.items.length + 1 < n
      · obtain ⟨next, hpush, hnext⟩ := h.push hn hroom item
        obtain ⟨hitems, hsuccess⟩ := queue.tryPush_of_lt (by omega) item
        refine ⟨next, ?_, r, ?_⟩
        · rw [RingBufferSRSW.answer, hpush, BoundedQueue.answer, hsuccess]
          rfl
        · rwa [BoundedQueue.answer, hitems]
      · have hfull : queue.items.length + 1 = n := by have := h.room; omega
        have hsame := queue.tryPush_of_full (by omega) item
        refine ⟨ring, ?_, r, ?_⟩
        · rw [RingBufferSRSW.answer, h.push_full hn hfull, BoundedQueue.answer, hsame]
          rfl
        · rwa [BoundedQueue.answer, hsame]
  | pop =>
      cases hitems : queue.items with
      | nil =>
          have hsame := queue.tryPop_of_nil hitems
          rw [hitems] at h
          refine ⟨ring, ?_, r, ?_⟩
          · rw [RingBufferSRSW.answer, h.pop_empty, BoundedQueue.answer, hsame]
            rfl
          · rwa [BoundedQueue.answer, hsame, hitems]
      | cons oldest rest =>
          rw [hitems] at h
          obtain ⟨next, hpop, hnext⟩ := h.pop hn
          obtain ⟨hrest, hresult⟩ := queue.tryPop_of_cons hitems
          refine ⟨next, ?_, place n r 1, ?_⟩
          · rw [RingBufferSRSW.answer, hpop, BoundedQueue.answer, hresult]
            rfl
          · rwa [BoundedQueue.answer, hrest]

theorem toNat_of_toInt_pos {size : BitVec 32} (hsize : 1 ≤ size.toInt) :
    size.toInt = size.toNat ∧ size.toNat < 2 ^ 31 := by
  have hlt := size.isLt
  rw [BitVec.toInt_eq_toNat_cond] at hsize ⊢
  split at hsize <;> omega

theorem refines_create [Inhabited ρ] {size : BitVec 32} (hsize : 1 ≤ size.toInt) :
    Refines size.toNat (RingBufferSRSW.create size : RingBufferSRSW ρ) BoundedQueue.empty := by
  obtain ⟨htoNat, -⟩ := toNat_of_toInt_pos hsize
  have hpos : 0 < size.toNat := by omega
  have hlength : (RingBufferBase.init ([] : List ρ) size).vRing.length = size.toNat := by
    rw [RingBufferBase.init, if_pos (by omega)]
    simp
  exact ⟨0, htoNat, hlength, hpos, hpos, rfl, congrArg Nat.cast (place_zero hpos).symm,
    holds_nil _ 0, rfl⟩

/-- On every sequence of calls a ring of `n` cells answers as a queue of capacity `n - 1`, its size
is the length of the queue and its positions are those of cells. -/
theorem ringBuffer_refines_queue [Inhabited ρ] (size : BitVec 32) (hsize : 1 ≤ size.toInt)
    (requests : List (Request ρ)) :
    ∃ ring queue answers,
      run RingBufferSRSW.answer (RingBufferSRSW.create size) requests = some (ring, answers) ∧
      specRun BoundedQueue.answer (BoundedQueue.empty : BoundedQueue ρ (size.toNat - 1)) requests =
        (queue, answers) ∧
      ring.size.toNat = queue.items.length ∧ ring.vRing.length = size.toNat ∧
      (0 ≤ ring.iReadPosition ∧ ring.iReadPosition < size.toInt) ∧
      (0 ≤ ring.iWritePosition ∧ ring.iWritePosition < size.toInt) := by
  obtain ⟨htoNat, hlt⟩ := toNat_of_toInt_pos hsize
  obtain ⟨ring, hrun, r, h⟩ := (simulates_queue hlt).run (refines_create hsize) requests
  have hinside := h.inside
  have hwrite := h.write_lt
  refine ⟨ring, _, _, hrun, rfl, h.size_eq hlt, h.length, ?_, ?_⟩
  · rw [h.readPosition, htoNat]
    omega
  · rw [h.writePosition, htoNat]
    omega

theorem ringBuffer_refines_queue_three :
    ∃ ring, run RingBufferSRSW.answer (RingBufferSRSW.create 3)
        [.push 5, .push 6, .push 7, .pop, .push 8, .pop] =
          some (ring, [.pushed true, .pushed true, .pushed false, .popped (some 5), .pushed true,
            .popped (some 6)]) ∧
      ring.size.toNat = 1 ∧ ring.vRing.length = 3 ∧
      (0 ≤ ring.iReadPosition ∧ ring.iReadPosition < 3) ∧
      (0 ≤ ring.iWritePosition ∧ ring.iWritePosition < 3) := by
  obtain ⟨ring, queue, answers, hrun, hqueue, hring⟩ := ringBuffer_refines_queue 3 (by decide)
    [.push 5, .push 6, .push 7, .pop, .push 8, .pop]
  cases hqueue
  exact ⟨ring, hrun, hring⟩

end AdServer.Buffer
