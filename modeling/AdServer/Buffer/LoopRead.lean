import AdServer.Basic
import AdServer.Library.Dictionary
import AdServer.Library.OrderedMap

/-!
The buffer `AdLRBuffer`, whose readers take its pointers in turn. A map gives each pointer its
index in a vector. A deletion fills the vector anew from the map and numbers the pointers in
their order while it goes through the map. Each call holds the lock, so that calls of several
threads are one sequence of calls.
-/
namespace AdServer.Buffer

/-- The pointers have the type `π` with the order of `std::map`. -/
structure LRBuffer (π : Type) [LinearOrder π] where
  mBuffer : OrderedMap π (BitVec 32)
  vBuffer : List π

inductive LRCall (π : Type) where
  | push (pData : π)
  | del (pData : π)

section
variable {π : Type} {calls : List (LRCall π)} {p q : π}

/-- The pointer was pushed and not deleted since. -/
def Held (calls : List (LRCall π)) (p : π) : Prop :=
  ∃ earlier later, calls = earlier ++ .push p :: later ∧ .del p ∉ later

theorem held_push : Held (calls ++ [.push q]) p ↔ Held calls p ∨ p = q := by
  refine ⟨?_, ?_⟩
  · rintro ⟨earlier, later, heq, hlater⟩
    rcases List.eq_nil_or_concat later with rfl | ⟨later, last, rfl⟩
    · right
      simpa [eq_comm] using (List.append_inj' heq rfl).2
    · rw [List.concat_eq_append, ← List.cons_append, ← List.append_assoc] at heq
      rw [List.concat_eq_append, List.mem_append, not_or] at hlater
      exact .inl ⟨earlier, later, (List.append_inj' heq rfl).1, hlater.1⟩
  · rintro (⟨earlier, later, rfl, hlater⟩ | rfl)
    · refine ⟨earlier, later ++ [.push q], by simp, ?_⟩
      simpa using hlater
    · exact ⟨calls, [], rfl, List.not_mem_nil⟩

theorem held_del : Held (calls ++ [.del q]) p ↔ Held calls p ∧ p ≠ q := by
  refine ⟨?_, ?_⟩
  · rintro ⟨earlier, later, heq, hlater⟩
    rcases List.eq_nil_or_concat later with rfl | ⟨later, last, rfl⟩
    · simp at heq
    · rw [List.concat_eq_append, ← List.cons_append, ← List.append_assoc] at heq
      rw [List.concat_eq_append, List.mem_append, not_or, List.mem_singleton] at hlater
      obtain ⟨hcalls, hlast⟩ := List.append_inj' heq rfl
      obtain rfl := List.singleton_inj.mp hlast
      refine ⟨⟨earlier, later, hcalls, hlater.1⟩, ?_⟩
      rintro rfl
      exact hlater.2 rfl
  · rintro ⟨⟨earlier, later, rfl, hlater⟩, hne⟩
    refine ⟨earlier, later ++ [.del q], by simp, ?_⟩
    simpa [hne] using hlater

/-- One round of the loop in `del`: the next index and the vector with the pointer. -/
def renumber (vBuffer : List π) (pData : π) (_index : BitVec 32) : BitVec 32 × List π :=
  (BitVec.ofNat 32 vBuffer.length, vBuffer ++ [pData])

/-- The loop of `del` appends the keys in their order and numbers them by their places. -/
theorem rewriteEntries_renumber (vBuffer : List π) (l : List (π × BitVec 32)) :
    (OrderedMap.rewriteEntries renumber vBuffer l).2 = vBuffer ++ l.map Prod.fst ∧
      ∀ i p, (l.map Prod.fst)[i]? = some p →
        (p, BitVec.ofNat 32 (vBuffer.length + i)) ∈
          (OrderedMap.rewriteEntries renumber vBuffer l).1 := by
  induction l generalizing vBuffer with
  | nil => exact ⟨(List.append_nil vBuffer).symm, fun i p hi => absurd hi (by simp)⟩
  | cons e rest ih =>
      obtain ⟨hvector, hindex⟩ := ih (vBuffer ++ [e.1])
      refine ⟨?_, ?_⟩
      · rw [List.append_assoc] at hvector
        exact hvector
      · intro i p hi
        cases i with
        | zero =>
            obtain rfl := Option.some.inj hi
            exact List.mem_cons_self
        | succ i =>
            have hlater := hindex i p hi
            rw [List.length_append, List.length_singleton, Nat.add_assoc, Nat.add_comm 1] at hlater
            exact List.mem_cons_of_mem _ hlater

end

section
variable {π : Type} [LinearOrder π]

namespace LRBuffer

def create : LRBuffer π := ⟨.empty, []⟩

def push (buffer : LRBuffer π) (pData : π) : LRBuffer π :=
  match buffer.mBuffer.find pData with
  | some _ => buffer
  | none =>
    { mBuffer := buffer.mBuffer.insert pData (BitVec.ofNat 32 buffer.vBuffer.length)
      vBuffer := buffer.vBuffer ++ [pData] }

def del (buffer : LRBuffer π) (pData : π) : LRBuffer π :=
  match buffer.mBuffer.find pData with
  | none => buffer
  | some _ =>
    let rest := (buffer.mBuffer.erase pData).rewrite renumber []
    { mBuffer := rest.1, vBuffer := rest.2 }

/-- `find`; `none` is a division by zero or a read outside of the vector. -/
def find (buffer : LRBuffer π) (null : π) (id : BitVec 32) : Option π :=
  if buffer.vBuffer = [] then some null
  else
    let size := BitVec.ofNat 32 buffer.vBuffer.length
    if size = 0 then none else buffer.vBuffer[(id % size).toNat]?

def check (buffer : LRBuffer π) (pData : π) : Bool := (buffer.mBuffer.find pData).isSome

def size (buffer : LRBuffer π) : Int := toInt32 buffer.mBuffer.entries.length

def call (buffer : LRBuffer π) : LRCall π → LRBuffer π
  | .push pData => buffer.push pData
  | .del pData => buffer.del pData

def after (calls : List (LRCall π)) : LRBuffer π := calls.foldl call create

theorem after_concat (calls : List (LRCall π)) (last : LRCall π) :
    after (calls ++ [last]) = (after calls).call last := by
  rw [after, List.foldl_append]
  rfl

end LRBuffer

/-- The vector has the keys of the map, and each key has its index, modulo 2^32. -/
structure Agrees (buffer : LRBuffer π) : Prop where
  keys : (buffer.mBuffer.entries.map Prod.fst).Perm buffer.vBuffer
  index : ∀ i p, buffer.vBuffer[i]? = some p → (p, BitVec.ofNat 32 i) ∈ buffer.mBuffer.entries

variable {buffer : LRBuffer π} {calls : List (LRCall π)} {p : π}

namespace Agrees

theorem nodup (h : Agrees buffer) : buffer.vBuffer.Nodup :=
  h.keys.nodup_iff.mp buffer.mBuffer.nodup_keys

theorem mem_entries (h : Agrees buffer) {index : BitVec 32} :
    (p, index) ∈ buffer.mBuffer.entries ↔
      ∃ i, buffer.vBuffer[i]? = some p ∧ index = BitVec.ofNat 32 i := by
  refine ⟨fun hmem => ?_, ?_⟩
  · have hp : p ∈ buffer.vBuffer := h.keys.mem_iff.mp (List.mem_map_of_mem hmem)
    obtain ⟨i, hi⟩ := List.mem_iff_getElem?.mp hp
    exact ⟨i, hi, OrderedMap.eq_of_mem hmem (h.index i p hi)⟩
  · rintro ⟨i, hi, rfl⟩
    exact h.index i p hi

theorem notMem_of_find_eq_none (h : Agrees buffer) (hnone : buffer.mBuffer.find p = none) :
    p ∉ buffer.vBuffer := by
  intro hp
  obtain ⟨i, hi⟩ := List.mem_iff_getElem?.mp hp
  exact OrderedMap.find_eq_none_iff.mp hnone _ (h.index i p hi)

theorem mem_of_find_eq_some (h : Agrees buffer) {index : BitVec 32}
    (hsome : buffer.mBuffer.find p = some index) : p ∈ buffer.vBuffer :=
  h.keys.mem_iff.mp (List.mem_map_of_mem (OrderedMap.find_eq_some_iff.mp hsome))

theorem length_eq (h : Agrees buffer) :
    buffer.mBuffer.entries.length = buffer.vBuffer.length := by
  rw [← h.keys.length_eq, List.length_map]

theorem create : Agrees (LRBuffer.create : LRBuffer π) :=
  ⟨.refl _, fun i p hi => absurd hi (by simp [LRBuffer.create])⟩

theorem push (h : Agrees buffer) (q : π) : Agrees (buffer.push q) := by
  rw [LRBuffer.push]
  split
  · exact h
  · rename_i hnone
    have habsent := OrderedMap.find_eq_none_iff.mp hnone
    have hperm := OrderedMap.perm_insert habsent (BitVec.ofNat 32 buffer.vBuffer.length)
    refine ⟨?_, ?_⟩
    · refine (hperm.map Prod.fst).trans ?_
      exact (h.keys.cons q).trans (List.perm_append_singleton q buffer.vBuffer).symm
    · intro i p hi
      refine hperm.mem_iff.mpr ?_
      rcases Dictionary.getElem?_concat_eq_some.mp hi with hold | ⟨rfl, rfl⟩
      · exact List.mem_cons_of_mem _ (h.index i p hold)
      · exact List.mem_cons_self

theorem mem_push (h : Agrees buffer) (q : π) :
    p ∈ (buffer.push q).vBuffer ↔ p ∈ buffer.vBuffer ∨ p = q := by
  rw [LRBuffer.push]
  split
  · rename_i hsome
    refine ⟨.inl, ?_⟩
    rintro (hp | rfl)
    · exact hp
    · exact h.mem_of_find_eq_some hsome
  · rw [List.mem_append, List.mem_singleton]

theorem del (h : Agrees buffer) (q : π) : Agrees (buffer.del q) := by
  rw [LRBuffer.del]
  split
  · exact h
  · obtain ⟨hvector, hindex⟩ :=
      rewriteEntries_renumber [] (buffer.mBuffer.erase q).entries
    have hkeys := OrderedMap.map_fst_rewriteEntries renumber []
      (buffer.mBuffer.erase q).entries
    rw [List.nil_append] at hvector
    refine ⟨?_, ?_⟩
    · exact .of_eq (hkeys.trans hvector.symm)
    · intro i p hi
      have hplace := hindex i p (hvector ▸ hi)
      rwa [List.length_nil, Nat.zero_add] at hplace

theorem mem_del (h : Agrees buffer) (q : π) :
    p ∈ (buffer.del q).vBuffer ↔ p ∈ buffer.vBuffer ∧ p ≠ q := by
  rw [LRBuffer.del]
  split
  · rename_i hnone
    refine ⟨fun hp => ⟨hp, ?_⟩, (·.1)⟩
    rintro rfl
    exact h.notMem_of_find_eq_none hnone hp
  · have hvector := (rewriteEntries_renumber [] (buffer.mBuffer.erase q).entries).1
    rw [List.nil_append] at hvector
    rw [← h.keys.mem_iff, ← OrderedMap.mem_keys_erase, ← hvector]
    rfl

end Agrees

/-- Whatever was called, both structures agree and have the pointers that are held. -/
theorem agrees_after (calls : List (LRCall π)) :
    Agrees (LRBuffer.after calls) ∧ ∀ p, p ∈ (LRBuffer.after calls).vBuffer ↔ Held calls p := by
  induction calls using List.reverseRecOn with
  | nil =>
      refine ⟨.create, fun p => iff_of_false List.not_mem_nil ?_⟩
      rintro ⟨earlier, later, heq, -⟩
      simp at heq
  | append_singleton calls call ih =>
      obtain ⟨hagrees, hheld⟩ := ih
      rw [LRBuffer.after_concat]
      cases call with
      | push q =>
          refine ⟨hagrees.push q, fun p => ?_⟩
          rw [held_push, ← hheld]
          exact hagrees.mem_push q
      | del q =>
          refine ⟨hagrees.del q, fun p => ?_⟩
          rw [held_del, ← hheld]
          exact hagrees.mem_del q

/-- What readers and writers find in the buffer after some calls. The counts are a `UINT` in `find`
and in the map, and an `int` in `size`. -/
structure Consistent (null : π) (calls : List (LRCall π)) (buffer : LRBuffer π) : Prop where
  nodup : buffer.vBuffer.Nodup
  held : ∀ p, p ∈ buffer.vBuffer ↔ Held calls p
  index : buffer.vBuffer.length < 2 ^ 32 → ∀ p (index : BitVec 32),
    buffer.mBuffer.find p = some index ↔ buffer.vBuffer[index.toNat]? = some p
  find : buffer.vBuffer.length < 2 ^ 32 → ∀ id, ∃ p, buffer.find null id = some p ∧
    (p ∈ buffer.vBuffer ∨ buffer.vBuffer = [] ∧ p = null)
  reached : buffer.vBuffer.length < 2 ^ 31 → ∀ p ∈ buffer.vBuffer, ∃ id : BitVec 32,
    (id.toNat : Int) < buffer.size ∧ buffer.find null id = some p

theorem LRBuffer.find_of_ne_nil (null : π) (hne : buffer.vBuffer ≠ [])
    (hlength : buffer.vBuffer.length < 2 ^ 32) (id : BitVec 32) :
    buffer.find null id = buffer.vBuffer[id.toNat % buffer.vBuffer.length]? := by
  have hpos := List.length_pos_iff.mpr hne
  have hsize : (BitVec.ofNat 32 buffer.vBuffer.length).toNat = buffer.vBuffer.length := by
    rw [BitVec.toNat_ofNat, Nat.mod_eq_of_lt hlength]
  have hzero : BitVec.ofNat 32 buffer.vBuffer.length ≠ 0 := by
    intro heq
    rw [heq] at hsize
    exact Nat.ne_of_lt hpos hsize
  rw [LRBuffer.find, if_neg hne]
  dsimp only
  rw [if_neg hzero, BitVec.toNat_umod, hsize]

namespace Agrees

theorem find_index (h : Agrees buffer) (hlength : buffer.vBuffer.length < 2 ^ 32)
    (p : π) (index : BitVec 32) :
    buffer.mBuffer.find p = some index ↔ buffer.vBuffer[index.toNat]? = some p := by
  rw [OrderedMap.find_eq_some_iff]
  refine ⟨fun hmem => ?_, fun hindex => ?_⟩
  · obtain ⟨i, hi, rfl⟩ := h.mem_entries.mp hmem
    have hlt := (List.getElem?_eq_some_iff.mp hi).1
    rwa [BitVec.toNat_ofNat, Nat.mod_eq_of_lt (by omega)]
  · have hmem := h.index _ p hindex
    rwa [BitVec.ofNat_toNat, BitVec.setWidth_eq] at hmem

theorem find_returns (null : π) (hlength : buffer.vBuffer.length < 2 ^ 32) (id : BitVec 32) :
    ∃ p, buffer.find null id = some p ∧
      (p ∈ buffer.vBuffer ∨ buffer.vBuffer = [] ∧ p = null) := by
  by_cases hnil : buffer.vBuffer = []
  · exact ⟨null, if_pos hnil, .inr ⟨hnil, rfl⟩⟩
  · have hplace := Nat.mod_lt id.toNat (List.length_pos_iff.mpr hnil)
    rw [LRBuffer.find_of_ne_nil null hnil hlength, List.getElem?_eq_getElem hplace]
    exact ⟨_, rfl, .inl (List.getElem_mem hplace)⟩

theorem find_reaches (h : Agrees buffer) (null : π) (hlength : buffer.vBuffer.length < 2 ^ 31)
    (hp : p ∈ buffer.vBuffer) :
    ∃ id : BitVec 32, (id.toNat : Int) < buffer.size ∧ buffer.find null id = some p := by
  obtain ⟨i, hi⟩ := List.mem_iff_getElem?.mp hp
  have hlt := (List.getElem?_eq_some_iff.mp hi).1
  have htoNat : (BitVec.ofNat 32 i).toNat = i := by
    rw [BitVec.toNat_ofNat]
    exact Nat.mod_eq_of_lt (by omega)
  refine ⟨BitVec.ofNat 32 i, ?_, ?_⟩
  · rw [htoNat, LRBuffer.size, h.length_eq, toInt32_of_lt hlength]
    exact Int.ofNat_lt.mpr hlt
  · rw [LRBuffer.find_of_ne_nil null (List.ne_nil_of_mem hp) (by omega), htoNat,
      Nat.mod_eq_of_lt hlt, hi]

end Agrees

/-- After every sequence of calls the vector has each pointer that is held once, and as long as
the counts fit, the map gives its index and `find` reaches it and nothing else. -/
theorem lrBuffer_consistent (null : π) (calls : List (LRCall π)) :
    Consistent null calls (LRBuffer.after calls) := by
  obtain ⟨hagrees, hheld⟩ := agrees_after calls
  refine ⟨hagrees.nodup, hheld, ?_, ?_, ?_⟩
  · intro hlength
    exact hagrees.find_index hlength
  · intro hlength
    exact Agrees.find_returns null hlength
  · intro hlength p hp
    exact hagrees.find_reaches null hlength hp

/-- Different pointers that are pushed stand in the vector one behind the other. -/
theorem vBuffer_after_pushes {pointers : List π} (hnodup : pointers.Nodup) :
    (LRBuffer.after (pointers.map .push)).vBuffer = pointers := by
  induction pointers using List.reverseRecOn with
  | nil => rfl
  | append_singleton pointers p ih =>
      rw [← List.concat_eq_append, List.nodup_concat] at hnodup
      have hold := ih hnodup.2
      have hnone : (LRBuffer.after (pointers.map .push)).mBuffer.find p = none := by
        rw [Option.eq_none_iff_forall_ne_some]
        intro index hsome
        have hp := (agrees_after (pointers.map .push)).1.mem_of_find_eq_some hsome
        rw [hold] at hp
        exact hnodup.1 hp
      rw [List.map_append, List.map_singleton, LRBuffer.after_concat, LRBuffer.call, LRBuffer.push,
        hnone]
      exact congrArg (· ++ [p]) hold

end

/-- More different pointers than an `int` can count. -/
def manyPointers : List (Fin (2 ^ 64)) := (List.range (2 ^ 31)).map (Fin.ofNat (2 ^ 64))

theorem nodup_manyPointers : manyPointers.Nodup := by
  refine List.nodup_range.map_on fun i hi j hj heq => ?_
  have hmod := congrArg Fin.val heq
  rw [List.mem_range] at hi hj
  rwa [Fin.val_ofNat, Fin.val_ofNat, Nat.mod_eq_of_lt (by omega),
    Nat.mod_eq_of_lt (by omega)] at hmod

theorem size_after_manyPointers : (LRBuffer.after (manyPointers.map .push)).size = -2 ^ 31 := by
  have hlength : manyPointers.length = 2 ^ 31 := by
    rw [manyPointers, List.length_map, List.length_range]
  rw [LRBuffer.size, (agrees_after _).1.length_eq, vBuffer_after_pushes nodup_manyPointers, hlength,
    toInt32_eq]
  rfl

/-- A pushed null pointer is found in a buffer that is not empty, and no `id` is below the size of
a buffer with 2^31 pointers. -/
theorem lrBuffer_null_found :
    ((LRBuffer.after [.push (0 : Fin (2 ^ 64))]).vBuffer ≠ [] ∧
      (LRBuffer.after [.push (0 : Fin (2 ^ 64))]).find 0 0 = some 0) ∧
    ((LRBuffer.after (manyPointers.map .push)).vBuffer ≠ [] ∧
      ∀ id : BitVec 32, ¬ (id.toNat : Int) < (LRBuffer.after (manyPointers.map .push)).size) := by
  refine ⟨⟨by decide, by decide⟩, ?_, ?_⟩
  · rw [vBuffer_after_pushes nodup_manyPointers, manyPointers, Ne, List.map_eq_nil_iff,
      List.range_eq_nil]
    omega
  · intro id
    rw [size_after_manyPointers]
    omega

end AdServer.Buffer
