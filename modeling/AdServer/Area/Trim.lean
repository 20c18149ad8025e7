import AdServer.Area.Lookup

/-!
The loops of `trim`, one test or assignment at a time: the outer loop and the two loops inside
it, which copy up to a blank and skip the blanks. The machine matches the scan of `trim` round by
round, so it returns what `trim` has, and it has written every position up to the end of the
result once.
-/
namespace AdServer.Area

open Cursor Url

/-- Which of the loops is at its test. -/
inductive TrimPoint
  | outer
  | copy
  | skip
  | returned
  deriving DecidableEq, Repr

structure TrimState where
  point : TrimPoint := .outer
  buffer : Bytes
  p1 : Nat := 0
  p2 : Nat := 0
  /-- The positions written so far. -/
  writes : List Nat := []
  deriving DecidableEq, Repr

/-- `*p2 = c`; `none` is a write behind the buffer. -/
def TrimState.write (s : TrimState) (c : UInt8) : Option TrimState :=
  if s.p2 < s.buffer.length then
    some { s with buffer := s.buffer.set s.p2 c, writes := s.writes ++ [s.p2] }
  else none

/-- `none` is a read or a write behind the buffer. -/
def trimStep (s : TrimState) : Option TrimState :=
  (s.buffer[s.p1]?).bind fun c =>
    match s.point with
    | .outer =>
      if c ≠ 0 then some { s with point := .copy }
      else (s.write 0).map fun s => { s with point := .returned }
    | .copy =>
      if ¬isBlank c ∧ c ≠ 0 then
        (s.write c).map fun s => { s with p1 := s.p1 + 1, p2 := s.p2 + 1 }
      else some { s with point := if c ≠ 0 then .skip else .outer }
    | .skip => if isBlank c then some { s with p1 := s.p1 + 1 } else some { s with point := .outer }
    | .returned => some s

def trimRun : Nat → TrimState → Option TrimState
  | 0, s => some s
  | steps + 1, s => (trimStep s).bind (trimRun steps)

/-- The `int` that is returned. -/
def TrimState.length (s : TrimState) : Int := toInt32 s.p2

/-- Some number of steps leads to the return with this buffer and this `p2`, and every position
from the `p2` before up to it is written on the way. -/
def Returns (s : TrimState) (buffer : Bytes) (k : Nat) : Prop :=
  ∃ steps final, trimRun steps s = some final ∧ final.point = .returned ∧
    final.buffer = buffer ∧ final.p2 = k ∧
    final.writes = s.writes ++ List.range' s.p2 (k + 1 - s.p2)

theorem Returns.of_step {s t : TrimState} {buffer : Bytes} {k : Nat} (hstep : trimStep s = some t)
    (hwrites : t.writes ++ List.range' t.p2 (k + 1 - t.p2) =
      s.writes ++ List.range' s.p2 (k + 1 - s.p2))
    (h : Returns t buffer k) : Returns s buffer k := by
  obtain ⟨steps, final, hrun, hpoint, hbuffer, hp2, htrace⟩ := h
  refine ⟨steps + 1, final, ?_, hpoint, hbuffer, hp2, htrace.trans hwrites⟩
  rw [trimRun, hstep]
  exact hrun

section
variable {memory buffer : Bytes} {p1 p2 k : Nat} {writes : List Nat} {c : UInt8}
  (hc : memory[p1]? = some c)
include hc

theorem Returns.outer_zero (hzero : c = 0) (hlt : p2 < memory.length) :
    Returns ⟨.outer, memory, p1, p2, writes⟩ (memory.set p2 0) p2 := by
  refine ⟨1, ⟨.returned, memory.set p2 0, p1, p2, writes ++ [p2]⟩, ?_, rfl, rfl, rfl, ?_⟩
  · simp only [trimRun, trimStep, hc, Option.bind_some, hzero, TrimState.write, if_pos hlt]
    rfl
  · rw [Nat.add_sub_cancel_left]
    rfl

theorem Returns.copy_char (hblank : isBlank c = false) (hzero : c ≠ 0) (hlt : p2 < memory.length)
    (hk : p2 < k)
    (h : Returns ⟨.copy, memory.set p2 c, p1 + 1, p2 + 1, writes ++ [p2]⟩ buffer k) :
    Returns ⟨.copy, memory, p1, p2, writes⟩ buffer k := by
  refine h.of_step ?_ ?_
  · simp only [trimStep, hc, Option.bind_some, hblank, TrimState.write, if_pos hlt]
    rw [if_pos ⟨Bool.false_ne_true, hzero⟩]
    rfl
  · have hcount : k + 1 - p2 = k + 1 - (p2 + 1) + 1 := by omega
    rw [List.append_assoc, List.singleton_append, hcount, List.range'_succ]

theorem Returns.skip_blank (hblank : isBlank c = true)
    (h : Returns ⟨.skip, memory, p1 + 1, p2, writes⟩ buffer k) :
    Returns ⟨.skip, memory, p1, p2, writes⟩ buffer k := by
  refine h.of_step ?_ ?_
  · simp only [trimStep, hc, Option.bind_some, if_pos hblank]
  · rfl

theorem Returns.outer_char (hzero : c ≠ 0)
    (h : Returns ⟨.copy, memory, p1, p2, writes⟩ buffer k) :
    Returns ⟨.outer, memory, p1, p2, writes⟩ buffer k := by
  refine h.of_step ?_ ?_
  · simp only [trimStep, hc, Option.bind_some, if_pos hzero]
  · rfl

theorem Returns.copy_blank (hblank : isBlank c = true) (hzero : c ≠ 0)
    (h : Returns ⟨.skip, memory, p1, p2, writes⟩ buffer k) :
    Returns ⟨.copy, memory, p1, p2, writes⟩ buffer k := by
  refine h.of_step ?_ ?_
  · simp only [trimStep, hc, Option.bind_some, hblank, if_pos hzero]
    exact if_neg fun h => h.1 trivial
  · rfl

theorem Returns.copy_zero (hzero : c = 0)
    (h : Returns ⟨.outer, memory, p1, p2, writes⟩ buffer k) :
    Returns ⟨.copy, memory, p1, p2, writes⟩ buffer k := by
  refine h.of_step ?_ ?_
  · simp only [trimStep, hc, Option.bind_some, hzero]
    rfl
  · rfl

theorem Returns.skip_char (hblank : isBlank c = false)
    (h : Returns ⟨.outer, memory, p1, p2, writes⟩ buffer k) :
    Returns ⟨.skip, memory, p1, p2, writes⟩ buffer k := by
  refine h.of_step ?_ ?_
  · simp only [trimStep, hc, Option.bind_some, hblank]
    rfl
  · rfl

/-- At the terminator every loop goes back to the outer one, which ends. -/
theorem Returns.at_zero (hzero : c = 0) (hlt : p2 < memory.length) {point : TrimPoint}
    (hpoint : point ≠ .returned) :
    Returns ⟨point, memory, p1, p2, writes⟩ (memory.set p2 0) p2 := by
  have houter : Returns ⟨.outer, memory, p1, p2, writes⟩ (memory.set p2 0) p2 :=
    outer_zero hc hzero hlt
  cases point with
  | outer => exact houter
  | copy => exact houter.copy_zero hc hzero
  | skip => exact houter.skip_char hc (hzero ▸ rfl)
  | returned => exact absurd rfl hpoint

/-- At another character every loop goes on to the one that copies. -/
theorem Returns.at_char (hblank : isBlank c = false) (hzero : c ≠ 0)
    (h : Returns ⟨.copy, memory, p1, p2, writes⟩ buffer k) {point : TrimPoint}
    (hpoint : point ≠ .returned) : Returns ⟨point, memory, p1, p2, writes⟩ buffer k := by
  cases point with
  | outer => exact h.outer_char hc hzero
  | copy => exact h
  | skip => exact (h.outer_char hc hzero).skip_char hc hblank
  | returned => exact absurd rfl hpoint

/-- At a blank every loop goes on to the one that skips. -/
theorem Returns.at_blank (hblank : isBlank c = true) (hzero : c ≠ 0)
    (h : Returns ⟨.skip, memory, p1, p2, writes⟩ buffer k) {point : TrimPoint}
    (hpoint : point ≠ .returned) : Returns ⟨point, memory, p1, p2, writes⟩ buffer k := by
  cases point with
  | outer => exact (h.copy_blank hc hblank hzero).outer_char hc hzero
  | copy => exact h.copy_blank hc hblank hzero
  | skip => exact h
  | returned => exact absurd rfl hpoint

end

/-- The rounds of `compact` are matched from each of the three loops. -/
theorem returns_of_compact {left p1 p2 : Nat} {memory written : Bytes} {k : Nat} (hle : p2 ≤ p1)
    (hrun : compact (· = 0) (fun c => !isBlank c) left memory p1 p2 = some (written, k))
    (writes : List Nat) {point : TrimPoint} (hpoint : point ≠ .returned) :
    Returns ⟨point, memory, p1, p2, writes⟩ (written.set k 0) k := by
  induction left generalizing memory p1 p2 writes point with
  | zero => cases hrun
  | succ left ih =>
      rw [compact] at hrun
      split at hrun
      · cases hrun
      · rename_i c hc
        have hlt : p2 < memory.length :=
          Nat.lt_of_le_of_lt hle (List.getElem?_eq_some_iff.mp hc).1
        split at hrun
        · rename_i hzero
          cases hrun
          exact Returns.at_zero hc (of_decide_eq_true hzero) hlt hpoint
        · rename_i hzero
          have hzero : c ≠ 0 := fun h => hzero (decide_eq_true h)
          split at hrun
          · rename_i hblank
            have hblank : isBlank c = false := (Bool.not_eq_true' _).mp hblank
            have hk : p2 < k := (drop_of_compact (Nat.succ_le_succ hle) hrun).1
            have hnext := ih (Nat.succ_le_succ hle) hrun (writes ++ [p2])
              (by decide : TrimPoint.copy ≠ .returned)
            exact (hnext.copy_char hc hblank hzero hlt hk).at_char hc hblank hzero hpoint
          · rename_i hblank
            have hblank : isBlank c = true := by simpa using hblank
            have hnext := ih (Nat.le_succ_of_le hle) hrun writes
              (by decide : TrimPoint.skip ≠ .returned)
            exact (hnext.skip_blank hc hblank).at_blank hc hblank hzero hpoint

theorem returns_of_trim {buffer result : Bytes} {k : Nat} (h : trim buffer = some (result, k)) :
    Returns { buffer := buffer } result k := by
  obtain ⟨⟨written, p2⟩, hrun, hresult⟩ := Option.map_eq_some_iff.mp h
  cases hresult
  exact returns_of_compact (Nat.le_refl 0) hrun [] (by decide : TrimPoint.outer ≠ .returned)

/-- The characters that are not blanks. -/
def kept (text : Bytes) : Bytes := text.filter fun c => !isBlank c

theorem length_kept_le (text : Bytes) : (kept text).length ≤ text.length := List.length_filter_le ..

/-- What stood behind the end of the result stays as it was. -/
theorem trim_eq {text : Bytes} (hnul : 0 ∉ text) (rest : Bytes) :
    trim (text ++ 0 :: rest) =
      some (kept text ++ 0 :: (text ++ 0 :: rest).drop ((kept text).length + 1),
        (kept text).length) := by
  have hstop : ∀ x ∈ text, decide (x = 0) = false := fun x hx =>
    decide_eq_false fun hzero => hnul (hzero ▸ hx)
  have hlength : (text ++ 0 :: rest).length = text.length + (rest.length + 1) := by
    rw [List.length_append, List.length_cons]
  have hrun : ∃ written, compact (· = 0) (fun c => !isBlank c) (text ++ 0 :: rest).length
      (text ++ 0 :: rest) 0 0 = some (written, 0 + (kept text).length) ∧ _ :=
    compact_append_cons (Nat.le_refl 0) rfl hstop rfl (by omega)
  obtain ⟨written, hrun, htake⟩ := hrun
  rw [Nat.zero_add] at hrun
  rw [List.take_zero, List.nil_append, Nat.zero_add] at htake
  obtain ⟨-, hdrop, hsize⟩ := drop_of_compact (Nat.le_refl 0) hrun
  have hlt : (kept text).length < written.length := by
    have hkept := length_kept_le text
    omega
  have htail : written.drop ((kept text).length + 1) =
      (text ++ 0 :: rest).drop ((kept text).length + 1) := by
    rw [← List.drop_drop, ← List.drop_drop, hdrop]
  have hset : written.set (kept text).length 0 =
      kept text ++ 0 :: (text ++ 0 :: rest).drop ((kept text).length + 1) := by
    rw [List.set_eq_take_append_cons_drop, if_pos hlt, htail]
    exact congrArg (· ++ _) htake
  rw [trim, hrun, ← hset]
  rfl

/-- `trim` ends with the characters that are not blanks at the front of the buffer, has written
nothing behind the terminator and returns their number. -/
theorem trimRun_exact {text : Bytes} (hnul : 0 ∉ text) (hint : (kept text).length < 2 ^ 31)
    (rest : Bytes) :
    ∃ steps final, trimRun steps { buffer := text ++ 0 :: rest } = some final ∧
      final.point = .returned ∧
      (∀ position ∈ final.writes, position ≤ text.length) ∧
      final.buffer = kept text ++ 0 :: (text ++ 0 :: rest).drop ((kept text).length + 1) ∧
      final.length = (kept text).length := by
  obtain ⟨steps, final, hsteps, hpoint, hbuffer, hp2, hwrites⟩ :=
    returns_of_trim (trim_eq hnul rest)
  refine ⟨steps, final, hsteps, hpoint, fun position hposition => ?_, hbuffer, ?_⟩
  · rw [hwrites, List.nil_append, List.mem_range'_1] at hposition
    have hkept := length_kept_le text
    omega
  · rw [TrimState.length, hp2, toInt32_of_lt hint]

theorem trimRun_exact_blanks :
    ∃ steps final, trimRun steps { buffer := bytes " a b" ++ 0 :: [7] } = some final ∧
      final.point = .returned ∧
      (∀ position ∈ final.writes, position ≤ 4) ∧
      final.buffer = bytes "ab" ++ 0 :: (bytes "b" ++ [0, 7]) ∧ final.length = 2 :=
  @trimRun_exact (bytes " a b") (by decide) (by decide) [7]

/-- A number of characters that is no `int` is returned as another one. -/
theorem trimRun_many :
    ∃ steps final,
      trimRun steps { buffer := List.replicate (2 ^ 31) (byte 'a') ++ [0] } = some final ∧
      final.point = .returned ∧ final.length = -2 ^ 31 := by
  have hnul : (0 : UInt8) ∉ List.replicate (2 ^ 31) (byte 'a') := fun hmem =>
    absurd (List.eq_of_mem_replicate hmem) (by decide)
  have hkept : kept (List.replicate (2 ^ 31) (byte 'a')) = List.replicate (2 ^ 31) (byte 'a') :=
    List.filter_eq_self.mpr fun c hc => by rw [List.eq_of_mem_replicate hc]; decide
  obtain ⟨steps, final, hsteps, hpoint, -, hp2, -⟩ := returns_of_trim (trim_eq hnul [])
  refine ⟨steps, final, hsteps, hpoint, ?_⟩
  rw [TrimState.length, hp2, hkept, List.length_replicate]
  decide

end AdServer.Area
