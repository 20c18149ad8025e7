import AdServer.Library.Cells
import AdServer.Scenario.Atoi

/-!
The value of one exchange in a text of keys and values, all separated by `|`. The scanner moves
two pointers over the text, `p1` at the beginning of a key or value and `p2` ahead of it; a pointer
is the memory from its position on.
-/
namespace AdServer.Bid

open Cells Cursor Scenario

/-- The outer loop; `none` is a read behind the memory. -/
def extractLoop (targetAdx : Int) (p1 : Bytes) : Bytes → Option Bytes
  | [] => none
  | c :: p2 =>
    if c = 0 then some (bytes "0")
    else if c = byte '|' then
      match _h : cut (endsPart (byte '|')) p2 with
      | none => none
      | some (value, d, q) =>
        (atoiAt p1).bind fun adx =>
          if adx = targetAdx then some value
          else if d = byte '|' then extractLoop targetAdx q q
          else extractLoop targetAdx p2 (d :: q)
    else extractLoop targetAdx p1 p2
termination_by p2 => p2.length
decreasing_by
  all_goals simp only [List.length_cons]
  · have hlt := length_of_cut _h
    omega
  · have hlt := length_of_cut _h
    omega
  · omega

def extractRealValue (input : Bytes) (targetAdx : Int) : Option Bytes :=
  extractLoop targetAdx (input ++ [0]) (input ++ [0])

/-- The text as keys and values in turn; a key behind the last value is in no pair. -/
def keyValues (text : Bytes) : List (Bytes × Bytes) := units (text.splitOn (byte '|'))

/-- The value of the first pair with the target's key. -/
def firstValue (pairs : List (Bytes × Bytes)) (targetAdx : Int) : Bytes :=
  ((pairs.find? fun kv => atoi kv.1 = targetAdx).map Prod.snd).getD (bytes "0")

def realValue (text : Bytes) (targetAdx : Int) : Bytes := firstValue (keyValues text) targetAdx

section
variable {targetAdx : Int} {p1 q : Bytes}

theorem extractLoop_nul : extractLoop targetAdx p1 (0 :: q) = some (bytes "0") := by
  rw [extractLoop, if_pos rfl]

theorem extractLoop_append {u : Bytes} (hu : ∀ x ∈ u, endsPart (byte '|') x = false) :
    extractLoop targetAdx p1 (u ++ q) = extractLoop targetAdx p1 q := by
  induction u with
  | nil => rfl
  | cons x u ih =>
      obtain ⟨hx, hu⟩ := List.forall_mem_cons.mp hu
      simp only [endsPart, decide_eq_false_iff_not, not_or] at hx
      rw [List.cons_append, extractLoop, if_neg hx.2, if_neg hx.1, ih hu]

theorem extractLoop_pipe {value : Bytes} {d : UInt8}
    (hvalue : ∀ x ∈ value, endsPart (byte '|') x = false) (hd : endsPart (byte '|') d = true) :
    extractLoop targetAdx p1 (byte '|' :: (value ++ d :: q)) =
      (atoiAt p1).bind fun adx =>
        if adx = targetAdx then some value
        else if d = byte '|' then extractLoop targetAdx q q
        else extractLoop targetAdx (value ++ d :: q) (d :: q) := by
  have hcut := cut_append_cons hvalue hd q
  rw [extractLoop, if_neg (by decide), if_pos rfl]
  split
  · rename_i hnone
    cases hcut.symm.trans hnone
  · rename_i hsome
    cases hcut.symm.trans hsome
    rfl

end

theorem keyValues_single {text : Bytes} (h : byte '|' ∉ text) : keyValues text = [] := by
  rw [keyValues, List.splitOn_eq_singleton h]
  rfl

theorem keyValues_last {key value : Bytes} (hkey : byte '|' ∉ key) (hvalue : byte '|' ∉ value) :
    keyValues (key ++ byte '|' :: value) = [(key, value)] := by
  rw [keyValues, List.splitOn_append_cons_self_of_not_mem hkey, List.splitOn_eq_singleton hvalue]
  rfl

theorem keyValues_cons {key value : Bytes} (hkey : byte '|' ∉ key) (hvalue : byte '|' ∉ value)
    (rest : Bytes) :
    keyValues (key ++ byte '|' :: (value ++ byte '|' :: rest)) =
      (key, value) :: keyValues rest := by
  rw [keyValues, List.splitOn_append_cons_self_of_not_mem hkey,
    List.splitOn_append_cons_self_of_not_mem hvalue]
  rfl

theorem firstValue_cons (key value : Bytes) (pairs : List (Bytes × Bytes)) (targetAdx : Int) :
    firstValue ((key, value) :: pairs) targetAdx =
      if atoi key = targetAdx then value else firstValue pairs targetAdx := by
  rw [firstValue, List.find?_cons]
  by_cases hkey : atoi key = targetAdx
  · rw [decide_eq_true hkey, if_pos hkey]
    rfl
  · rw [decide_eq_false hkey, if_neg hkey]
    rfl

theorem extractLoop_pair {key value : Bytes} (hkey : byte '|' ∉ key) (hkeyNul : 0 ∉ key)
    (hvalue : byte '|' ∉ value) (hvalueNul : 0 ∉ value) {d : UInt8} {q : Bytes}
    (hd : endsPart (byte '|') d = true) (hnul : 0 ∈ d :: q) (targetAdx : Int) :
    extractLoop targetAdx (key ++ byte '|' :: (value ++ d :: q))
        (key ++ byte '|' :: (value ++ d :: q)) =
      if atoi key = targetAdx then some value
      else if d = byte '|' then extractLoop targetAdx q q
      else extractLoop targetAdx (value ++ d :: q) (d :: q) := by
  have hmem : 0 ∈ key ++ byte '|' :: (value ++ d :: q) :=
    List.mem_append_right _ (List.mem_cons_of_mem _ (List.mem_append_right _ hnul))
  rw [extractLoop_append (endsPart_eq_false hkey hkeyNul),
    extractLoop_pipe (endsPart_eq_false hvalue hvalueNul) hd, atoiAt_of_nul_mem hmem,
    atoi_append_cons (by decide) (by decide) (by decide) (by decide)]
  rfl

/-- The scanner finds the value of the first pair with the target's key. The induction is on the
text, one pair at a time. -/
theorem extractRealValue_eq {text : Bytes} (hnul : 0 ∉ text) (targetAdx : Int) :
    extractRealValue text targetAdx = some (realValue text targetAdx) := by
  obtain ⟨n, hn⟩ : ∃ n, text.length = n := ⟨_, rfl⟩
  induction n using Nat.strongRecOn generalizing text with
  | ind n ih =>
      by_cases hpipe : byte '|' ∈ text
      · obtain ⟨key, rest, rfl, hkey⟩ := List.eq_append_cons_of_mem hpipe
        simp only [List.mem_append, List.mem_cons, not_or] at hnul
        obtain ⟨hkeyNul, -, hrestNul⟩ := hnul
        rw [extractRealValue, List.append_assoc, List.cons_append]
        by_cases hrest : byte '|' ∈ rest
        · obtain ⟨value, rest, rfl, hvalue⟩ := List.eq_append_cons_of_mem hrest
          simp only [List.mem_append, List.mem_cons, not_or] at hrestNul
          obtain ⟨hvalueNul, -, hrestNul⟩ := hrestNul
          simp only [List.length_append, List.length_cons] at hn
          have hnext := ih rest.length (by omega) hrestNul rfl
          rw [List.append_assoc, List.cons_append,
            extractLoop_pair hkey hkeyNul hvalue hvalueNul (by decide) (by simp), if_pos rfl,
            realValue, keyValues_cons hkey hvalue, firstValue_cons, apply_ite some]
          exact if_congr Iff.rfl rfl hnext
        · rw [extractLoop_pair hkey hkeyNul hrest hrestNul (by decide) (by simp),
            if_neg (by decide : (0 : UInt8) ≠ byte '|'), extractLoop_nul, realValue,
            keyValues_last hkey hrest, firstValue_cons, apply_ite some]
          rfl
      · rw [extractRealValue, extractLoop_append (endsPart_eq_false hpipe hnul), extractLoop_nul,
          realValue, keyValues_single hpipe]
        rfl

theorem extractRealValue_second :
    extractRealValue (bytes "1|a|12|b|3") 12 = some (bytes "b") :=
  (extractRealValue_eq (by decide +kernel) 12).trans (by decide +kernel)

end AdServer.Bid
