import AdServer.Basic

/-!
The framing of local log files. `LogPushLocalTask` writes a record as its flag
`mt<len>^` followed by its bytes; the collector does not use the length and
looks for the next flag with `isHead`.
-/
namespace AdServer.Log

/-- `sprintf(flag, "mt%lu^", log->length())`. -/
def flag (length : Nat) : Bytes := bytes "mt" ++ decimal length ++ bytes "^"

def frame (log : Bytes) : Bytes := flag log.length ++ log

def stream (logs : List Bytes) : Bytes := logs.flatMap frame

/-- The loop of `isHead`, from the third byte on. -/
def headDigits : Bytes → Bool
  | [] => false
  | c :: rest =>
    if c = byte '^' then true
    else if c = 0 then false
    else if isDigit c then headDigits rest
    else false

def isHead : Bytes → Bool
  | first :: second :: rest =>
    if first ≠ byte 'm' ∧ second ≠ byte 't' then false else headDigits rest
  | _ => false

theorem flag_eq (length : Nat) :
    flag length = byte 'm' :: byte 't' :: (decimal length ++ [byte '^']) := by
  simp only [flag, show bytes "mt" = [byte 'm', byte 't'] by decide,
    show bytes "^" = [byte '^'] by decide, List.cons_append, List.nil_append]

def flagOpening (length : Nat) : Bytes := byte 'm' :: byte 't' :: decimal length

theorem flag_eq_opening (length : Nat) : flag length = flagOpening length ++ [byte '^'] := by
  simp only [flag_eq, flagOpening, List.cons_append]

theorem length_flag (length : Nat) : (flag length).length = (flagOpening length).length + 1 := by
  rw [flag_eq_opening, List.length_append, List.length_singleton]

theorem length_frame (log : Bytes) : (frame log).length = (flag log.length).length + log.length := by
  simp only [frame, List.length_append]

theorem frame_append (log rest : Bytes) :
    frame log ++ rest = flagOpening log.length ++ byte '^' :: (log ++ rest) := by
  simp only [frame, flag_eq_opening, List.append_assoc, List.cons_append, List.nil_append]

@[simp] theorem stream_nil : stream [] = [] := rfl

theorem stream_cons (log : Bytes) (logs : List Bytes) :
    stream (log :: logs) = frame log ++ stream logs := by
  simp only [stream, List.flatMap_cons]

theorem stream_cons_flag (log : Bytes) (logs : List Bytes) :
    stream (log :: logs) = flag log.length ++ (log ++ stream logs) := by
  simp only [stream_cons, frame, List.append_assoc]

theorem stream_append (logs more : List Bytes) :
    stream (logs ++ more) = stream logs ++ stream more := by
  simp only [stream, List.flatMap_append]

theorem stream_take_drop (logs : List Bytes) (count : Nat) :
    stream logs = stream (logs.take count) ++ stream (logs.drop count) := by
  rw [← stream_append, List.take_append_drop]

theorem not_isDigit_caret : isDigit (byte '^') = false := by decide

theorem caret_not_mem_decimal (n : Nat) : byte '^' ∉ decimal n := by
  intro h
  have hdigit := isDigit_of_mem_decimal h
  rw [not_isDigit_caret] at hdigit
  cases hdigit

theorem caret_not_mem_flagOpening (n : Nat) : byte '^' ∉ flagOpening n := by
  simp only [flagOpening, List.mem_cons, not_or]
  exact ⟨by decide, by decide, caret_not_mem_decimal n⟩

theorem headDigits_digits {digits : Bytes} (hdigits : ∀ c ∈ digits, isDigit c = true)
    (rest : Bytes) : headDigits (digits ++ rest) = headDigits rest := by
  induction digits with
  | nil => rfl
  | cons c digits ih =>
      have hc : isDigit c = true := hdigits c List.mem_cons_self
      have hcaret : c ≠ byte '^' := by rintro rfl; cases not_isDigit_caret.symm.trans hc
      have hzero : c ≠ 0 := by rintro rfl; revert hc; decide
      simp only [List.cons_append, headDigits, hcaret, hzero, hc, if_true, if_false]
      exact ih fun d hd => hdigits d (List.mem_cons_of_mem c hd)

theorem isHead_flag (n : Nat) (rest : Bytes) : isHead (flag n ++ rest) = true := by
  simp only [flag_eq, List.cons_append, List.append_assoc, isHead, ne_eq, not_true_eq_false,
    false_and, if_false, List.nil_append]
  rw [headDigits_digits fun c hc => isDigit_of_mem_decimal hc]
  simp only [headDigits, if_true]

theorem headDigits_append {s : Bytes} (h : headDigits s = true) (rest : Bytes) :
    headDigits (s ++ rest) = true := by
  induction s with
  | nil => cases h
  | cons c s ih =>
      simp only [List.cons_append, headDigits] at h ⊢
      split at h <;> simp_all

theorem isHead_append {s : Bytes} (h : isHead s = true) (rest : Bytes) :
    isHead (s ++ rest) = true := by
  match s, h with
  | first :: second :: s, h =>
      simp only [List.cons_append, isHead] at h ⊢
      split at h
      · cases h
      · rename_i hletters
        rw [if_neg hletters]
        exact headDigits_append h rest

theorem caret_mem_of_headDigits {s : Bytes} (h : headDigits s = true) : byte '^' ∈ s := by
  induction s with
  | nil => cases h
  | cons c s ih =>
      simp only [headDigits] at h
      split at h
      · rename_i hc
        exact hc ▸ List.mem_cons_self
      · split at h
        · cases h
        · split at h
          · exact List.mem_cons_of_mem c (ih h)
          · cases h

theorem caret_mem_of_isHead {s : Bytes} (h : isHead s = true) : byte '^' ∈ s.drop 2 := by
  match s, h with
  | first :: second :: s, h =>
      simp only [isHead] at h
      split at h
      · cases h
      · exact caret_mem_of_headDigits h

theorem headDigits_append_letter {s : Bytes} (h : headDigits s = false) (rest : Bytes) :
    headDigits (s ++ byte 'm' :: rest) = false := by
  induction s with
  | nil =>
      have hletter : isDigit (byte 'm') = false := by decide
      have hcaret : byte 'm' ≠ byte '^' := by decide
      simp only [List.nil_append, headDigits, hletter, hcaret, Bool.false_eq_true, if_false, ite_self]
  | cons c s ih =>
      simp only [List.cons_append, headDigits] at h ⊢
      split at h <;> simp_all

theorem isHead_append_flag {s : Bytes} (hne : s ≠ []) (h : isHead s = false) (n : Nat)
    (rest : Bytes) : isHead (s ++ (flag n ++ rest)) = false := by
  rw [flag_eq]
  match s, hne, h with
  | [first], _, _ =>
      have hdigits (tail : Bytes) : headDigits (byte 't' :: tail) = false := by
        simp only [headDigits, show byte 't' ≠ byte '^' by decide, show byte 't' ≠ 0 by decide,
          show isDigit (byte 't') = false by decide, Bool.false_eq_true, if_false]
      simp only [List.cons_append, List.nil_append, isHead, hdigits, ite_self]
  | first :: second :: s, _, h =>
      simp only [List.cons_append, isHead] at h ⊢
      split at h
      · rename_i hletters
        rw [if_pos hletters]
      · rename_i hletters
        rw [if_neg hletters]
        exact headDigits_append_letter h _

end AdServer.Log
