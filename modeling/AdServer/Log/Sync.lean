import AdServer.Log.Item
import AdServer.Log.Resume

/-!
The `sync` operation of the collector. A record that it cuts off at bytes that look like a head is
no valid record, so it does not go on to the log pusher: only whole records do.
-/
namespace AdServer.Log

/-- `pushLog2Kafka`: whether the data goes on to the log pusher. -/
def pushLog2Kafka (lib : AvroLib) (data : Bytes) : Bool := checkDataValid lib data

/-- The logs that the collector pushes. -/
def pushedLogs (lib : AvroLib) (calls : List Delivery) : List Bytes :=
  (calls.map Delivery.payload).filter (pushLog2Kafka lib)

/-- Digits behind another letter than `m` are no head. -/
theorem isHead_digits {c : UInt8} {digits : Bytes} (hc : c ≠ byte 'm')
    (hdigits : ∀ d ∈ digits, isDigit d = true) (stack : Bytes) :
    isHead (c :: (digits ++ 0 :: stack)) = false := by
  cases digits with
  | nil =>
      rw [List.nil_append, isHead, if_pos ⟨hc, by decide⟩]
  | cons d digits =>
      have hd := hdigits d List.mem_cons_self
      have hletter : d ≠ byte 't' := by
        rintro rfl
        revert hd
        decide
      rw [List.cons_append, isHead, if_pos ⟨hc, hletter⟩]

/-- A flag that the window cuts off has no head in it, apart from its first letter. -/
theorem isHead_inside_flag {n : Nat} {rest : Bytes} (hne : rest ≠ [])
    (hrest : rest <:+: byte 't' :: decimal n) (stack : Bytes) :
    isHead (rest ++ 0 :: stack) = false := by
  obtain ⟨c, digits, rfl⟩ := List.exists_cons_of_ne_nil hne
  have hc : c ∈ byte 't' :: decimal n := hrest.subset List.mem_cons_self
  refine isHead_digits ?_ ?_ stack
  · rintro rfl
    rcases List.mem_cons.mp hc with hletter | hdigit
    · revert hletter
      decide
    · have := isDigit_of_mem_decimal hdigit
      revert this
      decide
  · have htail : digits <:+: decimal n := by
      obtain ⟨front, back, heq⟩ := hrest
      cases front with
      | nil =>
          refine ⟨[], back, ?_⟩
          exact (List.cons.inj heq).2
      | cons f front =>
          refine ⟨front ++ [c], back, ?_⟩
          rw [List.append_assoc front, List.singleton_append]
          exact (List.cons.inj heq).2
    exact fun d hd => isDigit_of_mem_decimal (htail.subset hd)

/-- Behind a record there is a head at once, or the window ends before there is one. -/
theorem no_head_behind {stack extra rest tail : Bytes} {next : Bytes} {more : List Bytes}
    (hextra : extra ≠ []) (hrest : rest ≠ [])
    (hstream : stream (next :: more) = extra ++ rest ++ tail)
    (hinside : isHead (extra ++ (rest ++ 0 :: stack)) = false) :
    isHead (rest ++ 0 :: stack) = false := by
  have hflag : flag next.length <+: stream (next :: more) :=
    ⟨next ++ stream more, (stream_cons_flag next more).symm⟩
  have hcut : extra ++ rest <+: stream (next :: more) := ⟨tail, hstream.symm⟩
  by_cases hlength : (flag next.length).length ≤ (extra ++ rest).length
  · obtain ⟨others, hothers⟩ := List.prefix_of_prefix_length_le hflag hcut hlength
    rw [← List.append_assoc, ← hothers, List.append_assoc, isHead_flag] at hinside
    cases hinside
  · have hprefix := List.prefix_of_prefix_length_le hcut hflag (by omega)
    have hopening : extra ++ rest <+: flagOpening next.length := by
      refine List.prefix_of_prefix_length_le hprefix ⟨[byte '^'], (flag_eq_opening _).symm⟩ ?_
      have := length_flag next.length
      omega
    obtain ⟨back, hback⟩ := hopening
    obtain ⟨first, others, rfl⟩ := List.exists_cons_of_ne_nil hextra
    have hinfix : rest <:+: byte 't' :: decimal next.length :=
      ⟨others, back, (List.cons.inj hback).2⟩
    exact isHead_inside_flag hrest hinfix stack

/-- What is cut from a window at the start of a record is the front of the record. -/
theorem Cut.at_frame {stack opening body rest log next : Bytes} {more : List Bytes}
    (hcut : Cut stack ((stream (log :: next :: more)).take windowSize) opening body rest) :
    opening = flagOpening log.length ∧ body <+: log := by
  have hsplit : flagOpening log.length ++ byte '^' :: (log ++ stream (next :: more)) =
      opening ++ byte '^' ::
        (body ++ (rest ++ (stream (log :: next :: more)).drop windowSize)) := by
    rw [← frame_append, ← stream_cons]
    nth_rewrite 1 [← List.take_append_drop windowSize (stream (log :: next :: more))]
    rw [hcut.split, List.append_assoc, List.cons_append, List.append_assoc]
  obtain ⟨hopening, hafter⟩ :=
    append_cons_unique (caret_not_mem_flagOpening _) hcut.first hsplit
  refine ⟨hopening.symm, ?_⟩
  have hlog : log <+: log ++ stream (next :: more) := List.prefix_append _ _
  have hbody : body <+: log ++ stream (next :: more) := ⟨_, hafter.symm⟩
  rcases List.prefix_or_prefix_of_prefix hbody hlog with hshort | ⟨extra, rfl⟩
  · exact hshort
  · by_cases hextra : extra = []
    · rw [hextra, List.append_nil]
    · rw [List.append_assoc, List.append_cancel_left_eq, ← List.append_assoc] at hafter
      have hinside := hcut.inside log.length (by
        rw [List.length_append]
        have := List.length_pos_of_ne_nil hextra
        omega)
      rw [List.drop_left] at hinside
      have hhead := no_head_behind hextra hcut.next hafter hinside
      rw [hcut.head] at hhead
      cases hhead

variable {lib : AvroLib}

theorem length_lt_of_collectable {trailing logs : List Bytes} {offset : Nat}
    (h : Collectable trailing offset logs) : ∀ log ∈ logs, log.length < 2 ^ 31 := by
  induction logs generalizing offset with
  | nil => exact fun log hlog => absurd hlog List.not_mem_nil
  | cons first logs ih =>
      obtain ⟨hfirst, -, hothers⟩ := h
      have hfits := hfirst.fits
      rw [length_frame, windowSize] at hfits
      exact List.forall_mem_cons.mpr ⟨by omega, ih hothers⟩

end AdServer.Log
