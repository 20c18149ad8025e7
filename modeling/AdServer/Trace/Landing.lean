import AdServer.Trace.Source

/-!
The writes of `handleLandingUrl` into `result[1024]`. The loop copies the text outside of braces
and the values of the names inside, one byte at a time and without looking at the size of the
buffer, and ends with a NUL.
-/
namespace AdServer.Trace

open Billing Url

/-- `fill`: the bytes of a C string from the offset `p` on. -/
def fill : Nat → Bytes → List (Nat × UInt8)
  | _, [] => []
  | p, c :: src => (p, c) :: fill (p + 1) src

/-- The writes of the loop, from the offset `p` on. -/
def landingWrites (m : ParamMap) : Nat → Option Bytes → Bytes → List (Nat × UInt8)
  | p, _, [] => [(p, 0)]
  | p, none, c :: rest =>
    if c = byte '\x7b' then landingWrites m p (some []) rest
    else (p, c) :: landingWrites m (p + 1) none rest
  | p, some name, c :: rest =>
    if c = byte '\x7d' then
      fill p (cString (m.value name)) ++
        landingWrites m (p + (cString (m.value name)).length) none rest
    else landingWrites m p (some (name ++ [c])) rest

/-- The number of characters outside of braces. -/
def literals : Option Bytes → Bytes → Nat
  | _, [] => 0
  | none, c :: rest => if c = byte '\x7b' then literals (some []) rest else literals none rest + 1
  | some name, c :: rest =>
    if c = byte '\x7d' then literals none rest else literals (some (name ++ [c])) rest

/-- The names in closed braces. -/
def placeholders : Option Bytes → Bytes → List Bytes
  | _, [] => []
  | none, c :: rest =>
    if c = byte '\x7b' then placeholders (some []) rest else placeholders none rest
  | some name, c :: rest =>
    if c = byte '\x7d' then name :: placeholders none rest
    else placeholders (some (name ++ [c])) rest

def valueSize (m : ParamMap) (names : List Bytes) : Nat :=
  (names.map fun name => (cString (m.value name)).length).sum

theorem valueSize_cons (m : ParamMap) (name : Bytes) (names : List Bytes) :
    valueSize m (name :: names) = (cString (m.value name)).length + valueSize m names := rfl

theorem map_fst_fill (p : Nat) (src : Bytes) :
    (fill p src).map Prod.fst = List.range' p src.length := by
  induction src generalizing p with
  | nil => rfl
  | cons c src ih => rw [fill, List.map_cons, ih, List.length_cons, List.range'_succ]

theorem map_snd_fill (p : Nat) (src : Bytes) : (fill p src).map Prod.snd = src := by
  induction src generalizing p with
  | nil => rfl
  | cons c src ih => rw [fill, List.map_cons, ih]

section
variable (m : ParamMap) (p : Nat) (name : Option Bytes) (url : Bytes)

/-- The bytes that are written are the expanded text and the NUL. -/
theorem map_snd_landingWrites :
    (landingWrites m p name url).map Prod.snd = expand m name url ++ [0] := by
  fun_induction landingWrites m p name url with
  | case1 p name => cases name <;> rfl
  | case2 p rest ih => rw [ih, expand, if_pos rfl]
  | case3 p c rest hc ih => rw [List.map_cons, ih, expand, if_neg hc, List.cons_append]
  | case4 p name rest ih =>
      rw [List.map_append, map_snd_fill, ih, expand, if_pos rfl, List.append_assoc]
  | case5 p name c rest hc ih => rw [ih, expand, if_neg hc]

theorem length_expand :
    (expand m name url).length = literals name url + valueSize m (placeholders name url) := by
  fun_induction literals name url with
  | case1 name => cases name <;> rfl
  | case2 rest ih => rw [expand, if_pos rfl, ih, placeholders, if_pos rfl]
  | case3 c rest hc ih =>
      rw [expand, if_neg hc, List.length_cons, ih, placeholders, if_neg hc]
      omega
  | case4 name rest ih =>
      rw [expand, if_pos rfl, List.length_append, ih, placeholders, if_pos rfl, valueSize_cons]
      omega
  | case5 name c rest hc ih => rw [expand, if_neg hc, ih, placeholders, if_neg hc]

/-- They are written to consecutive offsets. -/
theorem map_fst_landingWrites :
    (landingWrites m p name url).map Prod.fst =
      List.range' p ((expand m name url).length + 1) := by
  fun_induction landingWrites m p name url with
  | case1 p name => cases name <;> rfl
  | case2 p rest ih => rw [ih, expand, if_pos rfl]
  | case3 p c rest hc ih =>
      rw [List.map_cons, ih, expand, if_neg hc, List.length_cons]
      rfl
  | case4 p name rest ih =>
      rw [List.map_append, map_fst_fill, ih, expand, if_pos rfl, List.length_append,
        List.range'_append_1, Nat.add_assoc]
  | case5 p name c rest hc ih => rw [ih, expand, if_neg hc]

end

/-- `none` of `expandLanding` is a write behind one of the buffers. -/
theorem expandLanding_isSome_iff (m : ParamMap) (landingUrl : Bytes) :
    (expandLanding m landingUrl).isSome = true ↔
      landingUrl.length < 1024 ∧
        ∀ write ∈ landingWrites m 0 none (cString landingUrl), write.1 < 1024 := by
  rw [writes_lt_iff (map_fst_landingWrites m 0 none (cString landingUrl)), expandLanding]
  split
  · rename_i hfits
    exact iff_of_true rfl hfits
  · rename_i hfits
    exact iff_of_false Bool.false_ne_true hfits

/-- The writes into `result` for a click with its parameters. -/
def handleLandingUrl (keys : UrlConst → Bytes) (userIp : Bytes) (m : ParamMap)
    (landingUrl : Bytes) : List (Nat × UInt8) :=
  landingWrites (landingParams keys userIp m) 0 none (cString landingUrl)

/-- The writes stay in the buffer exactly if the text outside of the braces and the values of the
names inside leave a place for the NUL. -/
theorem handleLandingUrl_inBuffer_iff (keys : UrlConst → Bytes) (userIp : Bytes) (m : ParamMap)
    (landingUrl : Bytes) :
    (∀ write ∈ handleLandingUrl keys userIp m landingUrl, write.1 < 1024) ↔
      literals none (cString landingUrl) +
        valueSize (landingParams keys userIp m) (placeholders none (cString landingUrl)) < 1024 := by
  rw [handleLandingUrl, writes_lt_iff (map_fst_landingWrites _ 0 none _), length_expand]

/-- A parameter of 1024 bytes that the landing URL names. -/
theorem long_value_overruns : ∃ m landingUrl, landingUrl.length ≤ 1023 ∧ ∀ keys userIp,
    ∃ write ∈ handleLandingUrl keys userIp m landingUrl, 1024 ≤ write.1 := by
  refine ⟨Finmap.insert (bytes "x") (List.replicate 1024 (byte 'a')) ∅, bytes "\x7bx\x7d",
    by decide, fun keys userIp => ?_⟩
  by_contra hall
  rw [not_exists] at hall
  have hfits := (writes_lt_iff (map_fst_landingWrites _ 0 none _) 1024).mp fun write hwrite =>
    Nat.lt_of_not_le fun hge => hall write ⟨hwrite, hge⟩
  have hnul : (0 : UInt8) ∉ List.replicate 1024 (byte 'a') := fun hmem =>
    absurd (List.eq_of_mem_replicate hmem) (by decide)
  have hname : placeholders none (cString (bytes "\x7bx\x7d")) = [bytes "x"] := by decide
  have hvalue : (cString ((landingParams keys userIp
      (Finmap.insert (bytes "x") (List.replicate 1024 (byte 'a')) ∅)).value
        (bytes "x"))).length = 1024 := by
    rw [value_landingParams_of_ne keys userIp _ (by decide) (by decide) (by decide),
      ParamMap.value, Finmap.lookup_insert, Option.getD_some, cString_of_notMem hnul,
      List.length_replicate]
  rw [length_expand, hname, valueSize_cons, hvalue] at hfits
  omega

end AdServer.Trace
