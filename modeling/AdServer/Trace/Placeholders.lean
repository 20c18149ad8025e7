import AdServer.Trace.Landing

/-!
What `handleLandingUrl` makes of the placeholders of a landing URL, compared with the
substitution that it stands for: each name in braces gives way to its value, and everything else
stays, an opening brace without a closing one and the text behind it included.
-/
namespace AdServer.Trace

open Billing Url

/-- The substitution, from inside of braces if a name has begun. -/
def substitute (m : ParamMap) : Option Bytes → Bytes → Bytes
  | none, [] => []
  | some name, [] => byte '\x7b' :: name
  | none, c :: rest =>
    if c = byte '\x7b' then substitute m (some []) rest else c :: substitute m none rest
  | some name, c :: rest =>
    if c = byte '\x7d' then m.value name ++ substitute m none rest
    else substitute m (some (name ++ [c])) rest

/-- The name that is still open behind a text. -/
def openName : Option Bytes → Bytes → Option Bytes
  | name, [] => name
  | none, c :: rest => if c = byte '\x7b' then openName (some []) rest else openName none rest
  | some name, c :: rest =>
    if c = byte '\x7d' then openName none rest else openName (some (name ++ [c])) rest

/-- Where no value is cut off, what the loop leaves out stands at the end: the name that is open
and the text that the loop does not reach. -/
theorem expand_append_substitute (m : ParamMap) {name : Option Bytes} {text : Bytes}
    (hvalues : ∀ n ∈ placeholders name text, (0 : UInt8) ∉ m.value n) (rest : Bytes) :
    expand m name text ++ substitute m (openName name text) rest =
      substitute m name (text ++ rest) := by
  fun_induction expand m name text with
  | case1 name => cases name <;> rfl
  | case2 text ih =>
      rw [placeholders, if_pos rfl] at hvalues
      rw [openName, if_pos rfl, ih hvalues, List.cons_append, substitute, if_pos rfl]
  | case3 c text hc ih =>
      rw [placeholders, if_neg hc] at hvalues
      rw [openName, if_neg hc, List.cons_append, ih hvalues, List.cons_append, substitute,
        if_neg hc]
  | case4 name text ih =>
      rw [placeholders, if_pos rfl, List.forall_mem_cons] at hvalues
      rw [openName, if_pos rfl, cString_of_notMem hvalues.1, List.append_assoc, ih hvalues.2,
        List.cons_append, substitute, if_pos rfl]
  | case5 name c text hc ih =>
      rw [placeholders, if_neg hc] at hvalues
      rw [openName, if_neg hc, ih hvalues, List.cons_append, substitute, if_neg hc]

/-- The six replacements that follow the loop. -/
def replaceEncoded (m : ParamMap) (url : Bytes) : Bytes :=
  landingReplacements.foldl (fun url entry => replace url entry.1 (m.value entry.2)) url

theorem expandLanding_eq_some_iff {m : ParamMap} {landingUrl : Bytes}
    (hfits : (expand m none (cString landingUrl)).length ≤ 1023) (url : Bytes) :
    expandLanding m landingUrl = some url ↔
      landingUrl.length ≤ 1023 ∧ replaceEncoded m (expand m none (cString landingUrl)) = url := by
  rw [expandLanding]
  split
  · rename_i hlen
    rw [Option.some.injEq, and_iff_right (Nat.le_of_lt_succ hlen.1)]
    rfl
  · rename_i hlen
    exact iff_of_false (fun h => by cases h) fun h =>
      hlen ⟨Nat.lt_succ_of_le h.1, Nat.lt_succ_of_le hfits⟩

/-- A landing URL whose substituted text fits into the buffer and has no placeholder in percent
code, and which names no value with a NUL, gets that text if and only if it fits itself and behind
its first NUL, in the name that is open there, the substitution finds nothing more. -/
theorem landing_substituted_iff (keys : UrlConst → Bytes) (userIp : Bytes) (m : ParamMap)
    (landingUrl : Bytes)
    (hfits : (substitute (landingParams keys userIp m) none landingUrl).length ≤ 1023)
    (hplain : ∀ entry ∈ landingReplacements,
      ¬entry.1 <:+: substitute (landingParams keys userIp m) none landingUrl)
    (hvalues : ∀ name ∈ placeholders none (cString landingUrl),
      (0 : UInt8) ∉ (landingParams keys userIp m).value name) :
    expandLanding (landingParams keys userIp m) landingUrl =
        some (substitute (landingParams keys userIp m) none landingUrl) ↔
      landingUrl.length ≤ 1023 ∧
        substitute (landingParams keys userIp m) (openName none (cString landingUrl))
          (landingUrl.drop (cString landingUrl).length) = [] := by
  generalize landingParams keys userIp m = params at *
  have hsplit : cString landingUrl ++ landingUrl.drop (cString landingUrl).length = landingUrl :=
    (List.prefix_append_drop (List.takeWhile_prefix _)).symm
  have hwhole := expand_append_substitute params hvalues
    (landingUrl.drop (cString landingUrl).length)
  rw [hsplit] at hwhole
  have hfront : expand params none (cString landingUrl) <+: substitute params none landingUrl :=
    ⟨_, hwhole⟩
  have habsent : ∀ entry ∈ landingReplacements,
      ¬entry.1 <:+: expand params none (cString landingUrl) :=
    fun entry hentry hoccurs => hplain entry hentry (hoccurs.trans hfront.isInfix)
  rw [expandLanding_eq_some_iff (hfront.length_le.trans hfits), replaceEncoded,
    foldl_replace_of_absent params landingReplacements habsent, ← hwhole, List.self_eq_append_right]

theorem landing_substituted_sample :
    expandLanding (landingParams sampleKeys [] (Finmap.insert (bytes "x") (bytes "7") ∅))
      (bytes "a\x7bx\x7d") = some (bytes "a7") := by
  have hvalue : (landingParams sampleKeys [] (Finmap.insert (bytes "x") (bytes "7") ∅)).value
      (bytes "x") = bytes "7" := by
    rw [value_landingParams_of_ne sampleKeys [] _ (by decide) (by decide) (by decide),
      ParamMap.value, Finmap.lookup_insert, Option.getD_some]
  have hsubstitute : substitute
      (landingParams sampleKeys [] (Finmap.insert (bytes "x") (bytes "7") ∅)) none
      (bytes "a\x7bx\x7d") = bytes "a7" := by
    have hname (params : ParamMap) : substitute params none (bytes "a\x7bx\x7d") =
        byte 'a' :: (params.value (bytes "x") ++ []) := rfl
    rw [hname, hvalue]
    decide
  rw [← hsubstitute]
  refine (landing_substituted_iff sampleKeys [] _ (bytes "a\x7bx\x7d") ?_ ?_ ?_).mpr
    ⟨by decide, rfl⟩
  · rw [hsubstitute]
    decide
  · rw [hsubstitute]
    decide
  · have hname : placeholders none (cString (bytes "a\x7bx\x7d")) = [bytes "x"] := by decide
    rw [hname, List.forall_mem_singleton, hvalue]
    decide

/-- The opening brace and what follows are lost. -/
theorem unclosed_brace_dropped : ∃ landingUrl, landingUrl = bytes "a\x7bb" ∧ ∀ keys userIp m,
    expandLanding (landingParams keys userIp m) landingUrl = some (bytes "a") ∧
      substitute (landingParams keys userIp m) none landingUrl = landingUrl := by
  refine ⟨_, rfl, fun keys userIp m => ?_⟩
  generalize landingParams keys userIp m = params
  have hexpand : expand params none (cString (bytes "a\x7bb")) = bytes "a" := rfl
  refine ⟨?_, rfl⟩
  rw [expandLanding_eq_some_iff (by rw [hexpand]; decide), hexpand, replaceEncoded,
    foldl_replace_of_absent params landingReplacements (by decide)]
  exact ⟨by decide, rfl⟩

end AdServer.Trace
