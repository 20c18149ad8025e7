import AdServer.Template.Substitute

/-!
Reading the variables back. `getVariables` searches a bound text with the expression of the
template and takes the values from the sub-matches. The search itself is the library's: an
expression and a text give an exception, no match, or the list of the sub-matches with the whole
match in front. The loop goes over that list and uses its index in the parameters as well, of
which there is one less.
-/
namespace AdServer.Template

open Url

/-- What the library answers to an expression and a text. -/
inductive RegexSearch
  | invalid
  | noMatch
  | found (match_ : List Bytes)

/-- The loop at an index, with the parameters and the sub-matches from there on. -/
def insertMatches : List TemplateParam → List Bytes → ParamMap → Except Fault ParamMap
  | _, [], result => .ok result
  | [], _ :: _, _ => .error .outside
  | p :: params, text :: match_, result =>
    insertMatches params match_ (result.insertNew p.param text)

def TemplateEngine.getVariables (regexSearch : Bytes → Bytes → RegexSearch)
    (engine : TemplateEngine) (shadowFileContent : Bytes) : Except Fault ParamMap :=
  match regexSearch engine.templateRegexp shadowFileContent with
  | .invalid => .error .exception
  | .noMatch => .error .exception
  | .found match_ =>
    if match_.length ≠ engine.params.length + 1 then .ok ∅
    else insertMatches engine.params match_ ∅

/-- More sub-matches than parameters take the index outside. -/
theorem insertMatches_eq_outside {params : List TemplateParam} {match_ : List Bytes}
    (hlength : params.length < match_.length) (result : ParamMap) :
    insertMatches params match_ result = .error .outside := by
  induction match_ generalizing params result with
  | nil => cases hlength
  | cons text match_ ih =>
      cases params with
      | nil => rfl
      | cons p params => exact ih (Nat.lt_of_succ_lt_succ hlength) _

theorem TemplateEngine.getVariables_found {regexSearch : Bytes → Bytes → RegexSearch}
    {engine : TemplateEngine} {shadowFileContent : Bytes} {match_ : List Bytes}
    (hfound : regexSearch engine.templateRegexp shadowFileContent = .found match_) :
    engine.getVariables regexSearch shadowFileContent =
      if match_.length ≠ engine.params.length + 1 then .ok ∅ else .error .outside := by
  rw [getVariables, hfound]
  refine ite_congr rfl (fun _ => rfl) fun hlength => ?_
  exact insertMatches_eq_outside (by omega) ∅

/-- A map comes back if and only if it is empty and the match has not one sub-match for each
parameter: with the sub-matches that the expression is made for, the index leaves the
parameters. -/
theorem TemplateEngine.getVariables_eq_ok_iff (regexSearch : Bytes → Bytes → RegexSearch)
    (engine : TemplateEngine) (shadowFileContent : Bytes) (paramMap : ParamMap) :
    engine.getVariables regexSearch shadowFileContent = .ok paramMap ↔
      paramMap = ∅ ∧ ∃ match_,
        regexSearch engine.templateRegexp shadowFileContent = .found match_ ∧
          match_.length ≠ engine.params.length + 1 := by
  constructor
  · intro hresult
    cases hsearch : regexSearch engine.templateRegexp shadowFileContent with
    | invalid =>
        rw [getVariables, hsearch] at hresult
        cases hresult
    | noMatch =>
        rw [getVariables, hsearch] at hresult
        cases hresult
    | found match_ =>
        rw [getVariables_found hsearch] at hresult
        split at hresult
        · rename_i hlength
          cases hresult
          exact ⟨rfl, match_, rfl, hlength⟩
        · cases hresult
  · rintro ⟨rfl, match_, hfound, hlength⟩
    rw [getVariables_found hfound, if_pos hlength]

/-- The answer of the library to one expression and one text. -/
def searchPlain (templateRegexp text : Bytes) : RegexSearch :=
  if templateRegexp = bytes "a(\\s*.+\\s*)b\n" ∧ text = bytes "a7b\n\n" then
    .found [bytes "a7b\n", bytes "7"]
  else .noMatch

theorem getVariables_namePlain :
    namePlain.bind (Finmap.singleton (bytes "x") (bytes "7")) = some (bytes "a7b\n") ∧
      namePlain.getVariables searchPlain (loadFile (bytes "a7b\n")) = .error .outside := by
  decide +kernel

end AdServer.Template
