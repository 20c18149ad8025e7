import AdServer.Format
import AdServer.Library.PrintBuffer

/-!
The builders that print a response into a local buffer and copy it out by the length `snprintf`
returns. `buildResponseForDsp` and `buildResponseForSsp` print one byte less than the buffer has
and cut a length of the whole buffer or more; the snippets take the length as it is.
-/
namespace AdServer.Show

open PrintBuffer

/-- A buffer and the length that was returned for it. -/
structure Printed where
  buffer : List (Cell UInt8)
  len : Int

/-- `snprintf` returns the length of the whole text, a negative number if that is not an `int`. -/
def printedLength (text : Bytes) : Int := if text.length < 2 ^ 31 then text.length else -1

/-- `std::string(buffer, buffer + len)`, which throws on a negative length. -/
def Printed.string (printed : Printed) : Copied UInt8 := copy printed.buffer printed.len

def cutLength (bufferSize : Nat) (printed : Printed) : Printed :=
  { printed with len := if printed.len ≥ bufferSize then bufferSize else printed.len }

section

-- The formatting of the C library, for every format: `none` where its conversions and the
-- arguments do not go together.
variable (vformat : Bytes → List FormatArg → Option Bytes)

def snprintf (before : List (Option UInt8)) (size : Nat) (fmt : Bytes) (args : List FormatArg) :
    Option Printed :=
  (vformat fmt args).map fun text => ⟨print before size text, printedLength text⟩

def buildResponseForDsp (templateFmt jsonResult : Bytes) (buffer : List (Option UInt8)) :
    Option Printed :=
  (snprintf vformat buffer (buffer.length - 1) templateFmt [.text jsonResult]).map
    (cutLength buffer.length)

/-- What a request with `of=SSP_MOBILE` gets is the JSON text alone. -/
def buildResponseForSsp (sspMobile : Bool) (templateFmt callback jsonResult : Bytes)
    (buffer : List (Option UInt8)) : Option Printed :=
  (if sspMobile then
      snprintf vformat buffer (buffer.length - 1) (bytes "%s") [.text jsonResult]
    else snprintf vformat buffer (buffer.length - 1) templateFmt
      [.text callback, .text jsonResult]).map (cutLength buffer.length)

/-- The response of `HandleShowQueryTask::customLogic`, from its `char buffer[8192]`. -/
def respBody (build : List (Option UInt8) → Option Printed) : Option (Copied UInt8) :=
  (build (List.replicate 8192 none)).map Printed.string

def generateHtmlSnippet (snippetIframe : Bytes) (width height : Int)
    (showBaseUrl cipherParam cookieMappingUrl : Bytes) : Option (Copied UInt8) :=
  (snprintf vformat (List.replicate 4096 none) 4096 snippetIframe
    [.int width, .int height, .text showBaseUrl, .text [], .text cipherParam,
      .text cookieMappingUrl]).map Printed.string

def generateScript (snippetScript : Bytes) (width height : Int)
    (scriptUrl cipherParam clickMacro : Bytes) : Option (Copied UInt8) :=
  (snprintf vformat (List.replicate 4096 none) 4096 snippetScript
    [.int width, .int height, .text scriptUrl, .text cipherParam, .text [], .text [], .text [],
      .text clickMacro]).map Printed.string

/-- `BaiduBiddingHandler::generateHtmlSnippet`, which clears its buffer first. -/
def generateHtmlSnippetBaidu (cookieMappingUrl : Bytes) : Option (Copied UInt8) :=
  (snprintf vformat (List.replicate 4096 (some 0)) 4096 (bytes "< a herf=%s /> %s")
    [.text (bytes "%%CLICK_URL_0%%"), .text cookieMappingUrl]).map Printed.string

end

/-- There is a string, or a refused one, and it has only bytes that were printed. -/
def OnlyPrinted (capacity : Nat) (result : Option (Copied UInt8)) : Prop :=
  ∃ copied, result = some copied ∧ copied.OnlyWritten capacity

/-- The text to print has at most `room` bytes, or too many for `snprintf`. -/
def FitsIn (room : Nat) (text : Option Bytes) : Prop :=
  ∃ t, text = some t ∧ (t.length ≤ room ∨ 2 ^ 31 ≤ t.length)

theorem onlyPrinted_map_iff {capacity room : Nat} (text : Option Bytes)
    (string : Bytes → Copied UInt8)
    (hstring : ∀ t, (string t).OnlyWritten capacity ↔ t.length ≤ room ∨ 2 ^ 31 ≤ t.length) :
    OnlyPrinted capacity (text.map string) ↔ FitsIn room text := by
  cases text with
  | none =>
      exact iff_of_false (fun ⟨_, h, _⟩ => by cases h) fun ⟨_, h, _⟩ => by cases h
  | some t =>
      simp only [OnlyPrinted, FitsIn, Option.map_some, Option.some.injEq, exists_eq_left']
      exact hstring t

/-- The length is used as it was returned. -/
theorem snprintf_string_iff (vformat : Bytes → List FormatArg → Option Bytes)
    {before : List (Option UInt8)} {capacity : Nat} (hlength : before.length = capacity)
    (hpos : 0 < capacity) (hsmall : capacity ≤ 2 ^ 31) (fmt : Bytes) (args : List FormatArg) :
    OnlyPrinted capacity ((snprintf vformat before capacity fmt args).map Printed.string) ↔
      FitsIn (capacity - 1) (vformat fmt args) := by
  rw [snprintf, Option.map_map]
  refine onlyPrinted_map_iff _ _ fun t => ?_
  subst hlength
  simp only [Function.comp_apply, Printed.string,
    copy_print_onlyWritten_iff hpos (Nat.le_refl _), printedLength]
  split <;> omega

/-- One byte less is printed, and the length is cut at the size of the buffer. -/
theorem snprintf_cut_string_iff (vformat : Bytes → List FormatArg → Option Bytes)
    {before : List (Option UInt8)} {capacity : Nat} (hlength : before.length = capacity)
    (hpos : 1 < capacity) (hsmall : capacity ≤ 2 ^ 31) (fmt : Bytes) (args : List FormatArg) :
    OnlyPrinted capacity (((snprintf vformat before (capacity - 1) fmt args).map
        (cutLength capacity)).map Printed.string) ↔
      FitsIn (capacity - 2) (vformat fmt args) := by
  rw [snprintf, Option.map_map, Option.map_map]
  refine onlyPrinted_map_iff _ _ fun t => ?_
  subst hlength
  simp only [Function.comp_apply, Printed.string, cutLength, printedLength]
  have hsize : 0 < before.length - 1 := by omega
  have hroom : before.length - 1 ≤ before.length := by omega
  rw [copy_print_onlyWritten_iff hsize hroom]
  split <;> split <;> omega

/-- Which responses and snippets have only bytes that were printed. -/
theorem response_onlyPrinted_iff (vformat : Bytes → List FormatArg → Option Bytes)
    (sspMobile : Bool) (templateFmt callback jsonResult snippetIframe snippetScript : Bytes)
    (width height : Int) (showBaseUrl cipherParam cookieMappingUrl scriptUrl clickMacro : Bytes) :
    (OnlyPrinted 8192 (respBody (buildResponseForDsp vformat templateFmt jsonResult)) ↔
      FitsIn 8190 (vformat templateFmt [.text jsonResult])) ∧
    (OnlyPrinted 8192
        (respBody (buildResponseForSsp vformat sspMobile templateFmt callback jsonResult)) ↔
      FitsIn 8190 (if sspMobile then vformat (bytes "%s") [.text jsonResult]
        else vformat templateFmt [.text callback, .text jsonResult])) ∧
    (OnlyPrinted 4096 (generateHtmlSnippet vformat snippetIframe width height showBaseUrl
        cipherParam cookieMappingUrl) ↔
      FitsIn 4095 (vformat snippetIframe [.int width, .int height, .text showBaseUrl, .text [],
        .text cipherParam, .text cookieMappingUrl])) ∧
    (OnlyPrinted 4096 (generateScript vformat snippetScript width height scriptUrl cipherParam
        clickMacro) ↔
      FitsIn 4095 (vformat snippetScript [.int width, .int height, .text scriptUrl,
        .text cipherParam, .text [], .text [], .text [], .text clickMacro])) ∧
    (OnlyPrinted 4096 (generateHtmlSnippetBaidu vformat cookieMappingUrl) ↔
      FitsIn 4095 (vformat (bytes "< a herf=%s /> %s")
        [.text (bytes "%%CLICK_URL_0%%"), .text cookieMappingUrl])) := by
  have hunset : (List.replicate 8192 (none : Option UInt8)).length = 8192 := List.length_replicate
  have hsnippet (content : Option UInt8) : (List.replicate 4096 content).length = 4096 :=
    List.length_replicate
  refine ⟨?_, ?_, ?_, ?_, ?_⟩
  · rw [respBody, buildResponseForDsp, hunset]
    exact snprintf_cut_string_iff vformat hunset (by decide) (by decide) _ _
  · rw [respBody, buildResponseForSsp, hunset]
    cases sspMobile with
    | true => exact snprintf_cut_string_iff vformat hunset (by decide) (by decide) _ _
    | false => exact snprintf_cut_string_iff vformat hunset (by decide) (by decide) _ _
  · exact snprintf_string_iff vformat (hsnippet none) (by decide) (by decide) _ _
  · exact snprintf_string_iff vformat (hsnippet none) (by decide) (by decide) _ _
  · exact snprintf_string_iff vformat (hsnippet (some 0)) (by decide) (by decide) _ _

/-- The JSON text of a creative whose title has `n` letters. -/
def titleJson (n : Nat) : Bytes :=
  bytes "\x7b\"mtls\":[\x7b\"p0\":\"" ++ List.replicate n (byte 'a') ++ bytes "\"\x7d]\x7d"

/-- A template with the JSON text alone and a long title: the terminator and the byte behind it
are sent. A long cookie mapping URL: the snippet is copied from behind the buffer. -/
theorem long_title_sends_terminator :
    ¬ OnlyPrinted 8192
        (respBody (buildResponseForDsp printfText (bytes "%s") (titleJson 9000))) ∧
      ¬ OnlyPrinted 4096
        (generateHtmlSnippetBaidu printfText (List.replicate 5000 (byte 'a'))) := by
  have hunset : (List.replicate 8192 (none : Option UInt8)).length = 8192 := List.length_replicate
  refine ⟨?_, ?_⟩
  · have hnul : (0 : UInt8) ∉ titleJson 9000 := by
      rw [titleJson, List.mem_append, List.mem_append, List.mem_replicate]
      decide
    have hprinted : printfText (bytes "%s") [.text (titleJson 9000)] =
        some (Url.cString (titleJson 9000) ++ []) := rfl
    rw [respBody, buildResponseForDsp, hunset,
      snprintf_cut_string_iff printfText hunset (by decide) (by decide), hprinted,
      Url.cString_of_notMem hnul]
    rintro ⟨t, ht, hfits⟩
    cases ht
    have hlength : (titleJson 9000 ++ []).length = 9020 := by
      rw [List.append_nil, titleJson, List.length_append, List.length_append,
        List.length_replicate]
      rfl
    omega
  · have hnul : (0 : UInt8) ∉ List.replicate 5000 (byte 'a') := by
      rw [List.mem_replicate]
      decide
    have hprinted (click url : Bytes) :
        printfText (bytes "< a herf=%s /> %s") [.text click, .text url] =
          some (bytes "< a herf=" ++ (Url.cString click ++ (bytes " /> " ++
            (Url.cString url ++ [])))) := rfl
    rw [generateHtmlSnippetBaidu,
      snprintf_string_iff printfText List.length_replicate (by decide) (by decide), hprinted,
      Url.cString_of_notMem hnul]
    rintro ⟨t, ht, hfits⟩
    cases ht
    simp only [List.length_append, List.length_replicate, List.length_nil] at hfits
    have hshort : (bytes "< a herf=").length + ((Url.cString (bytes "%%CLICK_URL_0%%")).length +
        (bytes " /> ").length) = 28 := by decide +kernel
    omega

end AdServer.Show
