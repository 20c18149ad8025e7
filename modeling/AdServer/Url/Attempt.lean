import AdServer.Url.Cipher
import AdServer.Url.RoundTrip

/-!
One attempt of `processParamData` to read a ciphered text, in terms of the record
found in its payload, and what an arbitrary text can bring into an empty map.
Whatever the tokens, the stray memory and the Base64 library do, a map that is
left non-empty carries the check value of the payload it was decoded from, and
all entries of that payload.
-/
namespace AdServer.Url

variable (lib : Base64Lib) (table : List ParamBindingItem)

def attemptPayload (stray₁ stray₂ : Stray) (data : Bytes) : Option Bytes :=
  (cipherQuery (safeText stray₁ stray₂ data)).bind lib.decode

def attemptTokens (stray₁ stray₂ : Stray) (data : Bytes) : List Bytes :=
  ((safeText stray₁ stray₂ data).splitOn (byte '|')).tail

/-- The decoded main part of the attempt whose outcome is kept: the first one,
unless it reported a failure. -/
def keptPayload (strays : Nat → Stray) (data : Bytes) : Option Bytes :=
  if (processParamData lib (strays 0) (strays 1) table data true ∅).1 then
    attemptPayload lib (strays 0) (strays 1) data
  else attemptPayload lib (strays 3) (strays 4) (retryText (strays 2) data)

/-- The map carries the check value and the entries of the payload. -/
def Vouched (payload : Bytes) (p : ParamMap) : Prop :=
  ∃ fs, decodeRecord table payload = .ok fs ∧
    p.lookup macroHolder = some (hexText (checkValue (fs.map Prod.snd))) ∧
    ∀ field ∈ fs, field.2.text ≠ [] → p.lookup field.1 = some field.2.text

variable {lib table} {stray₁ stray₂ : Stray} {data payload : Bytes}
  {fs : List (Bytes × FieldValue)}

theorem processParamData_none (h : attemptPayload lib stray₁ stray₂ data = none) :
    processParamData lib stray₁ stray₂ table data true ∅ = (false, ∅) := by
  rw [attemptPayload] at h
  simp only [processParamData, processParamBody, if_true]
  cases hquery : cipherQuery (safeText stray₁ stray₂ data) with
  | none => rfl
  | some mainPart =>
      rw [hquery, Option.bind_some] at h
      simp only [h]

theorem processParamBody_some (h : attemptPayload lib stray₁ stray₂ data = some payload)
    (m : ParamMap) :
    processParamBody lib stray₁ stray₂ table data true m =
      match urlParamDeserialize table payload m with
      | .error e m' => .error (.url e) m'
      | .ok vc m' => .ok true (verify vc (insertTokens (attemptTokens stray₁ stray₂ data) m')) := by
  rw [attemptPayload] at h
  simp only [processParamBody, if_true]
  cases hquery : cipherQuery (safeText stray₁ stray₂ data) with
  | none => simp [hquery] at h
  | some mainPart =>
      rw [hquery, Option.bind_some] at h
      simp only [h]
      rfl

theorem processParamData_error (h : attemptPayload lib stray₁ stray₂ data = some payload)
    {e : URLException} (hrecord : decodeRecord table payload = .error e) (m : ParamMap) :
    processParamData lib stray₁ stray₂ table data true m = (false, ∅) := by
  obtain ⟨m', hm'⟩ := urlParamDeserialize_error hrecord m
  rw [processParamData, processParamBody_some h, hm']

theorem processParamData_ok (h : attemptPayload lib stray₁ stray₂ data = some payload)
    (hrecord : decodeRecord table payload = .ok fs) (m : ParamMap) :
    processParamData lib stray₁ stray₂ table data true m =
      (true, verify (checkValue (fs.map Prod.snd))
        (insertTokens (attemptTokens stray₁ stray₂ data) (fs.foldl insertField m))) := by
  rw [processParamData, processParamBody_some h, urlParamDeserialize_ok hrecord]

theorem lookup_insertTokens {m : ParamMap} {key value : Bytes} (h : m.lookup key = some value)
    (tokens : List Bytes) : (insertTokens tokens m).lookup key = some value := by
  induction tokens, m using insertTokens.induct with
  | case1 name v rest m ih =>
      rw [insertTokens]
      exact ih (ParamMap.lookup_insertNew_of_some h name v)
  | case2 m tokens hshort =>
      rw [insertTokens]
      · exact h
      · exact hshort

theorem decodeRecord_keys {table : List ParamBindingItem} {input : Bytes}
    {fs : List (Bytes × FieldValue)} (h : decodeRecord table input = .ok fs) :
    (fs.map Prod.fst).Sublist (table.map Prod.fst) := by
  induction table generalizing input fs with
  | nil =>
      cases h
      exact List.Sublist.slnil
  | cons item table ih =>
      rw [decodeRecord] at h
      split at h
      · exact (ih h).cons item.1
      · split at h
        · contradiction
        · split at h
          · contradiction
          · rename_i htail
            cases h
            exact (ih htail).cons_cons item.1

theorem lookup_of_value {m : ParamMap} {key text : Bytes} (h : m.value key = text)
    (hne : text ≠ []) : m.lookup key = some text := by
  rw [ParamMap.value] at h
  cases hlookup : m.lookup key with
  | none => exact absurd (by simpa [hlookup] using h.symm) hne
  | some v => simpa [hlookup] using h

theorem verify_vouched (hnodup : (table.map Prod.fst).Nodup)
    (hrecord : decodeRecord table payload = .ok fs) (tokens : List Bytes) :
    let p := verify (checkValue (fs.map Prod.snd)) (insertTokens tokens (fs.foldl insertField ∅))
    p = ∅ ∨ Vouched table payload p := by
  simp only [verify]
  split
  · exact .inl rfl
  · rename_i hmatch
    rw [ne_eq, not_not] at hmatch
    refine .inr ⟨fs, hrecord, lookup_of_value hmatch (hexText_ne_nil _), ?_⟩
    intro field hfield htext
    apply lookup_insertTokens
    rw [lookup_foldl_insertField, Finmap.lookup_empty, Option.none_or,
      findSome?_field ((decodeRecord_keys hrecord).nodup hnodup) hfield, if_pos htext]

theorem processParamData_empty (lib : Base64Lib) (hnodup : (table.map Prod.fst).Nodup) (stray₁ stray₂ : Stray)
    (data : Bytes) :
    let result := processParamData lib stray₁ stray₂ table data true ∅
    (result.1 = false → result.2 = ∅) ∧
      (result.2 = ∅ ∨ ∃ payload, attemptPayload lib stray₁ stray₂ data = some payload ∧
        Vouched table payload result.2) := by
  cases hpayload : attemptPayload lib stray₁ stray₂ data with
  | none => simp [processParamData_none hpayload]
  | some payload =>
      cases hrecord : decodeRecord table payload with
      | error e => simp [processParamData_error hpayload hrecord]
      | ok fs =>
          rw [processParamData_ok hpayload hrecord]
          refine ⟨fun h => absurd h Bool.noConfusion, ?_⟩
          cases verify_vouched hnodup hrecord (attemptTokens stray₁ stray₂ data) with
          | inl hempty => exact .inl hempty
          | inr hvouched => exact .inr ⟨payload, rfl, hvouched⟩

/-- No text gets past the check: the map stays empty or is vouched for by the
payload of the attempt that filled it. -/
theorem processParamDataWithRetry_vouched (lib : Base64Lib) (keys : UrlConst → Bytes)
    (distinct : Function.Injective keys) (strays : Nat → Stray) (data : Bytes) :
    let p := processParamDataWithRetry lib strays (paramBindingTable keys) data true ∅
    p = ∅ ∨ ∃ payload, keptPayload lib (paramBindingTable keys) strays data = some payload ∧
      Vouched (paramBindingTable keys) payload p := by
  have hnodup := paramBindingTable_nodup keys distinct
  simp only [processParamDataWithRetry]
  split
  · exact .inl rfl
  · have hfirst := processParamData_empty lib hnodup (strays 0) (strays 1) data
    cases hresult :
        (processParamData lib (strays 0) (strays 1) (paramBindingTable keys) data true ∅).1 with
    | true =>
        simp only [keptPayload, hresult, if_true]
        exact hfirst.2
    | false =>
        simp only [keptPayload, hresult, Bool.false_eq_true, if_false, hfirst.1 hresult]
        exact (processParamData_empty lib hnodup (strays 3) (strays 4)
          (retryText (strays 2) data)).2

theorem processParamDataWithRetry_vouched_sample :
    let data := bytes "_q_=AUE=|_mh_|fffffffe|"
    let p := processParamDataWithRetry cryptoBase64 (fun _ => blankStray)
      (paramBindingTable sampleKeys) data true ∅
    ∃ payload, keptPayload cryptoBase64 (paramBindingTable sampleKeys) (fun _ => blankStray) data =
      some payload ∧ Vouched (paramBindingTable sampleKeys) payload p :=
  (processParamDataWithRetry_vouched cryptoBase64 sampleKeys sampleKeys_injective _ _).resolve_left
    (by decide)

end AdServer.Url
