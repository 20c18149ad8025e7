import AdServer.Billing.Ssp
import AdServer.Url.Replace

/-!
The landing URL on its way into the click URL. `getClickPara`, `buildResponseForDsp` and
`buildResponseForSsp` let `urlEncode_f` write its code into a buffer of 1024 bytes of their own,
and `getClickPara` also that of the referer. The coder does not know the size of the buffer.
-/
namespace AdServer.Show

open Billing Url

/-- The writes of `urlEncode_f` for a string. -/
def encodeWrites (stray : Stray) (input : Bytes) : List (Nat × UInt8) :=
  urlEncodeWrites stray 0 (passed input)

/-- The writes to the buffer of `getClickPara`. -/
def getClickPara (stray : Stray) (ref landingUrl : Bytes) : List (Nat × UInt8) :=
  encodeWrites stray landingUrl ++ if 0 < ref.length then encodeWrites stray ref else []

/-- The writes to `landingPageBuffer` of `buildResponseForDsp`. -/
def dspLanding (stray : Stray) (primitive : Bool) (material : Material) : List (Nat × UInt8) :=
  encodeWrites stray
    (urlReplace (landingText primitive material) (bytes "\x7b\x7bclick\x7d\x7d") [])

/-- The writes to `landingPageBuffer` of `buildResponseForSsp`. -/
def sspLanding (stray : Stray) (primitive : Bool) (material : Material) : List (Nat × UInt8) :=
  encodeWrites stray (landingText primitive material)

theorem encodeWrites_inBuffer_iff (stray : Stray) (input : Bytes) :
    (∀ write ∈ encodeWrites stray input, write.1 < 1024) ↔ CodeFits stray input :=
  urlEncodeWrites_lt_iff stray (passed input) 1024

/-- The writes stay in the buffers if and only if each code that is written fits. -/
theorem clickLanding_inBuffer_iff (stray : Stray) (ref landingUrl : Bytes) (primitive : Bool)
    (material : Material) :
    ((∀ write ∈ getClickPara stray ref landingUrl, write.1 < 1024) ↔
      CodeFits stray landingUrl ∧ (ref ≠ [] → CodeFits stray ref)) ∧
    ((∀ write ∈ dspLanding stray primitive material, write.1 < 1024) ↔
      CodeFits stray
        (urlReplace (landingText primitive material) (bytes "\x7b\x7bclick\x7d\x7d") [])) ∧
    ((∀ write ∈ sspLanding stray primitive material, write.1 < 1024) ↔
      CodeFits stray (landingText primitive material)) := by
  refine ⟨?_, encodeWrites_inBuffer_iff stray _, encodeWrites_inBuffer_iff stray _⟩
  rw [getClickPara, List.forall_mem_append, encodeWrites_inBuffer_iff]
  refine and_congr_right fun _ => ?_
  split
  · rename_i hpos
    rw [encodeWrites_inBuffer_iff, imp_iff_right (List.ne_nil_of_length_pos hpos)]
  · rename_i hzero
    exact iff_of_true (fun write hwrite => by cases hwrite) fun hne =>
      absurd (List.length_pos_of_ne_nil hne) hzero

/-- A landing URL of 1024 letters. -/
theorem long_landing_overruns : ∃ landingUrl : Bytes, ∀ stray,
    (∃ write ∈ getClickPara stray [] landingUrl, 1024 ≤ write.1) ∧
    (∃ write ∈ dspLanding stray false ⟨landingUrl, []⟩, 1024 ≤ write.1) ∧
    ∃ write ∈ sspLanding stray false ⟨landingUrl, []⟩, 1024 ≤ write.1 := by
  have hsame : passed (List.replicate 1024 (byte 'a')) = List.replicate 1024 (byte 'a') :=
    passed_eq_self (by rw [List.length_replicate]; decide)
  have hplain : ¬bytes "\x7b\x7bclick\x7d\x7d" <:+: List.replicate 1024 (byte 'a') := by
    intro hoccurs
    have hmem : byte '\x7b' ∈ bytes "\x7b\x7bclick\x7d\x7d" := by decide
    exact absurd (List.eq_of_mem_replicate (hoccurs.subset hmem)) (by decide)
  refine ⟨List.replicate 1024 (byte 'a'), fun stray => ?_⟩
  have hwrites : ∃ write ∈ encodeWrites stray (List.replicate 1024 (byte 'a')), 1024 ≤ write.1 := by
    by_contra hnone
    have hfits : CodeFits stray (List.replicate 1024 (byte 'a')) :=
      (encodeWrites_inBuffer_iff stray _).mp fun write hwrite =>
        Nat.lt_of_not_le fun hge => hnone ⟨write, hwrite, hge⟩
    rw [CodeFits, hsame, escapedSize, List.length_replicate] at hfits
    omega
  refine ⟨?_, ?_, hwrites⟩
  · rw [getClickPara, List.length_nil, if_neg (Nat.lt_irrefl 0), List.append_nil]
    exact hwrites
  · rw [dspLanding, landingText, if_neg Bool.false_ne_true, urlReplace_of_absent hplain]
    exact hwrites

end AdServer.Show
