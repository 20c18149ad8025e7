import AdServer.Url.Attempt
import AdServer.Url.CheckValue

/-!
The text that `cipherParam` produces, from the outside in: percent coding, the
`|` between the tokens, the query `_q_=...` of the main part, Base64 and the
record. The reader meets the layers in this order, and each one is undone exactly
as long as the characters that mark it do not occur inside it.
-/
namespace AdServer.Url

/-- The ciphered text behind its percent coding. -/
def plainText (base : Bytes) (order : List (Bytes × Bytes)) : Bytes :=
  encodeHolder ++ bytes "=" ++ base ++
    ((order.flatMap fun entry => byte '|' :: entry.1 ++ byte '|' :: entry.2) ++ [byte '|'])

def cipherText (stray : Stray) (base : Bytes) (order : List (Bytes × Bytes)) : Bytes :=
  encodeHolder ++ bytes "=" ++ (urlEncode_f stray base ++ macroText order ++ bytes "%7c")

def AllChars (P : UInt8 → Prop) (m : ParamMap) : Prop :=
  ∀ name value, m.lookup name = some value → ∀ c ∈ name ++ value, P c

/-- ASCII characters other than `%` and `|`. -/
def MacroChar (c : UInt8) : Prop := c < 128 ∧ c ≠ byte '%' ∧ c ≠ byte '|'

instance (c : UInt8) : Decidable (MacroChar c) :=
  inferInstanceAs (Decidable (c < 128 ∧ c ≠ byte '%' ∧ c ≠ byte '|'))

theorem cipherParam_ok {lib : Base64Lib} {stray : Stray} {table : List ParamBindingItem}
    {order : List (Bytes × Bytes)} {helper helper' : URLHelper} {d : Bytes}
    (h : cipherParam lib stray table order helper = .ok (helper', d)) :
    recordSize table helper.paramMap ≤ bufSize ∧
      helper'.macroParamMap = Finmap.insert macroHolder
        (hexText (checkValue (offeredFields table helper.paramMap))) helper.macroParamMap ∧
      d = cipherText stray (lib.encode (recordBytes table helper.paramMap)) order := by
  rw [cipherParam] at h
  cases hserialize : urlParamSerialize table helper.paramMap with
  | error fault =>
      rw [hserialize] at h
      cases h
  | ok r =>
      obtain ⟨out, mh⟩ := r
      obtain ⟨rfl, rfl, hfits⟩ := urlParamSerialize_ok hserialize
      simp only [hserialize] at h
      split at h
      · cases h
        exact ⟨hfits, rfl, rfl⟩
      · cases h

/-! ### Characters -/

theorem base64Char_of {c : UInt8} (h : isBase64Char c = true) :
    MacroChar c ∧ c ≠ 0 ∧ c ≠ byte '&' ∧ c ≠ byte '-' := by
  simp [isBase64Char, MacroChar, byte, UInt8.le_iff_toNat_le, ← UInt8.toNat_inj,
    UInt8.lt_iff_toNat_lt] at h ⊢
  omega

theorem mem_hexText {vc : BitVec 64} {c : UInt8} (h : c ∈ hexText vc) :
    MacroChar c ∧ c ≠ byte '-' ∧ c ≠ byte '&' ∧ c ≠ 0 := by
  have htable : ∀ d : Fin 16, MacroChar (hexDigit d) ∧ hexDigit d ≠ byte '-' ∧
      hexDigit d ≠ byte '&' ∧ hexDigit d ≠ 0 := by
    decide
  obtain ⟨d, hd, rfl⟩ := Numeral.mem_text 16 hexDigit (by omega) h
  exact htable ⟨d, hd⟩

theorem mem_macroHolder :
    ∀ c ∈ macroHolder, MacroChar c ∧ c ≠ byte '-' ∧ c ≠ byte '&' ∧ c ≠ 0 :=
  forall_mem_of_all (by decide)

theorem AllChars.insert_holder {P : UInt8 → Prop} {m : ParamMap} (h : AllChars P m)
    (hP : ∀ c, MacroChar c ∧ c ≠ byte '-' ∧ c ≠ byte '&' ∧ c ≠ 0 → P c) (vc : BitVec 64) :
    AllChars P (Finmap.insert macroHolder (hexText vc) m) := by
  intro name value hlookup c hc
  by_cases hname : name = macroHolder
  · subst hname
    rw [Finmap.lookup_insert] at hlookup
    cases hlookup
    cases List.mem_append.mp hc with
    | inl hc => exact hP c (mem_macroHolder c hc)
    | inr hc => exact hP c (mem_hexText hc)
  · rw [Finmap.lookup_insert_of_ne m hname] at hlookup
    exact h name value hlookup c hc

theorem AllChars.of_mem {P : UInt8 → Prop} {m : ParamMap} (h : AllChars P m)
    {order : List (Bytes × Bytes)} (horder : m.Traversal order) {entry : Bytes × Bytes}
    (hentry : entry ∈ order) : (∀ c ∈ entry.1, P c) ∧ ∀ c ∈ entry.2, P c := by
  have hall := h entry.1 entry.2 ((horder.2 entry.1 entry.2).mp hentry)
  exact ⟨fun c hc => hall c (List.mem_append_left _ hc),
    fun c hc => hall c (List.mem_append_right _ hc)⟩

/-! ### Percent coding -/

section
variable {order : List (Bytes × Bytes)}

theorem macroText_cons (entry : Bytes × Bytes) (rest : Bytes) :
    macroText (entry :: order) ++ rest =
      bytes "%7c" ++ (entry.1 ++ (bytes "%7c" ++ (entry.2 ++ (macroText order ++ rest)))) := by
  simp [macroText]

theorem urlDecodeLoop_macroText (stray : Stray)
    (h : ∀ entry ∈ order, byte '%' ∉ entry.1 ∧ byte '%' ∉ entry.2) (i : Nat) (rest : Bytes) :
    ∃ j, urlDecodeLoop stray i (macroText order ++ rest) =
      (order.flatMap fun entry => byte '|' :: entry.1 ++ byte '|' :: entry.2) ++
        urlDecodeLoop stray j rest := by
  induction order generalizing i with
  | nil => exact ⟨i, rfl⟩
  | cons entry order ih =>
      obtain ⟨hname, hvalue⟩ := h entry (by simp)
      obtain ⟨j, hj⟩ := ih (fun e he => h e (List.mem_cons_of_mem entry he))
        (i + 3 + entry.1.length + 3 + entry.2.length)
      refine ⟨j, ?_⟩
      rw [macroText_cons, urlDecodeLoop_pipe, urlDecodeLoop_plain stray _ hname, urlDecodeLoop_pipe,
        urlDecodeLoop_plain stray _ hvalue, hj]
      simp

theorem escape_congr (stray stray' : Stray) {text : Bytes} (h : ∀ c ∈ text, c < 128) :
    text.flatMap (escape stray) = text.flatMap (escape stray') := by
  apply List.flatMap_congr
  intro c hc
  rw [escape_of_ascii stray (h c hc), escape_of_ascii stray' (h c hc)]

theorem percent_notMem_holder : byte '%' ∉ encodeHolder ++ bytes "=" := by decide

/-- A text behind the ciphered one is left as it is. -/
theorem urlDecode_f_cipherText (stray stray' : Stray) {base tail : Bytes}
    (hbase : ∀ c ∈ base, c < 128)
    (horder : ∀ entry ∈ order, byte '%' ∉ entry.1 ∧ byte '%' ∉ entry.2) (htail : byte '%' ∉ tail) :
    urlDecode_f stray' (cipherText stray base order ++ tail) = plainText base order ++ tail := by
  obtain ⟨j, hj⟩ := urlDecodeLoop_macroText stray' horder
    (0 + (encodeHolder ++ bytes "=").length + (base.flatMap (escape stray')).length)
    (bytes "%7c" ++ tail)
  have hplain : ∀ i, urlDecodeLoop stray' i tail = tail := by
    intro i
    simpa [urlDecodeLoop] using urlDecodeLoop_plain stray' tail htail i []
  rw [urlDecodeLoop_pipe, hplain] at hj
  rw [urlDecode_f, cipherText, List.append_assoc (encodeHolder ++ bytes "="),
    urlDecodeLoop_plain stray' _ percent_notMem_holder, urlEncode_f_eq,
    escape_congr stray stray' hbase]
  simp only [List.append_assoc, urlDecodeLoop_flatMap_escape stray' base hbase, hj, plainText,
    List.singleton_append]

theorem percent_notMem_plainText {base : Bytes} (hbase : byte '%' ∉ base)
    (horder : ∀ entry ∈ order, byte '%' ∉ entry.1 ∧ byte '%' ∉ entry.2) :
    byte '%' ∉ plainText base order := by
  have hpipe : byte '%' ≠ byte '|' := by decide
  have htokens : byte '%' ∉ order.flatMap fun entry => byte '|' :: entry.1 ++ byte '|' :: entry.2 := by
    intro hmem
    obtain ⟨entry, hentry, hmem⟩ := List.mem_flatMap.mp hmem
    obtain ⟨hname, hvalue⟩ := horder entry hentry
    simp [hpipe, hname, hvalue] at hmem
  intro hmem
  rw [plainText] at hmem
  rcases List.mem_append.mp hmem with hfront | hback
  · rcases List.mem_append.mp hfront with hholder | hmem
    · exact percent_notMem_holder hholder
    · exact hbase hmem
  · rcases List.mem_append.mp hback with htoken | hlast
    · exact htokens htoken
    · exact hpipe (List.mem_singleton.mp hlast)

theorem not_infix_pipe {text : Bytes} (h : byte '%' ∉ text) : ¬ bytes "%7c" <:+: text := by
  intro hoccurs
  exact h (hoccurs.subset (by decide))

theorem safeText_once {stray₁ stray₂ : Stray} {data text : Bytes}
    (h : urlDecode_f stray₁ data = text) (hplain : byte '%' ∉ text) :
    safeText stray₁ stray₂ data = text := by
  simp only [safeText, h, not_infix_pipe hplain, if_false]

theorem pipe_infix_cipherText (stray : Stray) (base : Bytes) :
    bytes "%7c" <:+: cipherText stray base order := by
  apply List.IsSuffix.isInfix
  rw [cipherText, ← List.append_assoc]
  exact List.suffix_append _ _

theorem cipherText_chars {P : UInt8 → Prop} (hholder : ∀ c ∈ encodeHolder ++ bytes "=", P c)
    (hpipe : ∀ c ∈ bytes "%7c", P c) {stray : Stray} {base : Bytes}
    (hbase : ∀ x ∈ base, ∀ c ∈ escape stray x, P c)
    (horder : ∀ entry ∈ order, (∀ c ∈ entry.1, P c) ∧ ∀ c ∈ entry.2, P c) :
    ∀ c ∈ cipherText stray base order, P c := by
  intro c hc
  rw [cipherText, urlEncode_f_eq, macroText] at hc
  simp only [List.mem_append (s := encodeHolder ++ bytes "="), List.mem_append,
    List.mem_flatMap] at hc
  rcases hc with hc | (⟨x, hx, hc⟩ | ⟨entry, hentry, hc⟩) | hc
  · exact hholder c (List.mem_append.mpr hc)
  · exact hbase x hx c hc
  · obtain ⟨hname, hvalue⟩ := horder entry hentry
    rcases hc with ((hc | hc) | hc) | hc
    · exact hpipe c hc
    · exact hname c hc
    · exact hpipe c hc
    · exact hvalue c hc
  · exact hpipe c hc

/-- All the text has the characters of the macros, if those that the cipher itself writes are among
them. -/
theorem cipherParam_chars {lib : Base64Lib} (lawful : lib.Lawful) {P : UInt8 → Prop}
    (hP : ∀ c, MacroChar c ∧ c ≠ byte '-' ∧ c ≠ byte '&' ∧ c ≠ 0 → P c) (hpercent : P (byte '%'))
    {stray : Stray} {table : List ParamBindingItem} {helper helper' : URLHelper} {d : Bytes}
    (hmacros : AllChars P helper.macroParamMap)
    (hcipher : cipherParam lib stray table order helper = .ok (helper', d))
    (horder : helper'.macroParamMap.Traversal order) : ∀ c ∈ d, P c := by
  obtain ⟨-, hmap, rfl⟩ := cipherParam_ok hcipher
  rw [hmap] at horder
  have hall := hmacros.insert_holder hP (checkValue (offeredFields table helper.paramMap))
  have hplain : ∀ c ∈ encodeHolder ++ bytes "=" ++ bytes "7c",
      MacroChar c ∧ c ≠ byte '-' ∧ c ≠ byte '&' ∧ c ≠ 0 := forall_mem_of_all (by decide)
  refine cipherText_chars ?_ ?_ ?_ fun entry hentry => hall.of_mem horder hentry
  · exact fun c hc => hP c (hplain c (List.mem_append_left _ hc))
  · exact List.forall_mem_cons.mpr
      ⟨hpercent, fun c hc => hP c (hplain c (List.mem_append_right _ hc))⟩
  · intro x hx
    obtain ⟨hchar, hzero, hseperator, hdash⟩ := base64Char_of (lawful.alphabet _ x hx)
    exact escape_chars stray hchar.1 (hP x ⟨hchar, hdash, hseperator, hzero⟩) hpercent
      fun k => hP _ (by revert k; decide)

theorem safeText_twice {stray stray₁ stray₂ : Stray} {base data text : Bytes}
    (h : urlDecode_f stray₁ data = cipherText stray base order)
    (htext : urlDecode_f stray₂ (cipherText stray base order) = text) :
    safeText stray₁ stray₂ data = text := by
  simp only [safeText, h, pipe_infix_cipherText, if_true, htext]

/-! ### Tokens and the query -/

theorem splitOn_tokens {front tail : Bytes} (hfront : byte '|' ∉ front)
    (h : ∀ entry ∈ order, byte '|' ∉ entry.1 ∧ byte '|' ∉ entry.2) (htail : byte '|' ∉ tail) :
    (front ++ ((order.flatMap fun entry => byte '|' :: entry.1 ++ byte '|' :: entry.2) ++
      byte '|' :: tail)).splitOn (byte '|') =
      front :: ((order.flatMap fun entry => [entry.1, entry.2]) ++ [tail]) := by
  induction order generalizing front with
  | nil =>
      simp only [List.flatMap_nil, List.nil_append]
      rw [List.splitOn_append_cons_self_of_not_mem hfront, List.splitOn_eq_singleton htail]
  | cons entry order ih =>
      obtain ⟨hname, hvalue⟩ := h entry (by simp)
      have htail := ih hvalue fun e he => h e (List.mem_cons_of_mem entry he)
      simp only [List.flatMap_cons, List.cons_append, List.append_assoc, List.nil_append] at htail ⊢
      rw [List.splitOn_append_cons_self_of_not_mem hfront,
        List.splitOn_append_cons_self_of_not_mem hname, htail]

theorem queryName_encodeHolder : QueryName (byte '&') encodeHolder :=
  ⟨by decide, by decide, by decide, by decide⟩

theorem holder_append (base : Bytes) :
    encodeHolder ++ bytes "=" ++ base = encodeHolder ++ byte '=' :: base := by
  have hequals : bytes "=" = [byte '='] := by decide
  rw [hequals, List.append_assoc, List.singleton_append]

theorem getParamv2_holder {base : Bytes} (hnul : (0 : UInt8) ∉ base) (hsep : byte '&' ∉ base) :
    (getParamv2 ∅ (encodeHolder ++ bytes "=" ++ base) (byte '&')).map (ParamMap.value · encodeHolder) =
      some base := by
  have hzero : (0 : UInt8) ∉ encodeHolder ++ byte '=' :: base := by
    rw [List.mem_append, List.mem_cons]
    rintro (hmem | hmem | hmem)
    · exact absurd hmem (by decide)
    · exact absurd hmem (by decide)
    · exact hnul hmem
  rw [holder_append, getParamv2_pair ∅ queryName_encodeHolder hsep hzero, Option.map_some]
  split
  · rename_i hempty
    rw [hempty, ParamMap.value, Finmap.lookup_empty, Option.getD_none]
  · rw [ParamMap.value, Finmap.lookup_insert, Option.getD_some]

/-- The key in front of the first `=` is found whatever follows, if anything does. -/
theorem getParamv2_encodeHolder {c : UInt8} (hc : c ≠ 0) (rest : Bytes) :
    ∃ m, getParamv2 ∅ (encodeHolder ++ bytes "=" ++ c :: rest) (byte '&') = some m ∧
      encodeHolder ∈ m := by
  have hsep : byte '&' ≠ byte ' ' := by decide
  have hholder : encodeHolder ++ bytes "=" = [95, 113, 95, 61] := by decide
  have hkey : encodeHolder = [95, 113, 95] := by decide
  obtain ⟨tail, htail⟩ : ∃ tail, cString ([95, 113, 95, 61] ++ c :: rest) =
      [95, 113, 95, 61] ++ c :: tail := ⟨cString rest, by simp [cString, hc]⟩
  have hfirst : getParamv2Loop ([95, 113, 95, 61] ++ c :: tail) (byte '&') 4 ⟨0, 0, false, [], ∅⟩ =
      some ⟨4, 4, true, [95, 113, 95], ∅⟩ := by
    simp [getParamv2Loop, getParamv2Step, charAt, skipSpaces, assign, byte]
  have hstart : KeySeen encodeHolder ⟨4, 4, true, [95, 113, 95], ∅⟩ :=
    ⟨le_refl 4, .inr ⟨rfl, hkey.symm⟩⟩
  obtain ⟨st₁, hstep, hseen₁, hlater₁⟩ :=
    getParamv2Step_seen (s := [95, 113, 95, 61] ++ c :: tail) hsep hstart
  obtain ⟨st, hloop, hseen, hlater⟩ := getParamv2Loop_seen (s := [95, 113, 95, 61] ++ c :: tail)
    hsep tail.length hseen₁ hlater₁
  have hlen : ([95, 113, 95, 61] ++ c :: tail).length = 4 + (1 + tail.length) := by
    simp only [List.length_append, List.length_cons, List.length_nil]
    omega
  have hall : getParamv2Loop ([95, 113, 95, 61] ++ c :: tail) (byte '&')
      ([95, 113, 95, 61] ++ c :: tail).length ⟨0, 0, false, [], ∅⟩ = some st := by
    rw [hlen, getParamv2Loop_add, hfirst, Option.bind_some, Nat.add_comm 1, getParamv2Loop, hstep]
    exact hloop
  rw [hholder, getParamv2, htail]
  simp only [hall, Option.bind_some]
  split
  · rw [assign, if_pos hseen.ordered]
    exact ⟨_, rfl, Finmap.mem_insert.mpr (hseen.seen.elim .inr fun hpair => .inl hpair.2.symm)⟩
  · exact ⟨_, rfl, hlater.resolve_right (by omega)⟩

theorem pipe_notMem_mainPart {base : Bytes} (hbase : ∀ c ∈ base, isBase64Char c = true) :
    byte '|' ∉ encodeHolder ++ bytes "=" ++ base := by
  intro hmem
  rcases List.mem_append.mp hmem with hholder | hmem
  · exact absurd hholder (by decide)
  · exact (base64Char_of (hbase _ hmem)).1.2.2 rfl

theorem plainText_append (base tail : Bytes) (order : List (Bytes × Bytes)) :
    plainText base order ++ tail = encodeHolder ++ bytes "=" ++ base ++
      ((order.flatMap fun entry => byte '|' :: entry.1 ++ byte '|' :: entry.2) ++
        byte '|' :: tail) := by
  simp only [plainText, List.append_assoc, List.singleton_append]

theorem cipherQuery_plainText {base tail : Bytes} (hbase : ∀ c ∈ base, isBase64Char c = true)
    (h : ∀ entry ∈ order, byte '|' ∉ entry.1 ∧ byte '|' ∉ entry.2) (htail : byte '|' ∉ tail) :
    cipherQuery (plainText base order ++ tail) = some base := by
  rw [cipherQuery, plainText_append, splitOn_tokens (pipe_notMem_mainPart hbase) h htail]
  apply getParamv2_holder
  · exact fun hmem => (base64Char_of (hbase _ hmem)).2.1 rfl
  · exact fun hmem => (base64Char_of (hbase _ hmem)).2.2.1 rfl

theorem tail_splitOn_plainText {base tail : Bytes} (hbase : ∀ c ∈ base, isBase64Char c = true)
    (h : ∀ entry ∈ order, byte '|' ∉ entry.1 ∧ byte '|' ∉ entry.2) (htail : byte '|' ∉ tail) :
    ((plainText base order ++ tail).splitOn (byte '|')).tail =
      (order.flatMap fun entry => [entry.1, entry.2]) ++ [tail] := by
  rw [plainText_append, splitOn_tokens (pipe_notMem_mainPart hbase) h htail, List.tail_cons]

def insertEntries (order : List (Bytes × Bytes)) (m : ParamMap) : ParamMap :=
  order.foldl (fun m entry => m.insertNew entry.1 entry.2) m

theorem insertEntries_cons (entry : Bytes × Bytes) (m : ParamMap) :
    insertEntries (entry :: order) m = insertEntries order (m.insertNew entry.1 entry.2) := rfl

theorem insertTokens_flatMap (tail : Bytes) (m : ParamMap) :
    insertTokens ((order.flatMap fun entry => [entry.1, entry.2]) ++ [tail]) m =
      insertEntries order m := by
  induction order generalizing m with
  | nil => rfl
  | cons entry order ih => exact ih (m.insertNew entry.1 entry.2)

theorem lookup_insertEntries_of_some {m : ParamMap} {key value : Bytes}
    (h : m.lookup key = some value) : (insertEntries order m).lookup key = some value := by
  induction order generalizing m with
  | nil => exact h
  | cons entry order ih => exact ih (ParamMap.lookup_insertNew_of_some h entry.1 entry.2)

theorem lookup_insertEntries_of_notMem {m : ParamMap} {key : Bytes}
    (h : key ∉ order.map Prod.fst) : (insertEntries order m).lookup key = m.lookup key := by
  induction order generalizing m with
  | nil => rfl
  | cons entry order ih =>
      rw [List.map_cons, List.mem_cons, not_or] at h
      rw [insertEntries_cons, ih h.2, ParamMap.lookup_insertNew, if_neg h.1]

theorem lookup_insertEntries_of_mem {m : ParamMap} (hnodup : (order.map Prod.fst).Nodup)
    {entry : Bytes × Bytes} (hentry : entry ∈ order) (hnone : m.lookup entry.1 = none) :
    (insertEntries order m).lookup entry.1 = some entry.2 := by
  induction order generalizing m with
  | nil => cases hentry
  | cons head order ih =>
      rw [List.map_cons, List.nodup_cons] at hnodup
      rw [insertEntries_cons]
      cases List.mem_cons.mp hentry with
      | inl heq =>
          subst heq
          apply lookup_insertEntries_of_some
          rw [ParamMap.lookup_insertNew, if_pos rfl, hnone, Option.getD_none]
      | inr hmem =>
          have hne : entry.1 ≠ head.1 := fun h => hnodup.1 (h ▸ List.mem_map_of_mem hmem)
          apply ih hnodup.2 hmem
          rw [ParamMap.lookup_insertNew, if_neg hne, hnone]

theorem lookup_insertEntries {macros : ParamMap} (horder : macros.Traversal order) (m : ParamMap)
    (key : Bytes) :
    (insertEntries order m).lookup key = (m.lookup key).or (macros.lookup key) := by
  cases hlookup : m.lookup key with
  | some value => rw [lookup_insertEntries_of_some hlookup, Option.some_or]
  | none =>
      rw [Option.none_or]
      cases htoken : macros.lookup key with
      | some value =>
          exact lookup_insertEntries_of_mem horder.1 ((horder.2 key value).mpr htoken) hlookup
      | none =>
          rw [lookup_insertEntries_of_notMem, hlookup]
          intro hmem
          obtain ⟨entry, hentry, rfl⟩ := List.mem_map.mp hmem
          rw [(horder.2 entry.1 entry.2).mp hentry] at htoken
          cases htoken

end

/-! ### One attempt on the program's own text -/

section
variable {lib : Base64Lib} {table : List ParamBindingItem} {m macros : ParamMap}
  {order : List (Bytes × Bytes)}

/-- The map that the program's own text leads to: nothing if the check value does
not survive, else the stored entries and the macros. -/
def readBack (table : List ParamBindingItem) (m : ParamMap) (order : List (Bytes × Bytes)) :
    ParamMap :=
  if lostXor table m = 0#64 then
    insertEntries order ((storedRecord table m).foldl insertField ∅)
  else ∅

theorem lookup_readBack_holder (hkeys : macroHolder ∉ table.map Prod.fst)
    (horder : macros.Traversal order) :
    (insertEntries order ((storedRecord table m).foldl insertField ∅)).lookup macroHolder =
      macros.lookup macroHolder := by
  rw [lookup_insertEntries horder, lookup_storedRecord_none m hkeys, Option.none_or]

theorem verify_readBack (hkeys : macroHolder ∉ table.map Prod.fst) (horder : macros.Traversal order)
    (hholder : macros.lookup macroHolder = some (hexText (checkValue (offeredFields table m)))) :
    verify (checkValue (storedFields table m))
        (insertEntries order ((storedRecord table m).foldl insertField ∅)) =
      readBack table m order := by
  have hlookup := lookup_readBack_holder (m := m) hkeys horder
  rw [hholder] at hlookup
  rw [verify, readBack, ParamMap.value, hlookup, Option.getD_some]
  by_cases hlost : lostXor table m = 0#64
  · have hcheck := (checkValue_stored_iff table m).mpr hlost
    simp only [hcheck, ne_eq, not_true, if_false, hlost, if_true]
  · have hcheck : hexText (checkValue (offeredFields table m)) ≠
        hexText (checkValue (storedFields table m)) := fun h =>
      hlost ((checkValue_stored_iff table m).mp (hexText_injective h).symm)
    rw [if_pos hcheck, if_neg hlost]

theorem processParamData_plainText (hlib : lib.Lawful) (hkeys : macroHolder ∉ table.map Prod.fst)
    (hfits : recordSize table m ≤ bufSize) (horder : macros.Traversal order)
    (hholder : macros.lookup macroHolder = some (hexText (checkValue (offeredFields table m))))
    (hmacros : AllChars MacroChar macros) {stray₁ stray₂ : Stray} {data tail : Bytes}
    (htail : byte '|' ∉ tail)
    (htext : safeText stray₁ stray₂ data =
      plainText (lib.encode (recordBytes table m)) order ++ tail) :
    processParamData lib stray₁ stray₂ table data true ∅ = (true, readBack table m order) := by
  have hpipe : ∀ entry ∈ order, byte '|' ∉ entry.1 ∧ byte '|' ∉ entry.2 := fun entry hentry =>
    have hchars := hmacros.of_mem horder hentry
    ⟨fun h => (hchars.1 _ h).2.2 rfl, fun h => (hchars.2 _ h).2.2 rfl⟩
  have hbase := hlib.alphabet (recordBytes table m)
  have hpayload : attemptPayload lib stray₁ stray₂ data = some (recordBytes table m) := by
    rw [attemptPayload, htext, cipherQuery_plainText hbase hpipe htail, Option.bind_some,
      hlib.inverts]
  rw [processParamData_ok hpayload (decodeRecord_recordBytes hfits), attemptTokens, htext,
    tail_splitOn_plainText hbase hpipe htail, insertTokens_flatMap, storedRecord_values,
    verify_readBack hkeys horder hholder]

end

end AdServer.Url
