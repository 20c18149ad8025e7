import AdServer.Scenario.Address

/-!
The address database. The file starts with the length of its index. The index starts with a
table of 256 words: where to begin for each first octet. Entries of 8 bytes follow, an end
address and the place of a text. `ipDataFind` scans them from the place that the table gives for
the first number of the text, whatever this number is.
-/
namespace AdServer.Area

open Scenario Url

/-- The memory that a lookup reaches behind, or a scan that never ends. -/
inductive IpFault
  | flag | index | data | name | endless
  deriving DecidableEq

/-- `B2IU` of four values, which it takes modulo 256. -/
def b2iu (a b c d : BitVec 8) : BitVec 32 := a ++ b ++ c ++ d

/-- `B2IL`. -/
def b2il (a b c d : BitVec 8) : BitVec 32 := d ++ c ++ b ++ a

/-- One of the two for the four bytes at a place. -/
def wordAt (order : BitVec 8 → BitVec 8 → BitVec 8 → BitVec 8 → BitVec 32) (memory : Bytes)
    (position : Nat) : Option (BitVec 32) :=
  match memory.drop position with
  | a :: b :: c :: d :: _ => some (order a.toBitVec b.toBitVec c.toBitVec d.toBitVec)
  | _ => none

/-- `ipip` after a file was loaded. -/
structure IpData where
  data : Bytes
  offset : BitVec 32
  whole : 4 + offset.toNat ≤ data.length
  table : 1024 ≤ offset.toNat

namespace IpData

variable (db : IpData)

def index : Bytes := (db.data.drop 4).take db.offset.toNat

/-- The word of the table for a first octet. -/
def start (i : Nat) : BitVec 32 := (wordAt b2il db.index (4 * i)).getD 0

/-- `ipip.flag[i]` of the copied table. -/
def flag (i : Nat) : Except IpFault (BitVec 32) :=
  if i < 256 then .ok (db.start i) else .error .flag

/-- The loop of `ipDataFind` gives `index_offset` and `index_length`. After `2 ^ 29` rounds
`start` has taken all its values. -/
def scan (address : BitVec 32) : Nat → BitVec 32 → Except IpFault (BitVec 32 × Nat)
  | 0, _ => .error .endless
  | rounds + 1, start =>
    if start < db.offset - 1028 then
      match wordAt b2iu db.index start.toNat with
      | none => .error .index
      | some last =>
        if address ≤ last then
          match wordAt b2il db.index (start.toNat + 4), db.index[start.toNat + 7]? with
          | some word, some length => .ok (word &&& 0x00FFFFFF, length.toNat)
          | _, _ => .error .index
        else scan address rounds (start + 8)
    else .ok (0, 0)

/-- What `memcpy` copies from `ipip.data`. -/
def text (position : Int) (length : Nat) : Except IpFault Bytes :=
  if length = 0 then .ok []
  else if 0 ≤ position ∧ position + length ≤ db.data.length then
    .ok ((db.data.drop position.toNat).take length)
  else .error .data

/-- What `ipDataFind` copies to `result` after it has read four numbers. -/
def foundText (a b c d : Int) : Except IpFault Bytes := do
  let start ← db.flag (BitVec.ofInt 32 a).toNat
  let address := b2iu (BitVec.ofInt 8 a) (BitVec.ofInt 8 b) (BitVec.ofInt 8 c) (BitVec.ofInt 8 d)
  let (indexOffset, indexLength) ← db.scan address (2 ^ 29) (start * 8 + 1024)
  db.text (db.offset.toNat + indexOffset.toNat - 1024) indexLength

end IpData

/-- `ipDataInit` for a file that can be opened. `none` is an early return with the error code; an
outer error is a read behind the file or the index. -/
def ipDataInit (ipip : Option IpData) (file : Bytes) : Except IpFault (Option IpData) :=
  if ipip.isSome ∨ file = [] then .ok none
  else
    match wordAt b2iu file 0 with
    | none => .error .data
    | some length =>
      if h : 4 + length.toNat ≤ file.length then
        if table : 1024 ≤ length.toNat then .ok (some ⟨file, length, h, table⟩) else .error .index
      else .error .data

/-- The databases that are loaded are those whose first word is the length of the index. -/
theorem ipDataInit_eq_some_iff {file : Bytes} {db : IpData} :
    ipDataInit none file = .ok (some db) ↔
      db.data = file ∧ wordAt b2iu file 0 = some db.offset := by
  constructor
  · intro hload
    rw [ipDataInit] at hload
    split at hload
    · cases hload
    · split at hload
      · cases hload
      · rename_i length hword
        split at hload
        · split at hload
          · cases hload
            exact ⟨rfl, hword⟩
          · cases hload
        · cases hload
  · rintro ⟨rfl, hword⟩
    have hwhole := db.whole
    have hne : ¬((none : Option IpData).isSome ∨ db.data = []) := by
      rintro (h | h)
      · cases h
      · rw [h, List.length_nil] at hwhole
        omega
    rw [ipDataInit, if_neg hne, hword]
    exact (dif_pos db.whole).trans (dif_pos db.table)

/-- One `%d` of `sscanf` and the text behind it. -/
def scanNumber (s : Bytes) : Option (Int × Bytes) :=
  let body := (splitSign (s.dropWhile isSpace)).2
  if body.takeWhile isDigit = [] then none else some (atoi s, body.dropWhile isDigit)

/-- The numbers that `sscanf` stores for as many `%d` with dots between them. -/
def sscanf : Nat → Bytes → List Int
  | 0, _ => []
  | n + 1, s =>
    match scanNumber s with
    | none => []
    | some (number, rest) =>
      number ::
        match rest with
        | c :: rest => if c = byte '.' then sscanf n rest else []
        | [] => []

/-- The bytes at the start of `result` are replaced. -/
def store (result content : Bytes) : Except IpFault Bytes :=
  if content.length ≤ result.length then .ok (content ++ result.drop content.length)
  else .error .name

/-- The length that is returned and the bytes of `result` afterwards. -/
def ipDataFind (db : IpData) (ip result : Bytes) : Except IpFault (Nat × Bytes) :=
  match sscanf 4 (cString ip) with
  | [a, b, c, d] => do
    let text ← db.foundText a b c d
    let result ← store result (text ++ [0])
    .ok (text.length, result)
  | _ => .ok (0, result)

theorem sscanf_range {n : Nat} {s : Bytes} {number : Int} (h : number ∈ sscanf n s) :
    -2 ^ 31 ≤ number ∧ number < 2 ^ 31 := by
  induction n generalizing s with
  | zero => cases h
  | succ n ih =>
      rw [sscanf, scanNumber] at h
      split at h
      · cases h
      · rename_i first rest hfirst
        obtain rfl | h := List.mem_cons.mp h
        · split at hfirst
          · cases hfirst
          · cases hfirst
            exact wrapInt32_range _
        · split at h
          · split at h
            · exact ih h
            · cases h
          · cases h

theorem toNat_ofInt_lt_iff {number : Int} (hrange : -2 ^ 31 ≤ number ∧ number < 2 ^ 31) :
    (BitVec.ofInt 32 number).toNat < 256 ↔ 0 ≤ number ∧ number ≤ 255 := by
  rw [BitVec.toNat_ofInt]
  omega

namespace IpData

variable {db : IpData}

theorem scan_ne_error {fault : IpFault} (hindex : fault ≠ .index) (hendless : fault ≠ .endless)
    (address : BitVec 32) (rounds : Nat) (start : BitVec 32) :
    db.scan address rounds start ≠ .error fault := by
  induction rounds generalizing start with
  | zero => simpa [scan] using hendless.symm
  | succ rounds ih =>
      rw [scan]
      split
      · split
        · simpa using hindex.symm
        · split
          · split
            · simp
            · simpa using hindex.symm
          · exact ih (start + 8)
      · simp

theorem scan_length_le {address : BitVec 32} {rounds : Nat} {start : BitVec 32}
    {place : BitVec 32 × Nat} (h : db.scan address rounds start = .ok place) : place.2 ≤ 255 := by
  induction rounds generalizing start with
  | zero => cases h
  | succ rounds ih =>
      rw [scan] at h
      split at h
      · split at h
        · cases h
        · split at h
          · split at h
            · rename_i length _ _
              cases h
              exact Nat.le_of_lt_succ length.toNat_lt
            · cases h
          · exact ih h
      · cases h
        exact Nat.zero_le 255

theorem text_ne_error {fault : IpFault} (hfault : fault ≠ .data) (position : Int) (length : Nat) :
    db.text position length ≠ .error fault := by
  rw [text]
  split
  · simp
  · split
    · simp
    · simpa using hfault.symm

theorem length_text {position : Int} {length : Nat} {text : Bytes}
    (h : db.text position length = .ok text) : text.length = length := by
  rw [IpData.text] at h
  split at h
  · rename_i hzero
    cases h
    exact hzero.symm
  · split at h
    · cases h
      rw [List.length_take, List.length_drop]
      omega
    · cases h

/-- The text is looked up if the first number is an octet; then the table is read inside. -/
theorem foundText_of_lt {a : Int} (ha : (BitVec.ofInt 32 a).toNat < 256) (b c d : Int) :
    db.foundText a b c d =
      (db.scan (b2iu (BitVec.ofInt 8 a) (BitVec.ofInt 8 b) (BitVec.ofInt 8 c) (BitVec.ofInt 8 d))
        (2 ^ 29) (db.start (BitVec.ofInt 32 a).toNat * 8 + 1024) >>= fun place =>
        db.text (db.offset.toNat + place.1.toNat - 1024) place.2) := by
  rw [foundText, flag, if_pos ha]
  rfl

theorem foundText_of_le {a : Int} (ha : 256 ≤ (BitVec.ofInt 32 a).toNat) (b c d : Int) :
    db.foundText a b c d = .error .flag := by
  rw [foundText, flag, if_neg (Nat.not_lt.mpr ha)]
  rfl

/-- Behind the table the loop fails, or the text is read at the place that it gives. -/
theorem foundText_cases {a : Int} (ha : (BitVec.ofInt 32 a).toNat < 256) (b c d : Int) :
    (∃ address start fault, db.scan address (2 ^ 29) start = .error fault ∧
      db.foundText a b c d = .error fault) ∨
    ∃ address start place, db.scan address (2 ^ 29) start = .ok place ∧
      db.foundText a b c d = db.text (db.offset.toNat + place.1.toNat - 1024) place.2 := by
  rw [foundText_of_lt ha]
  cases hscan : db.scan (b2iu (BitVec.ofInt 8 a) (BitVec.ofInt 8 b) (BitVec.ofInt 8 c)
      (BitVec.ofInt 8 d)) (2 ^ 29) (db.start (BitVec.ofInt 32 a).toNat * 8 + 1024) with
  | error fault => exact .inl ⟨_, _, fault, hscan, rfl⟩
  | ok place => exact .inr ⟨_, _, place, hscan, rfl⟩

/-- Behind the table a lookup only fails in the index or in the data. -/
theorem foundText_ne_error {fault : IpFault} (hindex : fault ≠ .index)
    (hendless : fault ≠ .endless) (hdata : fault ≠ .data) {a : Int}
    (ha : (BitVec.ofInt 32 a).toNat < 256) (b c d : Int) :
    db.foundText a b c d ≠ .error fault := by
  intro h
  rcases foundText_cases ha b c d with ⟨address, start, fault', hscan, hfound⟩ |
    ⟨address, start, place, hscan, hfound⟩
  · cases hfound.symm.trans h
    exact scan_ne_error hindex hendless _ _ _ hscan
  · exact text_ne_error hdata _ _ (hfound.symm.trans h)

theorem foundText_flag_iff (a b c d : Int) :
    db.foundText a b c d = .error .flag ↔ 256 ≤ (BitVec.ofInt 32 a).toNat := by
  refine ⟨fun h => Nat.le_of_not_lt fun ha => ?_, fun ha => foundText_of_le ha b c d⟩
  exact foundText_ne_error (by decide) (by decide) (by decide) ha b c d h

theorem foundText_ne_name (a b c d : Int) : db.foundText a b c d ≠ .error .name := by
  by_cases ha : (BitVec.ofInt 32 a).toNat < 256
  · exact foundText_ne_error (by decide) (by decide) (by decide) ha b c d
  · rw [foundText_of_le (Nat.le_of_not_lt ha)]
    simp

theorem length_foundText_le {a b c d : Int} {text : Bytes} (h : db.foundText a b c d = .ok text) :
    text.length ≤ 255 := by
  by_cases ha : (BitVec.ofInt 32 a).toNat < 256
  · rcases foundText_cases ha b c d with ⟨address, start, fault, hscan, hfound⟩ |
      ⟨address, start, place, hscan, hfound⟩
    · cases hfound.symm.trans h
    · rw [length_text (hfound.symm.trans h)]
      exact scan_length_le hscan
  · rw [foundText_of_le (Nat.le_of_not_lt ha)] at h
    cases h

end IpData

/-- The text that is found is stored with a NUL behind it. -/
theorem ipDataFind_quad {db : IpData} {ip result : Bytes} {a b c d : Int}
    (h : sscanf 4 (cString ip) = [a, b, c, d]) (hresult : 256 ≤ result.length) :
    ipDataFind db ip result = (db.foundText a b c d).map fun text =>
      (text.length, text ++ [0] ++ result.drop (text.length + 1)) := by
  rw [ipDataFind, h]
  change db.foundText a b c d >>= _ = _
  cases htext : db.foundText a b c d with
  | error fault => rfl
  | ok text =>
      have hlength := IpData.length_foundText_le htext
      have hroom : (text ++ [0]).length = text.length + 1 := List.length_append
      change store result (text ++ [0]) >>= _ = _
      rw [store, if_pos (by omega), hroom]
      rfl

theorem ipDataFind_of_ne {db : IpData} {ip : Bytes}
    (h : ∀ a b c d, sscanf 4 (cString ip) ≠ [a, b, c, d]) (result : Bytes) :
    ipDataFind db ip result = .ok (0, result) := by
  rw [ipDataFind]
  split
  · rename_i hquad
    exact absurd hquad (h _ _ _ _)
  · rfl

theorem ipDataFind_eq_flag_iff {db : IpData} {ip : Bytes} {a b c d : Int}
    (h : sscanf 4 (cString ip) = [a, b, c, d]) (result : Bytes) :
    ipDataFind db ip result = .error .flag ↔ 256 ≤ (BitVec.ofInt 32 a).toNat := by
  rw [ipDataFind, h, ← @IpData.foundText_flag_iff db a b c d]
  change db.foundText a b c d >>= _ = _ ↔ _
  cases db.foundText a b c d with
  | error fault => exact ⟨fun h => by cases h; rfl, fun h => by cases h; rfl⟩
  | ok text =>
      refine iff_of_false (fun h => ?_) (fun h => by cases h)
      change store result (text ++ [0]) >>= _ = _ at h
      rw [store] at h
      split at h
      · cases h
      · cases h

/-- The table is only read where it has words if and only if the text does not hold four numbers
or the first one is an octet. -/
theorem ipDataFind_flag_iff (db : IpData) (ip result : Bytes) :
    ipDataFind db ip result ≠ .error .flag ↔
      ∀ a b c d, sscanf 4 (cString ip) = [a, b, c, d] → 0 ≤ a ∧ a ≤ 255 := by
  by_cases hquad : ∃ a b c d, sscanf 4 (cString ip) = [a, b, c, d]
  · obtain ⟨a, b, c, d, hquad⟩ := hquad
    have hrange : -2 ^ 31 ≤ a ∧ a < 2 ^ 31 := sscanf_range (hquad ▸ List.mem_cons_self)
    rw [Ne, ipDataFind_eq_flag_iff hquad, Nat.not_le, toNat_ofInt_lt_iff hrange]
    refine ⟨fun h a' b' c' d' hquad' => ?_, fun h => h a b c d hquad⟩
    cases hquad.symm.trans hquad'
    exact h
  · rw [ipDataFind_of_ne fun a b c d hfour => hquad ⟨a, b, c, d, hfour⟩]
    exact iff_of_true (fun h => by cases h) fun a b c d hfour => absurd ⟨a, b, c, d, hfour⟩ hquad

/-- A database with one entry, for all addresses, and its text. -/
def oneEntry : IpData where
  data := [0, 0, 8, 12] ++ (List.replicate 1024 0 ++ [255, 255, 255, 255, 4, 4, 0, 2] ++
    List.replicate 1028 0) ++ bytes "CN"
  offset := 2060
  whole := by decide +kernel
  table := by decide

theorem ipDataFind_flag_256 :
    ¬ipDataFind oneEntry (bytes "256.0.0.1") (List.replicate 256 0) ≠ .error .flag := by
  have hquad : sscanf 4 (cString (bytes "256.0.0.1")) = [256, 0, 0, 1] := by decide +kernel
  exact not_not.mpr ((ipDataFind_eq_flag_iff hquad _).mpr (by decide))

theorem scanNumber_octet {text rest : Bytes} {value : Nat} (h : OctetText text value)
    (hrest : rest.takeWhile isDigit = []) :
    scanNumber (text ++ rest) = some ((value : Int), rest) := by
  obtain ⟨c, cs, hcons⟩ := List.exists_cons_of_ne_nil h.nonempty
  have hsign : splitSign ((text ++ rest).dropWhile isSpace) = (false, text ++ rest) := by
    rw [hcons, List.cons_append]
    exact splitSign_of_isDigit (h.digits c (by rw [hcons]; exact List.mem_cons_self)) _
  have htake : (text ++ rest).takeWhile isDigit = text := by
    rw [List.takeWhile_append_of_pos h.digits, hrest, List.append_nil]
  have hdrop : (text ++ rest).dropWhile isDigit = rest := by
    have hwhole := List.takeWhile_append_dropWhile (p := isDigit) (l := text ++ rest)
    rw [htake] at hwhole
    exact List.append_cancel_left hwhole
  simp only [scanNumber, hsign, htake, hdrop, h.nonempty, if_false, h.atoi_append hrest]

theorem sscanf_dot {text rest : Bytes} {value : Nat} (h : OctetText text value) (n : Nat) :
    sscanf (n + 1) (text ++ byte '.' :: rest) = (value : Int) :: sscanf n rest := by
  rw [sscanf, scanNumber_octet h (List.takeWhile_cons_of_neg (by decide))]
  simp only [if_true]

theorem sscanf_last {text : Bytes} {value : Nat} (h : OctetText text value) (n : Nat) :
    sscanf (n + 1) text = [(value : Int)] := by
  have hnumber : scanNumber (text ++ []) = some ((value : Int), []) := scanNumber_octet h rfl
  rw [List.append_nil] at hnumber
  rw [sscanf, hnumber]

theorem sscanf_dottedQuad {ip : Bytes} {address : Nat} (h : DottedQuad ip address) :
    ∃ w x y z : Nat, w < 256 ∧ x < 256 ∧ y < 256 ∧ z < 256 ∧
      sscanf 4 (cString ip) = [(w : Int), (x : Int), (y : Int), (z : Int)] ∧
      w * 2 ^ 24 + x * 2 ^ 16 + y * 2 ^ 8 + z = address := by
  have htext : cString ip = ip := cString_of_notMem (h.notMem (by decide) (by decide))
  obtain ⟨a, b, c, d, w, x, y, z, ha, hb, hc, hd, rfl, rfl⟩ := h
  refine ⟨w, x, y, z, ha.small, hb.small, hc.small, hd.small, ?_, rfl⟩
  rw [htext, sscanf_dot ha, sscanf_dot hb, sscanf_dot hc, sscanf_last hd]

theorem toNat_b2iu_octets {w x y z : Nat} (hw : w < 256) (hx : x < 256) (hy : y < 256)
    (hz : z < 256) :
    (b2iu (BitVec.ofInt 8 w) (BitVec.ofInt 8 x) (BitVec.ofInt 8 y) (BitVec.ofInt 8 z)).toNat =
      w * 2 ^ 24 + x * 2 ^ 16 + y * 2 ^ 8 + z := by
  simp only [b2iu, toNat_append_add, BitVec.ofInt_natCast, BitVec.toNat_ofNat]
  omega

theorem wordAt_eq_some (order : BitVec 8 → BitVec 8 → BitVec 8 → BitVec 8 → BitVec 32)
    {memory : Bytes} {position : Nat} (h : position + 4 ≤ memory.length) :
    wordAt order memory position = some ((wordAt order memory position).getD 0) := by
  have hlen : 4 ≤ (memory.drop position).length := by
    rw [List.length_drop]
    omega
  rw [wordAt]
  match memory.drop position, hlen with
  | _ :: _ :: _ :: _ :: _, _ => rfl

/-- A search that leaves out places where nothing is found. -/
theorem find?_range_eq_range' {p : Nat → Bool} {k n : Nat} (h : ∀ j < n, j < k → p j = false) :
    (List.range n).find? p = (List.range' k (n - k)).find? p := by
  by_cases hk : k ≤ n
  · have hnone : (List.range' 0 k).find? p = none := by
      refine List.find?_eq_none.mpr fun j hj => ?_
      have hj : j < k := by simpa using hj
      rw [h j (by omega) hj]
      exact Bool.false_ne_true
    obtain ⟨m, rfl⟩ := Nat.exists_eq_add_of_le hk
    rw [List.range_eq_range', ← List.range'_append_1, List.find?_append, hnone, Option.none_or,
      Nat.zero_add, Nat.add_sub_cancel_left]
  · rw [Nat.sub_eq_zero_of_le (by omega)]
    refine List.find?_eq_none.mpr fun j hj => ?_
    have hj := List.mem_range.mp hj
    rw [h j hj (by omega)]
    exact Bool.false_ne_true

namespace IpData

/-- How many entries stand below the limit of the scan. -/
def entryCount (db : IpData) : Nat := (db.offset.toNat - 1028 - 1024 + 7) / 8

/-- The end address of an entry. -/
def lastAddress (db : IpData) (k : Nat) : Nat :=
  ((wordAt b2iu db.index (1024 + 8 * k)).getD 0).toNat

/-- Where an entry has its text, and the length of it. -/
def place (db : IpData) (k : Nat) : BitVec 32 × Nat :=
  ((wordAt b2il db.index (1024 + 8 * k + 4)).getD 0 &&& 0x00FFFFFF,
    (db.index.getD (1024 + 8 * k + 7) 0).toNat)

def entryText (db : IpData) (k : Nat) : Except IpFault Bytes :=
  db.text (db.offset.toNat + (db.place k).1.toNat - 1024) (db.place k).2

/-- The text of the first entry that ends at the address or behind it. -/
def firstText (db : IpData) (address : Nat) : Except IpFault Bytes :=
  match (List.range db.entryCount).find? fun k => address ≤ db.lastAddress k with
  | some k => db.entryText k
  | none => .ok []

/-- The table names places of the index, and no entry before such a place reaches the addresses
that it is for. -/
structure Indexed (db : IpData) : Prop where
  inside : ∀ i < 256, (db.start i).toNat * 8 + 1024 < 2 ^ 32
  before : ∀ i < 256, ∀ k < db.entryCount, i * 2 ^ 24 ≤ db.lastAddress k → (db.start i).toNat ≤ k

variable {db : IpData}

theorem length_index : db.index.length = db.offset.toNat := by
  have hwhole := db.whole
  rw [index, List.length_take, List.length_drop]
  omega

section
variable (hoffset : 1028 ≤ db.offset.toNat) (address : BitVec 32) {k : Nat} {start : BitVec 32}
  (hstart : start.toNat = 1024 + 8 * k)
include hoffset hstart

theorem lt_limit_iff : start < db.offset - 1028 ↔ k < db.entryCount := by
  rw [BitVec.lt_def, BitVec.toNat_sub_of_le hoffset, hstart, entryCount]
  change _ < db.offset.toNat - 1028 ↔ _
  omega

/-- One round at an entry. -/
theorem scan_of_lt (hk : k < db.entryCount) (rounds : Nat) :
    db.scan address (rounds + 1) start =
      if address.toNat ≤ db.lastAddress k then .ok (db.place k)
      else db.scan address rounds (start + 8) := by
  have hlength := @length_index db
  have hbelow : 1024 + 8 * k + 8 ≤ db.index.length := by
    rw [entryCount] at hk
    omega
  have hsize : db.index[1024 + 8 * k + 7]? = some (db.index.getD (1024 + 8 * k + 7) 0) := by
    rw [List.getD_eq_getElem?_getD, List.getElem?_eq_getElem (by omega)]
    rfl
  rw [scan, if_pos ((lt_limit_iff hoffset hstart).mpr hk), hstart,
    wordAt_eq_some b2iu (by omega), wordAt_eq_some b2il (by omega), hsize]
  by_cases hlast : address.toNat ≤ db.lastAddress k
  · rw [if_pos hlast]
    exact if_pos hlast
  · rw [if_neg hlast]
    exact if_neg hlast

end

/-- The loop from an entry on is the search among the entries that are left. -/
theorem scan_eq_find? (hoffset : 1028 ≤ db.offset.toNat) (address : BitVec 32) {k n rounds : Nat}
    {start : BitVec 32} (hstart : start.toNat = 1024 + 8 * k) (hn : n = db.entryCount - k)
    (hrounds : n < rounds) :
    db.scan address rounds start =
      .ok ((((List.range' k n).find? fun k => address.toNat ≤ db.lastAddress k).map
        db.place).getD (0, 0)) := by
  induction n generalizing k rounds start with
  | zero =>
      obtain ⟨rounds, rfl⟩ : ∃ r, rounds = r + 1 := ⟨rounds - 1, by omega⟩
      rw [scan, if_neg (mt (lt_limit_iff hoffset hstart).mp (by omega))]
      rfl
  | succ n ih =>
      obtain ⟨rounds, rfl⟩ : ∃ r, rounds = r + 1 := ⟨rounds - 1, by omega⟩
      have hk : k < db.entryCount := by omega
      have hnext : (start + 8).toNat = 1024 + 8 * (k + 1) := by
        have hoff := db.offset.isLt
        rw [entryCount] at hk
        rw [BitVec.toNat_add_of_lt (by rw [hstart]; change _ + 8 < _; omega), hstart]
        rfl
      rw [scan_of_lt hoffset address hstart hk, List.range'_succ, List.find?_cons]
      by_cases hlast : address.toNat ≤ db.lastAddress k
      · rw [if_pos hlast, decide_eq_true hlast]
        rfl
      · rw [if_neg hlast, decide_eq_false hlast, ih hnext (by omega) (by omega)]

/-- The place that the loop gives is the one of the first entry. -/
theorem exists_place (hoffset : 1028 ≤ db.offset.toNat) (hdb : db.Indexed) {i : Nat} (hi : i < 256)
    {address : BitVec 32} (haddress : i * 2 ^ 24 ≤ address.toNat) :
    ∃ place, db.scan address (2 ^ 29) (db.start i * 8 + 1024) = .ok place ∧
      db.text (db.offset.toNat + place.1.toNat - 1024) place.2 = db.firstText address.toNat := by
  have hstart : (db.start i * 8 + 1024).toNat = 1024 + 8 * (db.start i).toNat := by
    have hinside := hdb.inside i hi
    rw [BitVec.toNat_add, BitVec.toNat_mul]
    change ((db.start i).toNat * 8 % 2 ^ 32 + 1024) % 2 ^ 32 = _
    omega
  have hrounds : db.entryCount - (db.start i).toNat < 2 ^ 29 := by
    have hoff := db.offset.isLt
    rw [entryCount]
    omega
  have hskip : ∀ j < db.entryCount, j < (db.start i).toNat →
      decide (address.toNat ≤ db.lastAddress j) = false := by
    intro j hj hbefore
    refine decide_eq_false fun hreach => ?_
    have hle := hdb.before i hi j hj (Nat.le_trans haddress hreach)
    omega
  have hscan := scan_eq_find? hoffset address hstart rfl hrounds
  rw [← find?_range_eq_range' hskip] at hscan
  refine ⟨_, hscan, ?_⟩
  rw [firstText]
  cases (List.range db.entryCount).find? fun k => address.toNat ≤ db.lastAddress k with
  | none => exact if_pos rfl
  | some k => rfl

theorem foundText_eq_firstText (hoffset : 1028 ≤ db.offset.toNat) (hdb : db.Indexed)
    {w x y z : Nat} (hw : w < 256) (hx : x < 256) (hy : y < 256) (hz : z < 256) :
    db.foundText w x y z = db.firstText (w * 2 ^ 24 + x * 2 ^ 16 + y * 2 ^ 8 + z) := by
  have hoctet : (BitVec.ofInt 32 w).toNat = w := by
    rw [BitVec.ofInt_natCast, BitVec.toNat_ofNat]
    omega
  have haddress := toNat_b2iu_octets hw hx hy hz
  obtain ⟨place, hscan, hfirst⟩ := exists_place hoffset hdb hw (by rw [haddress]; omega)
  rw [foundText_of_lt (by rw [hoctet]; exact hw), hoctet, hscan, ← haddress]
  exact hfirst

theorem firstText_ne_index (address : Nat) : db.firstText address ≠ .error .index := by
  rw [firstText]
  split
  · exact text_ne_error (by decide) _ _
  · simp

/-- With a table of zeros all scans begin at the first entry. -/
theorem indexed_of_zeros {entries : Bytes} (hindex : db.index = List.replicate 1024 0 ++ entries) :
    db.Indexed := by
  have hstart : ∀ i < 256, db.start i = 0 := by
    intro i hi
    have hdrop : db.index.drop (4 * i) = List.replicate (1024 - 4 * i) 0 ++ entries := by
      rw [hindex, List.drop_append_of_le_length (by rw [List.length_replicate]; omega),
        List.drop_replicate]
    obtain ⟨n, hn⟩ : ∃ n, 1024 - 4 * i = n + 4 := ⟨1020 - 4 * i, by omega⟩
    rw [start, wordAt, hdrop, hn]
    rfl
  refine ⟨fun i hi => ?_, fun i hi k _ _ => ?_⟩
  · rw [hstart i hi]
    decide
  · rw [hstart i hi]
    exact Nat.zero_le k

end IpData

/-- For a text of four octets the answer is the text of the first entry that ends at the address
or behind it, the empty one if there is none, and a NUL in at most 256 bytes. -/
theorem ipDataFind_dottedQuad (db : IpData) (hoffset : 1028 ≤ db.offset.toNat) (hdb : db.Indexed)
    {ip : Bytes} {address : Nat} (hip : DottedQuad ip address) {result : Bytes}
    (hresult : 256 ≤ result.length) :
    ipDataFind db ip result = (db.firstText address).map (fun text =>
      (text.length, text ++ [0] ++ result.drop (text.length + 1))) ∧
    (∀ text, db.firstText address = .ok text → (text ++ [0]).length ≤ 256) ∧
    ipDataFind db ip result ≠ .error .index := by
  obtain ⟨w, x, y, z, hw, hx, hy, hz, hquad, rfl⟩ := sscanf_dottedQuad hip
  have hfound := IpData.foundText_eq_firstText hoffset hdb hw hx hy hz
  have hfind := @ipDataFind_quad db _ _ _ _ _ _ hquad hresult
  rw [hfound] at hfind
  refine ⟨hfind, fun text htext => ?_, fun h => ?_⟩
  · have hlength := IpData.length_foundText_le (hfound.trans htext)
    rw [List.length_append, List.length_singleton]
    omega
  · rw [hfind] at h
    cases hfirst : db.firstText (w * 2 ^ 24 + x * 2 ^ 16 + y * 2 ^ 8 + z) with
    | error fault =>
        rw [hfirst] at h
        cases h
        exact IpData.firstText_ne_index _ hfirst
    | ok text =>
        rw [hfirst] at h
        cases h

theorem ipDataFind_oneEntry :
    DottedQuad (quadText 3232235777) 3232235777 ∧ oneEntry.Indexed ∧
      ipDataFind oneEntry (quadText 3232235777) (List.replicate 256 7) =
        .ok (2, bytes "CN" ++ [0] ++ List.replicate 253 7) := by
  have hindex : oneEntry.index = List.replicate 1024 0 ++
      ([255, 255, 255, 255, 4, 4, 0, 2] ++ List.replicate 1028 0) := by decide +kernel
  have hindexed : oneEntry.Indexed := IpData.indexed_of_zeros hindex
  have hquad : DottedQuad (quadText 3232235777) 3232235777 := dottedQuad_quadText (by omega)
  have hfirst : oneEntry.firstText 3232235777 = .ok (bytes "CN") := by decide +kernel
  have hresult : 256 ≤ (List.replicate 256 (7 : UInt8)).length := by rw [List.length_replicate]
  have hfind := (ipDataFind_dottedQuad oneEntry (by decide) hindexed hquad hresult).1
  rw [hfirst] at hfind
  exact ⟨hquad, hindexed, hfind⟩

/-- One entry, up to 9.255.255.255. The word of the table for 10 is so large that its place wraps
to the start of the table, where two other words look like an entry with a text. -/
def wrappedStart : IpData where
  data := [0, 0, 8, 12] ++ (List.replicate 40 0 ++ [128, 255, 255, 31, 4, 4, 0, 2] ++
    List.replicate 976 0 ++ [9, 255, 255, 255, 4, 4, 0, 2] ++ List.replicate 1028 0) ++ bytes "CN"
  offset := 2060
  whole := by decide +kernel
  table := by decide

theorem ipDataFind_wrapped :
    1028 ≤ wrappedStart.offset.toNat ∧
    (∀ k < wrappedStart.entryCount, ∀ j ≤ k,
      wrappedStart.lastAddress j ≤ wrappedStart.lastAddress k) ∧
    (∀ i < 256, ∀ k < wrappedStart.entryCount, i * 2 ^ 24 ≤ wrappedStart.lastAddress k →
      (wrappedStart.start i).toNat ≤ k) ∧
    DottedQuad (quadText 167772161) 167772161 ∧
    wrappedStart.firstText 167772161 = .ok [] ∧
    ipDataFind wrappedStart (quadText 167772161) (List.replicate 256 7) =
      .ok (2, bytes "CN" ++ [0] ++ List.replicate 253 7) := by
  have hcount : wrappedStart.entryCount = 1 := by decide
  have hlast : wrappedStart.lastAddress 0 = 10 * 2 ^ 24 - 1 := by decide +kernel
  have hstarts : ∀ i < 10, wrappedStart.start i = 0 := by decide +kernel
  refine ⟨by decide, ?_, ?_, dottedQuad_quadText (by omega), by decide +kernel, ?_⟩
  · intro k hk j hj
    obtain rfl : j = k := by omega
    exact Nat.le_refl _
  · intro i _ k hk hreach
    obtain rfl : k = 0 := by omega
    rw [hstarts i (by omega)]
    exact Nat.zero_le 0
  · have hquad : sscanf 4 (cString (quadText 167772161)) = [10, 0, 0, 1] := by decide +kernel
    have hfound : wrappedStart.foundText 10 0 0 1 = .ok (bytes "CN") := by decide +kernel
    rw [ipDataFind_quad hquad (by rw [List.length_replicate]), hfound]
    rfl

end AdServer.Area
