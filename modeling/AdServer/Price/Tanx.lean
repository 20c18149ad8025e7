import AdServer.Library.ByteOrder
import AdServer.Library.SealedRecord
import AdServer.Price.Basic
import AdServer.Url.Percent
import AdServer.Url.Query

/-!
`tanx_price_decode`. The price text is decoded twice, with `-` read as `%` and a blank as `+` in
between, and then through Base64 into the same buffer. The buffer is then cleaned of `-` as a C
string, although it holds the binary message by now: every byte `0x2d` in front of the first
zero byte becomes `0x25`. The message is a sealed record, with the version and the bid id as its
nonce.
-/
namespace AdServer.Price

open Url ByteOrder SealedRecord

def gKey : Bytes :=
  [0x01, 0xd5, 0xba, 0xaf, 0x00, 0x9c, 0x4d, 0xd6, 0xbb, 0x01, 0xb7, 0x11, 0xfc, 0x74, 0x92, 0x92]

def base64DecodedLength (len : Nat) : Nat := (len + 3) / 4 * 3

def noescape (oc nc : UInt8) (input : Bytes) : Bytes := (cString input).map (replaceByte oc nc)

/-- The overload that works on a buffer. -/
def noescapeBuffer (oc nc : UInt8) : Bytes → Bytes
  | [] => []
  | c :: cs => if c = 0 then c :: cs else replaceByte oc nc c :: noescapeBuffer oc nc cs

/-- The offsets it writes to, where the buffer ends with a zero behind the bytes given. -/
def noescapeWrites (oc : UInt8) : Nat → Bytes → List Int
  | p, [] => [(p : Int)]
  | p, c :: cs =>
    if c = 0 then [(p : Int)]
    else if c = oc then (p : Int) :: noescapeWrites oc (p + 1) cs
    else noescapeWrites oc (p + 1) cs

/-- `decodePrice` for a message of 25 bytes on a little endian host: the price and the time. -/
def decodePrice (digest : Digest) (src : Bytes) : Option (Int × Nat) :=
  if src.headD 0 ≠ 1 then none
  else
    let ctxBuf := digest.md5 ((src.drop 1).take 16 ++ gKey)
    let price := List.zipWith (· ^^^ ·) ((src.drop 17).take 4) (ctxBuf.take 4)
    let ctxBuf := digest.md5 (src.take 17 ++ (price ++ gKey))
    if ctxBuf.take 4 ≠ (src.drop 21).take 4 then none
    else some (toInt32 (value price), value ((src.drop 7).take 4).reverse)

section
variable (stray stray' : Stray) (bio : Base64Bio)

/-- The text that is given to the second `urlDecode_f`. -/
def tanxInput (oriInput : Bytes) : Bytes :=
  noescape (byte ' ') (byte '+') (noescape (byte '-') (byte '%') (urlDecode_f stray oriInput))

def tanxOutput (oriInput : Bytes) : Bytes := urlDecode_f stray' (tanxInput stray oriInput)

def tanxRead (oriInput : Bytes) : Int × Bytes :=
  let output := tanxOutput stray stray' oriInput
  bio.read output (base64DecodedLength output.length)

def firstOffsets (n : Nat) : List Int := (List.range n).map Int.ofNat

/-- What `urlDecode_f` writes to the buffer: it clears it first. -/
def urlDecodeOffsets (stray : Stray) (input : Bytes) : List Int :=
  firstOffsets (input.length + 1) ++ firstOffsets (urlDecode_f stray input).length

/-- The offsets `tanx_price_decode` writes to, up to a terminator in front of the buffer. -/
def tanxWrites (oriInput : Bytes) : List Int :=
  let (originLen, written) := tanxRead stray stray' bio oriInput
  urlDecodeOffsets stray oriInput ++ urlDecodeOffsets stray' (tanxInput stray oriInput) ++
    firstOffsets written.length ++ originLen ::
      if originLen < 0 then [] else noescapeWrites (byte '-') 0 written

def inBuffer (offset : Int) : Bool := 0 ≤ offset ∧ offset ≤ 2047

def tanxPriceDecode (digest : Digest) (oriInput : Bytes) : Except Fault Int :=
  if (tanxWrites stray stray' bio oriInput).all inBuffer then
    let (originLen, written) := tanxRead stray stray' bio oriInput
    if originLen ≠ 25 then .ok 0
    else
      match decodePrice digest (noescapeBuffer (byte '-') (byte '%') written) with
      | some (price, _) => .ok price
      | none => .ok 0
  else .error .outside

end

section
variable {stray stray' : Stray} {bio : Base64Bio}

theorem mem_firstOffsets {n : Nat} {offset : Int} (h : offset ∈ firstOffsets n) :
    0 ≤ offset ∧ offset < n := by
  obtain ⟨i, hi, rfl⟩ := List.mem_map.mp h
  rw [List.mem_range] at hi
  exact ⟨Int.natCast_nonneg i, Int.ofNat_lt.mpr hi⟩

theorem mem_noescapeWrites {oc : UInt8} {p : Nat} {buf : Bytes} {offset : Int}
    (h : offset ∈ noescapeWrites oc p buf) : p ≤ offset ∧ offset ≤ p + buf.length := by
  induction buf generalizing p with
  | nil =>
      obtain rfl := List.mem_singleton.mp h
      exact ⟨Int.le_refl _, by simp⟩
  | cons c cs ih =>
      have htail : offset ∈ noescapeWrites oc (p + 1) cs →
          p ≤ offset ∧ offset ≤ p + (c :: cs).length := by
        intro hmem
        have := ih hmem
        rw [List.length_cons]
        omega
      have hhere : offset = p → p ≤ offset ∧ offset ≤ p + (c :: cs).length := by
        rintro rfl
        exact ⟨Int.le_refl _, by omega⟩
      rw [noescapeWrites] at h
      split at h
      · exact hhere (List.mem_singleton.mp h)
      · split at h
        · exact (List.mem_cons.mp h).elim hhere htail
        · exact htail h

theorem length_noescape_le (oc nc : UInt8) (input : Bytes) :
    (noescape oc nc input).length ≤ input.length := by
  rw [noescape, List.length_map]
  exact (List.takeWhile_sublist _).length_le

theorem length_tanxInput_le (stray : Stray) (oriInput : Bytes) :
    (tanxInput stray oriInput).length ≤ oriInput.length :=
  (length_noescape_le _ _ _).trans
    ((length_noescape_le _ _ _).trans (length_urlDecodeLoop_le stray 0 oriInput))

theorem length_tanxRead_le (stray stray' : Stray) (bio : Base64Bio) (oriInput : Bytes) :
    (tanxRead stray stray' bio oriInput).2.length ≤ base64DecodedLength oriInput.length := by
  have hinput := length_tanxInput_le stray oriInput
  have houtput : (tanxOutput stray stray' oriInput).length ≤ (tanxInput stray oriInput).length :=
    length_urlDecodeLoop_le stray' 0 _
  refine (bio.length_read _ _).trans ?_
  unfold base64DecodedLength
  omega

theorem mem_urlDecodeOffsets {input : Bytes} {offset : Int}
    (h : offset ∈ urlDecodeOffsets stray input) : 0 ≤ offset ∧ offset ≤ input.length := by
  have hlen : (urlDecode_f stray input).length ≤ input.length :=
    length_urlDecodeLoop_le stray 0 input
  cases List.mem_append.mp h with
  | inl hclear =>
      have := mem_firstOffsets hclear
      omega
  | inr hwrite =>
      have := mem_firstOffsets hwrite
      omega

/-- Only the terminator of a text that is not Base64 can miss the buffer. -/
theorem tanxWrites_inBuffer_iff {oriInput : Bytes} (h : oriInput.length ≤ 2047) :
    (tanxWrites stray stray' bio oriInput).all inBuffer = true ↔
      0 ≤ (tanxRead stray stray' bio oriInput).1 := by
  have hinput := length_tanxInput_le stray oriInput
  have hread := length_tanxRead_le stray stray' bio oriInput
  have hsize : base64DecodedLength oriInput.length ≤ 1536 := by
    unfold base64DecodedLength
    omega
  have hreported : 0 ≤ (tanxRead stray stray' bio oriInput).1 →
      (tanxRead stray stray' bio oriInput).1 = (tanxRead stray stray' bio oriInput).2.length :=
    bio.reported _ _
  simp only [List.all_eq_true, inBuffer, decide_eq_true_eq]
  refine ⟨fun hall => (hall _ (by simp [tanxWrites])).1, fun hnonneg offset hmem => ?_⟩
  rw [tanxWrites] at hmem
  simp only [if_neg (Int.not_lt.mpr hnonneg), List.mem_append, List.mem_cons] at hmem
  rcases hmem with ((hfirst | hsecond) | hwritten) | rfl | hclean
  · have := mem_urlDecodeOffsets hfirst
    omega
  · have := mem_urlDecodeOffsets hsecond
    omega
  · have := mem_firstOffsets hwritten
    omega
  · have := hreported hnonneg
    omega
  · have := mem_noescapeWrites hclean
    omega

private theorem digitChar_table : ∀ d : Fin 64, Base64.digitChar d ≠ 0 ∧
    Base64.digitChar d ≠ byte '%' ∧ Base64.digitChar d ≠ byte '-' ∧
    Base64.digitChar d ≠ byte ' ' := by
  decide

theorem padded_chars {bs : Bytes} {c : UInt8} (h : c ∈ Base64.padded bs) :
    c ≠ 0 ∧ c ≠ byte '%' ∧ c ≠ byte '-' ∧ c ≠ byte ' ' := by
  rcases Base64.mem_padded h with rfl | ⟨d, hd, rfl⟩
  · decide
  · exact digitChar_table ⟨d, hd⟩

theorem noescape_of_notMem {oc nc : UInt8} {input : Bytes} (hzero : (0 : UInt8) ∉ input)
    (hoc : oc ∉ input) : noescape oc nc input = input := by
  rw [noescape, cString_of_notMem hzero]
  refine (List.map_congr_left fun c hc => ?_).trans (List.map_id input)
  exact if_neg fun heq : c = oc => hoc (heq ▸ hc)

/-- The message reaches the Base64 filter whatever the coder escaped. -/
theorem tanxOutput_encoded {text bs : Bytes} (h : PercentEncodes text (Base64.padded bs)) :
    tanxOutput stray stray' text = Base64.padded bs := by
  have hzero : (0 : UInt8) ∉ Base64.padded bs := fun hmem => (padded_chars hmem).1 rfl
  have hpercent : byte '%' ∉ Base64.padded bs := fun hmem => (padded_chars hmem).2.1 rfl
  have hminus : byte '-' ∉ Base64.padded bs := fun hmem => (padded_chars hmem).2.2.1 rfl
  have hblank : byte ' ' ∉ Base64.padded bs := fun hmem => (padded_chars hmem).2.2.2 rfl
  have hfirst : urlDecode_f stray text = Base64.padded bs := h.urlDecodeLoop_eq stray 0
  rw [tanxOutput, tanxInput, hfirst, noescape_of_notMem hzero hminus,
    noescape_of_notMem hzero hblank, urlDecode_f_plain stray' _ hpercent]

theorem tanxRead_encoded (hbio : bio.Inverts) {text msg : Bytes}
    (h : PercentEncodes text (Base64.padded msg)) :
    tanxRead stray stray' bio text = ((msg.length : Int), msg) := by
  rw [tanxRead, tanxOutput_encoded h]
  refine hbio msg _ ?_
  rw [Base64.length_padded, base64DecodedLength]
  omega

theorem tanxPriceDecode_encoded (hbio : bio.Inverts) (digest : Digest) {text msg : Bytes}
    (hmsg : msg.length = 25) (h : PercentEncodes text (Base64.padded msg)) :
    tanxPriceDecode stray stray' bio digest text =
      .ok (((decodePrice digest (noescapeBuffer (byte '-') (byte '%') msg)).map Prod.fst).getD 0) := by
  have hread : tanxRead stray stray' bio text = ((msg.length : Int), msg) := tanxRead_encoded hbio h
  have hshort : text.length ≤ 2047 := by
    have hle := h.length_le
    rw [Base64.length_padded, hmsg] at hle
    omega
  have hwrites : (tanxWrites stray stray' bio text).all inBuffer = true := by
    rw [tanxWrites_inBuffer_iff hshort, hread]
    exact Int.natCast_nonneg _
  rw [tanxPriceDecode, if_pos hwrites, hread]
  refine (if_neg (not_not.mpr (congrArg Nat.cast hmsg))).trans ?_
  cases decodePrice digest (noescapeBuffer (byte '-') (byte '%') msg) with
  | none => rfl
  | some result => rfl

end

/-- A price message as a sealed record. -/
def tanxScheme (digest : Digest) : Scheme UInt8 where
  nonceSize := 17
  plainSize := 4
  mix := (· ^^^ ·)
  mix_mix := xor_xor_cancel
  pad nonce := (digest.md5 (nonce.drop 1 ++ gKey)).take 4
  length_pad nonce := by rw [List.length_take, digest.length_md5]; rfl
  tag nonce plain := (digest.md5 (nonce ++ (plain ++ gKey))).take 4

theorem decodePrice_eq_unseal (digest : Digest) {src : Bytes} (hlen : src.length = 25)
    (hversion : src.headD 0 = 1) :
    (decodePrice digest src).map Prod.fst =
      ((tanxScheme digest).unseal src).map fun price => toInt32 (value price) := by
  have hbidid : (src.drop 1).take 16 = (src.take 17).drop 1 := by rw [List.drop_take]
  have hcrc : (src.drop 21).take 4 = src.drop 21 :=
    List.take_of_length_le (by rw [List.length_drop, hlen])
  rw [decodePrice, if_neg (not_not.mpr hversion), hbidid, hcrc, Scheme.unseal]
  simp only [tanxScheme, Scheme.mask, ne_eq, eq_comm (a := src.drop 21), ite_not,
    apply_ite (Option.map _), Option.map_some, Option.map_none]

/-- The message of a price, as the exchange makes it. -/
def tanxMessage (digest : Digest) (bidid : Bytes) (price : Nat) : Bytes :=
  1 :: bidid ++ (List.zipWith (· ^^^ ·) (littleEndian 4 price) ((digest.md5 (bidid ++ gKey)).take 4) ++
    (digest.md5 (1 :: bidid ++ (littleEndian 4 price ++ gKey))).take 4)

/-- Two digests agree on what a price message holds of them. -/
structure SameSeal (digest digest' : Digest) (bidid : Bytes) (price : Nat) : Prop where
  pad : (digest'.md5 (bidid ++ gKey)).take 4 = (digest.md5 (bidid ++ gKey)).take 4
  crc : (digest'.md5 (1 :: bidid ++ (littleEndian 4 price ++ gKey))).take 4 =
    (digest.md5 (1 :: bidid ++ (littleEndian 4 price ++ gKey))).take 4

/-- No byte of the message is taken for a `-`, or only checksum bytes of the price zero, which is
also what a bad checksum gives. -/
def Undamaged (msg : Bytes) (price : Nat) : Prop :=
  byte '-' ∉ cString msg ∨ price = 0 ∧ byte '-' ∉ cString (msg.take 21)

section
variable {oc nc : UInt8}

theorem length_noescapeBuffer (buf : Bytes) : (noescapeBuffer oc nc buf).length = buf.length := by
  induction buf with
  | nil => rfl
  | cons c cs ih =>
      rw [noescapeBuffer]
      split
      · rfl
      · rw [List.length_cons, ih, List.length_cons]

theorem take_noescapeBuffer (n : Nat) (buf : Bytes) :
    (noescapeBuffer oc nc buf).take n = noescapeBuffer oc nc (buf.take n) := by
  induction buf generalizing n with
  | nil => rw [List.take_nil, noescapeBuffer, List.take_nil]
  | cons c cs ih =>
      cases n with
      | zero => rfl
      | succ n =>
          rw [noescapeBuffer, List.take_succ_cons, noescapeBuffer, ← ih]
          split <;> rfl

theorem noescapeBuffer_eq_self_iff (hne : nc ≠ oc) (buf : Bytes) :
    noescapeBuffer oc nc buf = buf ↔ oc ∉ cString buf := by
  induction buf with
  | nil => exact iff_of_true rfl List.not_mem_nil
  | cons c cs ih =>
      rw [noescapeBuffer]
      by_cases hzero : c = 0
      · rw [if_pos hzero]
        exact iff_of_true rfl (by simp [cString, hzero])
      · have hcons : cString (c :: cs) = c :: cString cs :=
          List.takeWhile_cons_of_pos (by simpa using hzero)
        rw [if_neg hzero, hcons, List.cons.injEq, ih, List.mem_cons, not_or, replaceByte]
        refine and_congr_left' ?_
        split
        · rename_i hoc
          exact iff_of_false (hoc ▸ hne) (not_not.mpr hoc.symm)
        · rename_i hoc
          exact iff_of_true rfl (Ne.symm hoc)

end

theorem decodePrice_append (digest : Digest) {bidid text crc : Bytes} (hbidid : bidid.length = 16)
    (htext : text.length = 4) (hcrc : crc.length = 4) :
    (decodePrice digest (1 :: bidid ++ (text ++ crc))).map Prod.fst =
      if crc = (tanxScheme digest).tag (1 :: bidid) ((tanxScheme digest).mask (1 :: bidid) text)
      then some (toInt32 (value ((tanxScheme digest).mask (1 :: bidid) text))) else none := by
  have hnonce : (1 :: bidid).length = (tanxScheme digest).nonceSize := congrArg (· + 1) hbidid
  have hlen : (1 :: bidid ++ (text ++ crc)).length = 25 := by simp [hbidid, htext, hcrc]
  rw [decodePrice_eq_unseal digest hlen rfl, unseal_append hnonce htext, apply_ite (Option.map _)]
  rfl

section
variable {digest : Digest} {bidid : Bytes} {price : Nat}

theorem tanxMessage_eq_seal (digest : Digest) (bidid : Bytes) (price : Nat) :
    tanxMessage digest bidid price =
      (tanxScheme digest).seal (1 :: bidid) (littleEndian 4 price) := rfl

theorem SameSeal.message {digest' : Digest} (h : SameSeal digest digest' bidid price) :
    tanxMessage digest' bidid price = tanxMessage digest bidid price := by
  rw [tanxMessage, tanxMessage, h.pad, h.crc]

theorem length_tanxMessage (hbidid : bidid.length = 16) :
    (tanxMessage digest bidid price).length = 25 := by
  simp [tanxMessage, hbidid, length_littleEndian, digest.length_md5]

theorem append_eq_append_iff_of_length {a b c d : Bytes} (h : a.length = c.length) :
    a ++ b = c ++ d ↔ a = c ∧ b = d :=
  ⟨fun heq => List.append_inj heq h, fun ⟨hfront, hback⟩ => by rw [hfront, hback]⟩

/-- The message after the cleaning, with what is left of each of its parts. -/
theorem damaged_split (hbidid : bidid.length = 16) {text crc : Bytes} (htext : text.length = 4)
    (hcrc : crc.length = 4) :
    ∃ bidid' text' crc', bidid'.length = 16 ∧ text'.length = 4 ∧ crc'.length = 4 ∧
      noescapeBuffer (byte '-') (byte '%') (1 :: bidid ++ (text ++ crc)) =
        1 :: bidid' ++ (text' ++ crc') ∧
      (byte '-' ∉ cString (1 :: bidid ++ (text ++ crc)) ↔
        bidid' = bidid ∧ text' = text ∧ crc' = crc) ∧
      (byte '-' ∉ cString ((1 :: bidid ++ (text ++ crc)).take 21) ↔
        bidid' = bidid ∧ text' = text) := by
  have hne : byte '%' ≠ byte '-' := by decide
  have hlen : (noescapeBuffer (byte '-') (byte '%') (bidid ++ (text ++ crc))).length = _ :=
    length_noescapeBuffer _
  generalize hrest : noescapeBuffer (byte '-') (byte '%') (bidid ++ (text ++ crc)) = rest at hlen
  rw [List.length_append, List.length_append, hbidid, htext, hcrc] at hlen
  have hbuffer : noescapeBuffer (byte '-') (byte '%') (1 :: bidid ++ (text ++ crc)) =
      1 :: rest.take 16 ++ ((rest.drop 16).take 4 ++ rest.drop 20) := by
    rw [List.cons_append, List.cons_append,
      show rest.drop 20 = (rest.drop 16).drop 4 by rw [List.drop_drop],
      List.take_append_drop, List.take_append_drop, ← hrest]
    rfl
  have hfront : ∀ a b c : Bytes, a.length = 16 → b.length = 4 →
      (1 :: a ++ (b ++ c)).take 21 = 1 :: (a ++ b) := by
    intro a b c ha hb
    rw [List.cons_append, ← List.append_assoc, List.take_succ_cons,
      List.take_left' (by rw [List.length_append, ha, hb])]
  refine ⟨rest.take 16, (rest.drop 16).take 4, rest.drop 20, by simp [hlen], by simp [hlen],
    by simp [hlen], hbuffer, ?_, ?_⟩
  · rw [← noescapeBuffer_eq_self_iff hne, hbuffer, List.cons_append, List.cons_append,
      List.cons.injEq, append_eq_append_iff_of_length (by simp [hlen, hbidid]),
      append_eq_append_iff_of_length (by simp [hlen, htext])]
    exact and_iff_right rfl
  · rw [← noescapeBuffer_eq_self_iff hne, ← take_noescapeBuffer, hbuffer,
      hfront _ _ _ (by simp [hlen]) (by simp [hlen]), hfront _ _ _ hbidid htext,
      List.cons.injEq, append_eq_append_iff_of_length (by simp [hlen, hbidid])]
    exact and_iff_right rfl

/-- A digest that is unchanged at two messages and free at all others. -/
def Digest.altered (digest : Digest) (first second pad crc : Bytes) (hpad : pad.length = 4)
    (hcrc : crc.length = 4) : Digest where
  md5 message :=
    if message = first ∨ message = second then digest.md5 message
    else (if message.length = 32 then pad else crc) ++ List.replicate 12 0
  length_md5 message := by
    split
    · exact digest.length_md5 message
    · split <;> simp [hpad, hcrc]

theorem toInt32_eq_natCast_iff {n : Nat} (hn : n < 2 ^ 32) (hprice : price < 2 ^ 31) :
    toInt32 n = price ↔ n = price := by
  rw [toInt32_eq]
  omega

theorem toInt32_value_littleEndian (hprice : price < 2 ^ 31) :
    toInt32 (value (littleEndian 4 price)) = price := by
  rw [value_littleEndian, Nat.mod_eq_of_lt (by omega), toInt32_of_lt hprice]

/-- The parts of a message, its text without the mask and its checksum. -/
theorem message_parts (digest : Digest) (bidid : Bytes) (price : Nat) :
    ∃ text crc, tanxMessage digest bidid price = 1 :: bidid ++ (text ++ crc) ∧
      text.length = 4 ∧ crc.length = 4 ∧
      (tanxScheme digest).mask (1 :: bidid) text = littleEndian 4 price ∧
      crc = (tanxScheme digest).tag (1 :: bidid) (littleEndian 4 price) := by
  have hle : (littleEndian 4 price).length = (tanxScheme digest).plainSize :=
    length_littleEndian 4 price
  exact ⟨_, _, tanxMessage_eq_seal digest bidid price, length_mask hle,
    by simp [tanxScheme, digest.length_md5], mask_mask hle, rfl⟩

/-- The price that `tanx_price_decode` reads from a message. -/
def messagePrice (digest : Digest) (msg : Bytes) : Int :=
  ((decodePrice digest (noescapeBuffer (byte '-') (byte '%') msg)).map Prod.fst).getD 0

theorem messagePrice_of_undamaged (hbidid : bidid.length = 16) (hprice : price < 2 ^ 31)
    (h : Undamaged (tanxMessage digest bidid price) price) :
    messagePrice digest (tanxMessage digest bidid price) = price := by
  obtain ⟨text, crc, hmsg, htext, hcrc, hmask, htag⟩ := message_parts digest bidid price
  obtain ⟨bidid', text', crc', hbidid', htext', hcrc', hbuffer, hall, hfront⟩ :=
    damaged_split hbidid htext hcrc
  rw [Undamaged, hmsg, hall, hfront] at h
  rw [messagePrice, hmsg, hbuffer, decodePrice_append digest hbidid' htext' hcrc']
  rcases h with ⟨rfl, rfl, rfl⟩ | ⟨hzero, rfl, rfl⟩
  · rw [hmask, if_pos htag, Option.getD_some]
    exact toInt32_value_littleEndian hprice
  · rw [hmask, toInt32_value_littleEndian hprice, hzero]
    split <;> rfl

/-- The bytes of a digest that a message does not show can be anything. -/
theorem exists_sameSeal (digest : Digest) (bidid : Bytes) (price : Nat) {pad crc : Bytes}
    (hpad : pad.length = 4) (hcrc : crc.length = 4) :
    ∃ digest', SameSeal digest digest' bidid price ∧ ∀ message, message ≠ bidid ++ gKey →
      message ≠ 1 :: bidid ++ (littleEndian 4 price ++ gKey) →
      (digest'.md5 message).take 4 = if message.length = 32 then pad else crc := by
  have hknown : ∀ first second message, message = first ∨ message = second →
      (digest.altered first second pad crc hpad hcrc).md5 message = digest.md5 message :=
    fun _ _ _ hmem => if_pos hmem
  refine ⟨digest.altered (bidid ++ gKey) (1 :: bidid ++ (littleEndian 4 price ++ gKey)) pad crc
    hpad hcrc, ⟨by rw [hknown _ _ _ (.inl rfl)], by rw [hknown _ _ _ (.inr rfl)]⟩, ?_⟩
  intro message hfirst hsecond
  refine (congrArg (List.take 4) (if_neg (not_or.mpr ⟨hfirst, hsecond⟩))).trans (List.take_left' ?_)
  split <;> assumption

theorem value_ne_of_ne {plain : Bytes} (hlen : plain.length = 4) (hprice : price < 2 ^ 31)
    (hne : plain ≠ littleEndian 4 price) : toInt32 (value plain) ≠ price := by
  intro heq
  have hvalue := (toInt32_eq_natCast_iff (value_lt hlen) hprice).mp heq
  refine hne (value_injective (hlen.trans (length_littleEndian 4 price).symm) ?_)
  rw [hvalue, value_littleEndian, Nat.mod_eq_of_lt (by omega)]

theorem length_gKey : gKey.length = 16 := rfl

/-- Some digest accepts any other record, with another price. -/
theorem exists_accepting {text bidid' text' crc' : Bytes}
    (hmask : (tanxScheme digest).mask (1 :: bidid) text = littleEndian 4 price)
    (htext : text.length = 4) (hbidid : bidid.length = 16) (hbidid' : bidid'.length = 16)
    (htext' : text'.length = 4) (hcrc' : crc'.length = 4) (hne : ¬(bidid' = bidid ∧ text' = text)) :
    ∃ digest', SameSeal digest digest' bidid price ∧
      crc' = (tanxScheme digest').tag (1 :: bidid') ((tanxScheme digest').mask (1 :: bidid') text') ∧
      (tanxScheme digest').mask (1 :: bidid') text' ≠ littleEndian 4 price := by
  obtain ⟨other, hother, hlen⟩ : ∃ other, other ≠ littleEndian 4 price ∧ other.length = 4 := by
    refine ⟨littleEndian 4 (price + 1), fun heq => ?_, length_littleEndian 4 _⟩
    have hvalue := congrArg value heq
    rw [value_littleEndian, value_littleEndian] at hvalue
    omega
  have hpad : (List.zipWith (· ^^^ ·) other text').length = 4 := by simp [hlen, htext']
  obtain ⟨digest', hseal, hfree⟩ := exists_sameSeal digest bidid price hpad hcrc'
  have hplain : (tanxScheme digest').mask (1 :: bidid') text' ≠ littleEndian 4 price := by
    by_cases hsame : bidid' = bidid
    · -- under the same pad another text is another price
      subst hsame
      intro heq
      have hsamePad : (tanxScheme digest').mask (1 :: bidid') text' =
          (tanxScheme digest).mask (1 :: bidid') text' := congrArg (List.zipWith _ text') hseal.pad
      rw [hsamePad, ← hmask] at heq
      have htwice := congrArg ((tanxScheme digest).mask (1 :: bidid')) heq
      rw [mask_mask htext', mask_mask htext] at htwice
      exact hne ⟨rfl, htwice⟩
    · have hmessage : bidid' ++ gKey ≠ bidid ++ gKey := fun heq =>
        hsame (List.append_cancel_right heq)
      have hnewPad := hfree (bidid' ++ gKey) hmessage fun heq => by
        simpa [hbidid, hbidid', length_littleEndian, length_gKey] using congrArg List.length heq
      rw [if_pos (by simp [hbidid', length_gKey])] at hnewPad
      have hmask' : (tanxScheme digest').mask (1 :: bidid') text' = other := by
        refine (congrArg (List.zipWith _ text') hnewPad).trans ?_
        refine (List.zipWith_comm_of_comm UInt8.xor_comm).trans ?_
        exact zipWith_zipWith_right (tanxScheme digest).mix_mix
          (Nat.le_of_eq (hlen.trans htext'.symm))
      rw [hmask']
      exact hother
  refine ⟨digest', hseal, ?_, hplain⟩
  have hmaskLen : ((tanxScheme digest').mask (1 :: bidid') text').length = 4 := length_mask htext'
  have hlen37 :
      (1 :: bidid' ++ ((tanxScheme digest').mask (1 :: bidid') text' ++ gKey)).length = 37 := by
    simp [hbidid', hmaskLen, length_gKey]
  have htag := hfree (1 :: bidid' ++ ((tanxScheme digest').mask (1 :: bidid') text' ++ gKey))
    (fun heq => ?_) (fun heq => ?_)
  · rw [hlen37, if_neg (by decide)] at htag
    exact htag.symm
  · have hcount := hlen37.symm.trans (congrArg List.length heq)
    simp [hbidid, length_gKey] at hcount
  · have hback := (List.append_inj heq (by simp [hbidid, hbidid'])).2
    exact hplain (List.append_cancel_right hback)

/-- A damaged message has a digest for which another price comes out. -/
theorem exists_misread (hbidid : bidid.length = 16) (hprice : price < 2 ^ 31)
    (hdamaged : ¬Undamaged (tanxMessage digest bidid price) price) :
    ∃ digest', SameSeal digest digest' bidid price ∧
      messagePrice digest' (tanxMessage digest bidid price) ≠ price := by
  obtain ⟨text, crc, hmsg, htext, hcrc, hmask, htag⟩ := message_parts digest bidid price
  obtain ⟨bidid', text', crc', hbidid', htext', hcrc', hbuffer, hall, hfront⟩ :=
    damaged_split hbidid htext hcrc
  rw [Undamaged, hmsg, hall, hfront] at hdamaged
  have hread : ∀ digest' : Digest, messagePrice digest' (tanxMessage digest bidid price) =
      (if crc' = (tanxScheme digest').tag (1 :: bidid')
          ((tanxScheme digest').mask (1 :: bidid') text')
      then some (toInt32 (value ((tanxScheme digest').mask (1 :: bidid') text')))
      else none).getD 0 := by
    intro digest'
    rw [messagePrice, hmsg, hbuffer, decodePrice_append digest' hbidid' htext' hcrc']
  by_cases hsame : bidid' = bidid ∧ text' = text
  · obtain ⟨rfl, rfl⟩ := hsame
    have hbad : crc' ≠ crc := fun heq => hdamaged (.inl ⟨rfl, rfl, heq⟩)
    have hpos : price ≠ 0 := fun hzero => hdamaged (.inr ⟨hzero, rfl, rfl⟩)
    refine ⟨digest, ⟨rfl, rfl⟩, ?_⟩
    rw [hread, hmask, if_neg (htag ▸ hbad)]
    exact fun heq => hpos (Int.natCast_eq_zero.mp heq.symm)
  · obtain ⟨digest', hseal, hcrc'', hplain⟩ :=
      exists_accepting hmask htext hbidid hbidid' htext' hcrc' hsame
    refine ⟨digest', hseal, ?_⟩
    rw [hread, if_pos hcrc'', Option.getD_some]
    exact value_ne_of_ne (length_mask htext') hprice hplain

end

/-- The price comes back for every digest that gives the message its bytes if and only if the
cleaning leaves the message as it is, or only spoils the checksum of the price zero. -/
theorem tanxPriceDecode_encoded_iff (stray stray' : Stray) (bio : Base64Bio) (hbio : bio.Inverts)
    (digest : Digest) (bidid : Bytes) (hbidid : bidid.length = 16) (price : Nat)
    (hprice : price < 2 ^ 31) (text : Bytes)
    (htext : PercentEncodes text (Base64.padded (tanxMessage digest bidid price))) :
    (∀ digest', SameSeal digest digest' bidid price →
      tanxPriceDecode stray stray' bio digest' text = .ok price) ↔
      Undamaged (tanxMessage digest bidid price) price := by
  have hread : ∀ digest', tanxPriceDecode stray stray' bio digest' text =
      .ok (messagePrice digest' (tanxMessage digest bidid price)) := fun digest' =>
    tanxPriceDecode_encoded hbio digest' (length_tanxMessage hbidid) htext
  refine ⟨fun hall => by_contra fun hdamaged => ?_, fun h digest' hseal => ?_⟩
  · obtain ⟨digest', hseal, hne⟩ := exists_misread hbidid hprice hdamaged
    exact hne (Except.ok.inj ((hread digest').symm.trans (hall digest' hseal)))
  · rw [← hseal.message] at h
    rw [hread, ← hseal.message, messagePrice_of_undamaged hbidid hprice h]

/-- A digest that only looks at the first byte. -/
def headDigest : Digest where
  md5 message := List.replicate 16 (message.headD 0)
  length_md5 _ := List.length_replicate

theorem percentEncodes_padded (bs : Bytes) : PercentEncodes (Base64.padded bs) (Base64.padded bs) :=
  .refl fun hmem => (padded_chars hmem).2.1 rfl

theorem tanxPriceDecode_encoded_sample :
    tanxPriceDecode blankStray blankStray plainBio headDigest
      (Base64.padded (tanxMessage headDigest (List.replicate 16 7) 5)) = .ok 5 :=
  (tanxPriceDecode_encoded_iff blankStray blankStray plainBio plainBio_inverts headDigest
    (List.replicate 16 7) rfl 5 (by decide) _ (percentEncodes_padded _)).mpr
    (.inl (by decide)) headDigest ⟨rfl, rfl⟩

/-- The bid id of sixteen `0x2d` and the price 5, which is read as 13. -/
theorem tanxPriceDecode_minus :
    tanxPriceDecode blankStray blankStray plainBio headDigest
      (Base64.padded (tanxMessage headDigest (List.replicate 16 (byte '-')) 5)) = .ok 13 := by
  rw [tanxPriceDecode_encoded plainBio_inverts headDigest rfl (percentEncodes_padded _)]
  exact congrArg Except.ok (by decide)

end AdServer.Price
