import AdServer.Library.KeyStream
import AdServer.Price.Tanx

/-!
`tanxDeviceId`. The decoded text holds a version, a length, the id masked with the digest of the
key over and over, and four bytes of a digest over all that was in the clear. The length is a
byte of the sender; the id and what is digested go into arrays of 64 bytes before the checksum is
looked at.
-/
namespace AdServer.Bid

open Price SealedRecord Url

/-- Bytes that are written to the start of an array. -/
def intoArray (size : Nat) (content : Bytes) : Except Fault Bytes :=
  if content.length ≤ size then .ok content else .error .outside

theorem intoArray_cases (size : Nat) (content : Bytes) :
    intoArray size content = .ok content ∨ intoArray size content = .error .outside := by
  unfold intoArray
  split
  · exact .inl rfl
  · exact .inr rfl

/-- `decodeDeviceId`, where `src` holds the bytes that were decoded. -/
def decodeDeviceId (digest : Digest) (src : Bytes) : Except Fault (Option Bytes) := do
  let version ← bytesAt src 0 1
  if version ≠ [1] then .ok none
  else
    let length ← bytesAt src 1 1
    let len := (length.headD 0).toNat
    let ctxBuf := digest.md5 gKey
    let encodeDeviceId ← bytesAt src 2 len
    let deviceId ← intoArray 64 (KeyStream.mask (· ^^^ ·) ctxBuf ctxBuf encodeDeviceId)
    let _ ← intoArray 64 (deviceId ++ [0])
    let buf ← intoArray 64 (version ++ length ++ deviceId ++ gKey)
    let crc ← bytesAt src (2 + len) 4
    if (digest.md5 buf).take 4 ≠ crc then .ok none else .ok (some deviceId)

/-- The text that `BIO_new_mem_buf` gets with a length: a negative one stands for `strlen`. -/
def memBuf (src : Bytes) (len : Int) : Bytes :=
  if len < 0 then cString src else src.take len.toNat

/-- `base64DecodedLength` of an `int`. -/
def decodedLength (len : Int) : Int := (wrapInt32 (len + 3)).tdiv 4 * 3

/-- What the Base64 filter writes to `orig`. -/
def origBytes (bio : Base64Bio) (src : Bytes) : Bytes :=
  let len := toInt32 src.length
  (bio.read (memBuf src len) (decodedLength len).toNat).2

def tanxDeviceId (digest : Digest) (bio : Base64Bio) (src : Bytes) : Except Fault Bytes :=
  if toInt32 src.length = 0 then .ok src
  else do
    let orig ← intoArray 1024 (origBytes bio src)
    let deviceId ← decodeDeviceId digest orig
    .ok ((deviceId.map cString).getD [])

section
variable (digest : Digest)

def deviceMask (text : Bytes) : Bytes :=
  KeyStream.mask (· ^^^ ·) (digest.md5 gKey) (digest.md5 gKey) text

/-- The four bytes at the end of a record. -/
def deviceCrc (head deviceId : Bytes) : Bytes := (digest.md5 (head ++ deviceId ++ gKey)).take 4

/-- Ids of a length as sealed records: the nonce is the version and the length. -/
def deviceScheme (len : Nat) : Scheme UInt8 where
  nonceSize := 2
  plainSize := len
  mix := (· ^^^ ·)
  mix_mix := xor_xor_cancel
  pad _ := (KeyStream.repeated (digest.md5 gKey) len).take len
  length_pad _ := by
    rw [List.length_take, KeyStream.length_repeated, digest.length_md5]
    omega
  tag := deviceCrc digest

variable {digest}

theorem md5_ne_nil (message : Bytes) : digest.md5 message ≠ [] := by
  apply List.ne_nil_of_length_pos
  rw [digest.length_md5]
  decide

theorem deviceMask_eq_zipWith (text : Bytes) :
    deviceMask digest text =
      List.zipWith (· ^^^ ·) text (KeyStream.repeated (digest.md5 gKey) text.length) :=
  KeyStream.mask_self_eq_zipWith _ (md5_ne_nil gKey) text

theorem deviceMask_eq_mask (nonce text : Bytes) :
    deviceMask digest text = (deviceScheme digest text.length).mask nonce text := by
  have hlong : text.length ≤ (KeyStream.repeated (digest.md5 gKey) text.length).length := by
    rw [KeyStream.length_repeated, digest.length_md5]
    omega
  rw [deviceMask_eq_zipWith, List.zipWith_eq_zipWith_take_min, Nat.min_eq_left hlong,
    List.take_length]
  rfl

theorem length_deviceCrc (head deviceId : Bytes) : (deviceCrc digest head deviceId).length = 4 := by
  rw [deviceCrc, List.length_take, digest.length_md5]
  rfl

theorem length_deviceMask (text : Bytes) : (deviceMask digest text).length = text.length := by
  rw [deviceMask_eq_mask []]
  exact length_mask rfl

/-- The three writes stay inside their arrays for ids of up to 46 bytes. -/
theorem intoArrays_eq {β : Type} {head : Bytes} (hhead : head.length = 2) (deviceId : Bytes)
    (next : Bytes → Bytes → Except Fault β) :
    (do
      let deviceId ← intoArray 64 deviceId
      let _ ← intoArray 64 (deviceId ++ [0])
      let buf ← intoArray 64 (head ++ deviceId ++ gKey)
      next deviceId buf) =
      if deviceId.length ≤ 46 then next deviceId (head ++ deviceId ++ gKey)
      else .error .outside := by
  have hbufLength : (head ++ deviceId ++ gKey).length = deviceId.length + 18 := by
    rw [List.length_append, List.length_append, hhead, Nat.add_comm 2]
    rfl
  by_cases hfits : deviceId.length ≤ 46
  · have hid : intoArray 64 deviceId = .ok _ := if_pos (by omega)
    have hreal : intoArray 64 (deviceId ++ [0]) = .ok _ :=
      if_pos (by rw [List.length_append, List.length_singleton]; omega)
    have hbuf : intoArray 64 (head ++ deviceId ++ gKey) = .ok _ := if_pos (by omega)
    simp only [bind, Except.bind, hid, hreal, hbuf, if_pos hfits]
  · have hbuf : intoArray 64 (head ++ deviceId ++ gKey) = .error .outside := if_neg (by omega)
    rw [if_neg hfits]
    obtain hid | hid := intoArray_cases 64 deviceId
    · obtain hreal | hreal := intoArray_cases 64 (deviceId ++ [0])
      · simp only [bind, Except.bind, hid, hreal, hbuf]
      · simp only [bind, Except.bind, hid, hreal]
    · simp only [bind, Except.bind, hid]

/-- Bytes behind the version and the length. -/
theorem bytesAt_record (v n : UInt8) (rest : Bytes) (k size : Nat) :
    bytesAt (v :: n :: rest) (2 + k) size =
      if k + size ≤ rest.length then .ok ((rest.drop k).take size) else .error .outside := by
  simp [bytesAt, Nat.add_comm 2, Nat.add_right_comm _ 2 size]

/-- A record that begins with the version and a length. -/
theorem decodeDeviceId_cons (n : UInt8) (rest : Bytes) :
    decodeDeviceId digest (1 :: n :: rest) =
      if n.toNat ≤ 46 ∧ n.toNat + 4 ≤ rest.length then
        .ok (if deviceCrc digest [1, n] (deviceMask digest (rest.take n.toNat)) =
            (rest.drop n.toNat).take 4 then some (deviceMask digest (rest.take n.toNat)) else none)
      else .error .outside := by
  have hversion : bytesAt (1 :: n :: rest) 0 1 = .ok [1] := by simp [bytesAt]
  have hlength : bytesAt (1 :: n :: rest) 1 1 = .ok [n] := by simp [bytesAt]
  have hdevice := bytesAt_record 1 n rest 0 n.toNat
  rw [Nat.add_zero, Nat.zero_add, List.drop_zero] at hdevice
  have hmask := @length_deviceMask digest (rest.take n.toNat)
  rw [decodeDeviceId, hversion]
  change (if [1] ≠ [1] then Except.ok none else _) = _
  rw [if_neg (not_not.mpr rfl), hlength]
  change bytesAt (1 :: n :: rest) 2 n.toNat >>= _ = _
  rw [hdevice]
  by_cases htext : n.toNat ≤ rest.length
  · rw [if_pos htext]
    refine (intoArrays_eq rfl (deviceMask digest (rest.take n.toNat)) _).trans ?_
    rw [hmask, List.length_take_of_le htext, List.headD_cons, bytesAt_record]
    by_cases hfits : n.toNat ≤ 46
    · rw [if_pos hfits]
      by_cases hwhole : n.toNat + 4 ≤ rest.length
      · rw [if_pos hwhole, if_pos ⟨hfits, hwhole⟩]
        by_cases hcheck : deviceCrc digest [1, n] (deviceMask digest (rest.take n.toNat)) =
            (rest.drop n.toNat).take 4
        · rw [if_pos hcheck]
          exact if_neg (not_not.mpr hcheck)
        · rw [if_neg hcheck]
          exact if_pos hcheck
      · rw [if_neg hwhole, if_neg fun h => hwhole h.2]
        rfl
    · rw [if_neg hfits, if_neg fun h => hfits h.1]
  · rw [if_neg htext, if_neg fun h => htext (by omega)]
    rfl

theorem decodeDeviceId_of_ne {c : UInt8} (hc : c ≠ 1) (rest : Bytes) :
    decodeDeviceId digest (c :: rest) = .ok none := by
  have hversion : bytesAt (c :: rest) 0 1 = .ok [c] := by simp [bytesAt]
  rw [decodeDeviceId, hversion]
  exact if_pos (by simpa using hc)

end

/-- There is a first byte, and if it is the version, there is a length of at most 46 and all that
belongs to a record of this length. -/
def WholeRecord (orig : Bytes) : Prop :=
  orig ≠ [] ∧ (orig.head? = some 1 →
    ∃ n, orig[1]? = some n ∧ n.toNat ≤ 46 ∧ n.toNat + 6 ≤ orig.length)

theorem decodeDeviceId_isOk_iff (digest : Digest) (orig : Bytes) :
    (∃ result, decodeDeviceId digest orig = .ok result) ↔ WholeRecord orig := by
  cases orig with
  | nil => exact iff_of_false (fun ⟨_, h⟩ => by cases h) fun h => h.1 rfl
  | cons c rest =>
      by_cases hc : c = 1
      · subst hc
        cases rest with
        | nil =>
            refine iff_of_false (fun ⟨_, h⟩ => by cases h) fun h => ?_
            obtain ⟨n, hn, -⟩ := h.2 rfl
            cases hn
        | cons n rest =>
            rw [decodeDeviceId_cons]
            split
            · rename_i hwhole
              refine iff_of_true ⟨_, rfl⟩ ⟨List.cons_ne_nil _ _, fun _ => ⟨n, rfl, hwhole.1, ?_⟩⟩
              rw [List.length_cons, List.length_cons]
              omega
            · rename_i hwhole
              refine iff_of_false (fun ⟨_, h⟩ => by cases h) fun h => ?_
              obtain ⟨m, hm, hfits, hlen⟩ := h.2 rfl
              cases hm
              rw [List.length_cons, List.length_cons] at hlen
              exact hwhole ⟨hfits, by omega⟩
      · refine iff_of_true ⟨_, decodeDeviceId_of_ne hc rest⟩ ⟨List.cons_ne_nil _ _, fun h => ?_⟩
        exact absurd (Option.some.inj h) hc

theorem tanxDeviceId_of_pos (digest : Digest) {bio : Base64Bio} {src : Bytes}
    (hsrc : toInt32 src.length ≠ 0) (hfits : (origBytes bio src).length ≤ 1024) :
    tanxDeviceId digest bio src =
      (decodeDeviceId digest (origBytes bio src)).map fun id => (id.map cString).getD [] := by
  have harray : intoArray 1024 (origBytes bio src) = .ok (origBytes bio src) := if_pos hfits
  rw [tanxDeviceId, if_neg hsrc, harray]
  change decodeDeviceId digest (origBytes bio src) >>= _ = _
  cases decodeDeviceId digest (origBytes bio src) with
  | error fault => rfl
  | ok id => rfl

section
variable {digest : Digest} {bio : Base64Bio}

theorem origBytes_padded (hbio : bio.Inverts) {payload : Bytes} (hne : payload ≠ [])
    (hsize : payload.length ≤ 1024) :
    toInt32 (Base64.padded payload).length ≠ 0 ∧
      origBytes bio (Base64.padded payload) = payload := by
  have hpos := List.length_pos_of_ne_nil hne
  have hlen := Base64.length_padded payload
  have hint : toInt32 (Base64.padded payload).length = (Base64.padded payload).length :=
    toInt32_of_lt (by omega)
  have hbuf : memBuf (Base64.padded payload) (Base64.padded payload).length =
      Base64.padded payload := by
    rw [memBuf, if_neg (by omega), Int.toNat_natCast, List.take_length]
  have hwrap : wrapInt32 ((Base64.padded payload).length + 3) =
      (Base64.padded payload).length + 3 :=
    wrapInt32_eq_self_iff.mpr (by omega)
  have hroom : payload.length ≤ (decodedLength (Base64.padded payload).length).toNat := by
    rw [decodedLength, hwrap, Int.tdiv_eq_ediv_of_nonneg (by omega)]
    omega
  refine ⟨by rw [hint]; omega, ?_⟩
  simp only [origBytes, hint, hbuf, hbio payload _ hroom]

/-- A record with an id of at most 46 bytes is opened as the sealed record that it is. -/
theorem tanxDeviceId_record (hbio : bio.Inverts) {n : UInt8} {text tag : Bytes}
    (hn : n.toNat ≤ 46) (htext : text.length = n.toNat) (htag : tag.length = 4) :
    tanxDeviceId digest bio (Base64.padded ([1, n] ++ (text ++ tag))) =
      .ok ((((deviceScheme digest n.toNat).unseal ([1, n] ++ (text ++ tag))).map
        cString).getD []) := by
  have hlen : ([1, n] ++ (text ++ tag)).length ≤ 1024 := by
    simp only [List.length_append, List.length_cons, List.length_nil, htext, htag]
    omega
  have hwhole : n.toNat + 4 ≤ (text ++ tag).length := by
    rw [List.length_append, htext, htag]
  obtain ⟨hsrc, horig⟩ := origBytes_padded hbio
    (List.cons_ne_nil (1 : UInt8) (n :: (text ++ tag))) hlen
  have hmask : deviceMask digest text = (deviceScheme digest n.toNat).mask [1, n] text := by
    rw [← htext, ← deviceMask_eq_mask]
  have hrecord : [1, n] ++ (text ++ tag) = 1 :: n :: (text ++ tag) := rfl
  rw [unseal_append rfl htext, hrecord, tanxDeviceId_of_pos digest hsrc (horig.symm ▸ hlen),
    horig, decodeDeviceId_cons, if_pos ⟨hn, hwhole⟩, List.take_left' htext,
    List.drop_left' htext, List.take_of_length_le htag.le, hmask]
  refine congrArg (fun id : Option Bytes => Except.ok ((id.map cString).getD [])) ?_
  exact if_congr eq_comm rfl rfl

end

/-- Ids of 1 to 46 bytes without a NUL come back, and a record of such a length with another
checksum gives the empty text. -/
theorem tanxDeviceId_round_trip (digest : Digest) {bio : Base64Bio} (hbio : bio.Inverts) :
    (∀ id : Bytes, 0 ∉ id → 1 ≤ id.length → id.length ≤ 46 →
      tanxDeviceId digest bio (Base64.padded ([1, UInt8.ofNat id.length] ++
          List.zipWith (· ^^^ ·) id (KeyStream.repeated (digest.md5 gKey) id.length) ++
          (digest.md5 ([1, UInt8.ofNat id.length] ++ id ++ gKey)).take 4)) = .ok id) ∧
    ∀ (n : UInt8) (text tag : Bytes), n.toNat ≤ 46 → text.length = n.toNat → tag.length = 4 →
      tag ≠ (digest.md5 ([1, n] ++
        List.zipWith (· ^^^ ·) text (KeyStream.repeated (digest.md5 gKey) n.toNat) ++
        gKey)).take 4 →
      tanxDeviceId digest bio (Base64.padded ([1, n] ++ text ++ tag)) = .ok [] := by
  refine ⟨fun id hnul _ hlen => ?_, fun n text tag hn htext htag hne => ?_⟩
  · have hn : (UInt8.ofNat id.length).toNat = id.length := by
      rw [UInt8.toNat_ofNat']
      omega
    have hopen : (deviceScheme digest id.length).unseal ([1, UInt8.ofNat id.length] ++
        (deviceMask digest id ++ deviceCrc digest [1, UInt8.ofNat id.length] id)) = some id := by
      rw [deviceMask_eq_mask [1, UInt8.ofNat id.length] id]
      exact unseal_seal rfl rfl
    rw [← deviceMask_eq_zipWith, List.append_assoc, ← deviceCrc,
      tanxDeviceId_record hbio (by rw [hn]; exact hlen) (by rw [length_deviceMask, hn])
        (length_deviceCrc _ _), hn, hopen]
    exact congrArg Except.ok (cString_of_notMem hnul)
  · have hforged :
        tag ≠ deviceCrc digest [1, n] ((deviceScheme digest n.toNat).mask [1, n] text) := by
      rwa [← htext, ← deviceMask_eq_zipWith, deviceMask_eq_mask [1, n], htext] at hne
    rw [List.append_assoc, tanxDeviceId_record hbio hn htext htag, unseal_append rfl htext]
    exact congrArg (fun id : Option Bytes => Except.ok ((id.map cString).getD [])) (if_neg hforged)

theorem tanxDeviceId_round_trip_two :
    plainBio.Inverts ∧
      tanxDeviceId headDigest plainBio (Base64.padded ([1, 2] ++
        List.zipWith (· ^^^ ·) [65, 66] (KeyStream.repeated (headDigest.md5 gKey) 2) ++
        (headDigest.md5 ([1, 2] ++ [65, 66] ++ gKey)).take 4)) = .ok [65, 66] ∧
      tanxDeviceId headDigest plainBio (Base64.padded ([1, 2] ++ [65, 66] ++ [9, 9, 9, 9])) =
        .ok [] :=
  ⟨plainBio_inverts,
    (tanxDeviceId_round_trip headDigest plainBio_inverts).1 [65, 66] (by decide) (by decide)
      (by decide),
    (tanxDeviceId_round_trip headDigest plainBio_inverts).2 2 [65, 66] [9, 9, 9, 9] (by decide)
      rfl rfl (by decide)⟩

/-- All accesses are inside if and only if the text is empty as an `int` length, or what was
decoded fits into `orig` and is a whole record. -/
theorem tanxDeviceId_inBounds_iff (digest : Digest) (bio : Base64Bio) (src : Bytes) :
    (∃ deviceId, tanxDeviceId digest bio src = .ok deviceId) ↔
      toInt32 src.length = 0 ∨
        ((origBytes bio src).length ≤ 1024 ∧ WholeRecord (origBytes bio src)) := by
  by_cases hsrc : toInt32 src.length = 0
  · exact iff_of_true ⟨src, if_pos hsrc⟩ (.inl hsrc)
  · rw [or_iff_right hsrc]
    by_cases hfits : (origBytes bio src).length ≤ 1024
    · rw [and_iff_right hfits, tanxDeviceId_of_pos digest hsrc hfits,
        ← decodeDeviceId_isOk_iff digest]
      cases decodeDeviceId digest (origBytes bio src) with
      | error fault => exact iff_of_false (fun ⟨_, h⟩ => by cases h) fun ⟨_, h⟩ => by cases h
      | ok result => exact iff_of_true ⟨_, rfl⟩ ⟨_, rfl⟩
    · have harray : intoArray 1024 (origBytes bio src) = .error .outside := if_neg hfits
      refine iff_of_false ?_ fun h => hfits h.1
      rintro ⟨deviceId, h⟩
      rw [tanxDeviceId, if_neg hsrc, harray] at h
      cases h

/-- A length of 60 is enough to write behind the 64 bytes of `buf`. -/
theorem tanxDeviceId_length_sixty :
    ¬∃ deviceId, tanxDeviceId headDigest plainBio
      (Base64.padded (1 :: 60 :: List.replicate 64 0)) = .ok deviceId := by
  obtain ⟨hsrc, horig⟩ := origBytes_padded plainBio_inverts
    (List.cons_ne_nil (1 : UInt8) (60 :: List.replicate 64 0)) (by decide)
  rintro ⟨deviceId, h⟩
  rw [tanxDeviceId_of_pos headDigest hsrc (by rw [horig]; decide), horig, decodeDeviceId_cons,
    if_neg (by decide)] at h
  cases h

end AdServer.Bid
