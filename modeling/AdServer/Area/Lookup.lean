import AdServer.Area.IpData
import AdServer.Url.AreaCode

/-!
From an address to the codes of its area. The four functions have a buffer of 256 bytes on the
stack, have `ipDataFind` write a name to it, take the blanks out in place and look for the rest in
the dictionary. A text without four numbers leaves the buffer as it was.
-/
namespace AdServer.Area

open Billing Cursor Url

structure AreaItem extends GeoInfo where
  name : Bytes
  deriving DecidableEq

abbrev AreaDict := Finmap fun _ : Bytes => AreaItem

def isBlank (c : UInt8) : Bool := c = byte ' ' ∨ c = 9

/-- The buffer and the length of what was kept. `none` is a read behind the buffer. -/
def trim (buffer : Bytes) : Option (Bytes × Nat) :=
  (compact (· = 0) (fun c => !isBlank c) buffer.length buffer 0 0).map fun (buffer, p2) =>
    (buffer.set p2 0, p2)

/-- `name` is what the buffer holds before the call, here and below. -/
def getAreaNameByIp (db : IpData) (ip name : Bytes) : Except IpFault Bytes := do
  let (_, name) ← ipDataFind db ip name
  match trim name with
  | some (name, length) => .ok (name.take length)
  | none => .error .name

section
variable (areaCodeMargin ipUnknown : Int) (areaDict : AreaDict) (db : IpData) (ip name : Bytes)

def getAreaShortCode (areaItem : AreaItem) : Int :=
  if areaItem.province = 0 then wrapInt32 (areaItem.country * areaCodeMargin)
  else if areaItem.city = 0 then
    wrapInt32 (areaItem.country * areaCodeMargin + areaItem.province)
  else wrapInt32 (areaItem.country * areaCodeMargin + areaItem.city)

def getAreaByIp : Except IpFault Int :=
  (getAreaNameByIp db ip name).map fun areaName =>
    match areaDict.lookup areaName with
    | some areaItem => getAreaShortCode areaCodeMargin areaItem
    | none => ipUnknown

def getAreaCodeStrByIp : Except IpFault (Option Bytes) :=
  (getAreaNameByIp db ip name).map fun areaName =>
    getAreaCodeStr ((areaDict.lookup areaName).map AreaItem.toGeoInfo)

def getAreaCodeByIp : Except IpFault GeoInfo :=
  (getAreaNameByIp db ip name).map fun areaName =>
    match areaDict.lookup areaName with
    | some areaItem => areaItem.toGeoInfo
    | none => ⟨86, 0, 0⟩

end

/-- The part of a text in front of its first NUL, without blanks. -/
def trimmed (text : Bytes) : Bytes := (cString text).filter fun c => !isBlank c

theorem trim_eq_none {buffer : Bytes} (h : 0 ∉ buffer) : trim buffer = none := by
  rw [trim, compact_eq_none (Nat.le_refl 0), Option.map_none]
  intro c hc
  exact decide_eq_false fun hzero => h (hzero ▸ hc)

theorem trim_append_nul {u : Bytes} (hu : 0 ∉ u) (rest : Bytes) :
    ∃ buffer, trim (u ++ 0 :: rest) = some (buffer, (trimmed u).length) ∧
      buffer.take (trimmed u).length = trimmed u := by
  have hstop : ∀ x ∈ u, decide (x = 0) = false := fun x hx =>
    decide_eq_false fun hzero => hu (hzero ▸ hx)
  have hleft : u.length < (u ++ 0 :: rest).length := by
    rw [List.length_append, List.length_cons]
    omega
  have hrun : ∃ written,
      compact (· = 0) (fun c => !isBlank c) (u ++ 0 :: rest).length (u ++ 0 :: rest) 0 0 =
        some (written, 0 + (u.filter fun c => !isBlank c).length) ∧ _ :=
    compact_append_cons (Nat.le_refl 0) rfl hstop rfl hleft
  obtain ⟨written, hrun, htake⟩ := hrun
  rw [Nat.zero_add] at hrun htake
  rw [trimmed, cString_of_notMem hu]
  refine ⟨written.set (u.filter fun c => !isBlank c).length 0, by rw [trim, hrun]; rfl, ?_⟩
  rw [List.take_set, List.set_eq_of_length_le (List.length_take_le _ _), htake]
  rfl

/-- With four numbers in the text the name is the one that was found, whatever stood in the
buffer. -/
theorem getAreaNameByIp_quad {db : IpData} {ip name : Bytes} {a b c d : Int}
    (hquad : sscanf 4 (cString ip) = [a, b, c, d]) (hname : name.length = 256) :
    getAreaNameByIp db ip name = (db.foundText a b c d).map trimmed := by
  rw [getAreaNameByIp, ipDataFind_quad hquad hname.ge]
  cases db.foundText a b c d with
  | error fault => rfl
  | ok text =>
      obtain ⟨more, hmore⟩ := exists_append_nul text (name.drop (text.length + 1))
      obtain ⟨buffer, htrim, htake⟩ := trim_append_nul (zero_notMem_cString text) more
      have hbuffer : text ++ [0] ++ name.drop (text.length + 1) = cString text ++ 0 :: more := by
        rw [List.append_assoc]
        exact hmore
      have htrimmed : trimmed (cString text) = trimmed text := by
        rw [trimmed, cString_cString]
        rfl
      rw [htrimmed] at htrim htake
      simp only [Except.map, bind, Except.bind, hbuffer, htrim, htake]

/-- Without them the name is the one in the buffer. -/
theorem getAreaNameByIp_of_ne {db : IpData} {ip : Bytes}
    (h : ∀ a b c d, sscanf 4 (cString ip) ≠ [a, b, c, d]) {name : Bytes} (hname : 0 ∉ name) :
    getAreaNameByIp db ip name = .error .name := by
  rw [getAreaNameByIp, ipDataFind_of_ne h]
  simp only [bind, Except.bind, trim_eq_none hname]

theorem length_eq_four_iff {numbers : List Int} :
    numbers.length = 4 ↔ ∃ a b c d, numbers = [a, b, c, d] := by
  constructor
  · intro h
    match numbers, h with
    | [a, b, c, d], _ => exact ⟨a, b, c, d, rfl⟩
  · rintro ⟨a, b, c, d, rfl⟩
    rfl

/-- The answers do not depend on what stood in the buffer and `trim` stays inside it if and only
if the text holds four numbers. -/
theorem areaLookup_independent_iff (areaCodeMargin ipUnknown : Int) (areaDict : AreaDict)
    (db : IpData) (ip : Bytes) :
    ((∀ name name' : Bytes, name.length = 256 → name'.length = 256 →
        getAreaByIp areaCodeMargin ipUnknown areaDict db ip name =
          getAreaByIp areaCodeMargin ipUnknown areaDict db ip name' ∧
        getAreaCodeStrByIp areaDict db ip name = getAreaCodeStrByIp areaDict db ip name' ∧
        getAreaCodeByIp areaDict db ip name = getAreaCodeByIp areaDict db ip name') ∧
      ∀ name : Bytes, name.length = 256 → getAreaNameByIp db ip name ≠ .error .name) ↔
      (sscanf 4 (cString ip)).length = 4 := by
  rw [length_eq_four_iff]
  constructor
  · rintro ⟨-, htrim⟩
    by_contra hquad
    refine htrim (List.replicate 256 1) List.length_replicate (getAreaNameByIp_of_ne ?_ ?_)
    · exact fun a b c d h => hquad ⟨a, b, c, d, h⟩
    · exact fun h => by cases List.eq_of_mem_replicate h
  · rintro ⟨a, b, c, d, hquad⟩
    refine ⟨fun name name' hname hname' => ?_, fun name hname h => ?_⟩
    · have hsame : getAreaNameByIp db ip name = getAreaNameByIp db ip name' :=
        (getAreaNameByIp_quad hquad hname).trans (getAreaNameByIp_quad hquad hname').symm
      refine ⟨?_, ?_, ?_⟩
      · rw [getAreaByIp, hsame]
        rfl
      · rw [getAreaCodeStrByIp, hsame]
        rfl
      · rw [getAreaCodeByIp, hsame]
        rfl
    · rw [getAreaNameByIp_quad hquad hname] at h
      cases htext : db.foundText a b c d with
      | error fault =>
          rw [htext] at h
          cases h
          exact IpData.foundText_ne_name a b c d htext
      | ok text =>
          rw [htext] at h
          cases h

/-- With the empty text the answer is the code of whatever area the stack names. -/
theorem getAreaByIp_garbage :
    getAreaByIp 10000 0 (Finmap.singleton (bytes "CN") ⟨⟨86, 0, 0⟩, bytes "CN"⟩) oneEntry []
        (bytes "CN" ++ List.replicate 254 0) = .ok 860000 ∧
      getAreaByIp 10000 0 (Finmap.singleton (bytes "CN") ⟨⟨86, 0, 0⟩, bytes "CN"⟩) oneEntry []
        (List.replicate 256 0) = .ok 0 ∧
      getAreaNameByIp oneEntry [] (List.replicate 256 1) = .error .name := by
  refine ⟨by decide +kernel, by decide +kernel, getAreaNameByIp_of_ne ?_ ?_⟩
  · exact fun a b c d h => by cases h
  · exact fun h => by cases List.eq_of_mem_replicate h

end AdServer.Area
