import AdServer.Codec.Cookie
import AdServer.Library.Sorter

/-!
The generator of the cipher's tables. It shuffles 64 characters, cuts them into four rows and
sorts the indices of each row by their characters. Among the 64 characters one stands twice, so a
row can be undone unless it got both.
-/
namespace AdServer.Codec

open Url

/-- The characters that `randomCharSequence` shuffles. -/
def cypherKeys : Bytes :=
  bytes "abcdefghijklmnopqrstuvwxyzABCDMEFGHIJKLMNOPQRSTUVXYZ=1234567890_"

/-- `regenerate` for one row. -/
def regenerate (sorter : Sorter) (map : Bytes) : CypherRow :=
  let current := sorter.byKey (fun a => charIndex (map.getD a 0)) (List.range 16)
  ⟨map, current.map (map.getD · 0), current⟩

/-- Row `i` of `cypherMap` in the constructor. -/
def rowOf (randomString : Bytes) (i : Nat) : Bytes :=
  (List.range 16).map fun j => randomString.getD ((i <<< 4) + j) 0

def cypherMapGenerator (sorter : Sorter) (randomString : Bytes) : List CypherRow :=
  (List.range 4).map fun i => regenerate sorter (rowOf randomString i)

theorem regenerate_consistent (sorter : Sorter) {map : Bytes} (hlength : map.length = 16) :
    (regenerate sorter map).Consistent := by
  have hperm := sorter.perm_byKey (fun a => charIndex (map.getD a 0)) (List.range 16)
  refine ⟨hlength, hperm, ?_, ?_⟩
  · refine (List.map_map ..).trans (List.map_congr_left fun a ha => ?_)
    have hlt : a < map.length := hlength ▸ List.mem_range.mp (hperm.subset ha)
    have hget : map[a]? = some (map.getD a 0) := by
      rw [List.getD_eq_getElem?_getD, List.getElem?_eq_getElem hlt, Option.getD_some]
    exact hget.symm
  · refine (congrArg (List.Pairwise (· ≤ ·)) (List.map_map ..)).mpr ?_
    exact sorter.byKey_sorted (fun a => charIndex (map.getD a 0)) (List.range 16)

/-- Every nibble is found again. -/
def CypherRow.Decodable (row : CypherRow) : Prop :=
  ∀ v < 16, ∃ c, row.map[v]? = some c ∧
    ∃ i : Nat, row.find c = some (i : Int) ∧ row.pos[i]? = some v

theorem CypherRow.Consistent.decodable_iff {row : CypherRow} (h : row.Consistent) :
    row.Decodable ↔ row.map.Nodup := by
  constructor
  · intro hdecodable
    have hinj {v w : Nat} (hv : v < 16) (hw : w < 16) (heq : row.map[v]? = row.map[w]?) :
        v = w := by
      obtain ⟨c, hc, i, hi, hpos⟩ := hdecodable v hv
      obtain ⟨c', hc', i', hi', hpos'⟩ := hdecodable w hw
      obtain rfl : c = c' := Option.some.inj (hc.symm.trans (heq.trans hc'))
      obtain rfl : i = i' := Int.ofNat_inj.mp (Option.some.inj (hi.symm.trans hi'))
      exact Option.some.inj (hpos.symm.trans hpos')
    rw [List.nodup_iff_getElem?_ne_getElem?]
    intro v w hvw hw heq
    rw [h.length_map] at hw
    exact absurd (hinj (by omega) hw heq) (by omega)
  · intro hnodup v hv
    rw [← h.length_map] at hv
    exact ⟨_, List.getElem?_eq_getElem hv, h.find_of_nodup hnodup (List.getElem?_eq_getElem hv)⟩

theorem rowOf_eq {randomString : Bytes} (hlength : randomString.length = 64) {i : Nat}
    (hi : i < 4) : rowOf randomString i = (randomString.drop (16 * i)).take 16 := by
  apply List.ext_getElem
  · simp only [rowOf, List.length_map, List.length_range, List.length_take, List.length_drop]
    omega
  · intro j hleft hright
    rw [rowOf, List.length_map, List.length_range] at hleft
    have hlt : 16 * i + j < randomString.length := by omega
    simp only [rowOf, List.getElem_map, List.getElem_range, List.getElem_take, List.getElem_drop]
    rw [Nat.shiftLeft_eq, Nat.mul_comm i, List.getD_eq_getElem?_getD,
      List.getElem?_eq_getElem hlt, Option.getD_some]

/-- Only one character can stand twice in a row. -/
theorem nodup_row_iff {randomString : Bytes} (hperm : randomString.Perm cypherKeys) {row : Bytes}
    (hrow : row.Sublist randomString) : row.Nodup ↔ row.count (byte 'M') ≤ 1 := by
  have hkeys : (cypherKeys.erase (byte 'M')).Nodup := by decide +kernel
  rw [List.nodup_iff_count_le_one]
  refine ⟨fun h => h _, fun h c => ?_⟩
  by_cases hc : c = byte 'M'
  · rwa [hc]
  · refine (hrow.count_le c).trans ?_
    rw [hperm.count_eq, ← List.count_erase_of_ne hc]
    exact List.nodup_iff_count_le_one.mp hkeys c

/-- The generated tables can be undone if and only if no row has both of the equal characters. -/
theorem cypherMapGenerator_decodable_iff (sorter : Sorter) {randomString : Bytes}
    (hperm : randomString.Perm cypherKeys) :
    (∀ row ∈ cypherMapGenerator sorter randomString,
      (row.sort.map charIndex).Pairwise (· ≤ ·) ∧ row.Decodable) ↔
    ∀ i < 4, ((randomString.drop (16 * i)).take 16).count (byte 'M') ≤ 1 := by
  have hlength : randomString.length = 64 := hperm.length_eq
  have hrow (i : Nat) :
      (regenerate sorter (rowOf randomString i)).Consistent :=
    regenerate_consistent sorter (by rw [rowOf, List.length_map, List.length_range])
  have hiff {i : Nat} (hi : i < 4) : (regenerate sorter (rowOf randomString i)).Decodable ↔
      ((randomString.drop (16 * i)).take 16).count (byte 'M') ≤ 1 := by
    rw [(hrow i).decodable_iff, ← nodup_row_iff hperm
      ((List.take_sublist ..).trans (List.drop_sublist ..)), ← rowOf_eq hlength hi]
    rfl
  rw [cypherMapGenerator, List.forall_mem_map]
  simp only [List.mem_range]
  exact forall₂_congr fun i hi => (and_iff_right (hrow i).sorted).trans (hiff hi)

theorem cypherMapGenerator_unshuffled :
    cypherKeys.Perm cypherKeys ∧ ∀ row ∈ cypherMapGenerator .merge cypherKeys,
      (row.sort.map charIndex).Pairwise (· ≤ ·) ∧ row.Decodable :=
  ⟨.refl _, (cypherMapGenerator_decodable_iff .merge (.refl _)).mpr (by decide +kernel)⟩

/-- With both in the first row, a nibble is lost. -/
theorem cypherMapGenerator_oneRow :
    (bytes "MMabcdefghijklmnopqrstuvwxyzABCDEFGHIJKLNOPQRSTUVXYZ=1234567890_").Perm cypherKeys ∧
    ∃ row ∈ cypherMapGenerator .merge
        (bytes "MMabcdefghijklmnopqrstuvwxyzABCDEFGHIJKLNOPQRSTUVXYZ=1234567890_"),
      ¬row.Decodable := by
  refine ⟨by decide +kernel, _, List.mem_map_of_mem (List.mem_range.mpr (by decide : 0 < 4)), ?_⟩
  rw [(regenerate_consistent .merge (by decide +kernel)).decodable_iff]
  decide +kernel

end AdServer.Codec
