import Mathlib.Data.List.Pairwise
import Mathlib.Order.Lattice

/-!
Maps that are gone through in the order of their keys. A value that is inserted under a key that
is there is dropped; an access to a key that is not there puts a default under it. A loop over the
map may write the values anew.
-/

universe u v w

structure OrderedMap (κ : Type u) (α : Type v) [LinearOrder κ] where
  entries : List (κ × α)
  sorted : entries.Pairwise fun a b => a.1 < b.1

namespace OrderedMap

section
variable {κ : Type u} {α : Type v} {σ : Type w} (f : σ → κ → α → α × σ)

def rewriteEntries : σ → List (κ × α) → List (κ × α) × σ
  | s, [] => ([], s)
  | s, e :: rest =>
    let written := f s e.1 e.2
    let others := rewriteEntries written.2 rest
    ((e.1, written.1) :: others.1, others.2)

theorem map_fst_rewriteEntries (s : σ) (l : List (κ × α)) :
    (rewriteEntries f s l).1.map Prod.fst = l.map Prod.fst := by
  induction l generalizing s with
  | nil => rfl
  | cons e rest ih => exact congrArg (e.1 :: ·) (ih (f s e.1 e.2).2)

theorem sorted_rewriteEntries [LT κ] (s : σ) {l : List (κ × α)}
    (hl : l.Pairwise fun a b => a.1 < b.1) :
    (rewriteEntries f s l).1.Pairwise fun a b => a.1 < b.1 := by
  have hkeys : (l.map Prod.fst).Pairwise (· < ·) := List.pairwise_map.mpr hl
  rw [← map_fst_rewriteEntries f s l] at hkeys
  exact List.pairwise_map.mp hkeys

end

variable {κ : Type u} {α : Type v} [LinearOrder κ]

def insertEntry (k : κ) (v : α) : List (κ × α) → List (κ × α)
  | [] => [(k, v)]
  | e :: rest =>
    if k < e.1 then (k, v) :: e :: rest
    else if k = e.1 then e :: rest
    else e :: insertEntry k v rest

theorem notMem_of_lt {k : κ} {l : List (κ × α)} (h : ∀ e ∈ l, k < e.1) (v : α) : (k, v) ∉ l :=
  fun hmem => lt_irrefl k (h (k, v) hmem)

theorem mem_insertEntry {k : κ} {v : α} {l : List (κ × α)}
    (hl : l.Pairwise fun a b => a.1 < b.1) (x : κ × α) :
    x ∈ insertEntry k v l ↔ x ∈ l ∨ (x = (k, v) ∧ ∀ w, (k, w) ∉ l) := by
  induction l with
  | nil => simp [insertEntry]
  | cons e rest ih =>
      obtain ⟨hfirst, hrest⟩ := List.pairwise_cons.mp hl
      rw [insertEntry]
      split
      · rename_i hlt
        have habsent : ∀ w, (k, w) ∉ e :: rest := by
          refine notMem_of_lt (List.forall_mem_cons.mpr ⟨hlt, fun d hd => ?_⟩)
          exact lt_trans hlt (hfirst d hd)
        rw [List.mem_cons, or_comm, and_iff_left habsent]
      · rename_i hle
        split
        · rename_i heq
          have hpresent : ¬∀ w, (k, w) ∉ e :: rest := fun h => h e.2 (heq ▸ List.mem_cons_self)
          exact (or_iff_left fun h => hpresent h.2).symm
        · rename_i hne
          have habsent : (∀ w, (k, w) ∉ e :: rest) ↔ ∀ w, (k, w) ∉ rest := by
            refine forall_congr' fun w => not_congr ?_
            rw [List.mem_cons, or_iff_right fun h => hne (congrArg Prod.fst h)]
          rw [List.mem_cons, ih hrest, List.mem_cons, habsent, or_assoc]

theorem sorted_insertEntry {k : κ} {v : α} {l : List (κ × α)}
    (hl : l.Pairwise fun a b => a.1 < b.1) :
    (insertEntry k v l).Pairwise fun a b => a.1 < b.1 := by
  induction l with
  | nil => exact List.pairwise_singleton _ _
  | cons e rest ih =>
      obtain ⟨hfirst, hrest⟩ := List.pairwise_cons.mp hl
      rw [insertEntry]
      split
      · rename_i hlt
        refine List.pairwise_cons.mpr ⟨List.forall_mem_cons.mpr ⟨hlt, fun d hd => ?_⟩, hl⟩
        exact lt_trans hlt (hfirst d hd)
      · rename_i hle
        split
        · exact hl
        · rename_i hne
          refine List.pairwise_cons.mpr ⟨fun d hd => ?_, ih hrest⟩
          obtain hd | ⟨rfl, -⟩ := (mem_insertEntry hrest d).mp hd
          · exact hfirst d hd
          · exact lt_of_le_of_ne (le_of_not_gt hle) (Ne.symm hne)

def empty : OrderedMap κ α := ⟨[], .nil⟩

def insert (m : OrderedMap κ α) (k : κ) (v : α) : OrderedMap κ α :=
  ⟨insertEntry k v m.entries, sorted_insertEntry m.sorted⟩

def find (m : OrderedMap κ α) (k : κ) : Option α :=
  (m.entries.find? fun e => e.1 = k).map Prod.snd

/-- The value under a key, and the map with the default if there was none. -/
def access (m : OrderedMap κ α) (k : κ) (default : α) : α × OrderedMap κ α :=
  match m.find k with
  | some v => (v, m)
  | none => (default, m.insert k default)

variable {m : OrderedMap κ α} {k : κ}

theorem mem_insert (v : α) (x : κ × α) :
    x ∈ (m.insert k v).entries ↔ x ∈ m.entries ∨ (x = (k, v) ∧ ∀ w, (k, w) ∉ m.entries) :=
  mem_insertEntry m.sorted x

theorem eq_of_mem {v w : α} (hv : (k, v) ∈ m.entries) (hw : (k, w) ∈ m.entries) : v = w := by
  by_contra hne
  have hpair : (k, v) ≠ (k, w) := fun h => hne (congrArg Prod.snd h)
  have hsymm : Std.Symm fun a b : κ × α => a.1 ≠ b.1 := ⟨fun _ _ h => h.symm⟩
  have hkeys : m.entries.Pairwise fun a b => a.1 ≠ b.1 := m.sorted.imp fun h => ne_of_lt h
  exact hkeys.forall hv hw hpair rfl

theorem find_eq_some_iff {v : α} : m.find k = some v ↔ (k, v) ∈ m.entries := by
  rw [find, Option.map_eq_some_iff]
  constructor
  · rintro ⟨e, he, rfl⟩
    have hkey : e.1 = k := by simpa using List.find?_some he
    exact hkey ▸ List.mem_of_find?_eq_some he
  · intro hmem
    cases hfind : m.entries.find? fun e => e.1 = k with
    | none => exact absurd (List.find?_eq_none.mp hfind (k, v) hmem) (by simp)
    | some e =>
        have hkey : e.1 = k := by simpa using List.find?_some hfind
        exact ⟨e, rfl, eq_of_mem (hkey ▸ List.mem_of_find?_eq_some hfind) hmem⟩

theorem find_eq_none_iff : m.find k = none ↔ ∀ v, (k, v) ∉ m.entries := by
  rw [Option.eq_none_iff_forall_not_mem]
  exact forall_congr' fun v => not_congr find_eq_some_iff

theorem access_of_mem {v : α} (h : (k, v) ∈ m.entries) (default : α) :
    m.access k default = (v, m) := by
  rw [access, find_eq_some_iff.mpr h]

theorem access_of_notMem (h : ∀ v, (k, v) ∉ m.entries) (default : α) :
    m.access k default = (default, m.insert k default) := by
  rw [access, find_eq_none_iff.mpr h]

theorem mem_access_of_mem {x : κ × α} (h : x ∈ m.entries) (default : α) :
    x ∈ (m.access k default).2.entries := by
  rw [access]
  split
  · exact h
  · exact (mem_insert default x).mpr (.inl h)

theorem nodup_keys (m : OrderedMap κ α) : (m.entries.map Prod.fst).Nodup :=
  List.pairwise_map.mpr (m.sorted.imp fun h => ne_of_lt h)

theorem perm_insertEntry {v : α} {l : List (κ × α)} (habsent : ∀ w, (k, w) ∉ l) :
    (insertEntry k v l).Perm ((k, v) :: l) := by
  induction l with
  | nil => exact .refl _
  | cons e rest ih =>
      rw [insertEntry]
      split
      · exact .refl _
      · split
        · rename_i heq
          exact absurd (heq ▸ List.mem_cons_self) (habsent e.2)
        · have hrest := ih fun w hw => habsent w (List.mem_cons_of_mem e hw)
          exact (hrest.cons e).trans (.swap (k, v) e rest)

theorem perm_insert (habsent : ∀ w, (k, w) ∉ m.entries) (v : α) :
    (m.insert k v).entries.Perm ((k, v) :: m.entries) :=
  perm_insertEntry habsent

def erase (m : OrderedMap κ α) (k : κ) : OrderedMap κ α :=
  ⟨m.entries.filter fun e => e.1 ≠ k, m.sorted.filter _⟩

theorem mem_keys_erase {x : κ} :
    x ∈ (m.erase k).entries.map Prod.fst ↔ x ∈ m.entries.map Prod.fst ∧ x ≠ k := by
  simp only [erase, List.mem_map, List.mem_filter, decide_eq_true_eq]
  refine ⟨?_, ?_⟩
  · rintro ⟨e, ⟨he, hne⟩, rfl⟩
    exact ⟨⟨e, he, rfl⟩, hne⟩
  · rintro ⟨⟨e, he, rfl⟩, hne⟩
    exact ⟨e, ⟨he, hne⟩, rfl⟩

/-- A loop over the map that writes each value anew. -/
def rewrite {σ : Type w} (m : OrderedMap κ α) (f : σ → κ → α → α × σ) (s : σ) :
    OrderedMap κ α × σ :=
  (⟨(rewriteEntries f s m.entries).1, sorted_rewriteEntries f s m.sorted⟩,
    (rewriteEntries f s m.entries).2)

end OrderedMap
