import AdServer.Library.ByteOrder

/-!
Values in a stream. A reader takes a value from the front of the stream and leaves the rest, or
fails. If it reads back what was written and does not look behind a value that it has read, then
it fails on every stream that ends too early.
-/
namespace StreamCodec

abbrev Reader (β α : Type) := StateT (List β) Option α

variable {β α γ : Type} {limit : Nat}

/-- The reader finds the value in these items, whatever comes behind them, if they are not too
many. -/
def Reads (limit : Nat) (reader : Reader β α) (items : List β) (a : α) : Prop :=
  items.length < limit → ∀ rest, reader.run (items ++ rest) = some (a, rest)

/-- A value that was read is read also from a longer stream. -/
def Extends (reader : Reader β α) : Prop :=
  ∀ items a rest, reader.run items = some (a, rest) →
    ∀ more, reader.run (items ++ more) = some (a, rest ++ more)

theorem Reads.nil (a : α) : Reads limit (pure a : Reader β α) [] a := fun _ _ => rfl

/-- One value behind another one. -/
theorem Reads.append {reader : Reader β α} {next : α → Reader β γ} {items others : List β} {a : α}
    {c : γ} (h : Reads limit reader items a) (hnext : Reads limit (next a) others c) :
    Reads limit (reader >>= next) (items ++ others) c := by
  intro hlength rest
  rw [List.length_append] at hlength
  rw [StateT.run_bind, List.append_assoc, h (by omega)]
  exact hnext (by omega) rest

/-- The first field of a record and the others. -/
theorem Reads.field {reader : Reader β α} {next : α → Reader β γ} {items : List β}
    {others : List (List β)} {a : α} {c : γ} (h : Reads limit reader items a)
    (hnext : Reads limit (next a) others.flatten c) :
    Reads limit (reader >>= next) (items :: others).flatten c :=
  h.append hnext

theorem Reads.map {reader : Reader β α} {items : List β} {a : α} (f : α → γ)
    (h : Reads limit reader items a) : Reads limit (f <$> reader) items (f a) := by
  intro hlength rest
  rw [StateT.run_map, h hlength]
  rfl

/-- A value that passes a check. -/
theorem Reads.check {reader : Reader β α} {items : List β} {a : α} {p : α → Prop}
    [DecidablePred p] {f : α → γ} (h : Reads limit reader items a) (ha : p a) :
    Reads limit (do let a ← reader; if p a then pure (f a) else failure) items (f a) := by
  intro hlength rest
  rw [StateT.run_bind, h hlength]
  show StateT.run (if p a then pure (f a) else failure) rest = _
  rw [if_pos ha]
  rfl

theorem Extends.pure (a : α) : Extends (Pure.pure a : Reader β α) := by
  intro items b rest hread more
  cases hread
  rfl

theorem Extends.fail : Extends (failure : Reader β α) := fun _ _ _ hread => nomatch hread

theorem Extends.bind {reader : Reader β α} {next : α → Reader β γ} (h : Extends reader)
    (hnext : ∀ a, Extends (next a)) : Extends (reader >>= next) := by
  intro items c rest hread more
  rw [StateT.run_bind] at hread ⊢
  obtain ⟨⟨a, others⟩, hfirst, hsecond⟩ := Option.bind_eq_some_iff.mp hread
  rw [h items a others hfirst more]
  exact hnext a others c rest hsecond more

theorem Extends.map {reader : Reader β α} (f : α → γ) (h : Extends reader) :
    Extends (f <$> reader) := by
  intro items c rest hread more
  rw [StateT.run_map] at hread ⊢
  obtain ⟨⟨a, others⟩, hfirst, hsecond⟩ := Option.map_eq_some_iff.mp hread
  cases hsecond
  rw [h items a others hfirst more]
  rfl

theorem Extends.ite {c : Prop} [Decidable c] {reader other : Reader β α} (h : Extends reader)
    (hother : Extends other) : Extends (if c then reader else other) := by
  split
  · exact h
  · exact hother

/-- A value that is cut off is not read. -/
theorem Extends.run_take_eq_none {reader : Reader β α} (h : Extends reader) {items : List β} {a : α}
    (hreads : Reads limit reader items a) (hlimit : items.length < limit) {k : Nat}
    (hk : k < items.length) : reader.run (items.take k) = none := by
  cases hread : reader.run (items.take k) with
  | none => rfl
  | some result =>
      have hlonger := h _ result.1 result.2 hread (items.drop k)
      have hwhole := hreads hlimit []
      rw [List.append_nil] at hwhole
      rw [List.take_append_drop, hwhole] at hlonger
      have hrest := congrArg (List.length ∘ Prod.snd) (Option.some.inj hlonger)
      simp only [Function.comp_apply, List.length_nil, List.length_append, List.length_drop]
        at hrest
      omega

/-- The same reader over and over. -/
def replicate (reader : Reader β α) : Nat → Reader β (List α)
  | 0 => pure []
  | n + 1 => do
    let a ← reader
    let rest ← replicate reader n
    return a :: rest

theorem Reads.replicate {reader : Reader β α} {write : α → List β}
    (h : ∀ a, Reads limit reader (write a) a) (as : List α) :
    Reads limit (replicate reader as.length) (as.flatMap write) as := by
  induction as with
  | nil => exact .nil []
  | cons a as ih =>
      rw [List.flatMap_cons]
      exact (h a).append (ih.map (a :: ·))

theorem Extends.replicate {reader : Reader β α} (h : Extends reader) (n : Nat) :
    Extends (replicate reader n) := by
  induction n with
  | zero => exact .pure []
  | succ n ih => exact h.bind fun a => ih.bind fun rest => .pure (a :: rest)

/-- The next items as they are. -/
def take (n : Nat) : Reader β (List β) := fun items =>
  if n ≤ items.length then some (items.take n, items.drop n) else none

theorem run_take (n : Nat) (items : List β) : (take n).run items =
    if n ≤ items.length then some (items.take n, items.drop n) else none := rfl

theorem reads_take (items : List β) : Reads limit (take items.length) items items := by
  intro _ rest
  have hlength : items.length ≤ (items ++ rest).length := by simp
  rw [run_take, if_pos hlength, List.take_left, List.drop_left]

theorem extends_take (n : Nat) : Extends (take n : Reader β (List β)) := by
  intro items a rest hread more
  rw [run_take] at hread ⊢
  split at hread
  · cases hread
    rw [if_pos (by rw [List.length_append]; omega), List.take_append_of_le_length ‹_›,
      List.drop_append_of_le_length ‹_›]
  · cases hread

/-- How the values of a type are written and read. -/
structure Codec (β α : Type) where
  write : α → List β
  read : Reader β α

/-- What is written can be read if it is not too long, what was read is read also from a longer
stream, and no value is written as nothing. -/
structure Codec.Lawful (limit : Nat) (codec : Codec β α) : Prop where
  reads : ∀ a, Reads limit codec.read (codec.write a) a
  goesOn : Extends codec.read
  occupies : ∀ a, codec.write a ≠ []

/-- The items of a list behind their number. -/
def Codec.counted (count : Codec β Nat) (item : Codec β α) : Codec β (List α) where
  write items := count.write items.length ++ items.flatMap item.write
  read := do replicate item.read (← count.read)

theorem Codec.Lawful.length_le {item : Codec β α} (h : item.Lawful limit) (items : List α) :
    items.length ≤ (items.flatMap item.write).length := by
  induction items with
  | nil => exact Nat.le_refl 0
  | cons a items ih =>
      have hpos := List.length_pos_of_ne_nil (h.occupies a)
      rw [List.flatMap_cons, List.length_append, List.length_cons]
      omega

theorem Codec.Lawful.counted {count : Codec β Nat} {item : Codec β α} (h : item.Lawful limit)
    (hcount : ∀ n < limit, Reads limit count.read (count.write n) n) (hgoes : Extends count.read)
    (hwrites : ∀ n, count.write n ≠ []) : (Codec.counted count item).Lawful limit where
  reads items hlength rest := by
    have hle := h.length_le items
    have hlength' := hlength
    rw [Codec.counted, List.length_append] at hlength'
    exact Reads.append (hcount items.length (by omega)) (.replicate h.reads items) hlength rest
  goesOn := hgoes.bind fun n => h.goesOn.replicate n
  occupies items := List.append_ne_nil_of_left_ne_nil (hwrites _) _

/-- A number in `w` bytes, the lowest first. -/
def fixedWidth (w : Nat) : Codec UInt8 Nat where
  write := ByteOrder.littleEndian w
  read := ByteOrder.value <$> take w

theorem reads_fixedWidth {w n : Nat} (hn : n < 256 ^ w) :
    Reads limit (fixedWidth w).read ((fixedWidth w).write n) n := by
  have hread := (@reads_take _ limit (ByteOrder.littleEndian w n)).map ByteOrder.value
  rwa [ByteOrder.length_littleEndian, ByteOrder.value_littleEndian, Nat.mod_eq_of_lt hn] at hread

theorem extends_fixedWidth (w : Nat) : Extends (fixedWidth w).read := (extends_take w).map _

theorem fixedWidth_ne_nil {w : Nat} (hw : w ≠ 0) (n : Nat) : (fixedWidth w).write n ≠ [] := by
  obtain ⟨w, rfl⟩ := Nat.exists_eq_succ_of_ne_zero hw
  exact List.cons_ne_nil _ _

/-- Values that are written as their numbers. -/
def Codec.via (codec : Codec β Nat) (toNat : α → Nat) (ofNat : Nat → α) : Codec β α where
  write a := codec.write (toNat a)
  read := ofNat <$> codec.read

theorem Codec.Lawful.via_fixedWidth {w : Nat} {toNat : α → Nat} {ofNat : Nat → α} (hw : w ≠ 0)
    (hlt : ∀ a, toNat a < 256 ^ w) (hinv : ∀ a, ofNat (toNat a) = a) :
    ((fixedWidth w).via toNat ofNat).Lawful limit where
  reads a := by
    have hread := (@reads_fixedWidth limit _ _ (hlt a)).map ofNat
    rwa [hinv a] at hread
  goesOn := (extends_fixedWidth w).map _
  occupies a := fixedWidth_ne_nil hw _

end StreamCodec
