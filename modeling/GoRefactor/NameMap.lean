/-!
# Maps keyed by name

A finite map from names to values, kept as the list of its entries in increasing order of name.
The order is part of the type, so two maps with the same entries are equal, and walking a map
visits names in byte order.
-/

namespace GoRefactor

/-- Entries in strictly increasing order of name. -/
def NameOrdered {α : Type} (entries : List (String × α)) : Prop :=
  entries.Pairwise fun left right => left.1 < right.1

/-- A map from names to values. -/
structure NameMap (α : Type) where
  /-- The entries, by increasing name. -/
  entries : List (String × α)
  /-- Names increase strictly, so none occurs twice. -/
  ordered : NameOrdered entries

namespace NameMap

variable {α β : Type}

/-- The map without entries. -/
def empty : NameMap α := ⟨[], List.Pairwise.nil⟩

/-- The default map is the empty one. -/
instance : Inhabited (NameMap α) := ⟨empty⟩

/-- The map without entries, written `∅`. -/
instance : EmptyCollection (NameMap α) := ⟨empty⟩

/-- Maps with the same entries are equal. -/
@[ext]
theorem ext {left right : NameMap α} (same : left.entries = right.entries) : left = right := by
  cases left
  cases right
  simp_all

/-- The value under a name. -/
def get? (map : NameMap α) (name : String) : Option α :=
  (map.entries.find? fun entry => entry.1 == name).map Prod.snd

/-- Whether a name has a value. -/
def contains (map : NameMap α) (name : String) : Bool :=
  map.entries.any fun entry => entry.1 == name

/-- The names, in increasing order. -/
def keys (map : NameMap α) : List String := map.entries.map Prod.fst

/-- The values, by increasing name. -/
def values (map : NameMap α) : List α := map.entries.map Prod.snd

/-- Number of entries. -/
def size (map : NameMap α) : Nat := map.entries.length

/-- Put an entry in its place, over a former one of the same name. -/
def insertEntry (name : String) (value : α) : List (String × α) → List (String × α)
  | [] => [(name, value)]
  | entry :: rest =>
    if name < entry.1 then (name, value) :: entry :: rest
    else if name = entry.1 then (name, value) :: rest
    else entry :: insertEntry name value rest

/-- The entries after an insertion are the new one and former ones. -/
theorem mem_insertEntry {name : String} {value : α} {entries : List (String × α)}
    {entry : String × α} (member : entry ∈ insertEntry name value entries) :
    entry = (name, value) ∨ entry ∈ entries := by
  induction entries with
  | nil => simpa [insertEntry] using member
  | cons head rest ih =>
    rw [insertEntry] at member
    split at member
    · simpa using member
    · split at member
      · rcases List.mem_cons.mp member with new | old
        · exact Or.inl new
        · exact Or.inr (List.mem_cons_of_mem _ old)
      · rcases List.mem_cons.mp member with first | later
        · exact Or.inr (first ▸ List.mem_cons_self)
        · rcases ih later with new | old
          · exact Or.inl new
          · exact Or.inr (List.mem_cons_of_mem _ old)

/-- Insertion keeps names in order. -/
theorem ordered_insertEntry (name : String) (value : α) {entries : List (String × α)}
    (ordered : NameOrdered entries) : NameOrdered (insertEntry name value entries) := by
  induction entries with
  | nil => simp [insertEntry, NameOrdered]
  | cons head rest ih =>
    have parts := List.pairwise_cons.mp ordered
    rw [insertEntry]
    split
    · rename_i before
      refine List.pairwise_cons.mpr ⟨?_, ordered⟩
      intro entry member
      rcases List.mem_cons.mp member with first | later
      · exact first ▸ before
      · exact String.lt_trans before (parts.1 entry later)
    · split
      · rename_i same
        refine List.pairwise_cons.mpr ⟨?_, parts.2⟩
        intro entry member
        exact same ▸ parts.1 entry member
      · rename_i notBefore different
        refine List.pairwise_cons.mpr ⟨?_, ih parts.2⟩
        intro entry member
        rcases mem_insertEntry member with new | old
        · have above : head.1 ≤ name := String.not_lt.mp notBefore
          by_cases less : head.1 < name
          · exact new ▸ less
          · exact absurd (String.le_antisymm (String.not_lt.mp less) above) different
        · exact parts.1 entry old

/-- The map with a value put under a name, in place of a former one. -/
def insert (map : NameMap α) (name : String) (value : α) : NameMap α :=
  ⟨insertEntry name value map.entries, ordered_insertEntry name value map.ordered⟩

/-- The map of a list of entries; of two entries with one name the later counts. -/
def ofList (entries : List (String × α)) : NameMap α :=
  entries.foldl (fun map entry => map.insert entry.1 entry.2) empty

/-- Change every value and keep the names. -/
def mapValues (map : NameMap α) (change : α → β) : NameMap β :=
  ⟨map.entries.map fun entry => (entry.1, change entry.2), by
    have ordered := map.ordered
    unfold NameOrdered at *
    exact List.pairwise_map.mpr ordered⟩

/-- Change the value under one name, if it has one. -/
def modify (map : NameMap α) (name : String) (change : α → α) : NameMap α :=
  ⟨map.entries.map fun entry => if entry.1 = name then (entry.1, change entry.2) else entry, by
    have ordered := map.ordered
    unfold NameOrdered at *
    refine List.pairwise_map.mpr (ordered.imp ?_)
    intro left right less
    split <;> split <;> exact less⟩

/-- Put every value under the name it carries; of two values with one name the later counts. -/
def rekey (map : NameMap α) (name : α → String) : NameMap α :=
  ofList (map.values.map fun value => (name value, value))

end NameMap

end GoRefactor
