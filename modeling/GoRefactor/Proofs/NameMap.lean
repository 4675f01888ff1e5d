import GoRefactor.Go.Walk
import GoRefactor.Proofs.Attempt
import Mathlib.Data.List.Nodup
import Mathlib.Data.List.Perm.Basic
import Mathlib.Tactic.Tauto

/-!
# Laws of maps keyed by name

A map is determined by its members. So a map made from a list whose names are distinct does not
depend on the order of the list, and visiting the values of a map, putting them under their new
names and visiting them back gives the map again.
-/

namespace GoRefactor

namespace NameMap

variable {α : Type}

/-- No name of a map occurs twice. -/
theorem nodup_keys (map : NameMap α) : map.keys.Nodup := by
  refine List.pairwise_map.mpr (map.ordered.imp ?_)
  intro left right less same
  exact String.lt_irrefl _ (same ▸ less)

/-- No entry of a map occurs twice. -/
theorem nodup_entries (map : NameMap α) : map.entries.Nodup := List.Nodup.of_map _ map.nodup_keys

/-- Maps with the same members are equal. -/
theorem ext_mem {left right : NameMap α}
    (same : ∀ entry, entry ∈ left.entries ↔ entry ∈ right.entries) : left = right := by
  have perm := (List.perm_ext_iff_of_nodup left.nodup_entries right.nodup_entries).mpr same
  refine NameMap.ext (perm.eq_of_pairwise ?_ left.ordered right.ordered)
  intro first second _ _ less more
  exact absurd less (String.lt_asymm more)

/-- What is found under a name is the member with the name. -/
theorem get?_eq_some_iff {map : NameMap α} {name : String} {value : α} :
    map.get? name = some value ↔ (name, value) ∈ map.entries := by
  constructor
  · intro found
    obtain ⟨⟨key, held⟩, inside, rfl⟩ := Option.map_eq_some_iff.mp found
    have same : key = name := by simpa using List.find?_some inside
    exact same ▸ List.mem_of_find?_eq_some inside
  · intro member
    cases found : map.get? name with
    | none =>
      have missing := List.find?_eq_none.mp (Option.map_eq_none_iff.mp found) _ member
      simp at missing
    | some other =>
      obtain ⟨⟨key, held⟩, inside, rfl⟩ := Option.map_eq_some_iff.mp found
      have same : key = name := by simpa using List.find?_some inside
      have equal := List.inj_on_of_nodup_map map.nodup_keys
        (List.mem_of_find?_eq_some inside) member same
      rw [equal]

/-- Maps that have the same of some values under each name keep the same of their values. -/
theorem filter_values_eq {left right : NameMap α} {keep : α → Bool}
    (same : ∀ name value, keep value = true →
      (left.get? name = some value ↔ right.get? name = some value)) :
    left.values.filter keep = right.values.filter keep := by
  have part (map : NameMap α) : map.values.filter keep =
      (map.entries.filter fun entry => keep entry.2).map Prod.snd := List.filter_map
  rw [part, part]
  have perm : (left.entries.filter fun entry => keep entry.2).Perm
      (right.entries.filter fun entry => keep entry.2) := by
    refine (List.perm_ext_iff_of_nodup (left.nodup_entries.filter _)
      (right.nodup_entries.filter _)).mpr fun ⟨name, value⟩ => ?_
    rw [List.mem_filter, List.mem_filter, ← get?_eq_some_iff, ← get?_eq_some_iff]
    exact and_congr_left (same name value)
  refine congrArg _ (perm.eq_of_pairwise ?_ (left.ordered.filter _) (right.ordered.filter _))
  intro first second _ _ less more
  exact absurd less (String.lt_asymm more)

/-- The members after an insertion are the new one and those with other names. -/
theorem mem_insert_iff {map : NameMap α} {name : String} {value : α} {entry : String × α} :
    entry ∈ (map.insert name value).entries ↔
      entry = (name, value) ∨ entry ∈ map.entries ∧ entry.1 ≠ name := by
  change entry ∈ insertEntry name value map.entries ↔ _
  have ordered := map.ordered
  generalize map.entries = entries at ordered ⊢
  induction entries with
  | nil => simp [insertEntry]
  | cons head rest ih =>
    obtain ⟨below, others⟩ := List.pairwise_cons.mp ordered
    rw [insertEntry]
    split
    · rename_i before
      have apart : ∀ later ∈ head :: rest, later.1 ≠ name := by
        intro later member same
        rcases List.mem_cons.mp member with rfl | behind
        · exact String.lt_irrefl _ (same ▸ before)
        · exact String.lt_irrefl _ (same ▸ String.lt_trans before (below later behind))
      rw [List.mem_cons]
      constructor
      · rintro (new | old)
        · exact Or.inl new
        · exact Or.inr ⟨old, apart entry old⟩
      · rintro (new | ⟨old, -⟩)
        · exact Or.inl new
        · exact Or.inr old
    · split
      · rename_i same
        rw [List.mem_cons, List.mem_cons]
        constructor
        · rintro (new | old)
          · exact Or.inl new
          · refine Or.inr ⟨Or.inr old, fun equal => ?_⟩
            exact String.lt_irrefl _ (equal ▸ same ▸ below entry old)
        · rintro (new | ⟨rfl | old, other⟩)
          · exact Or.inl new
          · exact absurd same.symm other
          · exact Or.inr old
      · rename_i different
        have tail : entry ∈ insertEntry name value rest ↔
            entry = (name, value) ∨ entry ∈ rest ∧ entry.1 ≠ name := ih others
        rw [List.mem_cons, List.mem_cons, tail]
        constructor
        · rintro (rfl | new | ⟨old, other⟩)
          · exact Or.inr ⟨Or.inl rfl, fun same => different same.symm⟩
          · exact Or.inl new
          · exact Or.inr ⟨Or.inr old, other⟩
        · rintro (new | ⟨rfl | old, other⟩)
          · exact Or.inr (Or.inl new)
          · exact Or.inl rfl
          · exact Or.inr (Or.inr ⟨old, other⟩)

/-- An insertion changes what is found under its name only. -/
theorem get?_insert (map : NameMap α) (name : String) (value : α) (other : String) :
    (map.insert name value).get? other = if other = name then some value else map.get? other := by
  refine Option.ext fun found => ?_
  rw [get?_eq_some_iff, mem_insert_iff]
  by_cases same : other = name
  · rw [if_pos same, same]
    simp [eq_comm]
  · rw [if_neg same, get?_eq_some_iff]
    simp [same]

/-- Where names are distinct, a map made from a list has the members of the list. -/
theorem mem_ofList_iff {entries : List (String × α)} (distinct : (entries.map Prod.fst).Nodup)
    {entry : String × α} : entry ∈ (ofList entries).entries ↔ entry ∈ entries := by
  have folded (map : NameMap α) (apart : ∀ entry ∈ map.entries, entry.1 ∉ entries.map Prod.fst) :
      entry ∈ (entries.foldl (fun map entry => map.insert entry.1 entry.2) map).entries ↔
        entry ∈ map.entries ∨ entry ∈ entries := by
    induction entries generalizing map with
    | nil => simp
    | cons head rest ih =>
      rw [List.map_cons, List.nodup_cons] at distinct
      have kept : ∀ entry ∈ (map.insert head.1 head.2).entries, entry.1 ∉ rest.map Prod.fst := by
        intro entry member
        rcases mem_insert_iff.mp member with rfl | ⟨former, -⟩
        · exact distinct.1
        · exact fun later => apart entry former (List.mem_cons_of_mem _ later)
      rw [List.foldl_cons, ih distinct.2 _ kept, mem_insert_iff, List.mem_cons]
      constructor
      · rintro ((new | ⟨former, -⟩) | later)
        · exact Or.inr (Or.inl new)
        · exact Or.inl former
        · exact Or.inr (Or.inr later)
      · rintro (former | new | later)
        · refine Or.inl (Or.inr ⟨former, fun same => ?_⟩)
          exact apart entry former (by rw [List.map_cons, same]; exact List.mem_cons_self)
        · exact Or.inl (Or.inl new)
        · exact Or.inr later
  have made := folded empty (fun _ member => nomatch member)
  exact made.trans ⟨fun given => given.resolve_left (fun member => nomatch member), Or.inr⟩

/-- A list of entries in order is its own map. -/
theorem entries_ofList {entries : List (String × α)} (ordered : NameOrdered entries) :
    (ofList entries).entries = entries := by
  let given : NameMap α := ⟨entries, ordered⟩
  have same : ofList entries = given := ext_mem fun _ => mem_ofList_iff given.nodup_keys
  rw [same]

section WithValues

variable {map : NameMap α} {values : List α} (lengths : map.values.length = values.length)

include lengths

/-- A map with as many new values has as many keys as values. -/
theorem length_keys_eq : map.keys.length = values.length := by
  rw [← lengths, keys, NameMap.values, List.length_map, List.length_map]

/-- A map with as many new values has them under its keys. -/
theorem entries_withValues : (map.withValues values).entries = map.keys.zip values := by
  have names : (map.keys.zip values).map Prod.fst = map.keys :=
    List.map_fst_zip (Nat.le_of_eq (length_keys_eq lengths))
  have sorted : map.keys.Pairwise fun left right => left < right :=
    List.pairwise_map.mpr map.ordered
  rw [← names] at sorted
  exact entries_ofList (List.pairwise_map.mp sorted)

/-- A map with as many new values has these values. -/
theorem values_withValues : (map.withValues values).values = values := by
  rw [NameMap.values, entries_withValues lengths]
  exact List.map_snd_zip (Nat.le_of_eq (length_keys_eq lengths).symm)

/-- A map with as many new values has the keys it had. -/
theorem keys_withValues : (map.withValues values).keys = map.keys := by
  rw [keys, entries_withValues lengths]
  exact List.map_fst_zip (Nat.le_of_eq (length_keys_eq lengths))

end WithValues

/-- Changed values in place of the values are a change of each. -/
theorem withValues_map (map : NameMap α) (change : α → α) :
    map.withValues (map.values.map change) = map.mapValues change := by
  refine NameMap.ext ((entries_withValues (List.length_map _).symm).trans ?_)
  rw [keys, values, List.map_map, List.zip_map']
  rfl

/-- A map with its own values is itself. -/
theorem withValues_values (map : NameMap α) : map.withValues map.values = map := by
  have same := map.withValues_map id
  rw [List.map_id] at same
  exact same.trans (NameMap.ext (List.map_id _))

/-- A name has a value exactly when there is one. -/
theorem contains_iff {map : NameMap α} {name : String} :
    map.contains name = true ↔ ∃ value, (name, value) ∈ map.entries := by
  unfold contains
  rw [List.any_eq_true]
  constructor
  · rintro ⟨⟨key, value⟩, held, same⟩
    exact ⟨value, eq_of_beq same ▸ held⟩
  · rintro ⟨value, held⟩
    exact ⟨_, held, beq_self_eq_true name⟩

/-- A name has a value exactly when one is found. -/
theorem contains_iff_get? {map : NameMap α} {name : String} :
    map.contains name = true ↔ ∃ value, map.get? name = some value := by
  simp only [contains_iff, get?_eq_some_iff]

/-- A name has a value exactly when it is one of the keys. -/
theorem contains_iff_mem_keys {map : NameMap α} {name : String} :
    map.contains name = true ↔ name ∈ map.keys := by
  simp [contains_iff, keys]

/-- An insertion adds its name. -/
theorem contains_insert {map : NameMap α} {name other : String} {value : α} :
    (map.insert name value).contains other = true ↔ other = name ∨ map.contains other = true := by
  rw [contains_iff, contains_iff]
  simp only [mem_insert_iff, Prod.mk.injEq]
  by_cases same : other = name
  · simp [same]
  · simp [same]

/-- Insertions leave what is under other names. -/
theorem get?_foldl_insert {entries : List (String × α)} {name : String}
    (other : name ∉ entries.map Prod.fst) (map : NameMap α) :
    (entries.foldl (fun map (name, value) => map.insert name value) map).get? name =
      map.get? name := by
  induction entries generalizing map with
  | nil => rfl
  | cons entry rest ih =>
    obtain ⟨apart, others⟩ := List.ne_and_not_mem_of_not_mem_cons other
    rw [List.foldl_cons, ih others, get?_insert, if_neg apart]

/-- What is found after insertions was there, or is inserted. -/
theorem get?_or_mem_of_foldl_insert {entries : List (String × α)} {name : String} {value : α}
    {map : NameMap α}
    (found : (entries.foldl (fun map (name, value) => map.insert name value) map).get? name =
      some value) : map.get? name = some value ∨ (name, value) ∈ entries := by
  induction entries generalizing map with
  | nil => exact Or.inl found
  | cons entry rest ih =>
    rcases ih found with before | later
    · rw [get?_insert] at before
      split at before
      · rename_i same
        cases before
        exact Or.inr (same ▸ List.mem_cons_self)
      · exact Or.inl before
    · exact Or.inr (List.mem_cons_of_mem _ later)

/-- After a run of insertions a name is there if it was before or is among those inserted. -/
theorem contains_foldl_insert (entries : List (String × α)) (name : String) (map : NameMap α) :
    (entries.foldl (fun map (name, value) => map.insert name value) map).contains name = true ↔
      map.contains name = true ∨ name ∈ entries.map Prod.fst := by
  induction entries generalizing map with
  | nil => simp
  | cons entry rest ih =>
    rw [List.foldl_cons, ih, contains_insert, List.map_cons, List.mem_cons]
    tauto

section Filed

variable {name : α → String}

/-- Put values under their names. -/
def fileBy (name : α → String) (values : List α) : NameMap α :=
  ofList (values.map fun value => (name value, value))

/-- Every value of the map stands under the name it carries. -/
def Keyed (name : α → String) (map : NameMap α) : Prop :=
  ∀ entry ∈ map.entries, entry.1 = name entry.2

/-- A map that is put under new names is made from its values. -/
theorem rekey_eq_fileBy (map : NameMap α) : map.rekey name = fileBy name map.values := rfl

/-- Values with distinct names are the members of the map made from them. -/
theorem mem_fileBy_iff {values : List α} (distinct : (values.map name).Nodup)
    {entry : String × α} :
    entry ∈ (fileBy name values).entries ↔ entry.1 = name entry.2 ∧ entry.2 ∈ values := by
  have names : (values.map fun value => (name value, value)).map Prod.fst = values.map name := by
    rw [List.map_map]
    rfl
  unfold fileBy
  rw [mem_ofList_iff (names ▸ distinct), List.mem_map]
  constructor
  · rintro ⟨value, member, rfl⟩
    exact ⟨rfl, member⟩
  · rintro ⟨same, member⟩
    exact ⟨entry.2, member, Prod.ext same.symm rfl⟩

/-- A map made from values has no others. -/
theorem mem_of_mem_values_fileBy {values : List α} {value : α}
    (member : value ∈ (fileBy name values).values) : value ∈ values := by
  have folded (entries : List (String × α)) (map : NameMap α) (entry : String × α)
      (held : entry ∈ (entries.foldl (fun map entry => map.insert entry.1 entry.2) map).entries) :
      entry ∈ map.entries ∨ entry ∈ entries := by
    induction entries generalizing map with
    | nil => exact Or.inl held
    | cons head rest ih =>
      rcases ih _ held with early | late
      · rcases mem_insert_iff.mp early with new | ⟨former, -⟩
        · exact Or.inr (new ▸ List.mem_cons_self)
        · exact Or.inl former
      · exact Or.inr (List.mem_cons_of_mem _ late)
  obtain ⟨entry, held, rfl⟩ := List.mem_map.mp member
  rcases folded _ _ entry held with none | listed
  · cases none
  · obtain ⟨value, inside, rfl⟩ := List.mem_map.mp listed
    exact inside

/-- Values with distinct names are the values of the map made from them, in another order. -/
theorem values_fileBy {values : List α} (distinct : (values.map name).Nodup) :
    (fileBy name values).values.Perm values := by
  have listed : (values.map fun value => (name value, value)).Nodup :=
    List.Nodup.of_map Prod.fst (by rw [List.map_map]; exact distinct)
  have same : (fileBy name values).entries.Perm (values.map fun value => (name value, value)) := by
    refine (List.perm_ext_iff_of_nodup (nodup_entries _) listed).mpr fun entry => ?_
    rw [mem_fileBy_iff distinct, List.mem_map]
    constructor
    · rintro ⟨same, member⟩
      exact ⟨entry.2, member, Prod.ext same.symm rfl⟩
    · rintro ⟨value, member, rfl⟩
      exact ⟨rfl, member⟩
  have values_eq : (values.map fun value => (name value, value)).map Prod.snd = values := by
    rw [List.map_map]
    exact List.map_id _
  have mapped := same.map Prod.snd
  rwa [values_eq] at mapped

/-- In a map in which each value stands under its name, the keys are the names. -/
theorem Keyed.map_values {map : NameMap α} (keyed : map.Keyed name) :
    map.values.map name = map.keys := by
  unfold NameMap.values keys
  rw [List.map_map]
  exact List.map_congr_left fun entry member => (keyed entry member).symm

/-- Values of a map in which each stands under its name have distinct names. -/
theorem Keyed.nodup {map : NameMap α} (keyed : map.Keyed name) :
    (map.values.map name).Nodup := by
  rw [keyed.map_values]
  exact map.nodup_keys

/-- A map in which each value stands under its name is the one made from its values, in any
order. -/
theorem Keyed.fileBy_eq {map : NameMap α} (keyed : map.Keyed name) {values : List α}
    (same : values.Perm map.values) : fileBy name values = map := by
  have distinct : (values.map name).Nodup := ((same.map name).nodup_iff).mpr keyed.nodup
  refine ext_mem fun entry => ?_
  rw [mem_fileBy_iff distinct, same.mem_iff]
  constructor
  · rintro ⟨under, member⟩
    obtain ⟨held, inside, equal⟩ := List.mem_map.mp member
    have names : entry.1 = held.1 := by rw [under, keyed held inside, equal]
    rwa [Prod.ext names equal.symm]
  · intro member
    exact ⟨keyed entry member, List.mem_map_of_mem member⟩

/-- The values of a map stand under their names when they are put there. -/
theorem keyed_insert {map : NameMap α} (keyed : map.Keyed name) (value : α) :
    (map.insert (name value) value).Keyed name := by
  intro entry member
  rcases mem_insert_iff.mp member with rfl | ⟨former, -⟩
  · rfl
  · exact keyed entry former

/-- Values that are put under their names stand under them. -/
theorem keyed_fileBy (values : List α) : (fileBy name values).Keyed name := by
  have folded (start : NameMap α) (keyed : start.Keyed name) :
      ((values.map fun value => (name value, value)).foldl
        (fun map entry => map.insert entry.1 entry.2) start).Keyed name := by
    induction values generalizing start with
    | nil => exact keyed
    | cons value rest ih => exact ih _ (keyed_insert keyed value)
  exact folded ∅ fun _ none => nomatch none

/-- **There and back.** Values that were visited and put under their new names can be visited back,
and under their old names make the map again. -/
theorem visit_back {map : NameMap α} {visit back : α → Except Fault α} {images : List α}
    (keyed : map.Keyed name)
    (visited : List.Forall₂ (fun value image => visit value = .ok image) map.values images)
    (returns : ∀ value ∈ map.values, ∀ image, visit value = .ok image → back image = .ok value)
    (distinct : (images.map name).Nodup) :
    ∃ values, List.Forall₂ (fun image value => back image = .ok value)
        (fileBy name images).values values ∧ fileBy name values = map := by
  have returned : List.Forall₂ (fun image value => back image = .ok value) images map.values := by
    have both := (List.forall₂_and_left _ _).mpr ⟨fun value member => member, visited⟩
    exact (both.imp fun value image given => returns value given.1 image given.2).flip
  obtain ⟨values, turned, same⟩ := List.perm_comp_forall₂ (values_fileBy distinct) returned
  exact ⟨values, turned, keyed.fileBy_eq same⟩

end Filed

/-! ## Values -/

/-- A value that is found is one of the map. -/
theorem mem_values_of_get? {map : NameMap α} {name : String} {value : α}
    (found : map.get? name = some value) : value ∈ map.values := by
  obtain ⟨entry, inside, rfl⟩ := Option.map_eq_some_iff.mp found
  exact List.mem_map_of_mem (List.mem_of_find?_eq_some inside)

/-- The values after an insertion are the new one and former ones. -/
theorem mem_values_insert {map : NameMap α} {name : String} {value other : α}
    (member : other ∈ (map.insert name value).values) : other = value ∨ other ∈ map.values := by
  obtain ⟨entry, inside, rfl⟩ := List.mem_map.mp member
  rcases mem_insertEntry inside with rfl | old
  · exact Or.inl rfl
  · exact Or.inr (List.mem_map_of_mem old)

/-! ## Maps made from lists -/

/-- A map made from a list has members of the list only. -/
theorem mem_of_mem_ofList {entries : List (String × α)} {entry : String × α}
    (member : entry ∈ (ofList entries).entries) : entry ∈ entries := by
  have folded (map : NameMap α)
      (inside : entry ∈ (entries.foldl (fun map entry => map.insert entry.1 entry.2) map).entries) :
      entry ∈ map.entries ∨ entry ∈ entries := by
    clear member
    induction entries generalizing map with
    | nil => exact Or.inl inside
    | cons head rest ih =>
      rcases ih _ inside with former | later
      · rcases mem_insert_iff.mp former with rfl | ⟨old, -⟩
        · exact Or.inr List.mem_cons_self
        · exact Or.inl old
      · exact Or.inr (List.mem_cons_of_mem _ later)
  exact (folded empty member).resolve_left (fun none => nomatch none)

/-- What is found under a name in a map made from a list is listed under the name. -/
theorem mem_of_get?_ofList {entries : List (String × α)} {name : String} {value : α}
    (found : (ofList entries).get? name = some value) : (name, value) ∈ entries :=
  mem_of_mem_ofList (get?_eq_some_iff.mp found)

/-- Under a name that is listed, something is found in a map made from the list. -/
theorem exists_get?_ofList {entries : List (String × α)} {entry : String × α}
    (listed : entry ∈ entries) : ∃ value, (ofList entries).get? entry.1 = some value := by
  have folded (map : NameMap α) (known : (∃ value, map.get? entry.1 = some value) ∨
      entry ∈ entries) : ∃ value,
      (entries.foldl (fun map entry => map.insert entry.1 entry.2) map).get? entry.1 =
        some value := by
    clear listed
    induction entries generalizing map with
    | nil => exact known.resolve_right List.not_mem_nil
    | cons head rest ih =>
      refine ih _ ?_
      rw [get?_insert]
      split
      · exact Or.inl ⟨head.2, rfl⟩
      · rename_i other
        rcases known with before | here
        · exact Or.inl before
        · refine Or.inr ((List.mem_cons.mp here).resolve_left fun same => other ?_)
          rw [same]
  exact folded empty (Or.inr listed)

end NameMap

end GoRefactor
