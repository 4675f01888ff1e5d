import GoRefactor.Json.Shape
import Mathlib.Data.List.Nodup

/-!
# Reading back what was written

Values that are written as records and tagged choices are taken from JSON as they were: a record
gives each of its fields, a list its items and a tagged value its tag.
-/

namespace GoRefactor.Json

variable {α : Type}

/-- Members have distinct names exactly when no name is repeated. -/
theorem distinctNames_iff {members : List (String × Json)} :
    distinctNames members = true ↔ (members.map Prod.fst).Nodup := by
  induction members with
  | nil => simp [distinctNames]
  | cons entry rest ih =>
    rw [distinctNames, List.map_cons, List.nodup_cons, Bool.and_eq_true, ih, Bool.not_eq_true',
      List.any_eq_false, List.mem_map]
    refine and_congr_left fun _ => ⟨?_, ?_⟩
    · rintro apart ⟨other, member, same⟩
      exact apart other member (beq_iff_eq.mpr same)
    · intro apart other member same
      exact apart ⟨other, member, eq_of_beq same⟩

/-- An object whose members are among the fields, in the order of the fields, is a record. -/
theorem record?_object {names : List String} {members : List (String × Json)}
    (among : (members.map Prod.fst).Sublist names) (distinct : names.Nodup) (closed : Bool) :
    record? closed names (.object members) = some ⟨members, false⟩ := by
  have known : members.filter (fun entry => names.contains entry.1) = members := by
    refine List.filter_eq_self.mpr fun entry member => ?_
    exact List.contains_iff_mem.mpr (among.subset (List.mem_map_of_mem member))
  have apart : distinctNames members = true := distinctNames_iff.mpr (distinct.sublist among)
  rw [record?, known, apart, beq_self_eq_true, Bool.or_true, Bool.and_true]
  rfl

/-- A record without fields gives nothing for any name. -/
@[simp]
theorem Record.get?_nil (placed : Bool) (name : String) :
    (⟨[], placed⟩ : Record).get? name = none := rfl

/-- The first field of a name counts. -/
@[simp]
theorem Record.get?_cons (name : String) (json : Json) (rest : List (String × Json))
    (placed : Bool) (other : String) :
    (⟨(name, json) :: rest, placed⟩ : Record).get? other =
      if name = other then some json else (⟨rest, placed⟩ : Record).get? other := by
  unfold get?
  rw [List.find?_cons]
  by_cases same : name = other
  · rw [if_pos same, beq_iff_eq.mpr same]
    rfl
  · rw [if_neg same, beq_eq_false_iff_ne.mpr same]

/-- A record is read on with its members. -/
theorem record?_bind {names : List String} {members : List (String × Json)}
    (among : (members.map Prod.fst).Sublist names) (distinct : names.Nodup) (closed : Bool)
    (next : Record → Option α) :
    (record? closed names (.object members) >>= next) = next ⟨members, false⟩ := by
  rw [record?_object among distinct]
  rfl

/-- A record is read on with the value of a field. -/
theorem Record.required?_bind {β : Type} {record : Record} {name : String} {json : Json}
    {decode : Json → Option α} {value : α} (given : record.get? name = some json)
    (read : decode json = some value) (next : α → Option β) :
    (record.required? name decode >>= next) = next value := by
  rw [required?, given, Option.bind_some, read]
  rfl

/-- A record is read on with the value of a field that could have been left out. -/
theorem Record.withDefault?_bind {β : Type} {record : Record} {name : String} {json : Json}
    {default : α} {decode : Json → Option α} {value : α} (given : record.get? name = some json)
    (read : decode json = some value) (next : α → Option β) :
    (record.withDefault? name default decode >>= next) = next value := by
  rw [withDefault?, given]
  simp only [read]
  rfl

/-- A tagged object is split at its tag. -/
theorem tagged?_object {origin : Origin} {key tag : String} {tags : List String}
    {rest : List (String × Json)} (known : tag ∈ tags) (others : ∀ entry ∈ rest, entry.1 ≠ key) :
    tagged? origin key tags (.object ((key, .string tag) :: rest)) = some (tag, .object rest) := by
  have behind : rest.filter (fun entry => entry.1 == key) = [] :=
    List.filter_eq_nil_iff.mpr fun entry member => by simpa using others entry member
  have ahead : rest.filter (fun entry => !(entry.1 == key)) = rest :=
    List.filter_eq_self.mpr fun entry member => by simpa using others entry member
  have split : (((key, Json.string tag) :: rest).partition fun entry => entry.1 == key) =
      ([(key, .string tag)], rest) := by
    rw [List.partition_eq_filter_filter, List.filter_cons, List.filter_cons, behind]
    simp only [beq_self_eq_true, Function.comp_apply, Bool.not_true, if_true, Bool.false_eq_true,
      if_false]
    exact congrArg (Prod.mk _) ahead
  have found : tag? origin tags (.string tag) = some tag := if_pos (List.contains_iff_mem.mpr known)
  rw [tagged?, split]
  simp only [found, Option.map_some]

/-- A tagged object is read by its tag. -/
theorem tagged?_bind {origin : Origin} {key tag : String} {tags : List String}
    {rest : List (String × Json)} (known : tag ∈ tags) (others : ∀ entry ∈ rest, entry.1 ≠ key)
    (next : String × Json → Option α) :
    (tagged? origin key tags (.object ((key, .string tag) :: rest)) >>= next) =
      next (tag, .object rest) := by
  rw [tagged?_object known others]
  rfl

/-- A list that was written item by item is read back. -/
theorem list?_array {encode : α → Json} {decode : Json → Option α} {values : List α}
    (each : ∀ value ∈ values, decode (encode value) = some value) :
    list? decode (.array (values.map encode)) = some values := by
  change (values.map encode).mapM decode = some values
  induction values with
  | nil => rfl
  | cons head rest ih =>
    rw [List.map_cons, List.mapM_cons, each head List.mem_cons_self,
      ih fun value member => each value (List.mem_cons_of_mem _ member)]
    rfl

/-- A value or null is read back. -/
theorem nullable?_nullable {encode : α → Json} {decode : Json → Option α} {value : Option α}
    (proper : ∀ given, encode given ≠ .null)
    (each : ∀ given ∈ value, decode (encode given) = some given) :
    nullable? decode (nullable encode value) = some value := by
  cases value with
  | none => rfl
  | some given =>
    rw [nullable, nullable?, each given rfl]
    · rfl
    · exact proper given

/-- A member that is there at most has its name. -/
theorem names_present (name : String) (encode : α → Json) (value : Option α) :
    ((present name encode value).map Prod.fst).Sublist [name] := by
  cases value with
  | none => exact List.nil_sublist _
  | some value => exact List.Sublist.refl _

/-- A text is read back. -/
@[simp]
theorem text?_string (text : String) : text? (.string text) = some text := rfl

/-- A truth value is read back. -/
@[simp]
theorem bool?_bool (value : Bool) : bool? (.bool value) = some value := rfl

/-- A word is read back. -/
theorem word?_nat {value : Nat} (small : value < UInt64.size) : word? (nat value) = some value := by
  have inside : (decide ((0 : Int) ≤ value) && decide ((value : Int) < UInt64.size)) = true := by
    rw [Bool.and_eq_true, decide_eq_true_eq, decide_eq_true_eq]
    exact ⟨Int.natCast_nonneg value, Int.ofNat_lt.mpr small⟩
  rw [word?, nat, natBelow?, if_pos inside, Int.toNat_natCast]

/-- A text or null is read back. -/
@[simp]
theorem nullable?_text (text : Option String) :
    nullable? text? (nullable .string text) = some text :=
  nullable?_nullable (fun _ same => nomatch same) fun _ _ => rfl

/-- An array of texts is read back as the texts. -/
@[simp]
theorem list?_strings (texts : List String) : list? text? (strings texts) = some texts :=
  list?_array fun _ _ => rfl

end GoRefactor.Json
