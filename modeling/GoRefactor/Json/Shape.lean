import GoRefactor.Json.Value

/-!
# Shapes of JSON values

How typed values are taken from JSON. A record is an object whose fields may stand in any order,
or an array that gives them in order; unknown fields are ignored unless the record is closed, and
no known field may occur twice. A choice is tagged by a field that names it.

What is tagged is held as a whole before its tag is known, so all of it must be readable, and within
it a tag may also be given by its number.
-/

namespace GoRefactor.Json

/-- A text. -/
def text? : Json → Option String
  | .string value => some value
  | _ => none

/-- A truth value. -/
def bool? : Json → Option Bool
  | .bool value => some value
  | _ => none

/-- A natural number below a bound. -/
def natBelow? (bound : Nat) : Json → Option Nat
  | .int value => if 0 ≤ value && value < bound then some value.toNat else none
  | _ => none

/-- An unsigned 64-bit number. -/
def word? : Json → Option Nat := natBelow? UInt64.size

/-- An unsigned 32-bit number. -/
def halfWord? : Json → Option Nat := natBelow? UInt32.size

/-- A list of values of one shape. -/
def list? {α : Type} (decode : Json → Option α) : Json → Option (List α)
  | .array items => items.mapM decode
  | _ => none

/-- A value or null. -/
def nullable? {α : Type} (decode : Json → Option α) : Json → Option (Option α)
  | .null => some none
  | json => (decode json).map some

/-- The fields of a record that were given. -/
structure Record where
  /-- Given fields. -/
  members : List (String × Json)
  /-- The fields were given by position, not by name. -/
  placed : Bool

/-- No two members have the same name. -/
def distinctNames : List (String × Json) → Bool
  | [] => true
  | entry :: rest => !rest.any (fun other => other.1 == entry.1) && distinctNames rest

/-- View a value as a record with the given field names. A closed record refuses other names. -/
def record? (closed : Bool) (names : List String) : Json → Option Record
  | .object members =>
    let known := members.filter fun entry => names.contains entry.1
    if distinctNames known && (!closed || known.length == members.length) then
      some ⟨known, false⟩
    else none
  | .array items => if items.length ≤ names.length then some ⟨names.zip items, true⟩ else none
  | _ => none

namespace Record

/-- The given value of a field. -/
def get? (record : Record) (name : String) : Option Json :=
  (record.members.find? fun entry => entry.1 == name).map Prod.snd

/-- A field that must be given. -/
def required? {α : Type} (record : Record) (name : String) (decode : Json → Option α) : Option α :=
  (record.get? name).bind decode

/-- A field that has a default. -/
def withDefault? {α : Type} (record : Record) (name : String) (default : α)
    (decode : Json → Option α) : Option α :=
  match record.get? name with
  | some json => decode json
  | none => some default

/-- A field that may be null or left out, but not skipped in a record given by position. -/
def optional? {α : Type} (record : Record) (name : String) (decode : Json → Option α) :
    Option (Option α) :=
  match record.get? name with
  | some json => nullable? decode json
  | none => if record.placed then none else some none

end Record

/-- Where a value is taken from. -/
inductive Origin where
  /-- Straight from a document. -/
  | document
  /-- From within a tagged value that was held as a whole. -/
  | held
deriving DecidableEq, Repr

/-- Read a tag by its name or, within a held value, by its place among the tags. -/
def tag? (origin : Origin) (tags : List String) : Json → Option String
  | .string tag => if tags.contains tag then some tag else none
  | .int place =>
    match origin with
    | .document => none
    | .held => if 0 ≤ place then tags[place.toNat]? else none
  | _ => none

/-- Split a tagged value into its tag and the value without it. -/
def tagged? (origin : Origin) (key : String) (tags : List String) : Json → Option (String × Json)
  | .object members =>
    match members.partition fun entry => entry.1 == key with
    | ([(_, tag)], rest) => (tag? origin tags tag).map fun tag => (tag, .object rest)
    | _ => none
  | .array (tag :: rest) => (tag? origin tags tag).map fun tag => (tag, .array rest)
  | _ => none

/-- Read a value that is held as a whole, given how to read it from its readable parts. -/
def whole? {α : Type} (decode : Json → Option α) (json : Json) : Option α :=
  if json.isReadable then decode json else none

end GoRefactor.Json
