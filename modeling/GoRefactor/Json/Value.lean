/-!
# JSON values

The values that snapshots, plans, settings and responses are written as. Objects keep their
members as they stand, in order and with repetitions, so that a reader can tell a repeated field
from a single one. Numbers are integers of 64 bits; any other number keeps its text. A part that is
written correctly but stands for no value is kept as unreadable: it does no harm where it is
ignored.
-/

namespace GoRefactor

/-- A JSON value. -/
inductive Json where
  | null
  | bool (value : Bool)
  | int (value : Int)
  | real (digits : String)
  | string (value : String)
  | array (items : List Json)
  | object (members : List (String × Json))
  /-- Something written that stands for no value. -/
  | unreadable
deriving Repr, Inhabited, BEq

namespace Json

/-- A natural number as a value. -/
def nat (value : Nat) : Json := .int value

/-- A list of texts as a value. -/
def strings (texts : List String) : Json := .array (texts.map .string)

/-- A value or null. -/
def nullable {α : Type} (encode : α → Json) : Option α → Json
  | some value => encode value
  | none => .null

/-- A member that is written only when there is a value. -/
def present {α : Type} (name : String) (encode : α → Json) : Option α → List (String × Json)
  | some value => [(name, encode value)]
  | none => []

/-- The value of an object's member. -/
def member? (json : Json) (name : String) : Option Json :=
  match json with
  | .object members => (members.find? fun entry => entry.1 == name).map Prod.snd
  | _ => none

mutual

/-- Every part of the value is readable. -/
def isReadable : Json → Bool
  | .unreadable => false
  | .array items => areReadable items
  | .object members => haveReadable members
  | _ => true

/-- All items are readable. -/
def areReadable : List Json → Bool
  | [] => true
  | item :: items => isReadable item && areReadable items

/-- The values of all members are readable. -/
def haveReadable : List (String × Json) → Bool
  | [] => true
  | (_, value) :: members => isReadable value && haveReadable members

end

end Json

end GoRefactor
