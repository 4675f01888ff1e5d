import GoRefactor.Json.Value

/-!
# Writing JSON

Two layouts: compact, on one line without blanks, and indented, with two spaces for each level.
Quotes, backslashes and control characters are escaped; every other character stands for itself.
-/

namespace GoRefactor.Json

/-- Layout of the written text. -/
inductive Layout where
  /-- One line, no blanks. -/
  | compact
  /-- One member or item on each line, two spaces for each level. -/
  | indented
deriving DecidableEq, Repr

/-- The written form of one character of a string. -/
def escapeChar (c : Char) : List Char :=
  if c == '"' then ['\\', '"']
  else if c == '\\' then ['\\', '\\']
  else if c == '\n' then ['\\', 'n']
  else if c == '\r' then ['\\', 'r']
  else if c == '\t' then ['\\', 't']
  else if c.toNat == 8 then ['\\', 'b']
  else if c.toNat == 12 then ['\\', 'f']
  else if c.toNat < 32 then
    ['\\', 'u', '0', '0', Nat.digitChar (c.toNat / 16), Nat.digitChar (c.toNat % 16)]
  else [c]

/-- A string in quotes. -/
def quote (text : String) : String :=
  String.ofList (['"'] ++ text.toList.flatMap escapeChar ++ ['"'])

/-- Line break and indentation in front of an item. -/
def Layout.gap (layout : Layout) (level : Nat) : String :=
  match layout with
  | .compact => ""
  | .indented => "\n" ++ String.ofList (List.replicate (2 * level) ' ')

/-- What stands between a member's name and its value. -/
def Layout.colon : Layout → String
  | .compact => ":"
  | .indented => ": "

mutual

/-- The text of a value at a level of nesting. -/
def write (layout : Layout) (level : Nat) : Json → String
  | .null => "null"
  | .unreadable => "null"
  | .bool true => "true"
  | .bool false => "false"
  | .int value => toString value
  | .real digits => digits
  | .string text => quote text
  | .array [] => "[]"
  | .array (item :: items) =>
    "[" ++ layout.gap (level + 1) ++ write layout (level + 1) item ++
      writeItems layout (level + 1) items ++ layout.gap level ++ "]"
  | .object [] => "\x7b\x7d"
  | .object (entry :: entries) =>
    "\x7b" ++ layout.gap (level + 1) ++ quote entry.1 ++ layout.colon ++
      write layout (level + 1) entry.2 ++
      writeMembers layout (level + 1) entries ++ layout.gap level ++ "\x7d"

/-- The further items of an array, each after a comma. -/
def writeItems (layout : Layout) (level : Nat) : List Json → String
  | [] => ""
  | item :: items =>
    "," ++ layout.gap level ++ write layout level item ++ writeItems layout level items

/-- The further members of an object, each after a comma. -/
def writeMembers (layout : Layout) (level : Nat) : List (String × Json) → String
  | [] => ""
  | (name, value) :: entries =>
    "," ++ layout.gap level ++ quote name ++ layout.colon ++ write layout level value ++
      writeMembers layout level entries

end

/-- A value on one line. -/
def compact (json : Json) : String := write .compact 0 json

/-- A value over several lines. -/
def pretty (json : Json) : String := write .indented 0 json

end GoRefactor.Json
