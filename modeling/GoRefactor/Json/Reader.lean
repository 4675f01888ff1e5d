import GoRefactor.Json.Number

/-!
# Reading JSON

The reader accepts one value with blanks around it. It refuses leading zeros and control characters
in strings. Three things follow the grammar and stand for no value: a string or a member's name with
half of a surrogate pair, a number beyond the range of numbers, and nesting beyond a limit. They are
kept as unreadable parts, so that whoever takes typed values from the document can tell whether they
matter.
-/

namespace GoRefactor.Json

/-- Blanks between the parts of a value. -/
def isGap (c : Char) : Bool := c == ' ' || c == '\n' || c == '\t' || c == '\r'

/-- Drop the blanks in front. -/
def skipGap (cs : List Char) : List Char := cs.dropWhile isGap

/-- Value of a hexadecimal digit. -/
def hexDigit? (c : Char) : Option Nat :=
  if '0' ≤ c && c ≤ '9' then some (c.toNat - 48)
  else if 'a' ≤ c && c ≤ 'f' then some (c.toNat - 87)
  else if 'A' ≤ c && c ≤ 'F' then some (c.toNat - 55)
  else none

/-- Value of four hexadecimal digits. -/
def hexUnit? (a b c d : Char) : Option Nat := do
  let x ← hexDigit? a
  let y ← hexDigit? b
  let z ← hexDigit? c
  let w ← hexDigit? d
  return ((x * 16 + y) * 16 + z) * 16 + w

/-- The unit is the first half of a surrogate pair. -/
def isHighHalf (unit : Nat) : Bool := 0xd800 ≤ unit && unit < 0xdc00

/-- The unit is the second half of a surrogate pair. -/
def isLowHalf (unit : Nat) : Bool := 0xdc00 ≤ unit && unit < 0xe000

/-- The character that a surrogate pair stands for. -/
def pairedChar (high low : Nat) : Char :=
  Char.ofNat (0x10000 + (high - 0xd800) * 0x400 + (low - 0xdc00))

/-- The character a one-letter escape stands for. -/
def escaped? (c : Char) : Option Char :=
  match c with
  | '"' => some '"'
  | '\\' => some '\\'
  | '/' => some '/'
  | 'b' => some '\x08'
  | 'f' => some '\x0c'
  | 'n' => some '\n'
  | 'r' => some '\r'
  | 't' => some '\t'
  | _ => none

/-- Read the rest of a string, past its opening quote. `front` holds what was read of it, the last
character first, or nothing once half of a surrogate pair was met. -/
def readString (front : Option (List Char)) : List Char → Option (Option String × List Char)
  | [] => none
  | '"' :: rest => some (front.map fun text => String.ofList text.reverse, rest)
  | '\\' :: 'u' :: a :: b :: c :: d :: '\\' :: 'u' :: e :: f :: g :: h :: rest =>
    match hexUnit? a b c d with
    | none => none
    | some unit =>
      if isHighHalf unit then
        match hexUnit? e f g h with
        | none => none
        | some low =>
          if isLowHalf low then readString (front.map (pairedChar unit low :: ·)) rest
          else readString none ('\\' :: 'u' :: e :: f :: g :: h :: rest)
      else
        let text := if isLowHalf unit then none else front.map (Char.ofNat unit :: ·)
        readString text ('\\' :: 'u' :: e :: f :: g :: h :: rest)
  | '\\' :: 'u' :: a :: b :: c :: d :: rest =>
    match hexUnit? a b c d with
    | none => none
    | some unit =>
      let text :=
        if isHighHalf unit || isLowHalf unit then none else front.map (Char.ofNat unit :: ·)
      readString text rest
  | '\\' :: c :: rest =>
    match escaped? c with
    | none => none
    | some plain => readString (front.map (plain :: ·)) rest
  | c :: rest =>
    if c.toNat < 32 || c == '\\' then none else readString (front.map (c :: ·)) rest

/-- The value of a string that was read. -/
def stringValue : Option String → Json
  | some text => .string text
  | none => .unreadable

/-- An array or object that opens where `depth` further levels of nesting are allowed. -/
def enclosed (depth : Nat) (value : Json) : Json :=
  match depth with
  | 0 => .unreadable
  | _ + 1 => value

/-- The object with the given members, if all their names can be read. -/
def objectValue (members : List (Option String × Json)) : Json :=
  match members.mapM fun (name, value) => name.map fun name => (name, value) with
  | some members => .object members
  | none => .unreadable

mutual

/-- Read a value with blanks in front. `fuel` bounds the number of steps and `depth` the
nesting of arrays and objects. -/
def readValue : Nat → Nat → List Char → Option (Json × List Char)
  | 0, _, _ => none
  | fuel + 1, depth, cs =>
    match skipGap cs with
    | 'n' :: 'u' :: 'l' :: 'l' :: rest => some (.null, rest)
    | 't' :: 'r' :: 'u' :: 'e' :: rest => some (.bool true, rest)
    | 'f' :: 'a' :: 'l' :: 's' :: 'e' :: rest => some (.bool false, rest)
    | '"' :: rest => do
      let (text, after) ← readString (some []) rest
      return (stringValue text, after)
    | '[' :: rest =>
      match skipGap rest with
      | ']' :: after => some (enclosed depth (.array []), after)
      | _ => do
        let (items, after) ← readItems fuel (depth - 1) rest
        return (enclosed depth (.array items), after)
    | '\x7b' :: rest =>
      match skipGap rest with
      | '\x7d' :: after => some (enclosed depth (.object []), after)
      | _ => do
        let (members, after) ← readMembers fuel (depth - 1) rest
        return (enclosed depth (objectValue members), after)
    | other => do
      let (numeral, after) ← readNumeral other
      return (numeral.value, after)

/-- Read the items of an array up to its closing bracket. -/
def readItems : Nat → Nat → List Char → Option (List Json × List Char)
  | 0, _, _ => none
  | fuel + 1, depth, cs => do
    let (item, afterItem) ← readValue fuel depth cs
    match skipGap afterItem with
    | ',' :: rest => do
      let (items, after) ← readItems fuel depth rest
      return (item :: items, after)
    | ']' :: after => return ([item], after)
    | _ => none

/-- Read the members of an object up to its closing brace. -/
def readMembers : Nat → Nat → List Char → Option (List (Option String × Json) × List Char)
  | 0, _, _ => none
  | fuel + 1, depth, cs =>
    match skipGap cs with
    | '"' :: rest => do
      let (name, afterName) ← readString (some []) rest
      match skipGap afterName with
      | ':' :: valueText => do
        let (value, afterValue) ← readValue fuel depth valueText
        match skipGap afterValue with
        | ',' :: more => do
          let (members, after) ← readMembers fuel depth more
          return ((name, value) :: members, after)
        | '\x7d' :: after => return ([(name, value)], after)
        | _ => none
      | _ => none
    | _ => none

end

/-- Deepest nesting of arrays and objects that documents may have. -/
def nestingLimit : Nat := 127

/-- Read a text that is one value, with at most `depth` levels of nesting. -/
def readWithin? (depth : Nat) (text : String) : Option Json := do
  let cs := text.toList
  let (value, rest) ← readValue (2 * cs.length + 2) depth cs
  if (skipGap rest).isEmpty then some value else none

/-- Read a document. -/
def read? (text : String) : Option Json := readWithin? nestingLimit text

end GoRefactor.Json
