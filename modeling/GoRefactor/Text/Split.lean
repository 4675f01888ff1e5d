/-!
# Cutting text at a character

The pieces between the occurrences of a separator, and the lines of a text.
-/

namespace GoRefactor

/-- Pieces between separators; always at least one. -/
def splitChars (separator : Char) : List Char → List (List Char)
  | [] => [[]]
  | c :: cs =>
    if c == separator then [] :: splitChars separator cs
    else
      match splitChars separator cs with
      | [] => [[c]]
      | piece :: pieces => (c :: piece) :: pieces

/-- Pieces of a text between separators; always at least one. -/
def splitText (separator : Char) (text : String) : List String :=
  (splitChars separator text.toList).map String.ofList

/-- A line without the carriage return that closes it. -/
def dropReturn (line : List Char) : List Char :=
  match line.reverse with
  | '\r' :: rest => rest.reverse
  | _ => line

/-- Lines of a text: a line break ends a line, and text after the last one is a line of its own.
A carriage return before a line break belongs to the break; one at the very end does not. -/
def linesOf (cs : List Char) : List (List Char) :=
  let pieces := splitChars '\n' cs
  match pieces.getLast? with
  | some [] => pieces.dropLast.map dropReturn
  | some last => pieces.dropLast.map dropReturn ++ [last]
  | none => []

/-- The text before and after the last occurrence of a separator. -/
def splitLast? (separator : Char) (text : String) : Option (String × String) :=
  let reversed := text.toList.reverse
  match reversed.dropWhile (· != separator) with
  | [] => none
  | _ :: before =>
    some (String.ofList before.reverse,
      String.ofList (reversed.takeWhile (· != separator)).reverse)

end GoRefactor
