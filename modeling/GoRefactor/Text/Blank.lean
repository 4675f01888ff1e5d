/-!
# Blank characters

White space as the Unicode character database lists it: twenty-five code points. Trimming and
splitting into words follow this class; the scanner of source text has a narrower one.
-/

namespace GoRefactor

/-- White space of any script. -/
def isBlank (c : Char) : Bool :=
  let point := c.toNat
  (9 ≤ point && point ≤ 13) || point == 32 || point == 0x85 || point == 0xa0 || point == 0x1680 ||
    (0x2000 ≤ point && point ≤ 0x200a) || point == 0x2028 || point == 0x2029 ||
    point == 0x202f || point == 0x205f || point == 0x3000

namespace Blank

/-- Drop blanks in front. -/
def trimStart (cs : List Char) : List Char := cs.dropWhile isBlank

/-- Drop blanks at the back. -/
def trimEnd (cs : List Char) : List Char := (cs.reverse.dropWhile isBlank).reverse

/-- Drop blanks on both sides. -/
def trim (cs : List Char) : List Char := trimEnd (trimStart cs)

/-- The maximal blank-free pieces of a text, in order. `word` holds the piece under way, its
characters last first. -/
def wordsFrom (word : List Char) : List Char → List (List Char)
  | [] => if word.isEmpty then [] else [word.reverse]
  | c :: cs =>
    if isBlank c then
      if word.isEmpty then wordsFrom [] cs else word.reverse :: wordsFrom [] cs
    else wordsFrom (c :: word) cs

/-- The maximal blank-free pieces of a text, in order. -/
def words (cs : List Char) : List (List Char) := wordsFrom [] cs

end Blank

/-- Text without the blanks on both sides. -/
def trimText (text : String) : String := String.ofList (Blank.trim text.toList)

/-- Text without the blanks at its end. -/
def trimTextEnd (text : String) : String := String.ofList (Blank.trimEnd text.toList)

/-- Every run of blanks becomes one space and the ends are trimmed, so that texts compare
without regard to layout. -/
def normalizeText (text : String) : String :=
  " ".intercalate ((Blank.words text.toList).map String.ofList)

end GoRefactor
