import GoRefactor.Text.Letter.Table

/-!
# Letters, numerals and their case

The character classes that identifiers and camel-case words are made of. ASCII characters are
decided directly; every other character is looked up in the tables.
-/

namespace GoRefactor

/-- Letters, as identifiers count them. -/
def isLetter (c : Char) : Bool :=
  if c.val < 128 then c.isAlpha else Letter.inTable Letter.alphabetic c.toNat

/-- Numerals: digits, letter numbers and other numbers. -/
def isNumeral (c : Char) : Bool :=
  if c.val < 128 then c.isDigit else Letter.inTable Letter.numeric c.toNat

/-- Upper-case letters. -/
def isUpper (c : Char) : Bool :=
  if c.val < 128 then c.isUpper else Letter.inTable Letter.uppercase c.toNat

/-- Lower-case letters. -/
def isLower (c : Char) : Bool :=
  if c.val < 128 then c.isLower else Letter.inTable Letter.lowercase c.toNat

/-- Letters that come in cases, title case included. -/
def isCased (c : Char) : Bool :=
  isUpper c || isLower c || Letter.inTable Letter.titlecase c.toNat

/-- ASCII marks that do not interrupt a run of cased letters. -/
def asciiCaseIgnorable : List Char := ['\x27', '.', ':', '^', '\x60']

/-- Marks that do not interrupt a run of cased letters. -/
def isCaseIgnorable (c : Char) : Bool :=
  if c.val < 128 then asciiCaseIgnorable.contains c
  else Letter.inTable Letter.caseIgnorable c.toNat

end GoRefactor
