import GoRefactor.Json.Value

/-!
# Numbers in JSON

A written number is a whole part, perhaps a fraction and perhaps an exponent. One that is an integer
of 64 bits is read as that integer, minus zero apart. Any other keeps its text, provided that it
lies in the range of binary numbers with 53 significant bits and eleven bits of exponent; beyond
that range it is unreadable. The range is decided on the leading digits that fit a word.
-/

namespace GoRefactor.Json

/-- The parts of a written number. -/
structure Numeral where
  /-- There is a minus in front. -/
  negative : Bool
  /-- Digits of the whole part. -/
  whole : List Char
  /-- Digits behind the point; none when there is no fraction. -/
  fraction : List Char
  /-- Sign and digits of the exponent. -/
  exponent : Option (Option Char × List Char)
  /-- The number as it is written. -/
  written : List Char
deriving DecidableEq, Repr, Inhabited

/-- Value of a decimal digit. -/
def digitValue (digit : Char) : Nat := digit.toNat - '0'.toNat

/-- Value of a list of decimal digits. -/
def digitsValue (digits : List Char) : Nat :=
  digits.foldl (fun value digit => value * 10 + digitValue digit) 0

/-- Append digits to a word as long as the result fits a word. Gives the digits that are left. -/
def appendDigits (word : Nat) : List Char → Nat × List Char
  | [] => (word, [])
  | digit :: rest =>
    let longer := word * 10 + digitValue digit
    if longer < UInt64.size then appendDigits longer rest else (word, digit :: rest)

/-- The nearest number with at most 53 significant bits; a half goes to the even neighbour. -/
def nearestSignificand (value : Nat) : Nat :=
  let unit := 1 <<< (value.log2 + 1 - 53)
  let low := value % unit
  let base := value - low
  if 2 * low < unit || (2 * low == unit && base / unit % 2 == 0) then base else base + unit

/-- The least value that rounds beyond the range: half a unit above the largest number in it. -/
def beyondRange : Nat := (1 <<< 1024) - (1 <<< 970)

/-- The largest power of ten within the range. -/
def largestScale : Int := 308

namespace Numeral

/-- The number is an integer of 64 bits. Minus zero is none. -/
def integer? (numeral : Numeral) : Option Int :=
  let magnitude := digitsValue numeral.whole
  if !numeral.fraction.isEmpty || numeral.exponent.isSome then none
  else if numeral.negative then
    if 0 < magnitude && magnitude ≤ UInt64.size / 2 then some (Int.negOfNat magnitude) else none
  else if magnitude < UInt64.size then some (Int.ofNat magnitude)
  else none

/-- The leading digits as a word, and the power of ten that they count. -/
def scaled (numeral : Numeral) : Nat × Int :=
  let (front, dropped) := appendDigits 0 numeral.whole
  let (word, unused) := appendDigits front numeral.fraction
  let places := numeral.fraction.length - unused.length
  let shift : Int := match numeral.exponent with
    | some (some '-', digits) => Int.negOfNat (digitsValue digits)
    | some (_, digits) => Int.ofNat (digitsValue digits)
    | none => 0
  (word, Int.ofNat dropped.length - Int.ofNat places + shift)

/-- The number lies beyond the range. -/
def isBeyondRange (numeral : Numeral) : Bool :=
  let (word, scale) := numeral.scaled
  if word == 0 || scale < 0 then false
  else if largestScale < scale then true
  else beyondRange ≤ nearestSignificand word * nearestSignificand (Nat.pow 10 scale.toNat)

/-- The value of a written number. -/
def value (numeral : Numeral) : Json :=
  match numeral.integer? with
  | some value => .int value
  | none => if numeral.isBeyondRange then .unreadable else .real (String.ofList numeral.written)

end Numeral

/-- Split off the decimal digits in front. -/
def digits (cs : List Char) : List Char × List Char :=
  (cs.takeWhile Char.isDigit, cs.dropWhile Char.isDigit)

/-- Read a fraction, if there is one: a point and at least one digit. Gives its digits. -/
def readFraction (cs : List Char) : Option (List Char × List Char) :=
  match cs with
  | '.' :: rest =>
    let (places, after) := digits rest
    if places.isEmpty then none else some (places, after)
  | _ => some ([], cs)

/-- Read an exponent, if there is one: its mark, an optional sign and at least one digit. -/
def readExponent (cs : List Char) : Option (Option (Option Char × List Char) × List Char) :=
  match cs with
  | [] => some (none, [])
  | mark :: rest =>
    if mark == 'e' || mark == 'E' then
      let (sign, unsigned) := match rest with
        | '+' :: more => (some '+', more)
        | '-' :: more => (some '-', more)
        | _ => (none, rest)
      let (places, after) := digits unsigned
      if places.isEmpty then none else some (some (sign, places), after)
    else some (none, cs)

/-- Read a number. The whole part has no needless zeros in front. -/
def readNumeral (cs : List Char) : Option (Numeral × List Char) := do
  let (negative, unsigned) := match cs with
    | '-' :: rest => (true, rest)
    | _ => (false, cs)
  let (whole, afterWhole) := digits unsigned
  match whole with
  | [] => none
  | '0' :: _ :: _ => none
  | _ =>
    let (fraction, afterFraction) ← readFraction afterWhole
    let (exponent, after) ← readExponent afterFraction
    let written := cs.take (cs.length - after.length)
    return (⟨negative, whole, fraction, exponent, written⟩, after)

end GoRefactor.Json
