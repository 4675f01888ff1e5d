/-!
# Decimal numbers in text

Natural numbers as users type them: digits, with a plus sign in front if they like.
-/

namespace GoRefactor

/-- Value of decimal digits. -/
def decimalValue (digits : List Char) : Nat :=
  digits.foldl (fun value c => 10 * value + (c.toNat - '0'.toNat)) 0

/-- The natural number below a bound that characters spell. -/
def decimalChars? (bound : Nat) (cs : List Char) : Option Nat :=
  let digits := match cs with
    | '+' :: rest => rest
    | cs => cs
  if !digits.isEmpty && digits.all Char.isDigit && decimalValue digits < bound then
    some (decimalValue digits)
  else none

/-- The natural number below a bound that a text spells. -/
def decimal? (bound : Nat) (text : String) : Option Nat := decimalChars? bound text.toList

end GoRefactor
