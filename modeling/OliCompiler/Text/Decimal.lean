/-!
Decimal numerals: runs of digits, and 32-bit integers with an optional sign.
-/

namespace OliCompiler.Decimal

def isDigit (c : Char) : Bool := '0' ≤ c && c ≤ '9'

/-- The number that a run of digits denotes. -/
def value (digits : List Char) : Nat :=
  digits.foldl (fun number digit => 10 * number + (digit.toNat - '0'.toNat)) 0

/-- The largest 32-bit signed integer. -/
def greatest : Nat := 2147483647

/-- The 32-bit integer that a magnitude and a sign denote, if it fits. -/
def signed? (negative : Bool) (magnitude : Nat) : Option Int32 :=
  if negative then
    if magnitude ≤ greatest + 1 then some (Int32.ofInt (-magnitude)) else none
  else
    if magnitude ≤ greatest then some (Int32.ofInt magnitude) else none

/-- The 32-bit integer that a numeral denotes: one sign at most, then at least one digit and nothing
else. -/
def int32? (numeral : List Char) : Option Int32 :=
  let (negative, digits) :=
    match numeral with
    | '-' :: digits => (true, digits)
    | '+' :: digits => (false, digits)
    | digits => (false, digits)
  if digits.isEmpty || !digits.all isDigit then none else signed? negative (value digits)

end OliCompiler.Decimal
