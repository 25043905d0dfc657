/-!
# Numerals

Natural numbers written in a base of at most sixteen. Reading admits one leading plus sign, any
number of leading zeros and digits of either case; writing uses none of these freedoms.
-/

namespace BankTrace.Numeral

/-- The value of a digit, of either case. -/
def digit? (c : Char) : Option Nat :=
  if '0' ≤ c ∧ c ≤ '9' then some (c.toNat - '0'.toNat)
  else if 'a' ≤ c ∧ c ≤ 'f' then some (c.toNat - 'a'.toNat + 10)
  else if 'A' ≤ c ∧ c ≤ 'F' then some (c.toNat - 'A'.toNat + 10)
  else none

/-- The number whose digits so far have the value `seen` and continue with the given characters. -/
def readFrom? (base seen : Nat) : List Char → Option Nat
  | [] => some seen
  | c :: rest =>
      match digit? c with
      | some d => if d < base then readFrom? base (seen * base + d) rest else none
      | none => none

/-- The number written by one or more digits. -/
def digits? (base : Nat) : List Char → Option Nat
  | [] => none
  | text => readFrom? base 0 text

/-- The number written by an optional plus sign and one or more digits. -/
def read? (base : Nat) : List Char → Option Nat
  | '+' :: text => digits? base text
  | text => digits? base text

/-- The digits of a number, most significant first, in lower case. -/
def write (base n : Nat) : String := String.ofList (Nat.toDigits base n)

end BankTrace.Numeral
