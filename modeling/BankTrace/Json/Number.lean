import BankTrace.Text.Numeral
import BankTrace.Text.Shortest

/-!
# Numbers

A number written without fraction and exponent is an integer if 64 bits hold it. Every other number
is a double, made from as many leading digits as 64 bits hold and one power of ten.
-/

namespace BankTrace.Json

inductive Number where
  /-- An integer below `2 ^ 64`. -/
  | natural (n : Nat)
  /-- The integer `-n`, where `n` is positive and at most `2 ^ 63`. -/
  | negative (n : Nat)
  /-- The double with the given bits. -/
  | double (bits : UInt64)
deriving DecidableEq, Repr

/-- A number as it is written: digits before the point, digits behind it, and the exponent. -/
structure Numerals where
  isNegative : Bool
  whole : List Char
  fraction : Option (List Char)
  /-- Whether the exponent is negative, and its digits. -/
  exponent : Option (Bool × List Char)
deriving DecidableEq, Repr

namespace Number

/-- As many of the digits as fit behind `seen` in 64 bits, and how many are left. -/
def accumulate (seen : Nat) : List Char → Nat × Nat
  | [] => (seen, 0)
  | c :: rest =>
      let next := seen * 10 + (c.toNat - '0'.toNat)
      if next < UInt64.size then accumulate next rest else (seen, rest.length + 1)

/-- `x * 10 ^ power`, if it is finite. A power that a double cannot hold is divided by in steps. -/
def scale : Nat → Float → Int → Option Float
  | 0, x, _ => some x
  | fuel + 1, x, power =>
      if 308 < power then if x == 0 then some x else none
      else if 0 ≤ power then
        let scaled := x * Float.ofScientific 1 false power.toNat
        if scaled.isInf then none else some scaled
      else if -308 ≤ power then some (x / Float.ofScientific 1 false (-power).toNat)
      else if x == 0 then some x
      else scale fuel (x / Float.ofScientific 1 false 308) (power + 308)

/-- The exponents up to this one are taken at their value; beyond it only the sign matters. -/
def maxExponent : Nat := 2147483647

/-- The double with the given digits and power of ten, if it is finite. -/
def double? (isNegative : Bool) (significand : Nat) (power : Int)
    (exponent : Option (Bool × List Char)) : Option Number :=
  let magnitude : Option Float :=
    match exponent with
    | none => scale 4 significand.toUInt64.toFloat power
    | some (down, digits) =>
        let n := (Numeral.digits? 10 digits).getD 0
        if n ≤ maxExponent then
          scale 4 significand.toUInt64.toFloat (if down then power - n else power + n)
        else if significand ≠ 0 ∧ !down then none
        else some 0
  magnitude.map fun x => double (if isNegative then -x else x).toBits

/-- The number that is written, if it is in range. -/
def ofNumerals? (written : Numerals) : Option Number :=
  let (whole, dropped) := accumulate 0 written.whole
  match written.fraction, written.exponent with
  | none, none =>
      if dropped = 0 then
        if !written.isNegative then some (natural whole)
        else if 0 < whole ∧ whole ≤ UInt64.size / 2 then some (negative whole)
        else double? true whole 0 none
      else double? written.isNegative whole dropped none
  | fraction, exponent =>
      let digits := fraction.getD []
      let (significand, ignored) := accumulate whole digits
      double? written.isNegative significand (dropped - (digits.length - ignored : Nat)) exponent

/-- The least and the greatest exponent of a leading digit that is written without an exponent. -/
def positional : Int × Int := (-5, 15)

/-- A decimal with a point: positional within `positional`, else with a signed exponent. -/
def decimalText (d : Shortest.Decimal) : String :=
  let digits := Nat.toDigits 10 d.digits
  let leading : Int := d.exponent + digits.length - 1
  let zeros (n : Nat) := List.replicate n '0'
  if positional.1 ≤ leading ∧ leading ≤ positional.2 then
    if 0 ≤ d.exponent then String.ofList (digits ++ zeros d.exponent.toNat ++ ['.', '0'])
    else if 0 ≤ leading then
      String.ofList (digits.take (leading.toNat + 1) ++ '.' :: digits.drop (leading.toNat + 1))
    else String.ofList ('0' :: '.' :: zeros (-leading - 1).toNat ++ digits)
  else
    String.ofList (digits.take 1 ++ (if digits.length = 1 then [] else '.' :: digits.drop 1) ++
      ['e', if leading < 0 then '-' else '+'] ++ Nat.toDigits 10 leading.natAbs)

/-- The text of a finite double. -/
def doubleText (bits : UInt64) : String :=
  let magnitude := bits &&& 0x7FFFFFFFFFFFFFFF
  let text := if magnitude = 0 then "0.0"
    else decimalText (Shortest.ofBinary (.ofBits magnitude))
  if bits = magnitude then text else "-" ++ text

/-- The text of a number. -/
def text : Number → String
  | natural n => Numeral.write 10 n
  | negative n => "-" ++ Numeral.write 10 n
  | double bits => doubleText bits

end Number

end BankTrace.Json
