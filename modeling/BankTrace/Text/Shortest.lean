/-!
# Shortest decimals

The fewest decimal digits that still name a given double: among all decimals that round to it, one
with the fewest digits, and of those the nearest.
-/

namespace BankTrace.Shortest

/-- A positive finite double as `mantissa * 2 ^ exponent`. At the lower end of a binade the next
smaller double is only half as far away as the next greater one. -/
structure Binary where
  mantissa : Nat
  exponent : Int
  atLowerEnd : Bool

/-- The double with the given bits, its sign left out. -/
def Binary.ofBits (bits : UInt64) : Binary :=
  let field := ((bits >>> 52) &&& 0x7FF).toNat
  let fraction := (bits &&& 0xFFFFFFFFFFFFF).toNat
  if field = 0 then ⟨fraction, -1074, false⟩
  else ⟨0x10000000000000 + fraction, (field : Int) - 1075, fraction == 0 && 1 < field⟩

/-- A decimal `digits * 10 ^ exponent`. -/
structure Decimal where
  digits : Nat
  exponent : Int
deriving DecidableEq, Repr

/-- `base ^ n` for a natural exponent, and one for a negative exponent. -/
def numerator (base : Nat) (n : Int) : Nat := Nat.pow base n.toNat

/-- One for a natural exponent, and the denominator of `base ^ n` for a negative one. -/
def denominator (base : Nat) (n : Int) : Nat := Nat.pow base (-n).toNat

/-- The least `t ≤ start + fuel` from `start` on with `bound ≤ n * 10 ^ t`. -/
def scaleUp (n bound : Nat) : Nat → Nat → Nat
  | 0, start => start
  | fuel + 1, start =>
      if bound ≤ n * Nat.pow 10 start then start else scaleUp n bound fuel (start + 1)

/-- The exponent of the leading decimal digit of the positive fraction `n / d`. -/
def leadingExponent (n d : Nat) : Int :=
  if d ≤ n then ((Nat.toDigits 10 (n / d)).length : Int) - 1 else -(scaleUp n d 400 1 : Int)

/-- The decimal with trailing zeros moved into the exponent. -/
def Decimal.strip : Nat → Decimal → Decimal
  | 0, d => d
  | fuel + 1, d =>
      if d.digits ≠ 0 ∧ d.digits % 10 = 0 then strip fuel ⟨d.digits / 10, d.exponent + 1⟩ else d

/-- The decimal on the grid `10 ^ step` that rounds to the double and is nearest to it, if any
point of the grid does. A tie goes to the even digit. All quantities are quarters of the unit in
the last place, brought to one denominator. -/
def onGrid? (b : Binary) (step : Int) : Option Decimal :=
  let unit := numerator 2 (b.exponent - 2) * denominator 10 step
  let grid := numerator 10 step * denominator 2 (b.exponent - 2)
  let value := 4 * b.mantissa * unit
  let least := (4 * b.mantissa - if b.atLowerEnd then 1 else 2) * unit
  let greatest := (4 * b.mantissa + 2) * unit
  let closed := b.mantissa % 2 == 0
  let rounds (c : Nat) : Bool :=
    if closed then least ≤ c * grid && c * grid ≤ greatest
    else least < c * grid && c * grid < greatest
  let below := value / grid
  match rounds below, rounds (below + 1) with
  | false, false => none
  | true, false => some ⟨below, step⟩
  | false, true => some ⟨below + 1, step⟩
  | true, true =>
      let down := value - below * grid
      let up := (below + 1) * grid - value
      if down < up ∨ (down = up ∧ below % 2 = 0) then some ⟨below, step⟩
      else some ⟨below + 1, step⟩

/-- The first hit on grids of `count`, `count + 1`, ... digits. -/
def search (b : Binary) (leading : Int) : Nat → Nat → Decimal
  | 0, _ => ⟨b.mantissa, 0⟩
  | fuel + 1, count =>
      match onGrid? b (leading - count + 1) with
      | some d => d.strip 20
      | none => search b leading fuel (count + 1)

/-- The shortest decimal of a positive finite double. Seventeen digits always suffice. -/
def ofBinary (b : Binary) : Decimal :=
  let leading := leadingExponent (b.mantissa * numerator 2 b.exponent) (denominator 2 b.exponent)
  search b leading 18 1

end BankTrace.Shortest
