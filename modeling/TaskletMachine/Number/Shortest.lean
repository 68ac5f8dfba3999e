import TaskletMachine.Number.Binary64

/-!
# The shortest decimal of a double

Among the decimals that read back as a given double, one with the fewest digits is written, and of
those the nearest to it. The search goes through the decimal grids from the coarsest: on each grid
only the two neighbours of the value can read back if any point of the grid does.

## Main definitions

* `Decimal`: digits and the exponent of the last one.
* `shortest`: the decimal of a positive magnitude `mantissa * 2 ^ exponent`.
-/
namespace TaskletMachine.Number

open Binary64 (scale leastExponent)

/-- The decimal `digits * 10 ^ exponent`. -/
structure Decimal where
  digits : Nat
  exponent : Int
deriving DecidableEq, Repr

/-- The number of decimal digits of a natural, at least one. -/
def digitCount (n : Nat) : Nat :=
  (Nat.toDigits 10 n).length

/-- The exponent of the leading decimal digit of a positive quotient. -/
def leadingDecimal (num den : Nat) : Int :=
  if den ≤ num then (digitCount (num / den) : Int) - 1
  else
    let t := digitCount (den / num)
    if den ≤ num * Nat.pow 10 (t - 1) then 1 - (t : Int) else -(t : Int)

/-- The quotient times `10 ^ shift`, as a numerator and a denominator. -/
def scaleDecimal (num den : Nat) (shift : Int) : Nat × Nat :=
  match shift with
  | .ofNat k => (num * Nat.pow 10 k, den)
  | .negSucc k => (num, den * Nat.pow 10 (k + 1))

/-- The numbers that round to a double: `low`, `value` and `high` over `den`, the two ends belonging
to it if `closed`. -/
structure Interval where
  low : Nat
  value : Nat
  high : Nat
  den : Nat
  closed : Bool

/-- The interval around `mantissa * 2 ^ exponent`; below a power of two the doubles are twice as
dense. -/
def Interval.around (mantissa : Nat) (exponent : Int) : Interval :=
  let below := if mantissa == Nat.pow 2 52 && leastExponent < exponent then 1 else 2
  let (unit, den) := scale 1 4 exponent
  { low := (4 * mantissa - below) * unit
    value := 4 * mantissa * unit
    high := (4 * mantissa + 2) * unit
    den
    closed := mantissa % 2 == 0 }

/-- Whether `num / den` lies in the interval. -/
def Interval.contains (i : Interval) (num den : Nat) : Bool :=
  let point := num * i.den
  let low := i.low * den
  let high := i.high * den
  if i.closed then low ≤ point && point ≤ high else low < point && point < high

/-- The point of the grid of multiples of `10 ^ grid` that lies in the interval and is nearest to
its value, the larger one of two equally near. -/
def Interval.onGrid? (i : Interval) (grid : Int) : Option Decimal :=
  let (n, d) := scaleDecimal i.value i.den (-grid)
  let floor := n / d
  let inside (k : Nat) : Bool :=
    let (num, den) := scaleDecimal k 1 grid
    i.contains num den
  match inside floor, inside (floor + 1) with
  | true, true => some ⟨if d ≤ 2 * (n % d) then floor + 1 else floor, grid⟩
  | true, false => some ⟨floor, grid⟩
  | false, true => some ⟨floor + 1, grid⟩
  | false, false => none

/-- The first hit on the grids from `grid` downward. -/
def Interval.search (i : Interval) : (count : Nat) → (grid : Int) → Decimal
  | 0, grid => ⟨i.value / i.den, grid⟩
  | count + 1, grid => (i.onGrid? grid).getD (i.search count (grid - 1))

/-- The digits without trailing zeros; at most `count` of them are taken off. -/
def Decimal.normalize : (count : Nat) → Decimal → Decimal
  | 0, d => d
  | count + 1, d =>
    if d.digits != 0 && d.digits % 10 == 0 then
      Decimal.normalize count ⟨d.digits / 10, d.exponent + 1⟩
    else d

/-- The shortest decimal that reads back as `mantissa * 2 ^ exponent`, and nearest to it. Seventeen
digits always suffice. -/
def shortest (mantissa : Nat) (exponent : Int) : Decimal :=
  let i := Interval.around mantissa exponent
  (i.search 18 (leadingDecimal i.value i.den)).normalize 20

end TaskletMachine.Number
