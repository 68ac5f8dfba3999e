/-!
# Doubles as exact numbers

A double is a sign and a magnitude `mantissa * 2 ^ exponent`, an infinity, or not a number. The
functions here decode a `Float` through its bits, so that conversions and remainders can be done in
exact integer arithmetic, and encode a quotient of naturals as the nearest double.

## Main definitions

* `Shape`, `shape`: what the bits of a double say.
* `ofRatio`: the double nearest to a quotient, a tie going to the even mantissa.
* `truncate?`, `integer?`: a double cut to an integer, and the integer that a double equals.
* `remainder`: the exact remainder of a division that is cut toward zero.
-/
namespace TaskletMachine.Binary64

/-- What the bits of a double say. -/
inductive Shape where
  | nan
  | infinite (negative : Bool)
  | finite (negative : Bool) (mantissa : Nat) (exponent : Int)
deriving DecidableEq, Repr

/-- The exponent of the least significant bit of the smallest doubles. -/
def leastExponent : Int := -1074

/-- Decodes a double. -/
def shape (x : Float) : Shape :=
  let bits := x.toBits.toNat
  let negative := bits / Nat.pow 2 63 == 1
  let biased : Nat := bits / Nat.pow 2 52 % 2048
  let fraction := bits % Nat.pow 2 52
  if biased == 2047 then
    if fraction == 0 then .infinite negative else .nan
  else if biased == 0 then .finite negative fraction leastExponent
  else .finite negative (Nat.pow 2 52 + fraction) ((biased : Int) - 1075)

/-- Encodes the magnitude `mantissa * 2 ^ exponent`, for a mantissa of at most `2 ^ 53` that has 53
bits unless the exponent is the least one; a magnitude out of range is infinite. -/
def encode (negative : Bool) (mantissa : Nat) (exponent : Int) : Float :=
  let sign := if negative then Nat.pow 2 63 else 0
  let (mantissa, exponent) :=
    if mantissa == Nat.pow 2 53 then (Nat.pow 2 52, exponent + 1) else (mantissa, exponent)
  let magnitude :=
    if mantissa < Nat.pow 2 52 then mantissa
    else
      let biased := (exponent + 1075).toNat
      if 2047 ≤ biased then 2047 * Nat.pow 2 52
      else biased * Nat.pow 2 52 + (mantissa - Nat.pow 2 52)
  Float.ofBits (UInt64.ofNat (sign + magnitude))

/-- The quotient rounded to the nearest natural, a tie going to the even one. -/
def roundDiv (num den : Nat) : Nat :=
  let low := num / den
  let twice := 2 * (num % den)
  if twice < den then low
  else if den < twice then low + 1
  else low + low % 2

/-- The quotient times `2 ^ shift`, as a numerator and a denominator. -/
def scale (num den : Nat) (shift : Int) : Nat × Nat :=
  match shift with
  | .ofNat k => (num * Nat.pow 2 k, den)
  | .negSucc k => (num, den * Nat.pow 2 (k + 1))

/-- The exponent of the leading bit of a positive quotient. -/
def leadingExponent (num den : Nat) : Int :=
  let guess : Int := (num.log2 : Int) - den.log2
  let (n, d) := scale num den (-guess)
  if d ≤ n then guess else guess - 1

/-- The double nearest to a quotient of naturals with a positive denominator. -/
def ofRatio (negative : Bool) (num den : Nat) : Float :=
  if num == 0 then encode negative 0 leastExponent
  else
    let exponent := max (leadingExponent num den - 52) leastExponent
    let (n, d) := scale num den (-exponent)
    encode negative (roundDiv n d) exponent

/-- An integer with the given sign and magnitude. -/
def signed (negative : Bool) (magnitude : Nat) : Int :=
  if negative then -magnitude else magnitude

/-- A finite double cut toward zero. -/
def truncate? (x : Float) : Option Int :=
  match shape x with
  | .finite negative mantissa exponent =>
    let (n, d) := scale mantissa 1 exponent
    some (signed negative (n / d))
  | _ => none

/-- The integer that a double equals, if there is one. -/
def integer? (x : Float) : Option Int :=
  match shape x with
  | .finite negative mantissa exponent =>
    let (n, d) := scale mantissa 1 exponent
    if n % d == 0 then some (signed negative (n / d)) else none
  | _ => none

/-- The remainder `x - y * n` with `n` the quotient cut toward zero; it has the sign of `x`. -/
def remainder (x y : Float) : Float :=
  match shape x, shape y with
  | .finite negative m p, .finite _ n q =>
    if n == 0 then 0.0 / 0.0
    else
      let exponent := min p q
      let a := m * Nat.pow 2 (p - exponent).toNat
      let b := n * Nat.pow 2 (q - exponent).toNat
      let (num, den) := scale (a % b) 1 exponent
      ofRatio negative num den
  | .finite _ _ _, .infinite _ => x
  | _, _ => 0.0 / 0.0

end TaskletMachine.Binary64
