/-!
# Words

Integers of guest code are 64-bit words. Arithmetic on them is exact: a result that is no word is no
result.

## Main definitions

* `word?`: an integer as a word, if it is one.
* `floorDiv?`, `floorMod?`, `power?`, `shiftLeft?`, `shiftRight`: the operations on words that are
  not a single step of the integers.
-/
namespace TaskletMachine.Number

/-- Whether an integer is in the range of words. -/
def isWord (n : Int) : Prop :=
  Int64.minValue.toInt ≤ n ∧ n ≤ Int64.maxValue.toInt

instance (n : Int) : Decidable (isWord n) :=
  inferInstanceAs (Decidable (_ ∧ _))

/-- An integer as a word. -/
def word? (n : Int) : Option Int64 :=
  if isWord n then some (Int64.ofInt n) else none

/-- The quotient of a division rounded down; the divisor is not zero. The quotient rounded towards
zero is one too many if there is a remainder and the signs differ; the least word has no quotient by
minus one. -/
def floorDiv? (a b : Int64) : Option Int64 :=
  if a == Int64.minValue && b == -1 then none
  else
    let q := a / b
    some (if a % b != 0 && decide (a < 0) != decide (b < 0) then q - 1 else q)

/-- The remainder of a division rounded down, which has the sign of the divisor; the divisor is not
zero. The remainder of the quotient rounded towards zero has the sign of the dividend, so that it
lacks a divisor if the signs differ; the least word has no remainder by minus one. -/
def floorMod? (a b : Int64) : Option Int64 :=
  if a == Int64.minValue && b == -1 then none
  else
    let r := a % b
    some (if r != 0 && decide (r < 0) != decide (b < 0) then r + b else r)

/-- The product of two words. -/
def product? (a b : Int64) : Option Int64 :=
  word? (a.toInt * b.toInt)

/-- A word times a power of another, by squaring. There is no square after the last bit of the
exponent. -/
def timesPower? (acc base : Int64) (exponent : Nat) : Option Int64 :=
  if exponent = 0 then some acc
  else do
    let acc ← if exponent % 2 = 1 then product? acc base else some acc
    if exponent = 1 then some acc
    else do
      let square ← product? base base
      timesPower? acc square (exponent / 2)
termination_by exponent

/-- The power of a word. Exponents have 32 bits. -/
def power? (a : Int64) (exponent : Nat) : Option Int64 :=
  if Nat.pow 2 32 ≤ exponent then none else timesPower? 1 a exponent

/-- A word times a power of two. The shifted word is the product if shifting it back gives the word
again, and otherwise the product is no word. -/
def shiftLeft? (a : Int64) (bits : Nat) : Option Int64 :=
  if a == 0 then some 0
  else if 64 ≤ bits then none
  else
    let shifted := a <<< Int64.ofNat bits
    if shifted >>> Int64.ofNat bits == a then some shifted else none

/-- A word divided by a power of two, rounded down. -/
def shiftRight (a : Int64) (bits : Nat) : Int64 :=
  a >>> Int64.ofNat (min bits 63)

end TaskletMachine.Number
