import TaskletMachine.Number.Shortest

/-!
# Numerals

How numbers are written and read: integers in base ten, doubles as their shortest decimal.

## Main definitions

* `FloatFormat`, `FloatFormat.write`: the layout of a double, and its text.
* `floatText`: the layout that guest code sees.
* `readInt?`, `readFloat?`: the numerals that conversions accept.
-/
namespace TaskletMachine.Number

/-- The layout of a double: which exponents of the leading digit are written without an exponent
mark, and the texts of the values that have no digits. -/
structure FloatFormat where
  leastPositional : Int
  greatestPositional : Int
  infinity : String
  nan : String

/-- Digits with a point after the first one, if there are more, and an exponent. -/
def scientificText (digits : List Char) (leading : Int) : String :=
  let mantissa :=
    match digits with
    | d :: e :: rest => d :: '.' :: e :: rest
    | _ => digits
  String.ofList mantissa ++ "e" ++ toString leading

/-- Digits written out in full, with at least one digit on each side of the point. -/
def positionalText (digits : List Char) (leading : Int) : String :=
  match leading with
  | .ofNat e =>
    let whole := digits.take (e + 1) ++ List.replicate (e + 1 - digits.length) '0'
    let fraction := digits.drop (e + 1)
    String.ofList (whole ++ '.' :: if fraction.isEmpty then ['0'] else fraction)
  | .negSucc e => String.ofList ('0' :: '.' :: (List.replicate e '0' ++ digits))

/-- The text of a double. -/
def FloatFormat.write (f : FloatFormat) (x : Float) : String :=
  match Binary64.shape x with
  | .nan => f.nan
  | .infinite negative => (if negative then "-" else "") ++ f.infinity
  | .finite negative mantissa exponent =>
    let sign := if negative then "-" else ""
    if mantissa == 0 then sign ++ "0.0"
    else
      let decimal := shortest mantissa exponent
      let digits := Nat.toDigits 10 decimal.digits
      let leading := decimal.exponent + digits.length - 1
      let positional := f.leastPositional ≤ leading && leading ≤ f.greatestPositional
      sign ++ if positional then positionalText digits leading else scientificText digits leading

/-- Doubles from `1e-4` up to but not including `1e16` are written out in full. -/
def guestFloat : FloatFormat where
  leastPositional := -4
  greatestPositional := 15
  infinity := "inf"
  nan := "NaN"

/-- The text of a double as guest code sees it. -/
def floatText (x : Float) : String :=
  guestFloat.write x

/-- The value of a run of decimal digits, read from the left after `value`. -/
def digitsValue (value : Nat) (digits : List Char) : Nat :=
  digits.foldl (fun n c => 10 * n + (c.toNat - '0'.toNat)) value

/-- A numeral's sign and the characters after it. -/
def takeSign : List Char → Bool × List Char
  | '-' :: rest => (true, rest)
  | '+' :: rest => (false, rest)
  | cs => (false, cs)

/-- The 64-bit integer that a numeral with an optional sign denotes. -/
def readInt? (cs : List Char) : Option Int64 :=
  let (negative, digits) := takeSign cs
  if digits.isEmpty || !digits.all Char.isDigit then none
  else
    let n := Binary64.signed negative (digitsValue 0 digits)
    if Int64.minValue.toInt ≤ n ∧ n ≤ Int64.maxValue.toInt then some (Int64.ofInt n) else none

/-- The exponent part of a numeral, which may be missing. -/
def readExponent? : List Char → Option Int
  | [] => some 0
  | c :: rest =>
    if c == 'e' || c == 'E' then
      let (negative, digits) := takeSign rest
      if digits.isEmpty || !digits.all Char.isDigit then none
      else some (Binary64.signed negative (digitsValue 0 digits))
    else none

/-- The double nearest to `digits * 10 ^ exponent`. An exponent that decides the result by itself is
not computed with. -/
def ofDecimal (negative : Bool) (digits : Nat) (exponent : Int) : Float :=
  let leading := exponent + digitCount digits
  if digits == 0 || leading < -330 then Binary64.ofRatio negative 0 1
  else if 310 < leading then Binary64.ofRatio negative (Nat.pow 2 1024) 1
  else
    let (num, den) := scaleDecimal digits 1 exponent
    Binary64.ofRatio negative num den

/-- The double that an unsigned decimal numeral denotes. -/
def readMagnitude? (negative : Bool) (cs : List Char) : Option Float :=
  let whole := cs.takeWhile Char.isDigit
  let afterWhole := cs.dropWhile Char.isDigit
  let (fraction, tail) :=
    match afterWhole with
    | '.' :: rest => (rest.takeWhile Char.isDigit, rest.dropWhile Char.isDigit)
    | _ => ([], afterWhole)
  if whole.isEmpty && fraction.isEmpty then none
  else
    (readExponent? tail).map fun exponent =>
      ofDecimal negative (digitsValue 0 (whole ++ fraction)) (exponent - fraction.length)

/-- The double that a numeral denotes: a decimal, an infinity or not a number, with an optional
sign, letters in either case. -/
def readFloat? (cs : List Char) : Option Float :=
  let (negative, rest) := takeSign cs
  match readMagnitude? negative rest with
  | some x => some x
  | none =>
    let word := String.ofList (rest.map Char.toLower)
    if word == "inf" || word == "infinity" then
      some (if negative then -1.0 / 0.0 else 1.0 / 0.0)
    else if word == "nan" then some (0.0 / 0.0)
    else none

end TaskletMachine.Number
