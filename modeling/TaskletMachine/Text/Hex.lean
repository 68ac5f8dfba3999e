/-!
# Hexadecimal text

Numbers and bytes in lower-case hexadecimal digits.

## Main definitions

* `hexText`, `hexByte`, `hexBytes`: writing.
* `readHex`, `readHexBytes`: reading; upper-case digits are read as well.
-/
namespace TaskletMachine

/-- A number in hexadecimal digits, with zeros in front up to a width. -/
def hexText (width n : Nat) : String :=
  let digits := Nat.toDigits 16 n
  String.ofList (List.replicate (width - digits.length) '0' ++ digits)

/-- A byte as two hexadecimal digits. -/
def hexByte (b : UInt8) : String :=
  hexText 2 b.toNat

/-- Bytes as hexadecimal digits, two for each. -/
def hexBytes (bytes : Array UInt8) : String :=
  String.join (bytes.toList.map hexByte)

/-- The value of a hexadecimal digit. -/
def hexDigit (c : Char) : Nat :=
  if '0' ≤ c && c ≤ '9' then c.toNat - '0'.toNat else c.toLower.toNat - 'a'.toNat + 10

/-- The number that hexadecimal digits denote. -/
def readHex (digits : List Char) : Nat :=
  digits.foldl (fun n c => 16 * n + hexDigit c) 0

/-- The bytes that pairs of hexadecimal digits denote. -/
def readHexBytes : List Char → List UInt8
  | high :: low :: rest => UInt8.ofNat (readHex [high, low]) :: readHexBytes rest
  | _ => []

end TaskletMachine
