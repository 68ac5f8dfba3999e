import TaskletMachine.Text.CaseData

/-!
# Upper and lower case

Case mapping by the full rules: one character may become several, and a capital sigma becomes the
final small one at the end of a word.

## Main definitions

* `upper`, `lower`: a text in upper and in lower case.
* `endsWord`: whether a sigma between two texts ends a word.
-/
namespace TaskletMachine.Text

/-- The partner of a code point by a table of runs. -/
def partner? (runs : List (Nat × Nat × Nat × Int)) (code : Nat) : Option Nat :=
  runs.findSome? fun (first, last, step, distance) =>
    if first ≤ code && code ≤ last && (code - first) % step == 0 then
      some ((code : Int) + distance).toNat
    else none

/-- The characters that a character becomes, by its table of several-character partners and its
table of runs. -/
def mapCase (specials : List (Nat × List Nat)) (runs : List (Nat × Nat × Nat × Int)) (c : Char) :
    List Char :=
  match specials.lookup c.toNat with
  | some codes => codes.map Char.ofNat
  | none => [((partner? runs c.toNat).map Char.ofNat).getD c]

/-- The upper case of a character. -/
def upperChar (c : Char) : List Char :=
  if c.toNat < 0x80 then [c.toUpper] else mapCase upperSpecials upperRuns c

/-- The lower case of a character outside any word. -/
def lowerChar (c : Char) : List Char :=
  if c.toNat < 0x80 then [c.toLower] else mapCase lowerSpecials lowerRuns c

/-- Whether a character lies in one of the spans. -/
def inSpans (spans : List (Nat × Nat)) (c : Char) : Bool :=
  spans.any fun (low, high) => low ≤ c.toNat && c.toNat ≤ high

/-- Whether the first character that is not ignorable is a cased one. -/
def startsCased (cs : List Char) : Bool :=
  match cs.dropWhile (inSpans ignorableSpans) with
  | [] => false
  | c :: _ => inSpans casedSpans c

/-- Whether a sigma ends a word, given the characters before it, last one first, and after it. -/
def endsWord (before after : List Char) : Bool :=
  startsCased before && !startsCased after

/-- A text in upper case. -/
def upper (s : String) : String :=
  String.ofList (s.toList.flatMap upperChar)

/-- Lower case of a text, given the characters before it, last one first. -/
def lowerFrom : (before : List Char) → List Char → List Char
  | _, [] => []
  | before, c :: after =>
    let mapped :=
      if c == 'Σ' then [if endsWord before after then 'ς' else 'σ'] else lowerChar c
    mapped ++ lowerFrom (c :: before) after

/-- A text in lower case. -/
def lower (s : String) : String :=
  String.ofList (lowerFrom [] s.toList)

end TaskletMachine.Text
