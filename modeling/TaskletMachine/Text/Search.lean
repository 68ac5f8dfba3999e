/-!
# Searching in a text

Leftmost search for a needle, and the two operations built on repeated leftmost search without
overlap: cutting a text at each occurrence, and replacing each occurrence.

## Main definitions

* `indexOf?`: the character index of the leftmost occurrence.
* `splitOn`: the pieces between the occurrences of a separator that is not empty.
* `replaceAll`: the text with every occurrence replaced; an empty needle occurs before every
  character and at the end.
-/
namespace TaskletMachine.Text

variable {α : Type} [BEq α]

/-- The characters after the needle, if the text starts with it. -/
def dropHead? : (needle text : List α) → Option (List α)
  | [], text => some text
  | _ :: _, [] => none
  | n :: needle, c :: text => if n == c then dropHead? needle text else none

/-- The index of the leftmost occurrence of the needle. -/
def indexOf? (needle : List α) : List α → Option Nat
  | [] => if needle.isEmpty then some 0 else none
  | c :: text =>
    if (dropHead? needle (c :: text)).isSome then some 0
    else (indexOf? needle text).map (· + 1)

/-- Whether the needle occurs in the text. -/
def occursIn (needle text : List α) : Bool :=
  (indexOf? needle text).isSome

/-- Whether the text ends with the given one. -/
def endsWith (tail text : List α) : Bool :=
  (dropHead? tail.reverse text.reverse).isSome

/-- The pieces between the occurrences of a separator, taken from the left without overlap.

`skip` counts the characters of an occurrence that are still to be passed, and `piece` holds the
piece being read, newest character first. -/
def splitFrom (separator : List α) : (skip : Nat) → (piece : List α) → List α → List (List α)
  | _, piece, [] => [piece.reverse]
  | skip + 1, piece, _ :: text => splitFrom separator skip piece text
  | 0, piece, c :: text =>
    if (dropHead? separator (c :: text)).isSome then
      piece.reverse :: splitFrom separator (separator.length - 1) [] text
    else splitFrom separator 0 (c :: piece) text

/-- The pieces of a text between the occurrences of a separator that is not empty. -/
def splitOn (separator text : List α) : List (List α) :=
  splitFrom separator 0 [] text

/-- The pieces with the given text between every two of them. -/
def join (between : List α) : List (List α) → List α
  | [] => []
  | [piece] => piece
  | piece :: rest => piece ++ between ++ join between rest

/-- Writes the substitute for each occurrence; `skip` counts the characters of an occurrence that
are still to be passed. -/
def replaceFrom (needle substitute : List α) : (skip : Nat) → List α → List α
  | _, [] => []
  | skip + 1, _ :: text => replaceFrom needle substitute skip text
  | 0, c :: text =>
    if (dropHead? needle (c :: text)).isSome then
      substitute ++ replaceFrom needle substitute (needle.length - 1) text
    else c :: replaceFrom needle substitute 0 text

/-- The text with every occurrence of the needle replaced, from the left without overlap. -/
def replaceAll (needle substitute text : List α) : List α :=
  if needle.isEmpty then substitute ++ text.flatMap fun c => c :: substitute
  else replaceFrom needle substitute 0 text

end TaskletMachine.Text
