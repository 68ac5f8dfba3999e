import TaskletMachine.Library.Reply
import TaskletMachine.Text.Blank
import TaskletMachine.Text.Case

/-!
# Methods of strings

Each method takes the string as its first argument. Positions count characters.

## Main definitions

* `StrMethod.call`: what each method does.
-/
namespace TaskletMachine.StrMethod

open Effect

/-- The strings among values, up to the first that is none. -/
def strings : List Value → (count : Nat) → Effect (List String)
  | [], _ => return []
  | .str s :: rest, count => return s :: (← strings rest (count + 1))
  | v :: _, count => do
    raise .typeError
      (s!"sequence item {count}: expected str instance, " ++ (← typeName v) ++ " found")

/-- Strings as a list of guest code. -/
def newStrings (texts : List String) : Effect Reply := do
  reply (← newList (texts.map Value.str))

/-- What a method of a string does. -/
def call (m : StrMethod) (args : List Value) : Effect Reply := do
  match m, args with
  | endswith, [.str s, .str t] => reply (.bool (Text.endsWith t.toList s.toList))
  | endswith, _ => unexpected "|str, str|" args
  | find, [.str s, .str t] =>
    match Text.indexOf? t.toList s.toList with
    | some i => reply (.int (Int64.ofNat i))
    | none => reply (.int (-1))
  | find, _ => unexpected "|str, str|" args
  | join, [.str s, iterable] => do
    let pieces ← strings (← collect iterable) 0
    reply (.str (String.ofList (Text.join s.toList (pieces.map String.toList))))
  | join, _ => unexpected "|str, iterable|" args
  | lower, [.str s] => reply (.str (Text.lower s))
  | replace, [.str s, .str t, .str u] =>
    reply (.str (String.ofList (Text.replaceAll t.toList u.toList s.toList)))
  | replace, _ => unexpected "|str, str, str|" args
  | split, [.str s] => newStrings (Text.words s)
  | split, [.str s, .none] => newStrings (Text.words s)
  | split, [.str s, .str t] =>
    if t.isEmpty then raise .valueError "empty separator"
    newStrings ((Text.splitOn t.toList s.toList).map String.ofList)
  | split, _ => unexpected "|str|, or |str, str|" args
  | startswith, [.str s, .str t] => reply (.bool (Text.dropHead? t.toList s.toList).isSome)
  | startswith, _ => unexpected "|str, str|" args
  | strip, [.str s] => reply (.str (Text.trim s))
  | upper, [.str s] => reply (.str (Text.upper s))
  | _, _ => unexpected "|str|" args

end TaskletMachine.StrMethod
