import TaskletMachine.Library.Reply
import TaskletMachine.Text.Blank

/-!
# Conversions

The native types, called as functions that convert their argument.

## Main definitions

* `toInt`, `toFloat`: the numbers that values stand for.
* `Conversion.call`: what each type does.
-/
namespace TaskletMachine

open Effect

/-- The integer that a value stands for. -/
def toInt (v : Value) : Effect Value := do
  match v with
  | .int n => return .int n
  | .bool b => return .int (if b then 1 else 0)
  | .float x =>
    if x.isNaN then raise .valueError "cannot convert float NaN to integer"
    match Binary64.truncate? x with
    | none => raise .overflowError "cannot convert float infinity to integer"
    | some n =>
      match Number.word? n with
      | some n => return .int n
      | none => throw .overflow
  | .str s =>
    match Number.readInt? ((Text.trimChars s.toList).filter (· != '_')) with
    | some n => return .int n
    | none => raise .valueError ("invalid literal for int() with base 10: " ++ (← inspect v))
  | _ =>
    raise .typeError
      ("int() argument must be a string or a number, not '" ++ (← typeName v) ++ "'")

/-- The double that a value stands for. -/
def toFloat (v : Value) : Effect Value := do
  match v with
  | .float x => return .float x
  | .int n => return .float n.toFloat
  | .bool b => return .float (if b then 1.0 else 0.0)
  | .str s =>
    match Number.readFloat? (Text.trimChars s.toList) with
    | some x => return .float x
    | none => raise .valueError ("could not convert string to float: " ++ (← inspect v))
  | _ =>
    raise .typeError
      ("float() argument must be a string or a number, not '" ++ (← typeName v) ++ "'")

/-- The entries of a dict made of pairs. -/
def pairEntries : List Value → Entries Value Value → Effect (Entries Value Value)
  | [], entries => return entries
  | pair :: rest, entries => do
    match ← collect pair with
    | [k, v] =>
      let k ← key k
      pairEntries rest (Entries.insert (Value.sameKey k) k v entries)
    | _ => raise .valueError "dictionary update sequence element has the wrong length"

/-- The entries that the positional arguments of a dict give. -/
def dictEntries : List Value → Effect (Entries Value Value)
  | [] => return []
  | [.dict r] => return (← heap).dict r
  | [iterable] => do pairEntries (← collect iterable) []
  | args => unexpected "|iterable|" args

/-- Adds keyword arguments to entries. -/
def addKeywords (keywords : Namespace) (entries : Entries Value Value) : Entries Value Value :=
  keywords.foldl
    (fun es (name, v) => Entries.insert (Value.sameKey (.str name)) (.str name) v es) entries

namespace Conversion

/-- What a type does when it is called. -/
def call (target : Conversion) (args : List Value) (keywords : Namespace) : Effect Reply := do
  match target, args with
  | toBool, [] => reply (.bool false)
  | toBool, [v] => reply (.bool ((← heap).isTruthy v))
  | toInt, [] => reply (.int 0)
  | toInt, [v] => reply (← TaskletMachine.toInt v)
  | toFloat, [] => reply (.float 0.0)
  | toFloat, [v] => reply (← TaskletMachine.toFloat v)
  | toStr, [] => reply (.str "")
  | toStr, [v] => reply (.str ((← heap).display v))
  | toTuple, [] => reply (← newTuple [])
  | toTuple, [.tuple token items] => reply (.tuple token items)
  | toTuple, [iterable] => reply (← newTuple (← collect iterable))
  | toTuple, _ => unexpected "|iterable|" args
  | toList, [] => reply (← newList [])
  | toList, [iterable] => reply (← newList (← collect iterable))
  | toList, _ => unexpected "|iterable|" args
  | toDict, _ => reply (← newDict (addKeywords keywords (← dictEntries args)))
  | _, _ => unexpected "|value|" args

end Conversion

end TaskletMachine
