import TaskletMachine.Value.Error
import TaskletMachine.Value.Key

/-!
# Matching arguments

How the arguments of a call fill the parameters of a unit. Positional arguments fill parameters in
order, keyword arguments by name, and defaults fill the last parameters that are still empty. What
is left over is collected by the parameters that the unit declares for it, or refused.

## Main definitions

* `Matching.fillPositional`, `Matching.fillKeyword`, `Matching.fillDefaults`: the three stages.
* `matchArguments`: the values of the parameter slots.
-/
namespace TaskletMachine

/-- Parameters being filled, and keyword arguments that no parameter takes. -/
structure Matching where
  slots : List (Option Value)
  extra : Namespace := []

namespace Matching

/-- The exception for a call that does not fit. -/
def refuse (unit : CodeUnit) (complaint : String) : Error :=
  .raise .typeError (unit.name ++ "() " ++ complaint)

/-- An ending for numbers other than one. -/
def plural (n : Nat) : String :=
  if n == 1 then "" else "s"

/-- The exception for too many positional arguments. -/
def tooMany (unit : CodeUnit) (given : Nat) : Error :=
  let verb := if given == 1 then "was" else "were"
  refuse unit
    (s!"takes {unit.argCount} positional argument{plural unit.argCount} but {given} {verb} given")

/-- Fills parameters in order. -/
def fillPositional (argCount : Nat) (args : List Value) : Matching where
  slots := (args.take argCount).map some ++ List.replicate (argCount - args.length) none

/-- Fills the parameter of a name, or keeps the argument if the unit collects such. -/
def fillKeyword (unit : CodeUnit) (m : Matching) (name : String) (v : Value) :
    Except Error Matching :=
  match unit.argNames.findIdx? (· == name) with
  | some index =>
    match m.slots[index]? with
    | some none => .ok { m with slots := m.slots.set index (some v) }
    | some (some _) =>
      .error (refuse unit ("got multiple values for argument '" ++ name ++ "'"))
    | none => .error { cause := .outOfRange index }
  | none =>
    if unit.varkeywords then .ok { m with extra := m.extra.set name v }
    else .error (refuse unit ("got an unexpected keyword argument '" ++ name ++ "'"))

/-- Fills in the keyword arguments in order. -/
def fillKeywords (unit : CodeUnit) : Namespace → Matching → Except Error Matching
  | [], m => .ok m
  | (name, v) :: rest, m =>
    match fillKeyword unit m name v with
    | .error e => .error e
    | .ok m => fillKeywords unit rest m

/-- Fills an empty parameter with its default, if it is one of those that have one. -/
def fillDefault (defaults : List Value) (first : Nat) :
    Option Value × Nat → Except Error (Option Value)
  | (some v, _) => .ok (some v)
  | (none, index) =>
    if first ≤ index then
      match defaults[index - first]? with
      | some v => .ok (some v)
      | none => .error { cause := .outOfRange (index - first) }
    else .ok none

/-- Fills empty parameters with the defaults, which belong to the last parameters. -/
def fillDefaults (defaults : List Value) (slots : List (Option Value)) :
    Except Error (List (Option Value)) :=
  slots.zipIdx.mapM (fillDefault defaults (slots.length - defaults.length))

/-- The indexes of the parameters that are empty. -/
def empty (slots : List (Option Value)) : List Nat :=
  (slots.zipIdx.filter fun (slot, _) => slot.isNone).map Prod.snd

/-- The names of parameters. -/
def parameterNames (unit : CodeUnit) : List Nat → Except Error (List String)
  | [] => .ok []
  | index :: rest =>
    match unit.argNames[index]? with
    | some name => (parameterNames unit rest).map (name :: ·)
    | none => .error { cause := .outOfRange index }

/-- The exception for parameters that stay empty. -/
def missing (unit : CodeUnit) (indexes : List Nat) : Error :=
  match parameterNames unit indexes with
  | .error e => e
  | .ok names =>
    let quotedNames := commaSeparated (names.map fun name => "'" ++ name ++ "'")
    let count := names.length
    refuse unit
      (s!"missing {count} required positional argument{plural count}: " ++ quotedNames)

end Matching

/-- The values of the parameter slots of a call: the declared parameters, then the tuple of surplus
positional arguments and the dict of unmatched keyword arguments, for a unit that collects them. -/
def matchArguments (h : Heap) (unit : CodeUnit) (defaults args : List Value)
    (keywords : Namespace) : Except Error (List Value × Heap) := do
  let surplus := args.drop unit.argCount
  if !surplus.isEmpty && !unit.varargs then throw (Matching.tooMany unit args.length)
  let m ← Matching.fillKeywords unit keywords (Matching.fillPositional unit.argCount args)
  let slots ← Matching.fillDefaults defaults m.slots
  let missing := Matching.empty slots
  if !missing.isEmpty then throw (Matching.missing unit missing)
  let declared := slots.filterMap id
  let (positional, h) :=
    if unit.varargs then
      let (v, h) := h.newTuple surplus
      ([v], h)
    else ([], h)
  let (named, h) :=
    if unit.varkeywords then
      let (r, h) := h.newDict (m.extra.map fun (name, v) => (.str name, v))
      ([.dict r], h)
    else ([], h)
  return (declared ++ positional ++ named, h)

end TaskletMachine
