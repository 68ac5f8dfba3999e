import TaskletMachine.Library.Attributes
import TaskletMachine.Machine.Blocks
import TaskletMachine.Machine.Operators

/-!
# Instructions

What each instruction does to the machine.

## Main definitions

* `Vm.execute`: the effect of an instruction.
-/
namespace TaskletMachine

open Exec

/-- The exception for a name without a value. -/
def Error.undefinedName (name : String) : Error :=
  .raise .nameError ("name '" ++ name ++ "' is not defined")

/-- The exception for a local without a value. -/
def Error.unboundLocal (name : String) : Error :=
  .raise .unboundLocalError ("local variable '" ++ name ++ "' referenced before assignment")

namespace Vm

/-! ## The stack -/

/-- Swaps the two top values. -/
def rotateTwo : Exec Control := do
  let a ← pop
  let b ← pop
  push a
  push b
  return .next

/-- Moves the top value below the two that follow it. -/
def rotateThree : Exec Control := do
  let a ← pop
  let b ← pop
  let c ← pop
  push a
  push c
  push b
  return .next

/-- Pushes the top value again. -/
def duplicateTop : Exec Control := do
  push (← peek)
  return .next

/-- Pushes a constant of the unit. -/
def loadConst (index : Nat) : Exec Control := do
  match (← frame).unit.constants[index]? with
  | some c =>
    push (← onHeap fun h => h.ofConstant c)
    return .next
  | none => throw { cause := .missingConstant index }

/-- Jumps if the truth of the top value is as given. -/
def jumpIf (target : Nat) (wanted : Bool) (condition : JumpCondition) : Exec Control := do
  let v ← if condition = .pop then pop else peek
  if (← heap).isTruthy v == wanted then jump target
  else if condition = .popUnlessJumping then let _ ← pop
  return .next

/-! ## Names -/

/-- Pushes the value of a name, if it has one. -/
def pushNamed (name : String) (value : Option Value) : Exec Control := do
  match value with
  | some v =>
    push v
    return .next
  | none => throw (.undefinedName name)

/-- Pushes the value of a name. -/
def loadName (index : Nat) : Exec Control := do
  let s ← name index
  pushNamed s ((← context).loadName? s)

/-- Pushes the value of a global. -/
def loadGlobal (index : Nat) : Exec Control := do
  let s ← name index
  pushNamed s ((← context).loadGlobal? s)

/-- Gives a name the top value. -/
def storeName (index : Nat) : Exec Control := do
  let s ← name index
  let v ← pop
  match (← context).storeName? s v with
  | some c =>
    modifyContext fun _ => c
    return .next
  | none => throw { cause := .emptyCallStack }

/-- Gives a global the top value. -/
def storeGlobal (index : Nat) : Exec Control := do
  let s ← name index
  let v ← pop
  modifyContext fun c => c.setGlobal s v
  return .next

/-- Takes the value of a name away. -/
def deleteName (index : Nat) : Exec Control := do
  let s ← name index
  match (← frame).removeLocal? s with
  | some f =>
    modifyFrame fun _ => f
    return .next
  | none => throw (.undefinedName s)

/-- Pushes the value of a local. A declared local without a value of its own can have one by name,
which was given to it from outside the unit. -/
def loadFast (index : Nat) : Exec Control := do
  let (s, v) ← slot index
  match v.or ((← frame).names.find? s) with
  | some v =>
    push v
    return .next
  | none => throw (.unboundLocal s)

/-- Gives a local the top value. -/
def storeFast (index : Nat) : Exec Control := do
  let v ← pop
  let slots := (← frame).slots
  if index < slots.size then
    modifyFrame fun f => { f with slots := slots.setIfInBounds index (some v) }
    return .next
  else throw { cause := .missingLocal index }

/-- Takes the value of a local away. -/
def deleteFast (index : Nat) : Exec Control := do
  let (s, v) ← slot index
  let f ← frame
  if v.isSome then
    modifyFrame fun f => { f with slots := f.slots.setIfInBounds index none }
    return .next
  else if f.names.has s then
    modifyFrame fun f => { f with names := f.names.remove s }
    return .next
  else throw (.unboundLocal s)

/-! ## Attributes and modules -/

/-- Replaces the top value by one of its attributes. -/
def loadAttr (vm : Vm) (index : Nat) : Exec Control := do
  let s ← name index
  let owner ← pop
  push (← ofExcept (getAttr vm.library (← heap) owner s))
  return .next

/-- Assigns to an attribute of the top value. -/
def storeAttr (index : Nat) : Exec Control := do
  let s ← name index
  let owner ← pop
  let v ← pop
  setHeap (← ofExcept (setAttr (← heap) owner s v))
  return .next

/-- The module of a name: the one that was imported before, or that of the loader. -/
def importModule (name : String) : Exec Value := do
  let c ← context
  match c.modules.find? name, (c.loader.getD []).find? name with
  | some m, _ => return m
  | none, some r =>
    modifyContext fun c => { c with modules := c.modules.set name (.moduleObj r) }
    return .moduleObj r
  | none, none => raise .moduleNotFoundError ("No module named '" ++ name ++ "'")

/-- Imports a module. -/
def importName (index : Nat) : Exec Control := do
  let s ← name index
  let _ ← pop
  let _ ← pop
  push (← importModule s)
  return .next

/-- Pushes an attribute of the top value, which stays. -/
def importFrom (vm : Vm) (index : Nat) : Exec Control := do
  let s ← name index
  let v ← peek
  let h ← heap
  match v with
  | .moduleObj r =>
    let m := h.moduleObj r
    match m.attrs.find? s with
    | some attr =>
      push attr
      return .next
    | none =>
      raise .importError ("cannot import name '" ++ s ++ "' from '" ++ m.name ++ "'")
  | _ =>
    push (← ofExcept (getAttr vm.library h v s))
    return .next

/-- Whether an import of everything brings a name along. -/
def isPublic (name : String) : Bool :=
  !name.startsWith "_"

/-- Makes the public attributes of a module locals. -/
def importStar : Exec Control := do
  match (← pop) with
  | .moduleObj r =>
    let attrs := ((← heap).moduleObj r).attrs.filter fun (name, _) => isPublic name
    modifyFrame fun f => attrs.foldl (fun f (name, v) => f.setLocal name v) f
    return .next
  | other => fail ("IMPORT_STAR: expected module, found '" ++ (← heap).typeName other ++ "'")

/-! ## Making values -/

/-- Makes a tuple of the top values. -/
def buildTuple (count : Nat) : Exec Control := do
  let items ← popN count
  push (← onHeap fun h => h.newTuple items)
  return .next

/-- Makes a list of the top values. -/
def buildList (count : Nat) : Exec Control := do
  let items ← popN count
  push (.list (← onHeap fun h => h.newList items))
  return .next

/-- Puts keys with their values into a dict, one by one. -/
def insertAll : List (Value × Value) → Entries Value Value → Exec (Entries Value Value)
  | [], entries => return entries
  | (k, v) :: rest, entries => do
    let key ← ofExcept ((← heap).key k)
    insertAll rest (Entries.insert (Value.sameKey key) key v entries)

/-- Pushes a dict. -/
def pushDict (pairs : List (Value × Value)) : Exec Control := do
  let entries ← insertAll pairs []
  push (.dict (← onHeap fun h => h.newDict entries))
  return .next

/-- Pairs up the values of a row. -/
def pairUp : List Value → List (Value × Value)
  | k :: v :: rest => (k, v) :: pairUp rest
  | _ => []

/-- Makes a dict of the top keys and values, which take turns. -/
def buildMap (count : Nat) : Exec Control := do
  pushDict (pairUp (← popN (count * 2)))

/-- Makes a dict of the top values, with keys from a tuple above them. -/
def buildConstKeyMap (count : Nat) : Exec Control := do
  let complaint := s!"BUILD_CONST_KEY_MAP: expected a tuple of {count} keys, found "
  match (← pop) with
  | keys@(.tuple _ items) =>
    if items.length != count then failShowing complaint keys
    pushDict (items.zip (← popN count))
  | other => failShowing complaint other

/-- Adds the top value to the list below it. -/
def listAppend : Exec Control := do
  let v ← pop
  match (← peek) with
  | .list r =>
    let h ← heap
    setHeap (h.setList r (h.list r ++ [v]))
    return .next
  | other => fail ("LIST_APPEND: expected list, found '" ++ (← heap).typeName other ++ "'")

/-- The items of a sequence that can be unpacked. -/
def unpackable? (h : Heap) : Value → Option (List Value)
  | .tuple _ items => some items
  | .list r => some (h.list r)
  | .str s => some (s.toList.map fun c => .str c.toString)
  | _ => none

/-- Replaces the top value by its items, the first one on top. -/
def unpackSequence (count : Nat) : Exec Control := do
  let v ← pop
  let h ← heap
  match unpackable? h v with
  | none => raise .typeError ("cannot unpack non-iterable " ++ h.typeName v ++ " object")
  | some items =>
    let found := items.length
    if count < found then
      raise .valueError (s!"too many values to unpack (expected {count})")
    if found < count then
      raise .valueError (s!"not enough values to unpack (expected {count}, got {found})")
    modifyFrame fun f => { f with stack := items ++ f.stack }
    return .next

/-- The defaults of a function: those of its unit, or a tuple on the stack. -/
def functionDefaults (unit : CodeUnit) (onStack : Bool) : Exec (List Value) := do
  if onStack then
    match (← pop) with
    | .tuple _ items => return items
    | other => failShowing "MAKE_FUNCTION: expected a tuple of defaults, found " other
  else onHeap fun h => h.ofConstants unit.defaults

/-- Makes a function from a name and code on the stack. -/
def makeFunction (flags : FunctionFlags) : Exec Control := do
  let name ←
    match (← pop) with
    | .str name => pure name
    | other => failShowing "MAKE_FUNCTION: expected a name, found " other
  let unit ←
    match (← pop) with
    | .code unit => pure unit
    | other => failShowing "MAKE_FUNCTION: expected code, found " other
  let defaults ← functionDefaults unit flags.hasDefaults
  push (.function (← onHeap fun h => h.newFunction { name, unit, defaults }))
  return .next

/-! ## Raising -/

/-- Raises a value; a class is called first, and its instance is raised. -/
def raiseValue (exception : Value) (cause : Option Value) : Exec Control :=
  match exception with
  | .classObj _ => return .call { callee := exception, delivery := .raise cause }
  | _ => raiseWithCause exception cause

/-- Raises what was caught last again, or the top value, with a cause above it if there are two. -/
def runRaise (vm : Vm) (argCount : Nat) : Exec Control := do
  match argCount with
  | 0 =>
    match (← context).handled with
    | some fault => vm.raiseFault fault
    | none => raise .runtimeError "No active exception to reraise"
  | 1 => raiseValue (← pop) none
  | 2 =>
    let cause ← pop
    raiseValue (← pop) (some cause)
  | _ => fail (s!"RAISE_VARARGS: unexpected argument count {argCount}")

/-- Pushes the class of failed assertions. -/
def loadAssertionError (vm : Vm) : Exec Control := do
  let c ← ofExcept (vm.builtinClass (← context) ExceptionKind.assertionError.name)
  push (.classObj c)
  return .next

/-! ## All instructions -/

/-- What an instruction does. -/
def execute (vm : Vm) : Instruction → Exec Control
  | .invalid flaw => malformed flaw.message
  | .popTop => do
    let _ ← pop
    return .next
  | .rotTwo => rotateTwo
  | .rotThree => rotateThree
  | .dupTop => duplicateTop
  | .nop => return .next
  | .unary op => runUnary op
  | .binary op inPlace => runBinary op inPlace
  | .listAppend => listAppend
  | .subscript => runSubscript
  | .storeSubscript => runStoreSubscript
  | .deleteSubscript => runDeleteSubscript
  | .getIter => runGetIter
  | .loadAssertionError => vm.loadAssertionError
  | .breakLoop => breakLoop
  | .returnValue => returnValue
  | .importStar => importStar
  | .popBlock => popBlock
  | .endFinally => vm.endFinally
  | .buildClass => vm.buildClass
  | .storeName index => storeName index
  | .deleteName index => deleteName index
  | .unpackSequence count => unpackSequence count
  | .forIter exit => runForIter exit
  | .storeAttr index => storeAttr index
  | .storeGlobal index => storeGlobal index
  | .loadConst index => loadConst index
  | .loadName index => loadName index
  | .buildTuple count => buildTuple count
  | .buildList count => buildList count
  | .buildMap count => buildMap count
  | .loadAttr index => vm.loadAttr index
  | .compare op => runCompare op
  | .importName index => importName index
  | .importFrom index => vm.importFrom index
  | .jump target => do
    jump target
    return .next
  | .jumpIf target wanted condition => jumpIf target wanted condition
  | .loadGlobal index => loadGlobal index
  | .continueLoop target => continueLoop target
  | .setupLoop exit => enterBlock .loop exit
  | .setupExcept handler => enterBlock .exceptGuard handler
  | .setupFinally handler => enterBlock .finallyGuard handler
  | .loadFast index => loadFast index
  | .storeFast index => storeFast index
  | .deleteFast index => deleteFast index
  | .raise count => vm.runRaise count
  | .call count => call count
  | .callWithKeywords count => callWithKeywords count
  | .makeFunction flags => makeFunction flags
  | .buildConstKeyMap count => buildConstKeyMap count
  | .wait => parkTasklet

end Vm

end TaskletMachine
