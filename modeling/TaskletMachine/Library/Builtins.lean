import TaskletMachine.Library.Reply

/-!
# Builtin functions

The functions that guest code calls by name. Those that an object can take over through a hook hand
the call over to it.

## Main definitions

* `Builtin.call`: what each function does.
* `typeOf`: the type of a value as a value.
-/
namespace TaskletMachine

open Effect

/-- The failure of looking into a host object that is being called. -/
def Error.borrowed : Error :=
  .fail "Attempting to borrow an object that is already mutably borrowed"

/-- The failure of changing or calling a host object that is being called. -/
def Error.alreadyBorrowed : Error :=
  .fail "Attempting to borrow an object that is already borrowed"

/-- A host object that is not being called. -/
def Effect.readHost (r : HostRef) : Effect HostObject := do
  let o := (← heap).hostObj r
  if o.busy then throw .borrowed
  return o

namespace Builtin

/-- The number of characters or items of a native value. -/
def length? (h : Heap) : Value → Option Nat
  | .str s => some s.length
  | .tuple _ items => some items.length
  | .list r => some (h.list r).length
  | .dict r => some (h.dict r).length
  | _ => none

/-- The length of a value. -/
def callLen : List Value → Effect Reply
  | [v] => do
    let h ← heap
    match h.hook? v "__len__" with
    | some hook => return .tailCall hook []
    | none =>
      let native := (h.rawValue? v).getD v
      match length? h native with
      | some n => reply (.int (Int64.ofNat n))
      | none => raise .typeError ("object of type '" ++ h.typeName native ++ "' has no len()")
  | args => unexpected "|value|" args

/-- Whether a value is a class. -/
def isClass : Value → Bool
  | .classObj _ => true
  | _ => false

/-- Whether a value is a class or a tuple of classes. -/
def isClassInfo : Value → Bool
  | .classObj _ => true
  | .tuple _ classes => classes.all isClass
  | _ => false

/-- Requires a class or a tuple of classes. -/
def checkClassInfo (function : String) (info : Value) : Effect Unit := do
  if !isClassInfo info then
    raise .typeError (function ++ "() arg 2 must be a class or tuple of classes")

/-- Whether a value is an instance of a class. -/
def callIsinstance : List Value → Effect Reply
  | [v, info] => do
    checkClassInfo "isinstance" info
    match v with
    | .instanceObj _ => reply (.bool (← ofExcept ((← heap).exceptionMatches v info)))
    | _ => reply (.bool false)
  | args => unexpected "|value, class|" args

/-- Whether a class derives from another one. -/
def callIssubclass : List Value → Effect Reply
  | [.classObj c, info] => do
    checkClassInfo "issubclass" info
    reply (.bool (← ofExcept ((← heap).exceptionMatches (.classObj c) info)))
  | [v, _] => do
    raise .typeError ("issubclass() arg 1 must be a class, not '" ++ (← typeName v) ++ "'")
  | args => unexpected "|class, class|" args

/-- An iterator over a range. -/
def makeRange (start stop step : Int64) : Effect Reply := do
  if step == 0 then raise .valueError "range() arg 3 must not be zero"
  reply (.iterator (← onHeap fun h => h.newIterator (.overRange start stop step)))

/-- An iterator over the numbers up to an end, from a start, in steps. -/
def callRange : List Value → Effect Reply
  | [.int stop] => makeRange 0 stop 1
  | [.int start, .int stop] => makeRange start stop 1
  | [.int start, .int stop, .int step] => makeRange start stop step
  | args => unexpected "|int|, |int, int|, or |int, int, int|" args

/-- Prints the display forms of the arguments, with a separator between them. -/
def callPrint (args : List Value) (keywords : Namespace) : Effect Reply := do
  let separator :=
    match keywords.find? "sep" with
    | some (.str s) => s
    | _ => " "
  let h ← heap
  let line := separator.intercalate (args.map h.display)
  modify fun w => { w with printed := w.printed.push line }
  return .noValue

/-- The inspection form of a value. -/
def callRepr : List Value → Effect Reply
  | [v] => do reply (.str (← inspect v))
  | args => unexpected "|value|" args

/-- An iterator over a value. -/
def callIter : List Value → Effect Reply
  | [v] => do
    let h ← heap
    match h.hook? v "__iter__" with
    | some hook => return .tailCall hook []
    | none =>
      match h.iteratorOf? ((h.rawValue? v).getD v) with
      | some (r, h) =>
        setHeap h
        reply (.iterator r)
      | none => raise .typeError ("'" ++ h.typeName v ++ "' object is not iterable")
  | args => unexpected "|iterable|" args

/-- The next value of an iterator, or a default past the end of a native one. -/
def advanceOr (iterator : Value) (default? : Option Value) : Effect Reply := do
  match iterator with
  | .iterator r =>
    match (← onHeap fun h => h.advance r), default? with
    | some v, _ => reply v
    | none, some v => reply v
    | none, none => raise .stopIteration ""
  | _ =>
    match (← heap).hook? iterator "__next__" with
    | some hook => return .tailCall hook []
    | none => raise .typeError ("'" ++ (← typeName iterator) ++ "' object is not an iterator")

/-- The next value of an iterator. -/
def callNext : List Value → Effect Reply
  | [iterator] => advanceOr iterator none
  | [iterator, v] => advanceOr iterator (some v)
  | args => unexpected "|iterator|, or |iterator, value|" args

/-- Whether a value can be called. -/
def callCallable : List Value → Effect Reply
  | [v] => do reply (.bool ((← heap).isCallable v))
  | args => unexpected "|value|" args

/-- Whether an instance, class, module or host object has an attribute. -/
def callHasattr : List Value → Effect Reply
  | [v, .str name] => do
    let h ← heap
    match v with
    | .instanceObj r => reply (.bool (h.instanceAttr? r name).isSome)
    | .classObj r => reply (.bool (h.classAttr? r name).isSome)
    | .moduleObj r => reply (.bool ((h.moduleObj r).attrs.has name))
    | .hostObj r => reply (.bool ((← readHost r).attrs.has name))
    | _ => reply (.bool false)
  | args => unexpected "|value, str|" args

/-- What a builtin function does. -/
def call (f : Builtin) (args : List Value) (keywords : Namespace) : Effect Reply :=
  match f with
  | len => callLen args
  | isinstance => callIsinstance args
  | issubclass => callIssubclass args
  | range => callRange args
  | print => callPrint args keywords
  | repr => callRepr args
  | iter => callIter args
  | next => callNext args
  | callable => callCallable args
  | hasattr => callHasattr args

end Builtin

/-- The type of a value: the class of an instance, a fresh type for a host object, and the entry of
a table for all else. -/
def typeOf (types : Namespace) : List Value → Effect Reply
  | [.instanceObj r] => do reply (.classObj ((← heap).instanceObj r).cls)
  | [.hostObj r] => do
    let name := (← readHost r).typeName
    let constructor ← onHeap fun h => h.newNative ⟨name, .notInstantiable⟩
    reply (.foreignType name constructor)
  | [v] => do
    let name ← typeName v
    match types.find? name with
    | some type => reply type
    | none => raise .typeError ("unknown type '" ++ name ++ "'")
  | args => unexpected "|value|" args

end TaskletMachine
