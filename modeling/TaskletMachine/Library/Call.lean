import TaskletMachine.Host.Basic
import TaskletMachine.Library.Builtins
import TaskletMachine.Library.Convert
import TaskletMachine.Library.Dicts
import TaskletMachine.Library.Lists
import TaskletMachine.Library.Strings
import TaskletMachine.Library.Tasklets

/-!
# Calling native functions

## Main definitions

* `callNative`: what a native function does.
* `callHost`: calling a host object, into which nobody can look meanwhile.
-/
namespace TaskletMachine

open Effect

/-- Keeps the arguments with which an exception is made. -/
def initException : List Value → Effect Reply
  | .instanceObj r :: args => do
    let kept ← newTuple args
    setHeap ((← heap).setInstanceAttr r "args" kept)
    return .noValue
  | v :: _ => do throw (.typeMismatch (← heap) "an exception instance" v)
  | [] => do throw (.typeMismatch (← heap) "an exception instance" .none)

/-- What a native function does. -/
def callNative (host : Host) (f : Behaviour) (args : List Value) (keywords : Namespace) :
    Effect Reply :=
  match f with
  | .builtin f => f.call args keywords
  | .typeOf types => typeOf types args
  | .convert target => target.call args keywords
  | .notInstantiable => raise .typeError "this type can't be instantiated"
  | .exceptionInit => initException args
  | .listMethod m => m.call args keywords
  | .dictMethod m => m.call args
  | .strMethod m => m.call args
  | .schedule => schedule args
  | .tasklets pool => listTasklets pool args
  | .host id => host.run id args keywords

/-- The exception for a value that cannot be called. -/
def Error.notCallable (typeName : String) : Error :=
  .raise .typeError ("'" ++ typeName ++ "' object is not callable")

/-- Runs an effect during which a host object is being called. -/
def whileBusy {α : Type} (r : HostRef) (effect : Effect α) : Effect α := fun w =>
  let release (w : World) : World := { w with heap := w.heap.setBusy r false }
  match effect { w with heap := w.heap.setBusy r true } with
  | .ok a w => .ok a (release w)
  | .error e w => .error e (release w)

/-- Calls a host object. -/
def callHost (host : Host) (r : HostRef) (args : List Value) (keywords : Namespace) :
    Effect Reply := do
  let o := (← heap).hostObj r
  if o.busy then throw .alreadyBorrowed
  match o.call with
  | some f => whileBusy r (callNative host ((← heap).native f).behaviour args keywords)
  | none => throw (.notCallable o.typeName)

end TaskletMachine
