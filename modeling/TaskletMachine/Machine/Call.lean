import TaskletMachine.Machine.Unwind

/-!
# Calls

A call follows its callee link by link: a method leads to its function, a class to its initializer,
a callable instance to the method that says how it is called. At the end there is guest code, which
is entered as a new frame, or a native function, which runs at once. What becomes of the result is
part of the call.

## Main definitions

* `deliver`, `deliverFrom`, `returnFrom`: handing over the result of a call, and leaving a frame with
  one.
* `Vm.link`: one link of a call.
* `Vm.complete`: what the reply of a native function leads to.
* `Vm.callWithKeywords`, `Vm.buildClass`: the instructions that start other calls than the plain
  one.
-/
namespace TaskletMachine

open Exec

/-! ## Results -/

/-- Raises a value, with a cause if there is one. -/
def raiseWithCause {α : Type} (exception : Value) (cause : Option Value) : Exec α := do
  match exception, cause with
  | .instanceObj r, some cause => setHeap ((← heap).setInstanceAttr r "__cause__" cause)
  | _, _ => pure ()
  throw { cause := .raised exception }

/-- Hands over the result of a call. -/
def deliver (v : Value) : Delivery → Exec Unit
  | .push => push v
  | .iteration _ => push v
  | .discard => return ()
  | .truth negate => do push (.bool ((← heap).isTruthy v != negate))
  | .replace other next => deliver other next
  | .raise cause => raiseWithCause v cause
  | .finishClass name _ => fail ("Class body for '" ++ name ++ "' completed outside of a frame")

/-- Makes the class whose body has run in a frame. -/
def finishClass (body : Frame) (name : String) (bases : List ClassRef) : Exec Unit := do
  let c ← onHeap fun h => h.newClass { name, bases, attrs := body.locals }
  push (.classObj c)

/-- Hands over the result of a frame that has been left. -/
def deliverFrom (f : Frame) (v : Value) : Exec Unit :=
  match f.delivery with
  | .finishClass name bases => finishClass f name bases
  | delivery => deliver v delivery

/-- Leaves the innermost frame with a result. -/
def returnFrom (v : Value) : Exec Control := do
  match (← context).frames with
  | [] => throw { cause := .emptyCallStack }
  | f :: callers =>
    modifyContext fun c => { c with frames := callers }
    if callers.isEmpty then fail "Returned from the root frame"
    deliverFrom f v
    return .next

/-! ## Waiting -/

/-- The tasklet that runs. -/
def currentTasklet : Exec TaskletId :=
  return (← get).world.running.getD 0

/-- Parks the tasklet for the rest of the tick. -/
def parkTasklet : Exec Control := do
  let id ← currentTasklet
  modify fun m => { m with world := m.world.park id }
  return .suspend .resume

/-- Blocks the tasklet until a promise is settled. -/
def waitFor (p : PromiseId) (delivery : Delivery) : Exec Continuation := do
  let id ← currentTasklet
  modify fun m => { m with world := m.world.wait p id }
  return .await p delivery

/-- Hands over the result of a promise that is settled. -/
def deliverSettled (s : Settlement) (delivery : Delivery) : Exec Unit :=
  match s with
  | .value v => deliver v delivery
  | .noValue => deliver .none delivery
  | .rejected e => throw e

/-- Hands over the result of a promise, at once or when there is one. -/
def awaitPromise (p : PromiseId) (delivery : Delivery) : Exec Control := do
  match ((← get).world.promise p).settled with
  | some s =>
    deliverSettled s delivery
    return .next
  | none => return .suspend (← waitFor p delivery)

/-! ## Links -/

namespace Vm

/-- Refuses to enter another frame when the call stack is full. -/
def checkDepth (vm : Vm) : Exec Unit := do
  if vm.maxCallDepth ≤ (← context).frames.length then
    raise .recursionError "maximum recursion depth exceeded"

/-- The frame of a function, with the given values in its first slots. -/
def frameOf (unit : CodeUnit) (bound : List Value) (delivery : Delivery) : Except Error Frame :=
  let slots := unit.localNames.size
  if slots < bound.length then
    .error (.fail
      (s!"'{unit.name}' binds {bound.length} parameters but declares {slots} locals"))
  else
    let filled := bound.map some ++ List.replicate (slots - bound.length) none
    .ok { unit, delivery, slots := filled.toArray }

/-- Enters a function. -/
def enterFunction (vm : Vm) (r : FunctionRef) (c : PendingCall) : Exec Control := do
  vm.checkDepth
  let h ← heap
  let f := h.function r
  let (bound, h) ← ofExcept (matchArguments h f.unit f.defaults c.args c.keywords)
  setHeap h
  enter (← ofExcept (frameOf f.unit bound c.delivery))
  return .next

/-- What the reply of a native function leads to. -/
def complete (reply : Reply) (delivery : Delivery) : Exec Control := do
  match reply with
  | .value v =>
    deliver v delivery
    return .next
  | .noValue =>
    deliver .none delivery
    return .next
  | .tailCall callee args => return .call { callee, args, delivery }
  | .yield =>
    deliver .none delivery
    parkTasklet
  | .await p => awaitPromise p delivery

/-- Calls a class: the result is a new instance, after its initializer has run. -/
def instantiate (r : ClassRef) (c : PendingCall) : Exec Control := do
  let v := Value.instanceObj (← onHeap fun h => h.instantiate r)
  let h ← heap
  match h.classAttr? r "__init__" with
  | some callee =>
    return .call { c with callee, args := v :: c.args, delivery := .replace v c.delivery }
  | none =>
    if !c.args.isEmpty || !c.keywords.isEmpty then
      raise .typeError ((h.classObj r).name ++ "() takes no arguments")
    deliver v c.delivery
    return .next

/-- One link of a call. -/
def link (vm : Vm) (c : PendingCall) : Exec Control := do
  let h ← heap
  match c.callee with
  | .function r => vm.enterFunction r c
  | .native r =>
    let reply ← ofEffect (callNative vm.host (h.native r).behaviour c.args c.keywords)
    complete reply c.delivery
  | .method receiver callee => return .call { c with callee, args := receiver :: c.args }
  | .classObj r => instantiate r c
  | .instanceObj r =>
    match h.instanceAttr? r "__call__" with
    | some callee => return .call { c with callee }
    | none => throw (.notCallable (h.typeName c.callee))
  | .hostObj r =>
    let reply ← ofEffect (callHost vm.host r c.args c.keywords)
    complete reply c.delivery
  | .foreignType _ constructor => return .call { c with callee := .native constructor }
  | v => throw (.notCallable (h.typeName v))

/-! ## Instructions that call -/

/-- Starts a call whose result is pushed. -/
def startCall (callee : Value) (args : List Value) (keywords : Namespace := []) : Control :=
  .call { callee, args, keywords, delivery := .push }

/-- Calls with as many positional arguments as given. -/
def call (count : Nat) : Exec Control := do
  let args ← popN count
  return startCall (← pop) args

/-- Pairs the names of keyword arguments with their values. -/
def pairKeywords : List Value → List Value → Namespace → Exec Namespace
  | .str name :: names, v :: values, keywords =>
    pairKeywords names values (keywords.set name v)
  | other :: _, _ :: _, _ => failShowing "CALL_FUNCTION_KW: expected a keyword name, found " other
  | _, _, keywords => return keywords

/-- Calls with as many arguments as given, the last of them by the names in a tuple on top of the
stack. -/
def callWithKeywords (count : Nat) : Exec Control := do
  match (← pop) with
  | .tuple _ names =>
    let named := names.length
    if count < named then
      fail (s!"CALL_FUNCTION_KW: {named} keyword names for {count} arguments")
    let values ← popN named
    let keywords ← pairKeywords names values []
    let args ← popN (count - named)
    return startCall (← pop) args keywords
  | other =>
    failShowing "CALL_FUNCTION_KW: expected a tuple of keyword names, found " other

/-- The classes that a tuple of bases lists. -/
def basesOf : List Value → Exec (List ClassRef)
  | [] => return []
  | .classObj c :: rest => return c :: (← basesOf rest)
  | other :: _ => do
    raise .typeError ("bases must be classes, found '" ++ (← heap).typeName other ++ "'")

/-- The bases of a class, from the stack. -/
def popBases : Exec (List ClassRef) := do
  match (← pop) with
  | .tuple _ bases => basesOf bases
  | other => failShowing "BUILD_CLASS: expected a tuple of bases, found " other

/-- The name of a class, from the stack. -/
def popClassName : Exec String := do
  match (← pop) with
  | .str name => return name
  | other => failShowing "BUILD_CLASS: expected a name, found " other

/-- The body of a class, from the stack. -/
def popClassBody : Exec FunctionObject := do
  match (← pop) with
  | .function r => return (← heap).function r
  | other => failShowing "BUILD_CLASS: expected the class body, found " other

/-- Runs the body of a class, which becomes a class with a name and bases from the stack. -/
def buildClass (vm : Vm) : Exec Control := do
  let bases ← popBases
  let name ← popClassName
  let body ← popClassBody
  vm.checkDepth
  enter (Frame.start body.unit (.finishClass name bases))
  return .next

end Vm

end TaskletMachine
