import TaskletMachine.Machine.Frame

/-!
# Contexts

The state of one tasklet: its call stack, the exceptions it deals with, how it ended, and what it
imported.

## Main definitions

* `Context`, `Context.start`: the state of a tasklet, and its first state.
* `Context.loadName?`, `Context.storeName?`, `Context.loadGlobal?`: how names are bound.
* `Context.isFinished`, `Context.isUnhandled`: how a tasklet ends.
* `Context.trace`: the call chain.
-/
namespace TaskletMachine

/-- The state of one tasklet. -/
structure Context where
  /-- The call stack, innermost frame first; the last one is the root frame. -/
  frames : List Frame
  /-- The values of names that no frame binds. -/
  builtins : Namespace
  /-- The exception that is on its way, or that ended the tasklet. -/
  fault : Option Fault := none
  /-- The exception that was caught last. -/
  handled : Option Fault := none
  /-- The failure that ended the tasklet. -/
  fatal : Option Error := none
  /-- What the root frame returned. -/
  returned : Option Value := none
  /-- The modules that have been imported. -/
  modules : Namespace := []
  /-- The modules that can be imported, if any can. -/
  loader : Option (Names ModuleRef) := none
deriving Inhabited

namespace Context

/-- The root frame. -/
def root? (c : Context) : Option Frame :=
  c.frames.getLast?

/-- Changes the root frame. -/
def mapRoot (f : Frame → Frame) : List Frame → List Frame
  | [] => []
  | [root] => [f root]
  | frame :: rest => frame :: mapRoot f rest

/-- The value of a global, which is a local of the root frame. -/
def global? (c : Context) (name : String) : Option Value :=
  c.root?.bind fun frame => frame.local? name

/-- Gives a global a value. -/
def setGlobal (c : Context) (name : String) (v : Value) : Context :=
  { c with frames := mapRoot (·.setLocal name v) c.frames }

/-- A tasklet before its first step, with the given globals. -/
def start (unit : CodeUnit) (builtins : Namespace) (globals : Namespace) : Context :=
  let c : Context := { frames := [Frame.start unit .push], builtins }
  globals.foldl (fun c (name, v) => c.setGlobal name v) c

/-- The value of a name: that of the innermost frame that has it, or the builtin. -/
def loadName? (c : Context) (name : String) : Option Value :=
  (c.frames.findSome? (·.local? name)).or (c.builtins.find? name)

/-- The value of a name: that of the root frame, or the builtin. -/
def loadGlobal? (c : Context) (name : String) : Option Value :=
  (c.global? name).or (c.builtins.find? name)

/-- Gives a name a value in the innermost frame that has it, or nothing if none has. -/
def storeInNearest? (name : String) (v : Value) : List Frame → Option (List Frame)
  | [] => none
  | frame :: rest =>
    if frame.hasLocal name then some (frame.setLocal name v :: rest)
    else (storeInNearest? name v rest).map (frame :: ·)

/-- Whether a frame binds a name itself, whatever the frames below it bind: a class body does, and a
frame that has the name or declares it. -/
def bindsOwn (frame : Frame) (name : String) : Bool :=
  (match frame.delivery with
    | .finishClass _ _ => true
    | _ => false) ||
  frame.hasLocal name || (frame.unit.localIndex? name).isSome

/-- Gives a name a value: in the innermost frame if it binds the name itself, otherwise in the
nearest frame that has the name, and if there is none in the innermost one. -/
def storeName? (c : Context) (name : String) (v : Value) : Option Context :=
  match c.frames with
  | [] => none
  | frame :: rest =>
    let own := { c with frames := frame.setLocal name v :: rest }
    if bindsOwn frame name then some own
    else
      match storeInNearest? name v rest with
      | some rest => some { c with frames := frame :: rest }
      | none => some own

/-- Whether the code has run to completion: no frame is left, or only the root frame, past its end
and in no block. -/
def isFinished (c : Context) : Bool :=
  match c.frames with
  | [] => true
  | [root] => root.atEnd && root.blocks.isEmpty
  | _ => false

/-- Whether an exception is on its way and no block is left to take it. -/
def isUnhandled (c : Context) : Bool :=
  c.fault.isSome &&
    match c.frames with
    | [] => true
    | [root] => root.blocks.isEmpty
    | _ => false

/-- The exception that ended the tasklet. -/
def unhandled? (c : Context) : Option Fault :=
  if c.isUnhandled then c.fault else none

/-- The call chain, innermost frame first. -/
def trace (c : Context) : List TraceEntry :=
  c.frames.map Frame.place

end Context

end TaskletMachine
