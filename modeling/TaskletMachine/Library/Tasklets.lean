import TaskletMachine.Code.Assembler
import TaskletMachine.Library.Reply

/-!
# Tasklets as guest code sees them

Guest code can ask for a new tasklet that calls a value, and list the tasklets of each pool. The new
tasklet starts on the next tick; its code loads the callee and the arguments by name, calls, and
returns the result.

## Main definitions

* `spawnedCall`: the code and the globals of a tasklet that makes a call.
* `spawnCall`: asking for such a tasklet.
* `schedule`, `listTasklets`: the two functions.
-/
namespace TaskletMachine

open Effect

/-- The name under which a tasklet finds what it calls. -/
def targetName : String := "__target__"

/-- The name under which a tasklet finds one of its arguments. -/
def argumentName (index : Nat) : String :=
  s!"__arg{index}__"

/-- The arguments with their names. -/
def argumentGlobals (args : List Value) : Namespace :=
  args.zipIdx.map fun (v, index) => (argumentName index, v)

/-- The directives of the code that calls the target with a number of arguments. -/
def spawnedDirectives (count : Nat) : List Directive :=
  .named .loadName targetName ::
    (List.range count).map (fun index => .named .loadName (argumentName index)) ++
    [.opWith .callFunction (UInt16.ofNat count), .op .returnValue]

/-- The code and the globals of a tasklet that makes a call. -/
def spawnedCall (callee : Value) (args : List Value) : Except Error (CodeUnit × Namespace) :=
  if Assembler.operandLimit ≤ args.length then
    .error (.fail "Too many arguments for a scheduled call")
  else
    match assemble 0 "<scheduled>" (spawnedDirectives args.length) with
    | .ok unit => .ok (unit, (targetName, callee) :: argumentGlobals args)
    | .error e => .error (.fail ("Failed to prepare a scheduled call: " ++ e.message))

/-- The id of a tasklet as a value. -/
def taskletValue (id : TaskletId) : Value :=
  .int (Int64.ofNat id)

/-- Queues a tasklet that calls a value, and replies with its id. -/
def spawnCall (callee : Value) (args : List Value) : Effect Reply := do
  let (unit, globals) ← ofExcept (spawnedCall callee args)
  let (id, w) := (← get).spawn unit globals
  set w
  reply (taskletValue id)

/-- Asks for a tasklet that calls a value, and replies with its id. -/
def schedule (args : List Value) : Effect Reply := do
  match args with
  | callee :: rest =>
    if !(← heap).isCallable callee then unexpected "|callable, ...|" args
    spawnCall callee rest
  | [] => unexpected "|callable, ...|" args

/-- Replies with the ids of the tasklets in a pool. -/
def listTasklets (pool : PoolName) : List Value → Effect Reply
  | [] => do
    let ids := (← get).pools.tasklets pool
    reply (← newList (ids.map taskletValue))
  | args => unexpected "||" args

end TaskletMachine
