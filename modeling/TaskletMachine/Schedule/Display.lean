import TaskletMachine.Schedule.World

/-!
# Schedules as text

How promises, continuations and tasks are shown to whoever inspects them.

## Main definitions

* `Promise.text`, `Continuation.text`, `Task.text`.
* `TaskStatus.word`, `BlockKind.text`: short names.
-/
namespace TaskletMachine

/-- The kind of a block as text; that of a cleanup body shows the exception that goes on after it.
-/
def BlockKind.text (h : Heap) : BlockKind → String
  | loop => "Loop"
  | exceptGuard => "ExceptGuard"
  | finallyGuard => "FinallyGuard"
  | finallyBody fault => "FinallyBody " ++ h.repr fault.value

/-- A promise as text. -/
def Promise.text (p : Promise) : String :=
  let state := if p.settled.isSome then "complete" else "pending"
  "Promise (" ++ state ++ ")"

/-- A continuation as text. -/
def Continuation.text (w : World) : Continuation → String
  | start => "Start"
  | resume => "Resume"
  | await p _ => "AwaitExternal(AwaitHandle (" ++ (w.promise p).text ++ "))"

/-- A word for the status of a task. -/
def TaskStatus.word : TaskStatus → String
  | running => "running"
  | completed _ => "completed"
  | failed _ => "failed"

/-- The status of a task as text. -/
def TaskStatus.text (h : Heap) : TaskStatus → String
  | running => "Running"
  | completed v => "Completed(" ++ h.repr v ++ ")"
  | failed failure => "Failed(" ++ failure.text h ++ ")"

/-- A task as text. -/
def Task.text (h : Heap) (t : Task) : String :=
  "TaskHandle (" ++ taskletText t.id ++ ", " ++ t.status.text h ++ ")"

end TaskletMachine
