import TaskletMachine.Value.Render

/-!
# Errors and faults

An error is either a guest exception, which guest code can catch, or a failure of the machine, which
ends the tasklet. A fault is an exception on its way through the call stack, with the places that it
has passed.

## Main definitions

* `ExceptionKind`: the exceptions that the machine itself raises, and their hierarchy.
* `Cause`, `Error`: what went wrong, and for failures also where.
* `TraceEntry`, `Fault`: a place in guest code, and a raised exception with the places it passed.
-/
namespace TaskletMachine

/-- The exceptions that the machine itself raises. -/
inductive ExceptionKind where
  | baseException
  | exception
  | stopIteration
  | arithmeticError
  | zeroDivisionError
  | overflowError
  | assertionError
  | attributeError
  | importError
  | moduleNotFoundError
  | lookupError
  | indexError
  | keyError
  | nameError
  | unboundLocalError
  | runtimeError
  | notImplementedError
  | recursionError
  | typeError
  | valueError
deriving DecidableEq, Repr

namespace ExceptionKind

/-- Every kind, a parent before its children. -/
def all : List ExceptionKind :=
  [baseException, exception, stopIteration, arithmeticError, zeroDivisionError, overflowError,
   assertionError, attributeError, importError, moduleNotFoundError, lookupError, indexError,
   keyError, nameError, unboundLocalError, runtimeError, notImplementedError, recursionError,
   typeError, valueError]

/-- The name of a kind's class. -/
def name : ExceptionKind → String
  | baseException => "BaseException"
  | exception => "Exception"
  | stopIteration => "StopIteration"
  | arithmeticError => "ArithmeticError"
  | zeroDivisionError => "ZeroDivisionError"
  | overflowError => "OverflowError"
  | assertionError => "AssertionError"
  | attributeError => "AttributeError"
  | importError => "ImportError"
  | moduleNotFoundError => "ModuleNotFoundError"
  | lookupError => "LookupError"
  | indexError => "IndexError"
  | keyError => "KeyError"
  | nameError => "NameError"
  | unboundLocalError => "UnboundLocalError"
  | runtimeError => "RuntimeError"
  | notImplementedError => "NotImplementedError"
  | recursionError => "RecursionError"
  | typeError => "TypeError"
  | valueError => "ValueError"

/-- The kind whose class is the base of a kind's class. -/
def parent? : ExceptionKind → Option ExceptionKind
  | baseException => none
  | exception => some baseException
  | zeroDivisionError | overflowError => some arithmeticError
  | moduleNotFoundError => some importError
  | indexError | keyError => some lookupError
  | unboundLocalError => some nameError
  | notImplementedError | recursionError => some runtimeError
  | _ => some exception

/-- The kind of a name. -/
def ofName? (s : String) : Option ExceptionKind :=
  all.find? fun kind => kind.name == s

end ExceptionKind

/-- A place in guest code. -/
structure TraceEntry where
  unit : String
  line : Option Nat
  ip : Nat
deriving DecidableEq, Repr

/-- A place as it is shown in a traceback. -/
def TraceEntry.text (e : TraceEntry) : String :=
  match e.line with
  | some line => "'" ++ e.unit ++ s!"', line {line} (ip {e.ip})"
  | none => "'" ++ e.unit ++ s!"' (ip {e.ip})"

/-- What went wrong. -/
inductive Cause where
  /-- A failure with a message. -/
  | failure (message : String)
  /-- A guest exception of a class that the machine knows. -/
  | exception (kind : ExceptionKind) (message : String)
  /-- A value that is to be raised as it is. -/
  | raised (value : Value)
  | malformed (message : String)
  | emptyCallStack
  | stackUnderflow
  | missingConstant (index : Nat)
  | missingName (index : Nat)
  | missingLocal (index : Nat)
  /-- The machine itself broke down: it read past the end of one of its tables. -/
  | outOfRange (index : Nat)
  /-- The machine itself broke down: it sorted by comparisons that are not those of an order. -/
  | noOrder
deriving Inhabited

namespace Cause

/-- Whether guest code can catch it. -/
def isGuest : Cause → Bool
  | exception _ _ | raised _ => true
  | _ => false

/-- Whether the machine itself broke down. -/
def isBreakdown : Cause → Bool
  | outOfRange _ | noOrder => true
  | _ => false

/-- The name of the kind of a cause, for a guest exception that of its class. -/
def kind : Cause → String
  | failure _ => "StringError"
  | exception kind _ => kind.name
  | raised _ => "Raised"
  | malformed _ => "MalformedBytecode"
  | emptyCallStack => "EmptyCallStack"
  | stackUnderflow => "StackUnderflow"
  | missingConstant _ => "MissingConstant"
  | missingName _ => "MissingName"
  | missingLocal _ => "MissingLocal"
  | outOfRange _ => "OutOfRange"
  | noOrder => "NoOrder"

/-- The message; that of a raised value is the name of its type. -/
def message (h : Heap) : Cause → String
  | failure text => text
  | exception _ text => text
  | raised v => h.typeName v
  | malformed text => "Malformed bytecode: " ++ text
  | emptyCallStack => "Empty call stack"
  | stackUnderflow => "Operand stack underflow"
  | missingConstant index => s!"Missing constant {index}"
  | missingName index => s!"Missing name {index}"
  | missingLocal index => s!"Missing fast local {index}"
  | outOfRange index => s!"Index {index} is out of range"
  | noOrder => "Comparisons are not those of a total order"

/-- The message, after the name of the class for an exception. -/
def text (h : Heap) (c : Cause) : String :=
  match c with
  | exception kind text => kind.name ++ ": " ++ text
  | _ => c.message h

/-- Puts a text before a message of free wording. -/
def addContext (context : String) : Cause → Cause
  | failure text => failure (context ++ ": " ++ text)
  | exception kind text => exception kind (context ++ ": " ++ text)
  | c => c

end Cause

/-- What went wrong and, for a failure that ended a tasklet, the call chain at that moment,
innermost place first. -/
structure Error where
  cause : Cause
  trace : List TraceEntry := []
deriving Inhabited

namespace Error

/-- An error without places. -/
instance : Coe Cause Error := ⟨fun cause => { cause }⟩

/-- A guest exception. -/
def raise (kind : ExceptionKind) (message : String) : Error :=
  { cause := .exception kind message }

/-- A failure of the machine. -/
def fail (message : String) : Error :=
  { cause := .failure message }

/-- Malformed bytecode. -/
def malformed (message : String) : Error :=
  { cause := .malformed message }

/-- Whether guest code can catch it. -/
def isGuest (e : Error) : Bool :=
  e.cause.isGuest

/-- The error as text, a place a line after the message. -/
def text (h : Heap) (e : Error) : String :=
  e.cause.text h ++ String.join (e.trace.map fun entry => "\n--- " ++ entry.text)

/-- Puts a text before a message of free wording. -/
def addContext (context : String) (e : Error) : Error :=
  { e with cause := e.cause.addContext context }

/-- The exception for a value of the wrong type. -/
def typeMismatch (h : Heap) (expected : String) (v : Value) : Error :=
  raise .typeError ("expected " ++ expected ++ ", found '" ++ h.typeName v ++ "'")

/-- The exception for arguments that a native function does not take. -/
def unexpectedArgs (h : Heap) (expected : String) (args : List Value) : Error :=
  let found :=
    match args with
    | [] => "no args"
    | [v] => h.typeName v
    | _ => "(" ++ commaSeparated (args.map h.typeName) ++ ")"
  raise .typeError ("expected " ++ expected ++ ", found " ++ found)

end Error

/-- A raised exception and the places that it has passed, innermost first. -/
structure Fault where
  value : Value
  traceback : List TraceEntry
deriving Inhabited

namespace Fault

/-- The name of the exception's class. -/
def kind (h : Heap) (f : Fault) : String :=
  h.typeName f.value

/-- The exception that a fault was raised from, if it is known. -/
def cause? (h : Heap) (f : Fault) : Option Value :=
  match f.value with
  | .instanceObj r => h.instanceAttr? r "__cause__"
  | _ => none

/-- The exception's message. -/
def message (h : Heap) (f : Fault) : String :=
  h.display f.value

/-- The fault as text: the places, outermost first, then the exception. -/
def text (h : Heap) (f : Fault) : String :=
  let places := f.traceback.reverse.map fun entry => "  " ++ entry.text ++ "\n"
  let message := f.message h
  let ending := if message.isEmpty then "" else ": " ++ message
  "Traceback (most recent call last):\n" ++ String.join places ++ f.kind h ++ ending

end Fault

end TaskletMachine
