import TaskletMachine.Value.Error

/-!
# The core library

The tables of the core library: the names that every tasklet starts with, the exception classes, the
native types, and the methods of native containers.

## Main definitions

* `Library`, `Library.install`: the tables, and a fresh copy of them on a heap.
* `installSys`: the module through which guest code reaches its scheduler.
-/
namespace TaskletMachine

/-- The tables of the core library. -/
structure Library where
  builtins : Namespace := []
  exceptions : Namespace := []
  types : Namespace := []
  list : Namespace := []
  dict : Namespace := []
  string : Namespace := []
deriving Inhabited

namespace Library

/-- A table by its name. -/
def table? (l : Library) : String → Option Namespace
  | "builtins" => some l.builtins
  | "exceptions" => some l.exceptions
  | "types" => some l.types
  | "list" => some l.list
  | "dict" => some l.dict
  | "string" => some l.string
  | _ => none

/-- The methods of lists. -/
def listMethods : List (String × Behaviour) :=
  [("append", .append), ("clear", .clear), ("copy", .copy), ("count", .count), ("extend", .extend),
   ("index", .index), ("insert", .insert), ("pop", .pop), ("remove", .remove),
   ("reverse", .reverse), ("sort", .sort)].map fun (name, m) => (name, .listMethod m)

/-- The methods of dicts. -/
def dictMethods : List (String × Behaviour) :=
  [("clear", .clear), ("copy", .copy), ("get", .get), ("items", .items), ("keys", .keys),
   ("pop", .pop), ("setdefault", .setdefault), ("update", .update),
   ("values", .values)].map fun (name, m) => (name, .dictMethod m)

/-- The methods of strings. -/
def strMethods : List (String × Behaviour) :=
  [("endswith", .endswith), ("find", .find), ("join", .join), ("lower", .lower),
   ("replace", .replace), ("split", .split), ("startswith", .startswith), ("strip", .strip),
   ("upper", .upper)].map fun (name, m) => (name, .strMethod m)

/-- The functions that are called by name, given the table of types. -/
def functions (types : Namespace) : List (String × Behaviour) :=
  [("len", .builtin .len), ("isinstance", .builtin .isinstance),
   ("issubclass", .builtin .issubclass), ("range", .builtin .range), ("print", .builtin .print),
   ("repr", .builtin .repr), ("type", .typeOf types), ("iter", .builtin .iter),
   ("next", .builtin .next), ("callable", .builtin .callable), ("hasattr", .builtin .hasattr)]

/-- The types that convert their argument; they are builtins too. -/
def conversions : List (String × Behaviour) :=
  [("bool", .toBool), ("int", .toInt), ("float", .toFloat), ("str", .toStr), ("tuple", .toTuple),
   ("list", .toList), ("dict", .toDict)].map fun (name, target) => (name, .convert target)

/-- The types of values that cannot be made by a call. -/
def otherTypes : List (String × Behaviour) :=
  ["NoneType", "function", "builtin_function", "method", "type", "module", "iterator",
   "code"].map fun name => (name, .notInstantiable)

/-- Makes a native function for each entry. -/
def makeNatives : List (String × Behaviour) → Heap → Namespace × Heap
  | [], h => ([], h)
  | (name, behaviour) :: rest, h =>
    let (r, h) := h.newNative ⟨name, behaviour⟩
    let (more, h) := makeNatives rest h
    ((name, .native r) :: more, h)

/-- Makes a type for each entry, with the entry as its constructor. -/
def makeTypes : List (String × Behaviour) → Heap → Namespace × Heap
  | [], h => ([], h)
  | (name, behaviour) :: rest, h =>
    let (r, h) := h.newNative ⟨name, behaviour⟩
    let (more, h) := makeTypes rest h
    ((name, .foreignType name r) :: more, h)

/-- Makes the class of an exception, whose parent's class was made before. The root of the hierarchy
has the initializer that all others inherit. -/
def makeException (made : Namespace) (kind : ExceptionKind) (h : Heap) : Value × Heap :=
  match kind.parent? with
  | none =>
    let (init, h) := h.newNative ⟨"__init__", .exceptionInit⟩
    let attrs := [("__init__", .native init)]
    let (r, h) := h.newClass { name := kind.name, bases := [], attrs }
    (.classObj r, h)
  | some parent =>
    let bases :=
      match made.find? parent.name with
      | some (.classObj c) => [c]
      | _ => []
    let (r, h) := h.newClass { name := kind.name, bases, attrs := [] }
    (.classObj r, h)

/-- Makes the classes of several exceptions, after those made before. -/
def makeExceptions : List ExceptionKind → (made : Namespace) → Heap → Namespace × Heap
  | [], made, h => (made, h)
  | kind :: rest, made, h =>
    let (v, h) := makeException made kind h
    makeExceptions rest (made.set kind.name v) h

/-- Makes a fresh core library. -/
def install (h : Heap) : Library × Heap :=
  let (exceptions, h) := makeExceptions ExceptionKind.all [] h
  let (types, h) := makeTypes (conversions ++ otherTypes) h
  let (named, h) := makeNatives (functions types) h
  let (list, h) := makeNatives listMethods h
  let (dict, h) := makeNatives dictMethods h
  let (string, h) := makeNatives strMethods h
  let builtins := (Names.setAll named exceptions).setAll (types.take conversions.length)
  ({ builtins, exceptions, types, list, dict, string }, h)

end Library

/-- The functions through which guest code reaches its scheduler. -/
def schedulerFunctions : List (String × Behaviour) :=
  [("schedule", .schedule), ("get_active", .tasklets .active), ("get_blocked", .tasklets .blocked),
   ("get_unblocked", .tasklets .unblocked), ("get_yielded", .tasklets .yielded)]

/-- Makes the module through which guest code reaches its scheduler. -/
def installSys (h : Heap) : ModuleRef × Heap :=
  let (attrs, h) := Library.makeNatives schedulerFunctions h
  let (scheduler, h) := h.newModule { name := "sys.scheduler", attrs }
  h.newModule { name := "sys", attrs := [("scheduler", .moduleObj scheduler)] }

end TaskletMachine
