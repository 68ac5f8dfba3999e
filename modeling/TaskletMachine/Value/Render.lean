import TaskletMachine.Value.Traits

/-!
# The text of a value

Two forms: the one for inspection, in which strings are quoted, and the one for display. A container
that is met again while it is being written is abbreviated. Nothing of the kind watches over methods
and over the arguments of exceptions, so a value that contains itself through those has no text;
rendering is therefore bounded by a depth.

## Main definitions

* `Heap.render`: the inspection form up to a depth, or nothing if the depth does not suffice.
* `Heap.repr`, `Heap.display`: the two forms.
* `Heap.describe`: the form that names an object by its kind.
-/
namespace TaskletMachine

/-- The containers that are being written. -/
inductive Container where
  | list (ref : ListRef)
  | dict (ref : DictRef)
deriving DecidableEq

/-- A string in single quotes, with a backslash before each single quote in it. -/
def quoted (s : String) : String :=
  let body := s.toList.flatMap fun c => if c == '\'' then ['\\', '\''] else [c]
  String.ofList ('\'' :: body ++ ['\''])

/-- Texts separated by commas. -/
def commaSeparated (texts : List String) : String :=
  ", ".intercalate texts

namespace Heap

/-- The inspection form of a value, if it is at most `depth` deep. -/
def render (h : Heap) : (depth : Nat) → (visiting : List Container) → Value → Option String
  | 0, _, _ => none
  | depth + 1, visiting, v =>
    match v with
    | .none => some "None"
    | .bool b => some (if b then "True" else "False")
    | .int n => some (toString n.toInt)
    | .float x => some (Number.floatText x)
    | .str s => some (quoted s)
    | .tuple _ items => do
      let texts ← items.mapM (h.render depth visiting)
      return "(" ++ commaSeparated texts ++ (if items.length == 1 then "," else "") ++ ")"
    | .list r =>
      if visiting.contains (.list r) then some "[...]"
      else do
        let texts ← (h.list r).mapM (h.render depth (.list r :: visiting))
        return "[" ++ commaSeparated texts ++ "]"
    | .dict r =>
      if visiting.contains (.dict r) then some "\x7b...\x7d"
      else do
        let texts ← (h.dict r).mapM fun (key, value) => do
          let k ← h.render depth (.dict r :: visiting) key
          let v ← h.render depth (.dict r :: visiting) value
          return k ++ ": " ++ v
        return "\x7b" ++ commaSeparated texts ++ "\x7d"
    | .function r => some ("<function " ++ (h.function r).name ++ ">")
    | .native r => some ("<built-in function " ++ (h.native r).name ++ ">")
    | .method receiver _ => do
      let text ← h.render depth [] receiver
      return "<bound method of " ++ text ++ ">"
    | .classObj r => some ("<class '" ++ (h.classObj r).name ++ "'>")
    | .instanceObj r =>
      let name := h.typeName v
      match h.ownAttr? r "args" with
      | some (.tuple _ args) => do
        let texts ← args.mapM (h.render depth visiting)
        return name ++ "(" ++ commaSeparated texts ++ ")"
      | _ => some ("<" ++ name ++ " object>")
    | .hostObj _ => some ("<" ++ h.typeName v ++ " object>")
    | .foreignType name _ => some ("<class '" ++ name ++ "'>")
    | .moduleObj r => some ("<module '" ++ (h.moduleObj r).name ++ "'>")
    | .iterator _ => some "<iterator>"
    | .code u => some ("<code " ++ u.name ++ ">")

mutual

/-- The number of values that a value is made of. -/
def weight : Value → Nat
  | .tuple _ items => 1 + weights items
  | .method receiver callee => 1 + weight receiver + weight callee
  | _ => 1

/-- The number of values that several values are made of. -/
def weights : List Value → Nat
  | [] => 0
  | v :: rest => weight v + weights rest

end

/-- The number of values in lists, dicts and instances. -/
def volume (h : Heap) : Nat :=
  let lists := h.lists.foldl (fun n items => n + weights items) 0
  let dicts := h.dicts.foldl (fun n es => es.foldl (fun n (k, v) => n + weight k + weight v) n) 0
  let own := h.instances.foldl (fun n i => i.attrs.foldl (fun n (_, v) => n + weight v) n) 0
  lists + dicts + own

/-- A depth past which only a value that contains itself can reach: on a shorter way down some
receiver, or some value between two containers that are being written, comes twice. -/
def renderDepth (h : Heap) (v : Value) : Nat :=
  let all := h.volume + weight v + 1
  let containers := h.lists.size + h.dicts.size + 1
  all * all * containers

/-- The inspection form of a value, empty for a value that contains itself without a container in
between. -/
def repr (h : Heap) (v : Value) : String :=
  (h.render (h.renderDepth v) [] v).getD ""

/-- The display form of a value, at most `depth` exceptions deep: strings are bare, and an exception
shows its message. -/
def displayWithin (h : Heap) : (depth : Nat) → Value → String
  | 0, v => h.repr v
  | depth + 1, v =>
    match v with
    | .str s => s
    | .instanceObj r =>
      match h.ownAttr? r "args" with
      | some (.tuple _ []) => ""
      | some (.tuple _ [arg]) => h.displayWithin depth arg
      | some args@(.tuple _ _) => h.repr args
      | _ => h.repr v
    | _ => h.repr v

/-- The display form of a value. -/
def display (h : Heap) (v : Value) : String :=
  h.displayWithin (h.volume + 1) v

/-- The form that names functions, classes, instances, types and modules by their kind; other values
have their inspection form. -/
def describe (h : Heap) (v : Value) : String :=
  match v with
  | .function r => "Function '" ++ (h.function r).name ++ "'"
  | .native r => "NativeFunction '" ++ (h.native r).name ++ "'"
  | .classObj r => "Class '" ++ (h.classObj r).name ++ "'"
  | .instanceObj _ => "Instance of '" ++ h.typeName v ++ "'"
  | .foreignType name _ => "ForeignType '" ++ name ++ "'"
  | .moduleObj r => "Module '" ++ (h.moduleObj r).name ++ "'"
  | _ => h.repr v

end Heap

end TaskletMachine
