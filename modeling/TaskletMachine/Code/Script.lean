import TaskletMachine.Code.Assembler

/-!
# Scripts

Directives whose labels go by name. A label is made when its name is mentioned first.

## Main definitions

* `Script`, `Script.add`, `Script.label`: scripts as they are written.
* `Script.assemble`: the unit of a script.
-/
namespace TaskletMachine

/-- Directives with the names of their labels. -/
structure Script where
  /-- The directives, newest first. -/
  directives : List Directive := []
  /-- The names of the labels with their numbers. -/
  labels : List (String × Nat) := []

namespace Script

/-- Adds a directive. -/
def add (s : Script) (d : Directive) : Script :=
  { s with directives := d :: s.directives }

/-- The number of a label, which is made if its name is new. -/
def label (s : Script) (name : String) : Script × Nat :=
  match s.labels.find? fun entry => entry.1 == name with
  | some (_, index) => (s, index)
  | none =>
    let index := s.labels.length
    ({ s.add .newLabel with labels := (name, index) :: s.labels }, index)

/-- Adds a directive that mentions a label. -/
def addAt (s : Script) (name : String) (d : Nat → Directive) : Script :=
  let (s, index) := s.label name
  s.add (d index)

/-- The unit of a script. -/
def assemble (s : Script) (serial : Nat) (name : String) : Except AssemblyError CodeUnit :=
  TaskletMachine.assemble serial name s.directives.reverse

end Script

end TaskletMachine
