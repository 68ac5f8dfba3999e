import TaskletMachine.Library.Builtins
import TaskletMachine.Library.Tables

/-!
# Attributes

Reading and assigning attributes. Instances, classes, modules and host objects keep attributes of
their own; lists, dicts and strings have the methods of the library, bound to them.

## Main definitions

* `getAttr`, `setAttr`: reading and assigning an attribute.
* `Error.noAttribute`: what happens if there is none.
-/
namespace TaskletMachine

/-- The exception for an attribute that its owner does not have. -/
def Error.noAttribute (owner name : String) : Error :=
  .raise .attributeError (owner ++ " has no attribute '" ++ name ++ "'")

/-- An object of a type, as messages about attributes call it. -/
def objectOf (typeName : String) : String :=
  "'" ++ typeName ++ "' object"

/-- An attribute that was found, or the exception that it was not. -/
def foundAttr (owner name : String) : Option Value → Except Error Value
  | some v => .ok v
  | none => .error (.noAttribute owner name)

/-- The methods of the library that values of a native type have. -/
def Library.methods (l : Library) : Value → Namespace
  | .list _ => l.list
  | .dict _ => l.dict
  | .str _ => l.string
  | _ => []

/-- A method of the library, bound to a value. -/
def Library.boundMethod? (l : Library) (receiver : Value) (name : String) : Option Value :=
  ((l.methods receiver).find? name).map fun f => .method receiver f

/-- The attribute of a value. -/
def getAttr (l : Library) (h : Heap) (v : Value) (name : String) : Except Error Value :=
  let found := foundAttr (objectOf (h.typeName v)) name
  match v with
  | .instanceObj r => found (h.instanceAttr? r name)
  | .classObj r =>
    let className := (h.classObj r).name
    if name == "__name__" then .ok (.str className)
    else foundAttr ("type object '" ++ className ++ "'") name (h.classAttr? r name)
  | .moduleObj r =>
    let m := h.moduleObj r
    foundAttr ("module '" ++ m.name ++ "'") name (m.attrs.find? name)
  | .hostObj r =>
    let o := h.hostObj r
    if o.busy then .error .borrowed else found (o.attrs.find? name)
  | .function r => found (if name == "__name__" then some (.str (h.function r).name) else none)
  | _ => found (l.boundMethod? v name)

/-- Assigns to an attribute of a host object, as its rule allows. -/
def setHostAttr (h : Heap) (r : HostRef) (name : String) (v : Value) : Except Error Heap :=
  let o := h.hostObj r
  if o.busy then .error .alreadyBorrowed
  else
    match o.rule with
    | .closed => .error (.noAttribute (objectOf o.typeName) name)
    | .open readOnly =>
      if readOnly.contains name then
        .error (.raise .attributeError
          ("'" ++ o.typeName ++ "' attribute '" ++ name ++ "' is read-only"))
      else .ok (h.setHostAttr r name v)

/-- Assigns to an attribute of a value. -/
def setAttr (h : Heap) (owner : Value) (name : String) (v : Value) : Except Error Heap :=
  match owner with
  | .instanceObj r => .ok (h.setInstanceAttr r name v)
  | .classObj r => .ok (h.setClassAttr r name v)
  | .moduleObj r => .ok (h.setModuleAttr r name v)
  | .hostObj r => setHostAttr h r name v
  | _ => .error (.noAttribute (objectOf (h.typeName owner)) name)

end TaskletMachine
