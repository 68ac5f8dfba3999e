import TaskletMachine.Schedule.Pool
import TaskletMachine.Value.Basic

/-!
# The heap

The objects that values refer to, a growing table for each kind. Objects are never removed, and a
reference that points past its table reads as an empty object. The bases of a class are fixed when
it is made and were there before, so classes form a hierarchy without circles.

## Main definitions

* `Behaviour`: what a function outside guest code does.
* `FunctionObject`, `NativeFunction`, `ClassObject`, `InstanceObject`, `HostObject`, `ModuleObject`,
  `Cursor`: the objects.
* `BasesOlder`: tables of classes without circles.
* `Heap`: the tables, with one reader, one writer and one allocator for each kind.
-/
namespace TaskletMachine

/-- The functions of the core library that are called by name. -/
inductive Builtin where
  | len
  | isinstance
  | issubclass
  | range
  | print
  | repr
  | iter
  | next
  | callable
  | hasattr
deriving DecidableEq, Repr

/-- The types that convert their argument. -/
inductive Conversion where
  | toBool
  | toInt
  | toFloat
  | toStr
  | toTuple
  | toList
  | toDict
deriving DecidableEq, Repr

/-- The methods of lists. -/
inductive ListMethod where
  | append
  | clear
  | copy
  | count
  | extend
  | index
  | insert
  | pop
  | remove
  | reverse
  | sort
deriving DecidableEq, Repr

/-- The methods of dicts. -/
inductive DictMethod where
  | clear
  | copy
  | get
  | items
  | keys
  | pop
  | setdefault
  | update
  | values
deriving DecidableEq, Repr

/-- The methods of strings. -/
inductive StrMethod where
  | endswith
  | find
  | join
  | lower
  | replace
  | split
  | startswith
  | strip
  | upper
deriving DecidableEq, Repr

/-- What a function outside guest code does when it is called. -/
inductive Behaviour where
  | builtin (f : Builtin)
  /-- Gives the type of a value, out of a table of the native types. -/
  | typeOf (types : Namespace)
  | convert (target : Conversion)
  /-- The constructor of a type that has no instances to make. -/
  | notInstantiable
  /-- Keeps the arguments of an exception. -/
  | exceptionInit
  | listMethod (m : ListMethod)
  | dictMethod (m : DictMethod)
  | strMethod (m : StrMethod)
  /-- Starts a tasklet. -/
  | schedule
  /-- Lists the tasklets of a pool. -/
  | tasklets (pool : PoolName)
  /-- A function that the host provides, by number. -/
  | host (id : Nat)
deriving Inhabited

/-- A function outside guest code. -/
structure NativeFunction where
  name : String
  behaviour : Behaviour
deriving Inhabited

/-- A function of guest code; its defaults belong to the last parameters of its unit. -/
structure FunctionObject where
  name : String
  unit : CodeUnit
  defaults : List Value
deriving Inhabited

/-- A class. Its bases are older than itself and never change. -/
structure ClassObject where
  name : String
  bases : List ClassRef
  attrs : Namespace
deriving Inhabited

/-- An instance of a class, with the attributes of its own. -/
structure InstanceObject where
  cls : ClassRef
  attrs : Namespace
deriving Inhabited

/-- Which attributes of a host object can be assigned. -/
inductive AttributeRule where
  /-- The object has no attributes. -/
  | closed
  /-- Every name can be assigned but the given ones. -/
  | open (readOnly : List String)
deriving DecidableEq, Repr, Inhabited

/-- An object of the host. -/
structure HostObject where
  typeName : String
  /-- The native value that the object stands for. -/
  raw : Option Value
  attrs : Namespace
  rule : AttributeRule
  /-- What calling the object calls. -/
  call : Option NativeRef
  /-- Set while the object is being called; nothing else can look into it then. -/
  busy : Bool := false
deriving Inhabited

/-- A module. -/
structure ModuleObject where
  name : String
  attrs : Namespace
deriving Inhabited

/-- Where an iterator stands. -/
inductive Cursor where
  /-- At an index of a list, whose items are read when they are due. -/
  | overList (list : ListRef) (index : Nat)
  /-- Before the given values. -/
  | overItems (rest : List Value)
  /-- Before the given characters. -/
  | overChars (rest : List Char)
  /-- Before a number of a range. -/
  | overRange (next stop step : Int64)

instance : Inhabited Cursor := ⟨.overItems []⟩

/-- Every class of a table is younger than its bases. -/
def BasesOlder (classes : Array ClassObject) : Prop :=
  ∀ (i : Nat) (hi : i < classes.size), ∀ base ∈ classes[i].bases, base.index < i

instance (classes : Array ClassObject) : Decidable (BasesOlder classes) :=
  inferInstanceAs (Decidable (∀ _, _))

theorem BasesOlder.empty : BasesOlder #[] :=
  nofun

/-- A class may be replaced by one with the same bases. -/
theorem BasesOlder.modify {classes : Array ClassObject} (hclasses : BasesOlder classes) (i : Nat)
    {f : ClassObject → ClassObject} (hf : ∀ c, (f c).bases = c.bases) :
    BasesOlder (classes.modify i f) := by
  intro j hj base hbase
  rw [Array.size_modify] at hj
  rw [Array.getElem_modify] at hbase
  split at hbase
  · exact hclasses j hj base (hf _ ▸ hbase)
  · exact hclasses j hj base hbase

/-- A class comes in over bases that are there. -/
theorem BasesOlder.push {classes : Array ClassObject} (hclasses : BasesOlder classes)
    {c : ClassObject} (hc : ∀ base ∈ c.bases, base.index < classes.size) :
    BasesOlder (classes.push c) := by
  intro i hi base hbase
  rw [Array.getElem_push] at hbase
  split at hbase
  · next hold => exact hclasses i hold base hbase
  · next hnew =>
    rw [Array.size_push] at hi
    exact Nat.lt_of_lt_of_le (hc base hbase) (Nat.not_lt.1 hnew)

/-- The objects that values refer to. Classes are younger than their bases. -/
structure Heap where
  lists : Array (List Value) := #[]
  dicts : Array (Entries Value Value) := #[]
  functions : Array FunctionObject := #[]
  natives : Array NativeFunction := #[]
  classes : Array ClassObject := #[]
  instances : Array InstanceObject := #[]
  hosts : Array HostObject := #[]
  modules : Array ModuleObject := #[]
  iterators : Array Cursor := #[]
  /-- The token of the next tuple. -/
  nextToken : Nat := 0
  bases_older : BasesOlder classes := by first | exact .empty | decide

instance : Inhabited Heap := ⟨{}⟩

namespace Heap

/-! ## Reading -/

/-- The items of a list. -/
def list (h : Heap) (r : ListRef) : List Value :=
  h.lists.getD r.index default

/-- The entries of a dict. -/
def dict (h : Heap) (r : DictRef) : Entries Value Value :=
  h.dicts.getD r.index default

/-- A function. -/
def function (h : Heap) (r : FunctionRef) : FunctionObject :=
  h.functions.getD r.index default

/-- A native function. -/
def native (h : Heap) (r : NativeRef) : NativeFunction :=
  h.natives.getD r.index default

/-- A class. -/
def classObj (h : Heap) (r : ClassRef) : ClassObject :=
  h.classes.getD r.index default

/-- An instance. -/
def instanceObj (h : Heap) (r : InstanceRef) : InstanceObject :=
  h.instances.getD r.index default

/-- A host object. -/
def hostObj (h : Heap) (r : HostRef) : HostObject :=
  h.hosts.getD r.index default

/-- A module. -/
def moduleObj (h : Heap) (r : ModuleRef) : ModuleObject :=
  h.modules.getD r.index default

/-- The position of an iterator. -/
def cursor (h : Heap) (r : IteratorRef) : Cursor :=
  h.iterators.getD r.index default

/-! ## Writing -/

/-- Replaces the items of a list. -/
def setList (h : Heap) (r : ListRef) (items : List Value) : Heap :=
  { h with lists := h.lists.setIfInBounds r.index items }

/-- Replaces the entries of a dict. -/
def setDict (h : Heap) (r : DictRef) (entries : Entries Value Value) : Heap :=
  { h with dicts := h.dicts.setIfInBounds r.index entries }

/-- Sets an attribute of a class. -/
def setClassAttr (h : Heap) (r : ClassRef) (name : String) (v : Value) : Heap :=
  { h with
    classes := h.classes.modify r.index fun c => { c with attrs := c.attrs.set name v }
    bases_older := h.bases_older.modify r.index fun _ => rfl }

/-- Sets an attribute of an instance. -/
def setInstanceAttr (h : Heap) (r : InstanceRef) (name : String) (v : Value) : Heap :=
  { h with instances := h.instances.modify r.index fun i => { i with attrs := i.attrs.set name v } }

/-- Sets an attribute of a module. -/
def setModuleAttr (h : Heap) (r : ModuleRef) (name : String) (v : Value) : Heap :=
  { h with modules := h.modules.modify r.index fun m => { m with attrs := m.attrs.set name v } }

/-- Stores an attribute of a host object. -/
def setHostAttr (h : Heap) (r : HostRef) (name : String) (v : Value) : Heap :=
  { h with hosts := h.hosts.modify r.index fun o => { o with attrs := o.attrs.set name v } }

/-- Marks a host object as being called, or not. -/
def setBusy (h : Heap) (r : HostRef) (busy : Bool) : Heap :=
  { h with hosts := h.hosts.modify r.index fun o => { o with busy } }

/-- Moves an iterator. -/
def setCursor (h : Heap) (r : IteratorRef) (c : Cursor) : Heap :=
  { h with iterators := h.iterators.setIfInBounds r.index c }

/-! ## Allocating -/

/-- Makes a tuple with an identity of its own. -/
def newTuple (h : Heap) (items : List Value) : Value × Heap :=
  (.tuple h.nextToken items, { h with nextToken := h.nextToken + 1 })

/-- Makes a list. -/
def newList (h : Heap) (items : List Value) : ListRef × Heap :=
  (⟨h.lists.size⟩, { h with lists := h.lists.push items })

/-- Makes a dict. -/
def newDict (h : Heap) (entries : Entries Value Value) : DictRef × Heap :=
  (⟨h.dicts.size⟩, { h with dicts := h.dicts.push entries })

/-- Makes a function. -/
def newFunction (h : Heap) (f : FunctionObject) : FunctionRef × Heap :=
  (⟨h.functions.size⟩, { h with functions := h.functions.push f })

/-- Makes a native function. -/
def newNative (h : Heap) (f : NativeFunction) : NativeRef × Heap :=
  (⟨h.natives.size⟩, { h with natives := h.natives.push f })

/-- Makes a class, which derives from those of its bases that are there. -/
def newClass (h : Heap) (c : ClassObject) : ClassRef × Heap :=
  let bases := c.bases.filter fun base => base.index < h.classes.size
  (⟨h.classes.size⟩, { h with
    classes := h.classes.push { c with bases }
    bases_older := h.bases_older.push fun _ hbase =>
      of_decide_eq_true (List.mem_filter.1 hbase).2 })

/-- Makes an instance. -/
def newInstance (h : Heap) (i : InstanceObject) : InstanceRef × Heap :=
  (⟨h.instances.size⟩, { h with instances := h.instances.push i })

/-- Makes a host object. -/
def newHost (h : Heap) (o : HostObject) : HostRef × Heap :=
  (⟨h.hosts.size⟩, { h with hosts := h.hosts.push o })

/-- Makes a module. -/
def newModule (h : Heap) (m : ModuleObject) : ModuleRef × Heap :=
  (⟨h.modules.size⟩, { h with modules := h.modules.push m })

/-- Makes an iterator. -/
def newIterator (h : Heap) (c : Cursor) : IteratorRef × Heap :=
  (⟨h.iterators.size⟩, { h with iterators := h.iterators.push c })

end Heap

end TaskletMachine
