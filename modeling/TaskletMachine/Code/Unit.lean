import TaskletMachine.Code.Decode
import TaskletMachine.Code.LineMap
import TaskletMachine.Number.Decimal

/-!
# Units of code

A unit is a piece of bytecode with the tables that its operands index: constants, names, and the
names of its local slots. The first local slots are its parameters.

## Main definitions

* `UnitOf`, `Constant`, `CodeUnit`: units and the constants they hold, which may be units again.
* `Constant.intern`: adding a constant to a pool.
* `UnitOf.slotCount`, `UnitOf.localIndex?`, `UnitOf.line?`: the parameter slots, the slot of a name,
  the line of an offset.
* `UnitOf.listing`: the instructions of a unit as text.
-/
namespace TaskletMachine

/-- A unit whose constants are of type `κ`. -/
structure UnitOf (κ : Type) where
  /-- Tells units with equal contents apart. -/
  serial : Nat := 0
  name : String := ""
  bytes : Array UInt8 := #[]
  constants : Array κ := #[]
  /-- The names of globals, attributes and locals that are looked up by name. -/
  names : Array String := #[]
  /-- The names of the local slots: parameters first, then the parameters that collect surplus
  positional and keyword arguments, if there are any. -/
  localNames : Array String := #[]
  argCount : Nat := 0
  /-- The defaults of the last parameters. -/
  defaults : List κ := []
  varargs : Bool := false
  varkeywords : Bool := false
  lines : LineMap := {}

/-- The constants of a unit. -/
inductive Constant where
  | none
  | bool (b : Bool)
  | int (n : Int64)
  | float (x : Float)
  | str (s : String)
  | unit (u : UnitOf Constant)
  | tuple (items : List Constant)

instance : Inhabited Constant := ⟨.none⟩

/-- A unit of code. -/
abbrev CodeUnit := UnitOf Constant

instance : Inhabited CodeUnit := ⟨{}⟩

namespace Constant

/-- Whether two constants are the same scalar, so that one entry of a pool serves both. Doubles,
units and tuples always get an entry of their own. -/
def sameScalar : Constant → Constant → Bool
  | none, none => true
  | bool a, bool b => a == b
  | int a, int b => a == b
  | str a, str b => a == b
  | _, _ => false

/-- The index of a constant in a pool, if an entry serves it. -/
def indexIn? (pool : Array Constant) : Constant → Option Nat
  | float _ | unit _ | tuple _ => .none
  | c => pool.findIdx? (sameScalar c)

/-- Adds a constant to a pool and gives its index, that of an equal scalar if there is one. -/
def intern (pool : Array Constant) (c : Constant) : Array Constant × Nat :=
  match indexIn? pool c with
  | some index => (pool, index)
  | .none =>
    let index := pool.size
    (pool.push c, index)

/-- Adds several constants to a pool in order and gives their indexes. -/
def internAll (pool : Array Constant) : List Constant → Array Constant × List Nat
  | [] => (pool, [])
  | c :: rest =>
    let (pool, index) := intern pool c
    let (pool, indexes) := internAll pool rest
    (pool, index :: indexes)

mutual

/-- The text of a constant. -/
def text : Constant → String
  | none => "None"
  | bool b => if b then "True" else "False"
  | int n => toString n.toInt
  | float x => Number.floatText x
  | str s => "'" ++ s ++ "'"
  | unit u => "<code " ++ u.name ++ ">"
  | tuple items =>
    let comma := if items.length == 1 then "," else ""
    "(" ++ ", ".intercalate (texts items) ++ comma ++ ")"

/-- The texts of several constants. -/
def texts : List Constant → List String
  | [] => []
  | c :: rest => text c :: texts rest

end

/-- A text filled with spaces to eight characters. -/
def column (s : String) : String :=
  s ++ String.ofList (List.replicate (8 - s.length) ' ')

/-- A pool as text, an entry a line. -/
def poolText (pool : Array Constant) : String :=
  String.join <| pool.toList.zipIdx.map fun (c, index) => column (toString index) ++ c.text ++ "\n"

end Constant

namespace UnitOf

variable {κ : Type}

/-- The names of the parameters that positional arguments fill. -/
def argNames (u : UnitOf κ) : List String :=
  u.localNames.toList.take u.argCount

/-- The number of local slots that a call fills. -/
def slotCount (u : UnitOf κ) : Nat :=
  u.argCount + u.varargs.toNat + u.varkeywords.toNat

/-- The slot of a local name, the first one if the name is declared twice. -/
def localIndex? (u : UnitOf κ) (name : String) : Option Nat :=
  u.localNames.findIdx? (· == name)

/-- The source line of an offset; offsets are recorded in 32 bits. -/
def line? (u : UnitOf κ) (ip : Nat) : Option Nat :=
  u.lines.line? (ip % Nat.pow 2 32)

/-- The lines of a listing, newest first: a header where the source line changes, set off by an
empty line except at the start, and the instruction with its offset. -/
def listingLines (u : UnitOf κ) :
    List (Nat × Instruction) → (line : Option Nat) → (written : List String) → List String
  | [], _, written => written
  | (ip, instruction) :: rest, line, written =>
    let entry := toString ip ++ "\t" ++ instruction.text ++ "\n"
    match u.line? ip with
    | none => listingLines u rest line (entry :: written)
    | some n =>
      if line == some n then listingLines u rest line (entry :: written)
      else
        let gap := if line.isSome then "\n" else ""
        let header := gap ++ "|" ++ toString n ++ "|\n"
        listingLines u rest (some n) (entry :: header :: written)

/-- The instructions of a unit as text. -/
def listing (u : UnitOf κ) : String :=
  String.join (u.listingLines (decodeFrom u.bytes 0).instructions none []).reverse

end UnitOf

end TaskletMachine
