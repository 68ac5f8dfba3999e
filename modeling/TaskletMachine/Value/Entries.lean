/-!
# Ordered entries

Maps that remember the order in which their keys came in. Keys are compared by a test that is passed
along, because a dict identifies keys that are not the same value.

## Main definitions

* `Entries.get?`, `Entries.insert`, `Entries.erase`: reading, writing and removing under a test.
* `Names`: the operations for keys that are names.
-/
namespace TaskletMachine

/-- Keys with their values, oldest first. -/
abbrev Entries (κ ν : Type) := List (κ × ν)

namespace Entries

variable {κ ν : Type}

/-- The value of the first key that passes the test. -/
def get? (same : κ → Bool) : Entries κ ν → Option ν
  | [] => none
  | (k, v) :: rest => if same k then some v else get? same rest

/-- Whether a key passes the test. -/
def contains (same : κ → Bool) (es : Entries κ ν) : Bool :=
  (es.get? same).isSome

/-- Replaces the value of the first key that passes the test, which keeps its place and its key, or
adds the key at the end. -/
def insert (same : κ → Bool) (key : κ) (value : ν) : Entries κ ν → Entries κ ν
  | [] => [(key, value)]
  | (k, v) :: rest =>
    if same k then (k, value) :: rest else (k, v) :: insert same key value rest

/-- Removes the first key that passes the test; the others keep their order. -/
def erase (same : κ → Bool) : Entries κ ν → Entries κ ν
  | [] => []
  | (k, v) :: rest => if same k then rest else (k, v) :: erase same rest

end Entries

/-- Named values, oldest first. -/
abbrev Names (ν : Type) := Entries String ν

namespace Names

variable {ν : Type}

/-- The value of a name. -/
def find? (names : Names ν) (name : String) : Option ν :=
  Entries.get? (· == name) names

/-- Whether a name has a value. -/
def has (names : Names ν) (name : String) : Bool :=
  (names.find? name).isSome

/-- Gives a name a value; a name that has one keeps its place. -/
def set (names : Names ν) (name : String) (value : ν) : Names ν :=
  Entries.insert (· == name) name value names

/-- Takes a name's value away. -/
def remove (names : Names ν) (name : String) : Names ν :=
  Entries.erase (· == name) names

/-- Sets several names, in order. -/
def setAll (names : Names ν) (more : Names ν) : Names ν :=
  more.foldl (fun acc (name, value) => acc.set name value) names

end Names

end TaskletMachine
