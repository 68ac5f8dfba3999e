/-!
# Line maps

Which source line an offset into the code belongs to. Only the offsets where the line changes are
kept.

## Main definitions

* `LineMap.push`: records the line of an offset.
* `LineMap.line?`: the line of the last record at or before an offset.
-/
namespace TaskletMachine

/-- Offsets with the line that starts there, in the order in which they were recorded. -/
structure LineMap where
  entries : Array (Nat × Nat) := #[]
deriving DecidableEq, Repr, Inhabited

namespace LineMap

/-- Records the line of an offset, unless the last record has that line already. -/
def push (m : LineMap) (ip line : Nat) : LineMap :=
  if m.entries.back?.map Prod.snd == some line then m
  else ⟨m.entries.push (ip, line)⟩

/-- The line of an offset: that of the last record before the first one that lies past it. -/
def line? (m : LineMap) (ip : Nat) : Option Nat :=
  ((m.entries.toList.takeWhile fun entry => entry.1 ≤ ip).getLast?).map Prod.snd

end LineMap

end TaskletMachine
