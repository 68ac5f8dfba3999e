/-!
# Pool names

The four pools between which the tasklets of a scheduler move.

## Main definitions

* `PoolName`: the pools.
-/
namespace TaskletMachine

/-- Where a tasklet that has not finished is kept. -/
inductive PoolName where
  /-- Ready to run on the next tick. -/
  | unblocked
  /-- Being advanced by the current tick, or still running from the last one. -/
  | active
  /-- Waiting for a result from outside. -/
  | blocked
  /-- Parked for one tick. -/
  | yielded
deriving DecidableEq, Repr

/-- The name of a pool. -/
def PoolName.name : PoolName → String
  | .unblocked => "Unblocked"
  | .active => "Active"
  | .blocked => "Blocked"
  | .yielded => "Yielded"

/-- The identity of a tasklet. -/
abbrev TaskletId := Nat

/-- How a tasklet is named in messages. -/
def taskletText (id : TaskletId) : String :=
  s!"tasklet #{id}"

end TaskletMachine
