import TaskletMachine.Value.Key

/-!
# Hashes of keys

A dict looks for a key among the entries of the same hash only. The hash is computed from the data
that a key hands to the hasher one after the other.

## Main definitions

* `HashItem`, `Value.hashInput`: the data that a key hands to the hasher.
* `Value.sameHashedKey`: whether a dict takes two keys for the same.
-/
namespace TaskletMachine

/-- A piece of the data that a key hands to the hasher. -/
inductive HashItem where
  /-- Which of several kinds the data has that follows. -/
  | kind (index : Nat)
  | word (n : Int64)
  | bits (b : UInt64)
  | text (s : String)
  | classAddress (ref : ClassRef)
  | functionAddress (ref : FunctionRef)
deriving DecidableEq, Repr

/-- What the key of a number hands to the hasher. -/
def NumberKey.hashInput : NumberKey → List HashItem
  | int n => [.kind 0, .word n]
  | float bits => [.kind 1, .bits bits]

namespace Value

/-- What a key that is no tuple hands to the hasher. Kinds of values count in the order in which
they are declared. -/
def atomHashInput (v : Value) : List HashItem :=
  match v.numberKey? with
  | some n => n.hashInput
  | Option.none =>
    .kind v.ctorIdx ::
      match v with
      | str s => [.text s]
      | classObj c => [.classAddress c]
      | function f => [.functionAddress f]
      | _ => []

mutual

/-- What a key hands to the hasher. -/
def hashInput : Value → List HashItem
  | tuple token items => .kind (tuple token items).ctorIdx :: hashInputs items
  | v => atomHashInput v

/-- What several keys hand to the hasher; nothing tells where they end. -/
def hashInputs : List Value → List HashItem
  | [] => []
  | v :: rest => hashInput v ++ hashInputs rest

end

/-- Whether a dict takes two keys for the same, given what hash the hasher makes of its input: keys
of different hashes are not compared. -/
def sameHashedKey (hash : List HashItem → UInt64) (a b : Value) : Bool :=
  hash a.hashInput == hash b.hashInput && sameKey a b

end Value

end TaskletMachine
