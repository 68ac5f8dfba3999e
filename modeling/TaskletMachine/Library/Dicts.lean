import TaskletMachine.Library.Reply

/-!
# Methods of dicts

Each method takes the dict as its first argument.

## Main definitions

* `DictMethod.call`: what each method does.
-/
namespace TaskletMachine.DictMethod

open Effect

/-- The value under a key, or a default. -/
def lookup (r : DictRef) (k default : Value) : Effect Reply := do
  let k ← key k
  reply (((← heap).dictGet? r k).getD default)

/-- Removes a key and replies with its value, or with a default if there is one. -/
def take (r : DictRef) (k : Value) (default? : Option Value) : Effect Reply := do
  let k ← key k
  let h ← heap
  match h.dictGet? r k, default? with
  | some v, _ =>
    setHeap (h.dictErase r k)
    reply v
  | none, some v => reply v
  | none, none => throw (h.keyError k)

/-- The value under a key, which is set to a default if it is not there. -/
def lookupOrSet (r : DictRef) (k default : Value) : Effect Reply := do
  let k ← key k
  let h ← heap
  match h.dictGet? r k with
  | some v => reply v
  | none =>
    setHeap (h.dictInsert r k default)
    reply default

/-- Makes a tuple of each entry, oldest first. -/
def entryTuples : Entries Value Value → Effect (List Value)
  | [] => return []
  | (k, v) :: rest => do
    let entry ← newTuple [k, v]
    return entry :: (← entryTuples rest)

/-- What a method of a dict does. -/
def call (m : DictMethod) (args : List Value) : Effect Reply := do
  let h ← heap
  match m, args with
  | clear, [.dict r] =>
    setDict r []
    return .noValue
  | copy, [.dict r] => reply (← newDict (h.dict r))
  | get, [.dict r, k] => lookup r k .none
  | get, [.dict r, k, default] => lookup r k default
  | get, _ => unexpected "|dict, key|, or |dict, key, value|" args
  | items, [.dict r] => reply (← newList (← entryTuples (h.dict r)))
  | keys, [.dict r] => reply (← newList ((h.dict r).map Prod.fst))
  | pop, [.dict r, k] => take r k none
  | pop, [.dict r, k, default] => take r k (some default)
  | pop, _ => unexpected "|dict, key|, or |dict, key, value|" args
  | setdefault, [.dict r, k] => lookupOrSet r k .none
  | setdefault, [.dict r, k, default] => lookupOrSet r k default
  | setdefault, _ => unexpected "|dict, key|, or |dict, key, value|" args
  | update, [.dict r, .dict other] =>
    setHeap ((h.dict other).foldl (fun h (k, v) => h.dictInsert r k v) h)
    return .noValue
  | update, _ => unexpected "|dict, dict|" args
  | values, [.dict r] => reply (← newList ((h.dict r).map Prod.snd))
  | _, _ => unexpected "|dict|" args

end TaskletMachine.DictMethod
