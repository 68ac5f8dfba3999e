import TaskletMachine.Library.Attributes
import TaskletMachine.Machine.Operators
import TaskletMachine.Proofs.Value.Lineage

/-!
# Heaps that grow

Objects are never removed. A class keeps its bases and an instance keeps its class, whatever becomes
of their attributes, so what derives from a class goes on to do so, and so do its instances. This is
all that has to be known of most changes of the heap.

## Main definitions

* `Heap.Grows`: classes keep their bases, and instances their classes.
* `Heap.Grows.isSubclass`, `Heap.Grows.isInstance`: what lasts while a heap grows.
-/
namespace TaskletMachine.Heap

/-- Every class is kept with its bases, and every instance with its class. -/
structure Grows (h h' : Heap) : Prop where
  classes : ∀ (i : Nat) c, h.classes[i]? = some c →
    ∃ c', h'.classes[i]? = some c' ∧ c'.bases = c.bases
  instances : ∀ (i : Nat) o, h.instances[i]? = some o →
    ∃ o', h'.instances[i]? = some o' ∧ o'.cls = o.cls

namespace Grows

variable {h h' : Heap}

/-- Changes of other objects. -/
theorem of_tables (hclasses : h'.classes = h.classes) (hinstances : h'.instances = h.instances) :
    h.Grows h' :=
  ⟨fun _ c hc => ⟨c, hclasses ▸ hc, rfl⟩, fun _ o ho => ⟨o, hinstances ▸ ho, rfl⟩⟩

@[grind .] theorem refl (h : Heap) : h.Grows h :=
  of_tables rfl rfl

theorem trans {h₁ : Heap} (hh : h.Grows h₁) (hh' : h₁.Grows h') : h.Grows h' := by
  constructor
  · intro i c hc
    obtain ⟨c₁, hc₁, hbases₁⟩ := hh.classes i c hc
    obtain ⟨c', hc', hbases'⟩ := hh'.classes i c₁ hc₁
    exact ⟨c', hc', hbases'.trans hbases₁⟩
  · intro i o ho
    obtain ⟨o₁, ho₁, hcls₁⟩ := hh.instances i o ho
    obtain ⟨o', ho', hcls'⟩ := hh'.instances i o₁ ho₁
    exact ⟨o', ho', hcls'.trans hcls₁⟩

end Grows

/-! ## Readers -/

theorem isInstance_iff {h : Heap} {i : InstanceRef} {c : ClassRef} :
    h.isInstance i c ↔ ∃ o, h.instances[i.index]? = some o ∧ h.isSubclass o.cls c := by
  cases ho : h.instances[i.index]? <;> simp [isInstance, ho]

namespace Grows

variable {h h' : Heap}

theorem hasBase (hh : h.Grows h') {c base : ClassRef} (hbase : h.HasBase c base) :
    h'.HasBase c base := by
  unfold HasBase at hbase ⊢
  -- a class that is not there has no bases
  cases hc : h.classes[c.index]? with
  | none =>
    rw [classObj, Array.getD_eq_getD_getElem?, hc] at hbase
    cases hbase
  | some o =>
    obtain ⟨o', ho', hbases⟩ := hh.classes c.index o hc
    simpa [classObj, Array.getD_eq_getD_getElem?, hc, ho', hbases] using hbase

theorem isSubclass (hh : h.Grows h') {c d : ClassRef} (hd : h.isSubclass c d) :
    h'.isSubclass c d :=
  isSubclass_iff.2 ((isSubclass_iff.1 hd).lift id fun _ _ => hh.hasBase)

theorem isInstance (hh : h.Grows h') {i : InstanceRef} {c : ClassRef} (hi : h.isInstance i c) :
    h'.isInstance i c := by
  rw [isInstance_iff] at hi ⊢
  obtain ⟨o, ho, hc⟩ := hi
  obtain ⟨o', ho', hcls⟩ := hh.instances i.index o ho
  exact ⟨o', ho', hcls ▸ hh.isSubclass hc⟩

end Grows

/-! ## Writers -/

namespace Grows

variable {h h' : Heap}

theorem setClassAttr (h : Heap) (r : ClassRef) (name : String) (v : Value) :
    h.Grows (h.setClassAttr r name v) := by
  refine ⟨fun i c hc => ?_, fun i o ho => ⟨o, ho, rfl⟩⟩
  simp only [Heap.setClassAttr, Array.getElem?_modify, hc]
  grind

theorem setInstanceAttr (h : Heap) (r : InstanceRef) (name : String) (v : Value) :
    h.Grows (h.setInstanceAttr r name v) := by
  refine ⟨fun i c hc => ⟨c, hc, rfl⟩, fun i o ho => ?_⟩
  simp only [Heap.setInstanceAttr, Array.getElem?_modify, ho]
  grind

theorem newClass (h : Heap) (c : ClassObject) : h.Grows (h.newClass c).2 := by
  refine ⟨fun i o ho => ⟨o, ?_, rfl⟩, fun i o ho => ⟨o, ho, rfl⟩⟩
  simp only [Heap.newClass]
  grind

theorem newInstance (h : Heap) (o : InstanceObject) : h.Grows (h.newInstance o).2 := by
  refine ⟨fun i c hc => ⟨c, hc, rfl⟩, fun i o ho => ⟨o, ?_, rfl⟩⟩
  simp only [Heap.newInstance]
  grind

/-! ## Constants and iterators -/

mutual

theorem ofConstant (h : Heap) : ∀ c : Constant, h.Grows (h.ofConstant c).2
  | .none | .bool _ | .int _ | .float _ | .str _ | .unit _ => .refl h
  | .tuple constants => by
    rw [Heap.ofConstant]
    exact (ofConstants h constants).trans (of_tables rfl rfl)

theorem ofConstants (h : Heap) : ∀ constants : List Constant, h.Grows (h.ofConstants constants).2
  | [] => by
    rw [Heap.ofConstants]
    exact .refl h
  | c :: rest => by
    rw [Heap.ofConstants]
    exact (ofConstant h c).trans (ofConstants _ rest)

end

theorem iteratorOf? {v : Value} {r : IteratorRef} (hv : h.iteratorOf? v = some (r, h')) :
    h.Grows h' := by
  unfold Heap.iteratorOf? at hv
  split at hv
  · cases hv
    exact .refl h
  · obtain ⟨c, _, hc⟩ := Option.map_eq_some_iff.1 hv
    cases hc
    exact of_tables rfl rfl

theorem dictInserts (r : DictRef) (entries : Entries Value Value) (h : Heap) :
    h.Grows (entries.foldl (fun h (k, v) => h.dictInsert r k v) h) := by
  induction entries generalizing h with
  | nil => exact .refl h
  | cons entry rest ih =>
    exact .trans (.of_tables rfl rfl : h.Grows (h.dictInsert r entry.1 entry.2)) (ih _)

theorem nativeIterator? {v : Value} {r : IteratorRef} (hv : nativeIterator? h v = some (r, h')) :
    h.Grows h' := by
  rcases Option.or_eq_some_iff.1 hv with hraw | ⟨_, hv⟩
  · obtain ⟨raw, _, hraw⟩ := Option.bind_eq_some_iff.1 hraw
    exact iteratorOf? hraw
  · exact iteratorOf? hv

end Grows

/-! ## Operators, subscripts and attributes -/

/-- The heap that a result comes with, if it is no error, is one to which the heap has grown. -/
def GrowsBy {α : Type} (h : Heap) (made : α → Heap) (r : Except Error α) : Prop :=
  ∀ a, r = .ok a → h.Grows (made a)

namespace GrowsBy

variable {α β : Type} {h : Heap} {made : α → Heap}

@[grind ←] theorem ok {a : α} (ha : h.Grows (made a)) : h.GrowsBy made (.ok a) := by
  rintro _ ⟨⟩
  exact ha

@[grind .] theorem error (e : Error) : h.GrowsBy made (.error e) :=
  nofun

@[grind ←] theorem pure {a : α} (ha : h.Grows (made a)) :
    h.GrowsBy made (Pure.pure a : Except Error α) :=
  ok ha

@[grind ←] theorem bind {x : Except Error β} {f : β → Except Error α}
    (hf : ∀ b, h.GrowsBy made (f b)) : h.GrowsBy made (x >>= f) := by
  cases x with
  | error e => exact error e
  | ok b => exact hf b

theorem repeated (h : Heap) (v : Value) (count : Int64) (r : Except Error (Value × Heap))
    (hr : repeated h v count = some r) : h.GrowsBy Prod.snd r := by
  obtain ⟨length, _, rfl⟩ := Option.map_eq_some_iff.1 hr
  dsimp only
  generalize (if length == 0 then 0 else count.toInt.toNat) = times
  split
  · exact error _
  · cases v <;> exact ok (.of_tables rfl rfl)

theorem binary (h : Heap) (op : BinaryOp) (a b : Value) : h.GrowsBy Prod.snd (binary h op a b) := by
  have hrepeated (v : Value) (count : Int64) :
      h.GrowsBy Prod.snd ((TaskletMachine.repeated h v count).getD
        (.error (.unsupported h op.symbol a b))) := by
    cases hr : TaskletMachine.repeated h v count with
    | none => exact error _
    | some r => exact repeated h v count r hr
  unfold TaskletMachine.binary
  split
  · exact bind fun v => ok (.refl h)
  · dsimp only
    split
    · exact ok (.refl h)
    · exact ok (.of_tables rfl rfl)
    · exact ok (.of_tables rfl rfl)
    · exact hrepeated _ _
    · exact hrepeated _ _
    · exact error _

theorem storeSubscript (h : Heap) (container index v : Value) :
    h.GrowsBy id (h.storeSubscript container index v) := by
  unfold Heap.storeSubscript
  split
  · exact bind fun i => ok (.of_tables rfl rfl)
  · exact bind fun key => ok (.of_tables rfl rfl)
  · exact error _

theorem deleteSubscript (h : Heap) (container index : Value) :
    h.GrowsBy id (h.deleteSubscript container index) := by
  unfold Heap.deleteSubscript
  split
  · exact bind fun i => ok (.of_tables rfl rfl)
  · refine bind fun key => ?_
    split
    · exact ok (.of_tables rfl rfl)
    · exact error _
  · exact error _

theorem setAttr (h : Heap) (owner : Value) (name : String) (v : Value) :
    h.GrowsBy id (setAttr h owner name v) := by
  unfold TaskletMachine.setAttr
  split
  · exact ok (.setInstanceAttr h _ name v)
  · exact ok (.setClassAttr h _ name v)
  · exact ok (.of_tables rfl rfl)
  · unfold TaskletMachine.setHostAttr
    grind [Grows.of_tables, Heap.setHostAttr]
  · exact error _

theorem matchArguments (h : Heap) (unit : CodeUnit) (defaults args : List Value)
    (keywords : Namespace) :
    h.GrowsBy Prod.snd (matchArguments h unit defaults args keywords) := by
  unfold TaskletMachine.matchArguments
  have htuple (items : List Value) : h.Grows (h.newTuple items).2 := .of_tables rfl rfl
  have hdict (h' : Heap) (entries : Entries Value Value) (hh : h.Grows h') :
      h.Grows (h'.newDict entries).2 := hh.trans (.of_tables rfl rfl)
  grind

end GrowsBy

end TaskletMachine.Heap
