import TaskletMachine.Proofs.Code.Reading

/-!
# What keeps a unit from being assembled

A directive can be misused, which shows as soon as it is followed, and a jump can fail, which shows
when the unit is finished. A unit is assembled if neither is the case; otherwise the first misuse is
reported, and the first jump that fails if nothing was misused.

## Main definitions

* `Inventory`, `inventory`: what directives have added to the tables, and how many labels they have
  made.
* `Directive.index?`: the entry of a table that a directive refers to.
* `Directive.Misuse`, `JumpFault`: the two kinds of reasons.
* `NoReason`, `FirstReason`: that no directive gives a reason, and the reason of the first that
  does.
* `WellFormed`: what directives must be like.
* `assemble_exact`: which directives are assembled, and what is reported about the others.
-/
namespace TaskletMachine

/-! ## What directives have added -/

/-- The entries of the tables, and the number of labels. -/
structure Inventory where
  constants : Array Constant := #[]
  names : Array String := #[]
  localNames : Array String := #[]
  labels : Nat := 0

/-- What a directive adds. Parameters are declared even if there is one of that name; what an
operation refers to is added only if it is missing. -/
def Inventory.add (i : Inventory) : Directive → Inventory
  | .args names => { i with localNames := i.localNames ++ names.toArray }
  | .varargs name | .varkeywords name => { i with localNames := i.localNames.push name }
  | .const c => { i with constants := (Constant.intern i.constants c).1 }
  | .named _ name => { i with names := (Assembler.internName i.names name).1 }
  | .onLocal _ name => { i with localNames := (Assembler.internName i.localNames name).1 }
  | .newLabel => { i with labels := i.labels + 1 }
  | _ => i

/-- What directives add, from nothing. -/
def inventory (ds : List Directive) : Inventory :=
  ds.foldl Inventory.add {}

theorem inventory_concat (ds : List Directive) (d : Directive) :
    inventory (ds ++ [d]) = (inventory ds).add d := by
  simp [inventory]

/-- The table and the index of the entry that a directive refers to. -/
def Directive.index? (i : Inventory) : Directive → Option (TableKind × Nat)
  | .const c => some (.constants, (Constant.intern i.constants c).2)
  | .named _ name => some (.names, (Assembler.internName i.names name).2)
  | .onLocal _ name => some (.locals, (Assembler.internName i.localNames name).2)
  | _ => none

/-- The opcode that a directive gives an operand. -/
def Directive.operated? : Directive → Option Opcode
  | .opWith opcode _ | .named opcode _ | .onLocal opcode _ => some opcode
  | _ => none

/-! ## Reasons -/

/-- Why a directive is misused after the ones before it. Whether the entry has an index that fits is
asked before whether the opcode has an operand. -/
inductive Directive.Misuse (before : List Directive) : Directive → AssemblyError → Prop
  | missingOperand {op : Opcode} (h : op.hasOperand) :
    Misuse before (.op op) (.missingOperand op)
  | tableLimit {d : Directive} {table : TableKind} {index : Nat}
    (hindex : d.index? (inventory before) = some (table, index))
    (h : Assembler.operandLimit ≤ index) : Misuse before d (.tableLimit table (index + 1))
  | unexpectedOperand {d : Directive} {op : Opcode} (hop : d.operated? = some op)
    (hfits : ∀ table index, d.index? (inventory before) = some (table, index) →
      index < Assembler.operandLimit)
    (h : op.hasOperand = false) : Misuse before d (.unexpectedOperand op)
  | notAJump {op : Opcode} {label : Nat} (h : op.jumpKind? = none) :
    Misuse before (.jump op label) (.notAJump op)
  | undefinedLabel {label : Nat} (h : (inventory before).labels ≤ label) :
    Misuse before (.place label) (.undefinedLabel label)
  | labelPlacedTwice {label : Nat} (hmade : label < (inventory before).labels)
    (h : .place label ∈ before) : Misuse before (.place label) (.labelPlacedTwice label)

/-- Why a jump fails, among all the directives: the operand that leads to its label does not exist
or does not fit. -/
inductive JumpFault (ds before : List Directive) : Directive → AssemblyError → Prop
  | undefinedLabel {op : Opcode} {label : Nat} (h : ∀ target, ¬ PlacedAt ds label target) :
    JumpFault ds before (.jump op label) (.undefinedLabel label)
  | backward {op : Opcode} {label target : Nat} (hplaced : PlacedAt ds label target)
    (hkind : op.jumpKind? = some .relative) (h : target < codeSize before + op.size) :
    JumpFault ds before (.jump op label)
      (.backwardRelativeJump op (codeSize before + op.size - target))
  | tooLarge {op : Opcode} {label target operand : Nat} (hplaced : PlacedAt ds label target)
    (hoperand : op.measured operand (codeSize before + op.size) = target)
    (h : Assembler.operandLimit ≤ operand) :
    JumpFault ds before (.jump op label) (.jumpOffsetTooLarge operand)

section Reasons

variable {P : List Directive → Directive → AssemblyError → Prop} {ds : List Directive}
  {d : Directive} {e : AssemblyError}

/-- No directive gives a reason, after those before it. -/
def NoReason (P : List Directive → Directive → AssemblyError → Prop) (ds : List Directive) : Prop :=
  ∀ before d, before ++ [d] <+: ds → ∀ e, ¬ P before d e

/-- The reason of the first directive that gives one. -/
def FirstReason (P : List Directive → Directive → AssemblyError → Prop) (ds : List Directive)
    (e : AssemblyError) : Prop :=
  ∃ before d, before ++ [d] <+: ds ∧ P before d e ∧ NoReason P before

theorem noReason_concat : NoReason P (ds ++ [d]) ↔ NoReason P ds ∧ ∀ e, ¬ P ds d e := by
  constructor
  · intro h
    exact ⟨fun before d' hd' => h before d' (hd'.trans (List.prefix_append _ _)),
      h ds d List.prefix_rfl⟩
  · rintro ⟨hds, hd⟩ before d' hd'
    rcases List.prefix_concat_iff.1 hd' with heq | hprefix
    · obtain ⟨rfl, hsame⟩ := List.append_inj' heq rfl
      obtain rfl := List.singleton_inj.1 hsame
      exact hd
    · exact hds before d' hprefix

theorem firstReason_concat :
    FirstReason P (ds ++ [d]) e ↔ FirstReason P ds e ∨ NoReason P ds ∧ P ds d e := by
  constructor
  · rintro ⟨before, d', hd', hP, hnever⟩
    rcases List.prefix_concat_iff.1 hd' with heq | hprefix
    · obtain ⟨rfl, hsame⟩ := List.append_inj' heq rfl
      obtain rfl := List.singleton_inj.1 hsame
      exact .inr ⟨hnever, hP⟩
    · exact .inl ⟨before, d', hprefix, hP, hnever⟩
  · rintro (⟨before, d', hd', hP, hnever⟩ | ⟨hnever, hP⟩)
    · exact ⟨before, d', hd'.trans (List.prefix_append _ _), hP, hnever⟩
    · exact ⟨ds, d, List.prefix_rfl, hP, hnever⟩

/-- A reason that is kept once there is one is the first, if each directive adds its own. -/
theorem firstReason_of_steps (reason : List Directive → Option AssemblyError)
    (hnil : reason [] = none)
    (hkeeps : ∀ before d e, reason before = some e → reason (before ++ [d]) = some e)
    (hstep : ∀ before d, before ++ [d] <+: ds → NoReason P before → reason before = none →
      ∀ e, reason (before ++ [d]) = some e ↔ P before d e) :
    (reason ds = none ↔ NoReason P ds) ∧ ∀ e, reason ds = some e ↔ FirstReason P ds e := by
  induction ds using List.reverseRecOn with
  | nil =>
    refine ⟨⟨fun _ before d hd => ?_, fun _ => hnil⟩, fun e => ⟨fun h => ?_, ?_⟩⟩
    · simp at hd
    · rw [hnil] at h
      cases h
    · rintro ⟨before, d, hd, _⟩
      simp at hd
  | append_singleton ds d ih =>
    obtain ⟨hnone, hsome⟩ := ih fun before d' hd' =>
      hstep before d' (hd'.trans (List.prefix_append _ _))
    cases hreason : reason ds with
    | some e₀ =>
      have hfirst := (hsome e₀).1 hreason
      have hnot : ¬ NoReason P ds := fun hnever => by
        rw [hnone.2 hnever] at hreason
        cases hreason
      rw [hkeeps ds d e₀ hreason]
      refine ⟨⟨(fun h => by cases h), fun h => absurd (noReason_concat.1 h).1 hnot⟩,
        fun e => ?_⟩
      rw [firstReason_concat, ← hsome, hreason]
      exact ⟨.inl, fun h => h.elim id fun ⟨hnever, _⟩ => absurd hnever hnot⟩
    | none =>
      have hnever := hnone.1 hreason
      have hiff := hstep ds d List.prefix_rfl hnever hreason
      constructor
      · rw [noReason_concat, Option.eq_none_iff_forall_ne_some]
        exact ⟨fun h => ⟨hnever, fun e hP => h e ((hiff e).2 hP)⟩,
          fun h e he => h.2 e ((hiff e).1 he)⟩
      · intro e
        rw [firstReason_concat, hiff, ← hsome, hreason]
        exact ⟨fun hP => .inr ⟨hnever, hP⟩, fun h => h.elim (fun h => by cases h) And.right⟩

end Reasons

/-! ## Misuse -/

namespace Assembler

variable {a : Assembler} {d : Directive} {ds : List Directive} {e : AssemblyError}

/-- What an assembler's tables hold, and how many labels it has. -/
def inventory (a : Assembler) : Inventory :=
  { constants := a.constants, names := a.names, localNames := a.localNames,
    labels := a.labels.size }

@[simp]
theorem inventory_pushWith (a : Assembler) (op : Opcode) (operand : Nat) :
    (a.pushWith op operand).inventory = a.inventory := by
  unfold pushWith
  split <;> rfl

@[simp]
theorem inventory_pushIndex (a : Assembler) (op : Opcode) (table : TableKind) (index : Nat) :
    (a.pushIndex op table index).inventory = a.inventory := by
  unfold pushIndex
  split
  · exact inventory_pushWith a op index
  · rfl

/-- Directives add what they name to the inventory, also if they are misused. -/
theorem inventory_apply (a : Assembler) (d : Directive) :
    (a.apply d).inventory = a.inventory.add d := by
  cases d with
  | op op =>
    simp only [apply]
    split <;> rfl
  | opWith op operand => exact inventory_pushWith a op _
  | compare op => exact inventory_pushWith a _ _
  | const c => exact inventory_pushIndex { a with constants := _ } _ _ _
  | named op name => exact inventory_pushIndex { a with names := _ } _ _ _
  | onLocal op name => exact inventory_pushIndex { a with localNames := _ } _ _ _
  | newLabel => simp [apply, inventory, Inventory.add]
  | place label =>
    simp only [apply, place]
    split <;> simp [inventory, Inventory.add, fail]
  | jump op label =>
    simp only [apply, jump]
    split <;> rfl
  | _ => rfl

theorem inventory_foldl (name : String) (ds : List Directive) :
    (ds.foldl apply { name }).inventory = TaskletMachine.inventory ds := by
  induction ds using List.reverseRecOn with
  | nil => rfl
  | append_singleton ds d ih =>
    rw [List.foldl_append, inventory_concat, ← ih]
    exact inventory_apply _ d

theorem error_fail_of_none (h : a.error = none) (e : AssemblyError) :
    (a.fail e).error = some e := by
  simp [fail, h]

theorem error_fail_of_some (h : a.error = some e) (e' : AssemblyError) :
    (a.fail e').error = some e := by
  simp [fail, h]

theorem error_pushWith_of_none (h : a.error = none) (op : Opcode) (operand : Nat) :
    (a.pushWith op operand).error = some e ↔
      op.hasOperand = false ∧ e = .unexpectedOperand op := by
  unfold pushWith
  split
  · next hop => simp [emit, emitOperand, h, hop]
  · next hop => simp [error_fail_of_none h, hop, eq_comm]

theorem error_pushIndex_of_none (h : a.error = none) (op : Opcode) (table : TableKind)
    (index : Nat) :
    (a.pushIndex op table index).error = some e ↔
      operandLimit ≤ index ∧ e = .tableLimit table (index + 1) ∨
      index < operandLimit ∧ op.hasOperand = false ∧ e = .unexpectedOperand op := by
  unfold pushIndex
  split
  · next hlt => rw [error_pushWith_of_none h]; simp [hlt, Nat.not_le_of_lt hlt]
  · next hlt =>
    rw [error_fail_of_none h, Option.some_inj]
    exact ⟨fun he => .inl ⟨Nat.le_of_not_lt hlt, he.symm⟩,
      fun he => he.elim (fun he => he.2.symm) fun he => absurd he.1 hlt⟩

theorem error_pushIndex_of_some (h : a.error = some e) (op : Opcode) (table : TableKind)
    (index : Nat) : (a.pushIndex op table index).error = some e := by
  unfold pushIndex pushWith
  split_ifs
  · exact h
  · exact error_fail_of_some h _
  · exact error_fail_of_some h _

/-- A misuse is not forgotten. -/
theorem error_apply_of_some (h : a.error = some e) (d : Directive) :
    (a.apply d).error = some e := by
  cases d with
  | op op =>
    simp only [apply]
    split
    · exact error_fail_of_some h _
    · exact h
  | opWith op operand =>
    simp only [apply, pushWith]
    split
    · exact h
    · exact error_fail_of_some h _
  | compare op => exact h
  | const c =>
    refine error_pushIndex_of_some ?_ _ _ _
    exact h
  | named op name =>
    refine error_pushIndex_of_some ?_ _ _ _
    exact h
  | onLocal op name =>
    refine error_pushIndex_of_some ?_ _ _ _
    exact h
  | place label =>
    simp only [apply, place]
    split
    · exact h
    · exact error_fail_of_some h _
    · exact error_fail_of_some h _
  | jump op label =>
    simp only [apply, jump]
    split
    · exact error_fail_of_some h _
    · exact h
  | _ => exact h

end Assembler

section Misuses

variable {before : List Directive} {op : Opcode} {label : Nat} {e : AssemblyError}

theorem Directive.misuse_op :
    (Directive.op op).Misuse before e ↔ op.hasOperand ∧ e = .missingOperand op := by
  constructor
  · intro h
    cases h with
    | missingOperand hop => exact ⟨hop, rfl⟩
    | tableLimit hindex => cases hindex
    | unexpectedOperand hop => cases hop
  · rintro ⟨hop, rfl⟩
    exact .missingOperand hop

theorem Directive.misuse_opWith {operand : UInt16} :
    (Directive.opWith op operand).Misuse before e ↔
      op.hasOperand = false ∧ e = .unexpectedOperand op := by
  constructor
  · intro h
    cases h with
    | tableLimit hindex => cases hindex
    | unexpectedOperand hop _ h =>
      cases hop
      exact ⟨h, rfl⟩
  · rintro ⟨hop, rfl⟩
    exact .unexpectedOperand rfl (fun _ _ h => by cases h) hop

theorem Directive.misuse_jump :
    (Directive.jump op label).Misuse before e ↔ op.jumpKind? = none ∧ e = .notAJump op := by
  constructor
  · intro h
    cases h with
    | notAJump hkind => exact ⟨hkind, rfl⟩
    | tableLimit hindex => cases hindex
    | unexpectedOperand hop => cases hop
  · rintro ⟨hkind, rfl⟩
    exact .notAJump hkind

theorem Directive.misuse_place :
    (Directive.place label).Misuse before e ↔
      (inventory before).labels ≤ label ∧ e = .undefinedLabel label ∨
      label < (inventory before).labels ∧ .place label ∈ before ∧ e = .labelPlacedTwice label := by
  constructor
  · intro h
    cases h with
    | undefinedLabel hlabel => exact .inl ⟨hlabel, rfl⟩
    | labelPlacedTwice hmade hplaced => exact .inr ⟨hmade, hplaced, rfl⟩
    | tableLimit hindex => cases hindex
    | unexpectedOperand hop => cases hop
  · rintro (⟨hlabel, rfl⟩ | ⟨hmade, hplaced, rfl⟩)
    · exact .undefinedLabel hlabel
    · exact .labelPlacedTwice hmade hplaced

end Misuses

/-- The misuse of an operation on an entry of a table. -/
theorem Directive.misuse_index {before : List Directive} {d : Directive} {table : TableKind}
    {index : Nat} (hindex : d.index? (inventory before) = some (table, index)) {op : Opcode}
    (hop : d.operated? = some op ∨ d.operated? = none ∧ op.hasOperand) {e : AssemblyError} :
    d.Misuse before e ↔
      Assembler.operandLimit ≤ index ∧ e = .tableLimit table (index + 1) ∨
      index < Assembler.operandLimit ∧ op.hasOperand = false ∧ e = .unexpectedOperand op := by
  constructor
  · intro h
    cases h with
    | tableLimit hindex' h =>
      rw [hindex] at hindex'
      cases hindex'
      exact .inl ⟨h, rfl⟩
    | unexpectedOperand hop' hfits h =>
      rcases hop with hop | ⟨hop, _⟩
      · rw [hop] at hop'
        cases hop'
        exact .inr ⟨hfits _ _ hindex, h, rfl⟩
      · rw [hop] at hop'
        cases hop'
    | _ => cases hindex
  · rintro (⟨h, rfl⟩ | ⟨hlt, h, rfl⟩)
    · exact .tableLimit hindex h
    · rcases hop with hop | ⟨_, hop⟩
      · refine .unexpectedOperand hop (fun table' index' hindex' => ?_) h
        rw [hindex] at hindex'
        cases hindex'
        exact hlt
      · rw [h] at hop
        cases hop

namespace Assembler

variable {a : Assembler} {d : Directive} {ds : List Directive} {e : AssemblyError}

theorem error_place_of_none {label : Nat} (herror : a.error = none)
    (hinventory : a.inventory = TaskletMachine.inventory ds)
    (hlabels : ∀ label target : Nat,
      a.labels[label]? = some (some target) ↔ PlacedAt ds label target) :
    (a.place label).error = some e ↔ (Directive.place label).Misuse ds e := by
  have hsize : (TaskletMachine.inventory ds).labels = a.labels.size := by rw [← hinventory]; rfl
  have hmem :
      Directive.place label ∈ ds ↔ ∃ target : Nat, a.labels[label]? = some (some target) := by
    rw [List.mem_iff_append]
    simp only [hlabels, PlacedAt]
    constructor
    · rintro ⟨before, after, h⟩
      exact ⟨_, before, after, h, rfl⟩
    · rintro ⟨_, before, after, h, _⟩
      exact ⟨before, after, h⟩
  rw [Directive.misuse_place, hsize]
  unfold place
  split
  · next hunplaced =>
    obtain ⟨hlt, _⟩ := Array.getElem?_eq_some_iff.1 hunplaced
    have hnotMem : Directive.place label ∉ ds := by simp [hmem, hunplaced]
    simp [herror, Nat.not_le_of_lt hlt, hnotMem]
  · next target hplaced =>
    obtain ⟨hlt, _⟩ := Array.getElem?_eq_some_iff.1 hplaced
    simp [error_fail_of_none herror, hlt, Nat.not_le_of_lt hlt, hmem.2 ⟨target, hplaced⟩, eq_comm]
  · next hunmade =>
    have hle : a.labels.size ≤ label := Array.getElem?_eq_none_iff.1 hunmade
    simp [error_fail_of_none herror, hle, Nat.not_lt_of_le hle, eq_comm]

/-- What is wrong after a directive is what the directive is misused for, if nothing was wrong
before. -/
theorem error_apply_of_none (herror : a.error = none)
    (hinventory : a.inventory = TaskletMachine.inventory ds)
    (hlabels : ∀ label target : Nat,
      a.labels[label]? = some (some target) ↔ PlacedAt ds label target) :
    (a.apply d).error = some e ↔ d.Misuse ds e := by
  cases d with
  | op op =>
    rw [Directive.misuse_op]
    simp only [apply]
    split
    · next hop => simp [error_fail_of_none herror, hop, eq_comm]
    · next hop => simp [emit, herror, hop]
  | opWith op operand =>
    rw [Directive.misuse_opWith]
    exact error_pushWith_of_none herror op _
  | const c =>
    have hindex : (Directive.const c).index? (TaskletMachine.inventory ds) =
        some (.constants, (Constant.intern a.constants c).2) := by rw [← hinventory]; rfl
    have hop : (Directive.const c).operated? = some .loadConst ∨
        (Directive.const c).operated? = none ∧ Opcode.loadConst.hasOperand := .inr ⟨rfl, rfl⟩
    rw [Directive.misuse_index hindex hop]
    exact error_pushIndex_of_none
      (a := { a with constants := (Constant.intern a.constants c).1 }) herror _ _ _
  | named op name =>
    have hindex : (Directive.named op name).index? (TaskletMachine.inventory ds) =
        some (.names, (internName a.names name).2) := by rw [← hinventory]; rfl
    rw [Directive.misuse_index hindex (.inl rfl)]
    exact error_pushIndex_of_none
      (a := { a with names := (internName a.names name).1 }) herror _ _ _
  | onLocal op name =>
    have hindex : (Directive.onLocal op name).index? (TaskletMachine.inventory ds) =
        some (.locals, (internName a.localNames name).2) := by rw [← hinventory]; rfl
    rw [Directive.misuse_index hindex (.inl rfl)]
    exact error_pushIndex_of_none
      (a := { a with localNames := (internName a.localNames name).1 }) herror _ _ _
  | place label => exact error_place_of_none herror hinventory hlabels
  | jump op label =>
    rw [Directive.misuse_jump]
    simp only [apply, jump]
    split
    · next hkind => simp [error_fail_of_none herror, Option.isNone_iff_eq_none.1 hkind, eq_comm]
    · next hkind => simp [emit, emitOperand, herror, mt Option.isNone_iff_eq_none.2 hkind]
  | _ =>
    refine iff_of_false (fun h => absurd (herror.symm.trans h) (by simp)) fun h => ?_
    cases h with
    | tableLimit hindex => cases hindex
    | unexpectedOperand hop => cases hop

/-- An assembler keeps the first misuse. -/
theorem error_foldl (name : String) (ds : List Directive) :
    ((ds.foldl apply { name }).error = none ↔ NoReason Directive.Misuse ds) ∧
      ∀ e, (ds.foldl apply { name }).error = some e ↔ FirstReason Directive.Misuse ds e := by
  refine firstReason_of_steps (fun ds => (ds.foldl apply { name }).error) rfl ?_ ?_
  · intro before d e h
    rw [List.foldl_append]
    exact error_apply_of_some h d
  · intro before d _ _ herror e
    obtain ⟨xs, hw⟩ := wrote_foldl before herror
    rw [List.foldl_append]
    exact error_apply_of_none herror (inventory_foldl name before) hw.labels

/-! ## Jumps -/

/-- Why a jump cannot be filled in. -/
def jumpError? (labels : Array (Option Nat)) (j : PendingJump) : Option AssemblyError :=
  match jumpOperand labels j with
  | .ok _ => none
  | .error e => some e

/-- Filling in the jumps stops at the first that fails. -/
theorem foldlM_resolve_eq_error {labels : Array (Option Nat)} {jumps : List PendingJump}
    (bytes : Array UInt8) :
    jumps.foldlM (resolve labels) bytes = .error e ↔
      jumps.findSome? (jumpError? labels) = some e := by
  induction jumps generalizing bytes with
  | nil => exact ⟨(fun h => by cases h), (fun h => by cases h)⟩
  | cons j jumps ih =>
    rw [List.foldlM_cons, List.findSome?_cons, resolve, jumpError?]
    cases jumpOperand labels j with
    | error e' => exact ⟨(fun h => by cases h; rfl), (fun h => by cases h; rfl)⟩
    | ok operand => exact ih _

end Assembler

/-- The jump that a directive at an offset asks for. -/
def Directive.pendingJump? (ip : Nat) : Directive → Option PendingJump
  | .jump opcode label => some ⟨opcode, ip + 1, label⟩
  | _ => none

theorem Directive.Describes.pendingJump? {a : Assembler} {x : Draft} {d : Directive}
    (h : d.Describes a x) (ip : Nat) :
    d.pendingJump? ip = x.label?.map fun label => ⟨x.op, ip + 1, label⟩ := by
  cases d <;> simp only [Describes] at h
  case op => rw [h.1]; rfl
  case opWith => rw [h.1]; rfl
  case const => obtain ⟨_, rfl, _⟩ := h; rfl
  case named => obtain ⟨_, _, rfl, _⟩ := h; rfl
  case onLocal => obtain ⟨_, _, rfl, _⟩ := h; rfl
  case compare => rw [h]; rfl
  case jump => rw [h.1]; rfl

/-- The jumps that directives ask for, from an offset on. -/
def jumpsOf : (ip : Nat) → List Directive → List PendingJump
  | _, [] => []
  | ip, d :: ds => (d.pendingJump? ip).toList ++ jumpsOf (ip + d.size) ds

theorem jumpsOf_concat (ip : Nat) (ds : List Directive) (d : Directive) :
    jumpsOf ip (ds ++ [d]) = jumpsOf ip ds ++ (d.pendingJump? (ip + codeSize ds)).toList := by
  induction ds generalizing ip with
  | nil => exact List.append_nil _
  | cons d' ds ih =>
    rw [List.cons_append, codeSize_cons, ← Nat.add_assoc]
    simp only [jumpsOf, ih, List.append_assoc]

theorem pendingJumps_eq {a : Assembler} {ds : List Directive} {ip : Nat} {xs : List Draft}
    (h : List.Forall₂ (Directive.Describes a) xs (Assembler.writing ds)) :
    pendingJumps ip xs = jumpsOf ip ds := by
  induction ds generalizing ip xs with
  | nil =>
    cases h
    rfl
  | cons d ds ih =>
    rw [Assembler.writing, List.filter_cons] at h
    by_cases hd : d.opcode?.isSome
    · rw [if_pos hd] at h
      cases h with
      | cons hx hrest =>
        rw [pendingJumps, jumpsOf, hx.pendingJump?, ih hrest, Directive.size, hx.opcode?]
        rfl
    · rw [if_neg hd] at h
      have hnone : d.opcode? = none := Option.not_isSome_iff_eq_none.1 hd
      have hjump : d.pendingJump? ip = none := by
        cases d with
        | jump => cases hnone
        | _ => rfl
      have hsize : d.size = 0 := by simp [Directive.size, hnone]
      rw [jumpsOf, hjump, hsize]
      exact ih h

section JumpFault

variable {ds before : List Directive} {op : Opcode} {label target : Nat} {e : AssemblyError}

theorem jumpFault_of_unplaced (h : ∀ target, ¬ PlacedAt ds label target) :
    JumpFault ds before (.jump op label) e ↔ e = .undefinedLabel label := by
  constructor
  · intro hfault
    cases hfault with
    | undefinedLabel => rfl
    | backward hplaced => exact absurd hplaced (h _)
    | tooLarge hplaced => exact absurd hplaced (h _)
  · rintro rfl
    exact .undefinedLabel h

theorem jumpFault_of_behind (h : ∀ target', PlacedAt ds label target' ↔ target' = target)
    (hkind : op.jumpKind? = some .relative) (hlt : target < codeSize before + op.size) :
    JumpFault ds before (.jump op label) e ↔
      e = .backwardRelativeJump op (codeSize before + op.size - target) := by
  constructor
  · intro hfault
    cases hfault with
    | undefinedLabel hunplaced => exact absurd ((h target).2 rfl) (hunplaced target)
    | backward hplaced => rw [(h _).1 hplaced]
    | tooLarge hplaced hoperand =>
      rw [(h _).1 hplaced, Opcode.measured, if_pos hkind] at hoperand
      omega
  · rintro rfl
    exact .backward ((h target).2 rfl) hkind hlt

/-- The label does not lie behind, and one operand leads there. -/
theorem jumpFault_of_offset {offset : Nat}
    (h : ∀ target', PlacedAt ds label target' ↔ target' = target)
    (hahead : op.jumpKind? = some .relative → codeSize before + op.size ≤ target)
    (hoffset : ∀ operand,
      op.measured operand (codeSize before + op.size) = target ↔ operand = offset) :
    JumpFault ds before (.jump op label) e ↔
      Assembler.operandLimit ≤ offset ∧ e = .jumpOffsetTooLarge offset := by
  constructor
  · intro hfault
    cases hfault with
    | undefinedLabel hunplaced => exact absurd ((h target).2 rfl) (hunplaced target)
    | backward hplaced hkind hlt =>
      rw [(h _).1 hplaced] at hlt
      exact absurd (hahead hkind) (Nat.not_le_of_lt hlt)
    | tooLarge hplaced hoperand hlimit =>
      rw [(h _).1 hplaced, hoffset] at hoperand
      subst hoperand
      exact ⟨hlimit, rfl⟩
  · rintro ⟨hlimit, rfl⟩
    exact .tooLarge ((h target).2 rfl) ((hoffset offset).2 rfl) hlimit

end JumpFault

namespace Assembler

variable {ds before : List Directive} {e : AssemblyError}

/-- A jump cannot be filled in exactly if it has a fault. -/
theorem jumpError?_eq_some {labels : Array (Option Nat)} {op : Opcode} {label : Nat}
    (hlabels : ∀ label target : Nat,
      labels[label]? = some (some target) ↔ PlacedAt ds label target)
    (hjump : op.jumpKind?.isSome) :
    jumpError? labels ⟨op, codeSize before + 1, label⟩ = some e ↔
      JumpFault ds before (.jump op label) e := by
  have hsize : op.size = 3 := by rw [Opcode.size, if_pos (Opcode.hasOperand_of_jumpKind? hjump)]
  have hnext : codeSize before + 1 + 2 = codeSize before + op.size := by rw [hsize]
  cases hlabel : labels[label]?.join with
  | none =>
    have hunplaced (target : Nat) : ¬ PlacedAt ds label target := by
      rw [← hlabels]
      intro htarget
      rw [htarget] at hlabel
      cases hlabel
    rw [jumpFault_of_unplaced hunplaced]
    simp only [jumpError?, jumpOperand, hlabel]
    exact ⟨(fun h => by cases h; rfl), (fun h => by cases h; rfl)⟩
  | some target =>
    have hplaced (target' : Nat) : PlacedAt ds label target' ↔ target' = target := by
      rw [← hlabels, Option.join_eq_some_iff.1 hlabel]
      simp [eq_comm]
    have hlimit (offset : Nat) :
        (match (if offset < operandLimit then pure offset
            else throw (.jumpOffsetTooLarge offset) : Except AssemblyError Nat) with
          | .ok _ => none
          | .error e => some e) = some e ↔
        operandLimit ≤ offset ∧ e = .jumpOffsetTooLarge offset := by
      split_ifs with hlt
      · exact ⟨(fun h => by cases h), fun h => absurd h.1 (Nat.not_le_of_lt hlt)⟩
      · exact ⟨(fun h => by cases h; exact ⟨Nat.le_of_not_lt hlt, rfl⟩),
          fun h => congrArg some h.2.symm⟩
    obtain ⟨kind, hkind⟩ := Option.isSome_iff_exists.1 hjump
    simp only [jumpError?, jumpOperand, hlabel, hkind, hnext]
    cases kind with
    | absolute =>
      have hahead : op.jumpKind? = some .relative → codeSize before + op.size ≤ target := by
        simp [hkind]
      have hoffset (operand : Nat) :
          op.measured operand (codeSize before + op.size) = target ↔ operand = target := by
        simp [Opcode.measured, hkind]
      rw [jumpFault_of_offset hplaced hahead hoffset]
      exact hlimit target
    | relative =>
      by_cases hle : codeSize before + op.size ≤ target
      · have hoffset (operand : Nat) :
            op.measured operand (codeSize before + op.size) = target ↔
              operand = target - (codeSize before + op.size) := by
          rw [Opcode.measured, if_pos hkind]
          omega
        rw [if_pos hle, jumpFault_of_offset hplaced (fun _ => hle) hoffset]
        exact hlimit _
      · rw [if_neg hle, jumpFault_of_behind hplaced hkind (Nat.lt_of_not_le hle)]
        exact ⟨(fun h => by cases h; rfl), (fun h => by cases h; rfl)⟩

/-- Jumps fail for the fault of the first that has one. -/
theorem findSome?_jumpsOf {labels : Array (Option Nat)}
    (hlabels : ∀ label target : Nat,
      labels[label]? = some (some target) ↔ PlacedAt ds label target)
    (hnever : NoReason Directive.Misuse ds) :
    ((jumpsOf 0 ds).findSome? (jumpError? labels) = none ↔ NoReason (JumpFault ds) ds) ∧
      ∀ e, (jumpsOf 0 ds).findSome? (jumpError? labels) = some e ↔
        FirstReason (JumpFault ds) ds e := by
  refine firstReason_of_steps (fun ds => (jumpsOf 0 ds).findSome? (jumpError? labels)) rfl ?_ ?_
  · intro before d e h
    rw [jumpsOf_concat, List.findSome?_append, h]
    rfl
  · intro before d hd _ hnone e
    rw [jumpsOf_concat, List.findSome?_append, hnone, Nat.zero_add, Option.none_or]
    cases d with
    | jump op label =>
      have hkind : op.jumpKind?.isSome := by
        rw [Option.isSome_iff_ne_none]
        exact fun hkind => hnever _ _ hd _ (.notAJump hkind)
      simp only [Directive.pendingJump?, Option.toList_some, List.findSome?_cons,
        List.findSome?_nil]
      rw [← jumpError?_eq_some hlabels hkind]
      cases jumpError? labels ⟨op, codeSize before + 1, label⟩ <;> rfl
    | _ => exact ⟨(fun h => by cases h), (fun h => by cases h)⟩

end Assembler

/-! ## Units that can be assembled -/

/-- Directives that can be assembled. Operations have an operand or not, as their opcodes say, and
entries and operands fit. Labels are placed once, after they were made; jumps lead to labels that
are placed, and relative ones lead forward. -/
structure WellFormed (ds : List Directive) : Prop where
  plain : ∀ op, .op op ∈ ds → op.hasOperand = false
  operated : ∀ d ∈ ds, ∀ op, d.operated? = some op → op.hasOperand
  index : ∀ before d, before ++ [d] <+: ds → ∀ table index,
    d.index? (inventory before) = some (table, index) → index < Assembler.operandLimit
  jump : ∀ op label, .jump op label ∈ ds → op.jumpKind?.isSome
  made : ∀ before label, before ++ [.place label] <+: ds → label < (inventory before).labels
  once : ∀ before label, before ++ [.place label] <+: ds → .place label ∉ before
  placed : ∀ op label, .jump op label ∈ ds → .place label ∈ ds
  forward : ∀ before op label target, before ++ [.jump op label] <+: ds →
    op.jumpKind? = some .relative → PlacedAt ds label target → codeSize before + op.size ≤ target
  offset : ∀ before op label target operand, before ++ [.jump op label] <+: ds →
    PlacedAt ds label target → op.measured operand (codeSize before + op.size) = target →
    operand < Assembler.operandLimit

theorem exists_initial_of_mem {α : Type} {l : List α} {a : α} (h : a ∈ l) :
    ∃ before, before ++ [a] <+: l := by
  obtain ⟨before, after, rfl⟩ := List.append_of_mem h
  exact ⟨before, after, by simp⟩

theorem mem_of_initial {α : Type} {l before : List α} {a : α} (h : before ++ [a] <+: l) : a ∈ l :=
  h.subset (by simp)

theorem WellFormed.noMisuse {ds : List Directive} (h : WellFormed ds) :
    NoReason Directive.Misuse ds := by
  intro before d hd e hmisuse
  cases hmisuse with
  | missingOperand hop => simp [h.plain _ (mem_of_initial hd)] at hop
  | tableLimit hindex hlimit => exact Nat.not_lt_of_le hlimit (h.index _ _ hd _ _ hindex)
  | unexpectedOperand hop _ hnone => simp [h.operated _ (mem_of_initial hd) _ hop] at hnone
  | notAJump hkind => simpa [hkind] using h.jump _ _ (mem_of_initial hd)
  | undefinedLabel hlabel => exact Nat.not_lt_of_le hlabel (h.made _ _ hd)
  | labelPlacedTwice _ hplaced => exact h.once _ _ hd hplaced

theorem WellFormed.noJumpFault {ds : List Directive} (h : WellFormed ds) :
    NoReason (JumpFault ds) ds := by
  intro before d hd e hfault
  cases hfault with
  | undefinedLabel hunplaced =>
    obtain ⟨before', after, hds⟩ := List.append_of_mem (h.placed _ _ (mem_of_initial hd))
    exact hunplaced _ ⟨before', after, hds, rfl⟩
  | backward hplaced hkind hlt =>
    exact Nat.not_le_of_lt hlt (h.forward _ _ _ _ hd hkind hplaced)
  | tooLarge hplaced hoperand hlimit =>
    exact Nat.not_lt_of_le hlimit (h.offset _ _ _ _ _ hd hplaced hoperand)

/-- Directives can be assembled if none is misused and no jump fails. -/
theorem wellFormed_iff {ds : List Directive} :
    WellFormed ds ↔ NoReason Directive.Misuse ds ∧ NoReason (JumpFault ds) ds := by
  refine ⟨fun h => ⟨h.noMisuse, h.noJumpFault⟩, ?_⟩
  rintro ⟨hmisuse, hfault⟩
  have hindex : ∀ before d, before ++ [d] <+: ds → ∀ table index,
      d.index? (inventory before) = some (table, index) → index < Assembler.operandLimit := by
    intro before d hd table index hindex
    by_contra hlimit
    exact hmisuse before d hd _ (.tableLimit hindex (Nat.le_of_not_lt hlimit))
  have hmade : ∀ before label, before ++ [.place label] <+: ds →
      label < (inventory before).labels := by
    intro before label hd
    by_contra hlabel
    exact hmisuse before _ hd _ (.undefinedLabel (Nat.le_of_not_lt hlabel))
  constructor
  case plain =>
    intro op hop
    obtain ⟨before, hd⟩ := exists_initial_of_mem hop
    exact Bool.eq_false_iff.2 fun h => hmisuse before _ hd _ (.missingOperand h)
  case operated =>
    intro d hmem op hop
    obtain ⟨before, hd⟩ := exists_initial_of_mem hmem
    by_contra h
    exact hmisuse before d hd _
      (.unexpectedOperand hop (hindex before d hd) (Bool.not_eq_true _ ▸ h))
  case index => exact hindex
  case jump =>
    intro op label hmem
    obtain ⟨before, hd⟩ := exists_initial_of_mem hmem
    rw [Option.isSome_iff_ne_none]
    exact fun hkind => hmisuse before _ hd _ (.notAJump hkind)
  case made => exact hmade
  case once =>
    intro before label hd hplaced
    exact hmisuse before _ hd _ (.labelPlacedTwice (hmade before label hd) hplaced)
  case placed =>
    intro op label hmem
    obtain ⟨before, hd⟩ := exists_initial_of_mem hmem
    by_contra hunplaced
    refine hfault before _ hd _ (.undefinedLabel fun target hplaced => hunplaced ?_)
    obtain ⟨before', after, rfl, _⟩ := hplaced
    simp
  case forward =>
    intro before op label target hd hkind hplaced
    by_contra hlt
    exact hfault before _ hd _ (.backward hplaced hkind (Nat.lt_of_not_le hlt))
  case offset =>
    intro before op label target operand hd hplaced hoperand
    by_contra hlimit
    exact hfault before _ hd _ (.tooLarge hplaced hoperand (Nat.le_of_not_lt hlimit))

/-- A unit is finished if there was no misuse and no jump fails. -/
theorem Assembler.finish_spec (a : Assembler) (serial : Nat) :
    ((∃ u, a.finish serial = .ok u) ↔
      a.error = none ∧ a.jumps.toList.findSome? (jumpError? a.labels) = none) ∧
    ∀ e, a.finish serial = .error e ↔
      a.error = some e ∨
        a.error = none ∧ a.jumps.toList.findSome? (jumpError? a.labels) = some e := by
  unfold finish
  cases a.error with
  | some e =>
    exact ⟨⟨(fun ⟨_, h⟩ => by cases h), (fun h => by cases h.1)⟩, fun e' =>
      ⟨(fun h => by cases h; exact .inl rfl),
        fun h => h.elim (fun h => by cases h; rfl) (fun h => by cases h.1)⟩⟩
  | none =>
    cases hbytes : a.jumps.foldlM (resolve a.labels) a.bytes with
    | error e =>
      rw [← Array.foldlM_toList, foldlM_resolve_eq_error] at hbytes
      rw [hbytes]
      exact ⟨⟨(fun ⟨_, h⟩ => by cases h), (fun h => by cases h.2)⟩, fun e' =>
        ⟨(fun h => by cases h; exact .inr ⟨rfl, rfl⟩),
          fun h => h.elim (fun h => by cases h) (fun h => by cases h.2; rfl)⟩⟩
    | ok bytes =>
      have hnone : a.jumps.toList.findSome? (jumpError? a.labels) = none := by
        rw [Option.eq_none_iff_forall_ne_some]
        intro e he
        rw [← foldlM_resolve_eq_error a.bytes, Array.foldlM_toList, hbytes] at he
        cases he
      rw [hnone]
      exact ⟨⟨fun _ => ⟨rfl, rfl⟩, fun _ => ⟨_, rfl⟩⟩, fun e' =>
        ⟨(fun h => by cases h), fun h => h.elim (fun h => by cases h) (fun h => by cases h.2)⟩⟩

/-- **Exact diagnostics.** Directives are assembled if and only if they are well-formed. Otherwise
the first misuse is reported, and if nothing is misused, the fault of the first jump with one. -/
theorem assemble_exact (serial : Nat) (name : String) (ds : List Directive) :
    ((∃ u, assemble serial name ds = .ok u) ↔ WellFormed ds) ∧
    ∀ e, assemble serial name ds = .error e ↔
      FirstReason Directive.Misuse ds e ∨
        NoReason Directive.Misuse ds ∧ FirstReason (JumpFault ds) ds e := by
  obtain ⟨hnever, hfirst⟩ := Assembler.error_foldl name ds
  obtain ⟨hok, herror⟩ := (ds.foldl Assembler.apply { name }).finish_spec serial
  -- without a misuse, the jumps are those of the directives
  have hjumps (h : NoReason Directive.Misuse ds) :
      ((ds.foldl Assembler.apply { name }).jumps.toList.findSome?
          (Assembler.jumpError? (ds.foldl Assembler.apply { name }).labels) = none ↔
        NoReason (JumpFault ds) ds) ∧
      ∀ e, (ds.foldl Assembler.apply { name }).jumps.toList.findSome?
          (Assembler.jumpError? (ds.foldl Assembler.apply { name }).labels) = some e ↔
        FirstReason (JumpFault ds) ds e := by
    obtain ⟨xs, hw⟩ := Assembler.wrote_foldl ds (hnever.2 h)
    rw [hw.jumps, pendingJumps_eq hw.describes]
    exact Assembler.findSome?_jumpsOf hw.labels h
  constructor
  · rw [assemble, hok, wellFormed_iff, hnever]
    exact and_congr_right fun h => (hjumps h).1
  · intro e
    rw [assemble, herror, hfirst, hnever]
    exact or_congr_right (and_congr_right fun h => (hjumps h).2 e)

end TaskletMachine
