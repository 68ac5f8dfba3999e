import Mathlib.Data.List.Forall2
import Mathlib.Data.List.Induction
import TaskletMachine.Code.Assembler
import TaskletMachine.Proofs.Code.Encoding

/-!
# What the assembler writes

While its directives are followed, an assembler writes an operation for each directive that asks for
one. Tables only grow, so the index of an entry stays what it was; the operands of jumps are left
empty, since the labels may not have their places yet.

## Main definitions

* `Directive.opcode?`, `codeSize`, `written`: what directives write, and where.
* `PlacedAt`: where a label is placed.
* `Draft`, `Directive.Describes`: operations whose jumps are not filled in, and the directives that
  ask for them.
* `Assembler.Follows`: what following a directive comes to.
* `Assembler.Wrote`: what an assembler has written after some directives.
-/
namespace TaskletMachine

/-! ## Directives -/

/-- The opcode that a directive writes, if it writes one. -/
def Directive.opcode? : Directive → Option Opcode
  | .op opcode | .opWith opcode _ | .named opcode _ | .onLocal opcode _ | .jump opcode _ =>
    some opcode
  | .const _ => some .loadConst
  | .compare _ => some .compareOp
  | _ => none

/-- The number of bytes that a directive writes. -/
def Directive.size (d : Directive) : Nat :=
  (d.opcode?.map Opcode.size).getD 0

/-- The number of bytes that directives write. -/
def codeSize : List Directive → Nat
  | [] => 0
  | d :: ds => d.size + codeSize ds

/-- The directives that write an operation, with the offsets at which they do. -/
def written : (ip : Nat) → List Directive → List (Nat × Directive)
  | _, [] => []
  | ip, d :: ds =>
    if d.opcode?.isSome then (ip, d) :: written (ip + d.size) ds else written ip ds

/-- Whether a label is placed at an offset. -/
def PlacedAt (ds : List Directive) (label target : Nat) : Prop :=
  ∃ before after, ds = before ++ .place label :: after ∧ target = codeSize before

section Directives

variable {d : Directive} {ds : List Directive}

theorem codeSize_cons (d : Directive) (ds : List Directive) :
    codeSize (d :: ds) = d.size + codeSize ds :=
  rfl

theorem codeSize_append (ds ds' : List Directive) :
    codeSize (ds ++ ds') = codeSize ds + codeSize ds' := by
  induction ds with
  | nil => exact (Nat.zero_add _).symm
  | cons d ds ih => rw [List.cons_append, codeSize_cons, codeSize_cons, ih, Nat.add_assoc]

theorem codeSize_concat (ds : List Directive) (d : Directive) :
    codeSize (ds ++ [d]) = codeSize ds + d.size := by
  rw [codeSize_append]
  rfl

/-- The directives before an offset write up to it; what comes next is written there. -/
theorem written_append (ip : Nat) (ds ds' : List Directive) :
    written ip (ds ++ ds') = written ip ds ++ written (ip + codeSize ds) ds' := by
  induction ds generalizing ip with
  | nil => rfl
  | cons d ds ih =>
    rw [List.cons_append, codeSize_cons]
    simp only [written]
    split
    · rw [ih, Nat.add_assoc, List.cons_append]
    · next hnone =>
      have hsize : d.size = 0 := by simp [Directive.size, Option.not_isSome_iff_eq_none.1 hnone]
      rw [ih, hsize, Nat.zero_add]

theorem head_written (ip : Nat) (ds : List Directive) :
    codeSize ds = 0 ∧ written ip ds = [] ∨ ∃ d rest, written ip ds = (ip, d) :: rest := by
  induction ds with
  | nil => exact .inl ⟨rfl, rfl⟩
  | cons d ds ih =>
    simp only [written]
    split
    · exact .inr ⟨d, _, rfl⟩
    · next hnone =>
      have hsize : d.size = 0 := by simp [Directive.size, Option.not_isSome_iff_eq_none.1 hnone]
      rwa [codeSize_cons, hsize, Nat.zero_add]

/-- A label stands at an operation or at the end. -/
theorem PlacedAt.boundary {label target : Nat} (h : PlacedAt ds label target) :
    target = codeSize ds ∨ ∃ d, (target, d) ∈ written 0 ds := by
  obtain ⟨before, after, rfl, rfl⟩ := h
  have hplace : codeSize (.place label :: after) = codeSize after := by
    rw [codeSize_cons]
    exact Nat.zero_add _
  rw [codeSize_append, hplace, written_append, Nat.zero_add]
  rcases head_written (codeSize before) after with ⟨hsize, _⟩ | ⟨d, rest, hhead⟩
  · exact .inl (by rw [hsize, Nat.add_zero])
  · have hwritten : written (codeSize before) (.place label :: after) =
        written (codeSize before) after := rfl
    rw [hwritten, hhead]
    exact .inr ⟨d, List.mem_append_right _ List.mem_cons_self⟩

theorem concat_eq_append_cons {before after : List Directive} {e : Directive}
    (h : ds ++ [d] = before ++ e :: after) :
    after = [] ∧ before = ds ∧ e = d ∨ ∃ rest, ds = before ++ e :: rest := by
  rcases List.eq_nil_or_concat after with rfl | ⟨rest, last, rfl⟩
  · obtain ⟨rfl, hlast⟩ := List.append_inj' h rfl
    exact .inl ⟨rfl, rfl, (List.singleton_inj.1 hlast).symm⟩
  · rw [List.concat_eq_append, ← List.cons_append, ← List.append_assoc] at h
    exact .inr ⟨rest, (List.append_inj' h rfl).1⟩

/-- A label is placed by an earlier directive or by the last one. -/
theorem placedAt_concat {label target : Nat} :
    PlacedAt (ds ++ [d]) label target ↔
      PlacedAt ds label target ∨ d = .place label ∧ target = codeSize ds := by
  constructor
  · rintro ⟨before, after, heq, htarget⟩
    rcases concat_eq_append_cons heq with ⟨-, rfl, hd⟩ | ⟨rest, hrest⟩
    · exact .inr ⟨hd.symm, htarget⟩
    · exact .inl ⟨before, rest, hrest, htarget⟩
  · rintro (⟨before, after, rfl, htarget⟩ | ⟨rfl, htarget⟩)
    · exact ⟨before, after ++ [d], by simp, htarget⟩
    · exact ⟨ds, [], rfl, htarget⟩

end Directives

/-! ## Drafts -/

/-- An operation as the assembler writes it. A jump names a label instead of its operand, which is
filled in when the unit is finished. -/
structure Draft extends Operation where
  label? : Option Nat := none

/-- The jumps among operations that are written from an offset on. -/
def pendingJumps : (ip : Nat) → List Draft → List PendingJump
  | _, [] => []
  | ip, x :: xs =>
    (x.label?.map fun label => ⟨x.op, ip + 1, label⟩).toList ++ pendingJumps (ip + x.op.size) xs

/-- The bytes of operations whose jumps are not filled in. -/
def encodeDrafts (xs : List Draft) : List UInt8 :=
  encode (xs.map Draft.toOperation)

theorem encodeDrafts_concat (xs : List Draft) (x : Draft) :
    encodeDrafts (xs ++ [x]) = encodeDrafts xs ++ x.bytes := by
  simp [encodeDrafts, encode]

theorem encodeDrafts_cons (x : Draft) (xs : List Draft) :
    encodeDrafts (x :: xs) = x.bytes ++ encodeDrafts xs := by
  simp [encodeDrafts, encode]

theorem pendingJumps_concat (ip : Nat) (xs : List Draft) (x : Draft) :
    pendingJumps ip (xs ++ [x]) =
      pendingJumps ip xs ++ pendingJumps (ip + (encodeDrafts xs).length) [x] := by
  induction xs generalizing ip with
  | nil => rfl
  | cons y xs ih =>
    simp only [List.cons_append, pendingJumps, ih, encodeDrafts_cons, List.length_append,
      Operation.length_bytes, List.append_assoc, Nat.add_assoc]

/-- Whether an operation is what a directive writes, given the tables. -/
def Directive.Describes (a : Assembler) (x : Draft) : Directive → Prop
  | .op opcode => x = ⟨⟨opcode, 0⟩, none⟩ ∧ opcode.hasOperand = false
  | .opWith opcode operand => x = ⟨⟨opcode, operand.toNat⟩, none⟩ ∧ opcode.hasOperand
  | .const c => ∃ index, x = ⟨⟨.loadConst, index⟩, none⟩ ∧ index < Assembler.operandLimit ∧
      a.constants[index]? = some c
  | .named opcode name => opcode.hasOperand ∧ ∃ index, x = ⟨⟨opcode, index⟩, none⟩ ∧
      index < Assembler.operandLimit ∧ a.names.findIdx? (· == name) = some index
  | .onLocal opcode name => opcode.hasOperand ∧ ∃ index, x = ⟨⟨opcode, index⟩, none⟩ ∧
      index < Assembler.operandLimit ∧ a.localNames.findIdx? (· == name) = some index
  | .compare comparison => x = ⟨⟨.compareOp, comparison.code⟩, none⟩
  | .jump opcode label => x = ⟨⟨opcode, 0⟩, some label⟩ ∧ opcode.jumpKind?.isSome
  | _ => False

theorem Directive.Describes.opcode? {a : Assembler} {x : Draft} {d : Directive}
    (h : d.Describes a x) : d.opcode? = some x.op := by
  cases d <;> simp only [Describes] at h
  case op => rw [h.1]; rfl
  case opWith => rw [h.1]; rfl
  case const => obtain ⟨_, rfl, _⟩ := h; rfl
  case named => obtain ⟨_, _, rfl, _⟩ := h; rfl
  case onLocal => obtain ⟨_, _, rfl, _⟩ := h; rfl
  case compare => rw [h]; rfl
  case jump => rw [h.1]; rfl

/-! ## Tables -/

theorem Constant.eq_of_sameScalar {c c' : Constant} (h : c.sameScalar c') : c' = c := by
  cases c <;> cases c' <;> simp_all [sameScalar]

/-- Adding a constant extends the pool, if need be, and gives the index of an equal entry. -/
theorem Constant.intern_spec (pool : Array Constant) (c : Constant) :
    pool.toList <+: (intern pool c).1.toList ∧ (intern pool c).1[(intern pool c).2]? = some c := by
  unfold intern
  split
  · next index hindex =>
    refine ⟨List.prefix_rfl, ?_⟩
    have hfind : pool.findIdx? (sameScalar c) = some index := by
      cases c <;> first | exact hindex | cases hindex
    obtain ⟨hlt, hsame, _⟩ := Array.findIdx?_eq_some_iff_getElem.1 hfind
    rw [Array.getElem?_eq_getElem hlt, eq_of_sameScalar hsame]
  · exact ⟨by simp, by simp⟩

namespace Assembler

/-- Adding a name extends the table, if need be, and gives the index of the first equal entry. -/
theorem internName_spec (table : Array String) (name : String) :
    table.toList <+: (internName table name).1.toList ∧
      (internName table name).1.findIdx? (· == name) = some (internName table name).2 := by
  unfold internName
  split
  · next index hindex => exact ⟨List.prefix_rfl, hindex⟩
  · next hnone =>
    refine ⟨by simp, ?_⟩
    rw [Array.findIdx?_push, hnone]
    simp

/-- The tables are extended. -/
structure Grows (a a' : Assembler) : Prop where
  constants : a.constants.toList <+: a'.constants.toList
  names : a.names.toList <+: a'.names.toList
  localNames : a.localNames.toList <+: a'.localNames.toList

theorem Grows.of_tables {a a' : Assembler} (hconstants : a'.constants = a.constants)
    (hnames : a'.names = a.names) (hlocalNames : a'.localNames = a.localNames) : a.Grows a' :=
  ⟨hconstants ▸ List.prefix_rfl, hnames ▸ List.prefix_rfl, hlocalNames ▸ List.prefix_rfl⟩

end Assembler

theorem findIdx?_of_prefix {table table' : Array String} (h : table.toList <+: table'.toList)
    {name : String} {index : Nat} (hindex : table.findIdx? (· == name) = some index) :
    table'.findIdx? (· == name) = some index := by
  obtain ⟨rest, hrest⟩ := h
  have htable : table' = table ++ rest.toArray := by
    apply Array.toList_inj.1
    rw [← hrest, Array.toList_append]
  rw [htable, Array.findIdx?_append, hindex]
  rfl

/-- What a directive wrote stays right when the tables are extended. -/
theorem Directive.Describes.grows {a a' : Assembler} {d : Directive} {x : Draft}
    (h : d.Describes a x) (hg : a.Grows a') : d.Describes a' x := by
  cases d with
  | const c =>
    obtain ⟨index, hx, hlt, hindex⟩ := h
    refine ⟨index, hx, hlt, ?_⟩
    rw [← Array.getElem?_toList] at hindex ⊢
    obtain ⟨rest, hrest⟩ := hg.constants
    rw [← hrest, List.getElem?_append_left (List.getElem?_eq_some_iff.1 hindex).1]
    exact hindex
  | named opcode name =>
    obtain ⟨hoperand, index, hx, hlt, hindex⟩ := h
    exact ⟨hoperand, index, hx, hlt, findIdx?_of_prefix hg.names hindex⟩
  | onLocal opcode name =>
    obtain ⟨hoperand, index, hx, hlt, hindex⟩ := h
    exact ⟨hoperand, index, hx, hlt, findIdx?_of_prefix hg.localNames hindex⟩
  | _ => exact h

/-! ## Following a directive -/

namespace Assembler

variable {a a₁ a' : Assembler} {d : Directive} {x : Draft}

theorem error_fail (a : Assembler) (e : AssemblyError) : (a.fail e).error ≠ none := by
  cases h : a.error <;> simp [fail, h]

/-- An operation is written, and nothing else changes but the lines. -/
structure Writes (a a' : Assembler) (x : Draft) : Prop where
  bytes : a'.bytes.toList = a.bytes.toList ++ x.bytes
  jumps : a'.jumps.toList = a.jumps.toList ++ pendingJumps a.bytes.size [x]
  constants : a'.constants = a.constants
  names : a'.names = a.names
  localNames : a'.localNames = a.localNames
  labels : a'.labels = a.labels
  error : a'.error = a.error

theorem writes_emit {op : Opcode} (h : op.hasOperand = false) (a : Assembler) :
    a.Writes (a.emit op) ⟨⟨op, 0⟩, none⟩ :=
  ⟨by simp [emit, Operation.bytes, h], by simp [emit, pendingJumps], rfl, rfl, rfl, rfl, rfl⟩

theorem pushWith_spec {op : Opcode} {operand : Nat} (h : (a.pushWith op operand).error = none) :
    op.hasOperand ∧ a.Writes (a.pushWith op operand) ⟨⟨op, operand⟩, none⟩ := by
  unfold pushWith at h ⊢
  split
  · next hoperand =>
    refine ⟨hoperand, ?_, ?_, rfl, rfl, rfl, rfl, rfl⟩
    · simp [emit, emitOperand, operandBytes, Operation.bytes, hoperand]
    · simp [emit, emitOperand, pendingJumps]
  · next hoperand =>
    rw [if_neg hoperand] at h
    exact absurd h (error_fail a _)

theorem pushIndex_spec {op : Opcode} {table : TableKind} {index : Nat}
    (h : (a.pushIndex op table index).error = none) :
    index < operandLimit ∧ op.hasOperand ∧
      a.Writes (a.pushIndex op table index) ⟨⟨op, index⟩, none⟩ := by
  unfold pushIndex at h ⊢
  split
  · next hlt =>
    rw [if_pos hlt] at h
    exact ⟨hlt, pushWith_spec h⟩
  · next hlt =>
    rw [if_neg hlt] at h
    exact absurd h (error_fail a _)

theorem jump_spec {op : Opcode} {label : Nat} (h : (a.jump op label).error = none) :
    op.jumpKind?.isSome ∧ a.Writes (a.jump op label) ⟨⟨op, 0⟩, some label⟩ := by
  unfold jump at h ⊢
  split
  · next hkind =>
    rw [if_pos hkind] at h
    exact absurd h (error_fail a _)
  · next hkind =>
    have hjump : op.jumpKind?.isSome := by simpa [Option.isSome_iff_ne_none] using hkind
    have hoperand := Opcode.hasOperand_of_jumpKind? hjump
    refine ⟨hjump, ?_, ?_, rfl, rfl, rfl, rfl, rfl⟩
    · simp [emit, emitOperand, operandBytes, Operation.bytes, hoperand]
    · simp [emit, emitOperand, operandBytes, pendingJumps]

/-- What following a directive without a misuse comes to. -/
structure Follows (a a' : Assembler) (d : Directive) : Prop where
  error : a.error = none
  grows : a.Grows a'
  writes : d.opcode? = none ∧ a'.bytes = a.bytes ∧ a'.jumps = a.jumps ∨
    ∃ x, d.Describes a' x ∧ a'.bytes.toList = a.bytes.toList ++ x.bytes ∧
      a'.jumps.toList = a.jumps.toList ++ pendingJumps a.bytes.size [x]
  labels : ∀ label target : Nat, a'.labels[label]? = some (some target) ↔
    a.labels[label]? = some (some target) ∨ d = .place label ∧ target = a.bytes.size

theorem Follows.of_writes (hw : a₁.Writes a' x) (herror : a'.error = none) (hgrows : a.Grows a₁)
    (hsame : a₁ = { a with
      constants := a₁.constants, names := a₁.names, localNames := a₁.localNames })
    (hd : d.Describes a' x) : a.Follows a' d := by
  have hbytes : a₁.bytes = a.bytes := by rw [hsame]
  have hjumps : a₁.jumps = a.jumps := by rw [hsame]
  have hlabels : a₁.labels = a.labels := by rw [hsame]
  refine ⟨?_, ⟨?_, ?_, ?_⟩, .inr ⟨x, hd, hbytes ▸ hw.bytes, hbytes ▸ hjumps ▸ hw.jumps⟩, ?_⟩
  · exact (congrArg Assembler.error hsame).symm.trans (hw.error.symm.trans herror)
  · exact hw.constants ▸ hgrows.constants
  · exact hw.names ▸ hgrows.names
  · exact hw.localNames ▸ hgrows.localNames
  · intro label target
    have hplace : d ≠ .place label := by
      rintro rfl
      exact hd
    rw [hw.labels, hlabels]
    simp [hplace]

/-- A directive that neither writes nor places a label. -/
theorem Follows.of_quiet (herror : a.error = none) (hgrows : a.Grows a')
    (hd : d.opcode? = none) (hplace : ∀ label, d ≠ .place label)
    (hbytes : a'.bytes = a.bytes) (hjumps : a'.jumps = a.jumps)
    (hlabels : ∀ label target : Nat, a'.labels[label]? = some (some target) ↔
      a.labels[label]? = some (some target)) : a.Follows a' d :=
  ⟨herror, hgrows, .inl ⟨hd, hbytes, hjumps⟩, fun label target => by simp [hlabels, hplace]⟩

theorem follows_place {label : Nat} (h : (a.place label).error = none) :
    a.Follows (a.place label) (.place label) := by
  unfold place at h ⊢
  split at h
  · next hmade =>
    refine ⟨h, .of_tables rfl rfl rfl, .inl ⟨rfl, rfl, rfl⟩, fun other target => ?_⟩
    rw [Array.getElem?_setIfInBounds]
    by_cases hother : label = other
    · subst hother
      obtain ⟨hlt, hnone⟩ := Array.getElem?_eq_some_iff.1 hmade
      simp [hlt, hnone, eq_comm]
    · simp [hother]
  · exact absurd h (error_fail a _)
  · exact absurd h (error_fail a _)

/-- Following any directive. -/
theorem follows_apply (h : (a.apply d).error = none) : a.Follows (a.apply d) d := by
  cases d with
  | args names =>
    have hgrows : a.Grows (a.apply (.args names)) :=
      ⟨List.prefix_rfl, List.prefix_rfl, by simp [apply]⟩
    exact .of_quiet h hgrows rfl (by simp) rfl rfl (fun _ _ => .rfl)
  | varargs name =>
    have hgrows : a.Grows (a.apply (.varargs name)) :=
      ⟨List.prefix_rfl, List.prefix_rfl, by simp [apply]⟩
    exact .of_quiet h hgrows rfl (by simp) rfl rfl (fun _ _ => .rfl)
  | varkeywords name =>
    have hgrows : a.Grows (a.apply (.varkeywords name)) :=
      ⟨List.prefix_rfl, List.prefix_rfl, by simp [apply]⟩
    exact .of_quiet h hgrows rfl (by simp) rfl rfl (fun _ _ => .rfl)
  | defaults values =>
    exact .of_quiet h (.of_tables rfl rfl rfl) rfl (by simp) rfl rfl (fun _ _ => .rfl)
  | line n => exact .of_quiet h (.of_tables rfl rfl rfl) rfl (by simp) rfl rfl (fun _ _ => .rfl)
  | newLabel =>
    refine .of_quiet h (.of_tables rfl rfl rfl) rfl (by simp) rfl rfl (fun label target => ?_)
    simp only [apply, Array.getElem?_push]
    split
    · next hlabel => simp [hlabel]
    · exact .rfl
  | place label => exact follows_place h
  | op op =>
    simp only [apply] at h ⊢
    split
    · next hoperand =>
      rw [if_pos hoperand] at h
      exact absurd h (error_fail a _)
    · next hoperand =>
      rw [if_neg hoperand] at h
      have hnone : op.hasOperand = false := by simpa using hoperand
      exact .of_writes (writes_emit hnone a) h (.of_tables rfl rfl rfl) rfl ⟨rfl, hnone⟩
  | opWith op operand =>
    obtain ⟨hoperand, hw⟩ := pushWith_spec h
    exact .of_writes hw h (.of_tables rfl rfl rfl) rfl ⟨rfl, hoperand⟩
  | compare op =>
    obtain ⟨_, hw⟩ := pushWith_spec h
    exact .of_writes hw h (.of_tables rfl rfl rfl) rfl rfl
  | jump op label =>
    obtain ⟨hkind, hw⟩ := jump_spec h
    exact .of_writes hw h (.of_tables rfl rfl rfl) rfl ⟨rfl, hkind⟩
  | const c =>
    obtain ⟨hgrows, hentry⟩ := Constant.intern_spec a.constants c
    obtain ⟨hlt, _, hw⟩ := pushIndex_spec (a := { a with constants := _ }) h
    refine .of_writes hw h ⟨hgrows, List.prefix_rfl, List.prefix_rfl⟩ rfl ⟨_, rfl, hlt, ?_⟩
    exact hw.constants ▸ hentry
  | named op name =>
    obtain ⟨hgrows, hentry⟩ := internName_spec a.names name
    obtain ⟨hlt, hoperand, hw⟩ := pushIndex_spec (a := { a with names := _ }) h
    refine .of_writes hw h ⟨List.prefix_rfl, hgrows, List.prefix_rfl⟩ rfl
      ⟨hoperand, _, rfl, hlt, ?_⟩
    exact hw.names ▸ hentry
  | onLocal op name =>
    obtain ⟨hgrows, hentry⟩ := internName_spec a.localNames name
    obtain ⟨hlt, hoperand, hw⟩ := pushIndex_spec (a := { a with localNames := _ }) h
    refine .of_writes hw h ⟨List.prefix_rfl, List.prefix_rfl, hgrows⟩ rfl
      ⟨hoperand, _, rfl, hlt, ?_⟩
    exact hw.localNames ▸ hentry

/-! ## Following all directives -/

/-- The directives that write an operation. -/
def writing (ds : List Directive) : List Directive :=
  ds.filter fun d => d.opcode?.isSome

/-- What an assembler has written after some directives. -/
structure Wrote (a : Assembler) (ds : List Directive) (xs : List Draft) : Prop where
  bytes : a.bytes.toList = encodeDrafts xs
  jumps : a.jumps.toList = pendingJumps 0 xs
  describes : List.Forall₂ (Directive.Describes a) xs (writing ds)
  labels : ∀ label target : Nat,
    a.labels[label]? = some (some target) ↔ PlacedAt ds label target

theorem codeSize_eq {xs : List Draft} {ds : List Directive}
    (h : List.Forall₂ (Directive.Describes a) xs (writing ds)) :
    codeSize ds = (encodeDrafts xs).length := by
  induction ds generalizing xs with
  | nil =>
    cases h
    rfl
  | cons d ds ih =>
    rw [codeSize_cons]
    rw [writing, List.filter_cons] at h
    by_cases hd : d.opcode?.isSome
    · rw [if_pos hd] at h
      cases h with
      | cons hx hrest =>
        rw [encodeDrafts_cons, List.length_append, Operation.length_bytes, ih hrest,
          Directive.size, hx.opcode?]
        rfl
    · rw [if_neg hd] at h
      have hsize : d.size = 0 := by simp [Directive.size, Option.not_isSome_iff_eq_none.1 hd]
      rw [hsize, Nat.zero_add, ih h]

theorem Wrote.size_bytes {ds : List Directive} {xs : List Draft} (h : a.Wrote ds xs) :
    a.bytes.size = codeSize ds := by
  rw [codeSize_eq h.describes, ← h.bytes, Array.length_toList]

theorem Follows.wrote {ds : List Directive} {xs : List Draft} (h : a.Follows a' d)
    (hw : a.Wrote ds xs) : ∃ xs', a'.Wrote (ds ++ [d]) xs' := by
  have hsize := hw.size_bytes
  have hlabels (label target : Nat) :
      a'.labels[label]? = some (some target) ↔ PlacedAt (ds ++ [d]) label target := by
    rw [h.labels, hw.labels, placedAt_concat, hsize]
  have hdescribes := hw.describes.imp fun x d hd => Directive.Describes.grows hd h.grows
  rcases h.writes with ⟨hd, hbytes, hjumps⟩ | ⟨x, hx, hbytes, hjumps⟩
  · have hwriting : writing (ds ++ [d]) = writing ds := by simp [writing, hd]
    exact ⟨xs, hbytes ▸ hw.bytes, hjumps ▸ hw.jumps, hwriting ▸ hdescribes, hlabels⟩
  · have hwriting : writing (ds ++ [d]) = writing ds ++ [d] := by
      simp [writing, hx.opcode?]
    refine ⟨xs ++ [x], ?_, ?_, ?_, hlabels⟩
    · rw [hbytes, hw.bytes, encodeDrafts_concat]
    · rw [hjumps, hw.jumps, pendingJumps_concat, hsize, codeSize_eq hw.describes, Nat.zero_add]
    · rw [hwriting]
      exact List.rel_append hdescribes (.cons hx .nil)

/-- The assembler after all directives of a unit, if there was no misuse. -/
theorem wrote_foldl {name : String} (ds : List Directive)
    (h : (ds.foldl apply { name }).error = none) :
    ∃ xs, (ds.foldl apply { name }).Wrote ds xs := by
  induction ds using List.reverseRecOn with
  | nil =>
    refine ⟨[], rfl, rfl, .nil, fun label target => ?_⟩
    simp [PlacedAt]
  | append_singleton ds d ih =>
    rw [List.foldl_append] at h ⊢
    have hfollows := follows_apply h
    obtain ⟨xs, hw⟩ := ih hfollows.error
    exact hfollows.wrote hw

end Assembler

end TaskletMachine
