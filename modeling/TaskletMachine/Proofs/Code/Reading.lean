import TaskletMachine.Proofs.Code.Assembly

/-!
# Reading assembled units

When a unit is finished, every label has its place, and the operands of jumps are filled in. The
bytes are then the operations that the directives ask for, in order, and reading them gives one
instruction for each directive that writes one.

## Main definitions

* `Directive.Yields`: the instruction that a directive is read back as.
* `Directive.Comparable`: directives whose instruction can be read back.
* `Assembler.Linked`: what drafts become.
* `decodeFrom_assemble`: reading an assembled unit.
-/
namespace TaskletMachine

/-- Whether the operand that a directive writes is one that its instruction can have. Only
comparisons restrict it, and a comparison that is not given as an operand is always possible. -/
def Directive.Comparable (u : CodeUnit) : Directive → Prop
  | .opWith opcode operand => opcode.Admits operand.toNat
  | .named opcode name => ∀ index, u.names.findIdx? (· == name) = some index → opcode.Admits index
  | .onLocal opcode name =>
    ∀ index, u.localNames.findIdx? (· == name) = some index → opcode.Admits index
  | _ => True

/-- Whether an instruction at an offset is what a directive of the unit asks for: it has the opcode,
and its operand is the one given, the index of an entry with the constant or the name, the
comparison, or the place of the label. -/
def Directive.Yields (ds : List Directive) (u : CodeUnit) (ip : Nat) (i : Instruction) :
    Directive → Prop
  | .op opcode => opcode ∈ i.opcodes ∧ i.operand? = none
  | .opWith opcode operand =>
    opcode ∈ i.opcodes ∧ i.operand? = some (opcode.measured operand.toNat (ip + opcode.size))
  | .const c => ∃ index, i = .loadConst index ∧ u.constants[index]? = some c
  | .named opcode name => opcode ∈ i.opcodes ∧ ∃ index, u.names[index]? = some name ∧
      i.operand? = some (opcode.measured index (ip + opcode.size))
  | .onLocal opcode name => opcode ∈ i.opcodes ∧ ∃ index, u.localNames[index]? = some name ∧
      i.operand? = some (opcode.measured index (ip + opcode.size))
  | .compare comparison => i = .compare comparison
  | .jump opcode label =>
    opcode ∈ i.opcodes ∧ ∃ target, PlacedAt ds label target ∧ i.operand? = some target
  | _ => False

namespace Assembler

/-! ## Filling in the jumps -/

/-- Whether a draft at an offset becomes an operation, given the places of labels. -/
def Becomes (labels : Array (Option Nat)) (ip : Nat) (x : Draft) (y : Operation) : Prop :=
  match x.label? with
  | none => y = x.toOperation
  | some label => y.op = x.op ∧ jumpOperand labels ⟨x.op, ip + 1, label⟩ = .ok y.operand

theorem Becomes.op_eq {labels : Array (Option Nat)} {ip : Nat} {x : Draft} {y : Operation}
    (h : Becomes labels ip x y) : y.op = x.op := by
  unfold Becomes at h
  split at h
  · rw [h]
  · exact h.1

/-- Whether the drafts from an offset on become operations. -/
inductive Linked (labels : Array (Option Nat)) : Nat → List Draft → List Operation → Prop
  | nil (ip : Nat) : Linked labels ip [] []
  | cons {ip : Nat} {x : Draft} {y : Operation} {xs : List Draft} {ys : List Operation}
      (hx : Becomes labels ip x y) (hrest : Linked labels (ip + x.op.size) xs ys) :
      Linked labels ip (x :: xs) (y :: ys)

theorem Linked.exists_draft {labels : Array (Option Nat)} {ip : Nat} {xs : List Draft}
    {ys : List Operation} (h : Linked labels ip xs ys) {y : Operation} (hy : y ∈ ys) :
    ∃ ip, ∃ x ∈ xs, Becomes labels ip x y := by
  induction h with
  | nil => cases hy
  | cons hx _ ih =>
    rcases List.mem_cons.1 hy with rfl | hy
    · exact ⟨_, _, List.mem_cons_self, hx⟩
    · obtain ⟨ip, x, hmem, hbecomes⟩ := ih hy
      exact ⟨ip, x, List.mem_cons_of_mem _ hmem, hbecomes⟩

theorem Linked.length_encode {labels : Array (Option Nat)} {ip : Nat} {xs : List Draft}
    {ys : List Operation} (h : Linked labels ip xs ys) :
    (encode ys).length = (encodeDrafts xs).length := by
  induction h with
  | nil => rfl
  | cons hx _ ih =>
    rw [encodeDrafts_cons, encode, List.flatMap_cons, List.length_append, List.length_append,
      Operation.length_bytes, Operation.length_bytes, hx.op_eq, ← ih]
    rfl

theorem bind_eq_ok {ε α β : Type} {r : Except ε α} {f : α → Except ε β} {b : β}
    (h : r >>= f = .ok b) : ∃ a, r = .ok a ∧ f a = .ok b := by
  cases r with
  | error e => cases h
  | ok a => exact ⟨a, rfl, h⟩

/-- A jump is filled in where it stands. -/
theorem resolve_encode {labels : Array (Option Nat)} {op : Opcode} {label : Nat}
    {bytes : Array UInt8} (hop : op.hasOperand) (before after : List UInt8)
    (h : resolve labels (before ++ (Operation.bytes ⟨op, 0⟩ ++ after)).toArray
      ⟨op, before.length + 1, label⟩ = .ok bytes) :
    ∃ operand, jumpOperand labels ⟨op, before.length + 1, label⟩ = .ok operand ∧
      bytes = (before ++ (Operation.bytes ⟨op, operand⟩ ++ after)).toArray := by
  obtain ⟨operand, hoperand, hbytes⟩ := bind_eq_ok h
  cases hbytes
  refine ⟨operand, hoperand, ?_⟩
  have hlow : before.length + 1 - before.length = 1 := by omega
  have hhigh : before.length + 1 + 1 - before.length = 2 := by omega
  simp only [Operation.bytes, hop, if_true, List.setIfInBounds_toArray]
  rw [List.set_append_right _ _ (by omega), List.set_append_right _ _ (by omega), hlow, hhigh]
  rfl

/-- Drafts whose jumps can be filled in: they have an operand, which is empty so far. -/
def Fillable (x : Draft) : Prop :=
  ∀ label, x.label? = some label → x.op.hasOperand ∧ x.operand = 0

theorem linked_of_resolve {labels : Array (Option Nat)} {xs : List Draft}
    (hxs : ∀ x ∈ xs, Fillable x) (before : List UInt8) {bytes : Array UInt8}
    (h : (pendingJumps before.length xs).foldlM (resolve labels)
      (before ++ encodeDrafts xs).toArray = .ok bytes) :
    ∃ ys, Linked labels before.length xs ys ∧ bytes = (before ++ encode ys).toArray := by
  induction xs generalizing before with
  | nil =>
    cases h
    exact ⟨[], .nil _, rfl⟩
  | cons x xs ih =>
    have hrest : ∀ y ∈ xs, Fillable y := fun y hy => hxs y (List.mem_cons_of_mem _ hy)
    have hnext (y : Operation) (hy : y.op = x.op) :
        (before ++ y.bytes).length = before.length + x.op.size := by
      rw [List.length_append, Operation.length_bytes, hy]
    rw [encodeDrafts_cons, pendingJumps] at h
    cases hlabel : x.label? with
    | none =>
      rw [hlabel, ← List.append_assoc, ← hnext x.toOperation rfl] at h
      obtain ⟨ys, hys, rfl⟩ := ih hrest _ h
      have hx : Becomes labels before.length x x.toOperation := by simp [Becomes, hlabel]
      refine ⟨x.toOperation :: ys, .cons hx (hnext x.toOperation rfl ▸ hys), ?_⟩
      simp [encode]
    | some label =>
      obtain ⟨⟨op, operand⟩, label?⟩ := x
      obtain ⟨hop, rfl⟩ := hxs _ List.mem_cons_self label hlabel
      cases hlabel
      obtain ⟨bytes₁, hfirst, hfold⟩ := bind_eq_ok h
      obtain ⟨operand, hoperand, rfl⟩ := resolve_encode hop before _ hfirst
      rw [← List.append_assoc, ← hnext ⟨op, operand⟩ rfl] at hfold
      obtain ⟨ys, hys, rfl⟩ := ih hrest _ hfold
      refine ⟨⟨op, operand⟩ :: ys, .cons ⟨rfl, hoperand⟩ (hnext ⟨op, operand⟩ rfl ▸ hys), ?_⟩
      simp [encode]

/-- The operand of a jump leads to where its label was placed. -/
theorem jumpOperand_spec {labels : Array (Option Nat)} {op : Opcode} {ip label operand : Nat}
    (h : jumpOperand labels ⟨op, ip + 1, label⟩ = .ok operand) :
    ∃ target, labels[label]? = some (some target) ∧ op.measured operand (ip + 3) = target ∧
      operand < operandLimit := by
  cases hlabel : labels[label]?.join with
  | none =>
    simp only [jumpOperand, hlabel] at h
    cases h
  | some target =>
    refine ⟨target, Option.join_eq_some_iff.1 hlabel, ?_⟩
    have hlimit {offset : Nat} (h : (if offset < operandLimit then pure offset
        else throw (.jumpOffsetTooLarge offset) : Except AssemblyError Nat) = .ok operand) :
        offset = operand ∧ operand < operandLimit := by
      split at h
      · next hlt =>
        cases h
        exact ⟨rfl, hlt⟩
      · cases h
    unfold Opcode.measured
    cases hkind : op.jumpKind? with
    | none =>
      simp only [jumpOperand, hlabel, hkind] at h
      cases h
    | some kind =>
      simp only [jumpOperand, hlabel, hkind] at h
      cases kind with
      | relative =>
        dsimp only at h
        split at h
        · next hle =>
          obtain ⟨rfl, hlt⟩ := hlimit h
          exact ⟨by rw [if_pos rfl]; omega, hlt⟩
        · cases h
      | absolute =>
        obtain ⟨rfl, hlt⟩ := hlimit h
        exact ⟨rfl, hlt⟩

end Assembler

/-! ## Reading a unit -/

section Reading

open Assembler

variable {a : Assembler} {u : CodeUnit} {d : Directive} {ds : List Directive} {x : Draft}
  {y : Operation} {ip : Nat}

/-- What a directive has written can be decoded. -/
theorem Directive.Describes.sound (hd : d.Describes a x) (hy : Becomes a.labels ip x y)
    (hnames : u.names = a.names) (hlocalNames : u.localNames = a.localNames)
    (hc : d.Comparable u) : y.Sound := by
  cases d <;> simp only [Describes] at hd
  case op opcode =>
    obtain ⟨rfl, hnone⟩ := hd
    cases hy
    refine ⟨Nat.zero_lt_succ _, fun _ => rfl, fun hcompare => ?_⟩
    subst hcompare
    cases hnone
  case opWith opcode operand =>
    obtain ⟨rfl, hoperand⟩ := hd
    cases hy
    exact ⟨operand.toNat_lt, fun hnone => by simp [hoperand] at hnone, hc⟩
  case const c =>
    obtain ⟨index, rfl, hlt, _⟩ := hd
    cases hy
    exact ⟨hlt, (fun hnone => by cases hnone), (fun hcompare => by cases hcompare)⟩
  case named opcode name =>
    obtain ⟨hoperand, index, rfl, hlt, hindex⟩ := hd
    cases hy
    exact ⟨hlt, fun hnone => by simp [hoperand] at hnone, hc index (hnames ▸ hindex)⟩
  case onLocal opcode name =>
    obtain ⟨hoperand, index, rfl, hlt, hindex⟩ := hd
    cases hy
    exact ⟨hlt, fun hnone => by simp [hoperand] at hnone, hc index (hlocalNames ▸ hindex)⟩
  case compare comparison =>
    subst hd
    cases hy
    refine ⟨by cases comparison <;> decide, (fun hnone => by cases hnone), fun _ => ?_⟩
    simp [CompareOp.ofCode?_code]
  case jump opcode label =>
    obtain ⟨rfl, hkind⟩ := hd
    obtain ⟨hop, hoperand⟩ := hy
    obtain ⟨_, _, _, hlt⟩ := jumpOperand_spec hoperand
    refine ⟨hlt, fun hnone => ?_, fun hcompare => ?_⟩
    · simp [hop, Opcode.hasOperand_of_jumpKind? hkind] at hnone
    · rw [hop] at hcompare
      subst hcompare
      cases hkind

/-- What a directive has written is read as what it asks for. -/
theorem Directive.Describes.yields (hd : d.Describes a x) (hy : Becomes a.labels ip x y)
    (hsound : y.Sound) (hconstants : u.constants = a.constants) (hnames : u.names = a.names)
    (hlocalNames : u.localNames = a.localNames)
    (hlabels : ∀ label target : Nat,
      a.labels[label]? = some (some target) → PlacedAt ds label target) :
    d.Yields ds u ip (.ofOpcode y.op y.operand ip (ip + y.op.size)) := by
  obtain ⟨_, hop, hoperand⟩ := Instruction.ofOpcode_spec hsound.admits ip (ip + y.op.size)
  have hentry {table : Array String} {name : String} {index : Nat}
      (h : table.findIdx? (· == name) = some index) : table[index]? = some name := by
    obtain ⟨hlt, hsame, _⟩ := Array.findIdx?_eq_some_iff_getElem.1 h
    rw [Array.getElem?_eq_getElem hlt, eq_of_beq hsame]
  cases d <;> simp only [Describes] at hd
  case op opcode =>
    obtain ⟨rfl, hnone⟩ := hd
    cases hy
    exact ⟨hop, by rw [hoperand, hnone]; rfl⟩
  case opWith opcode operand =>
    obtain ⟨rfl, hsome⟩ := hd
    cases hy
    exact ⟨hop, by rw [hoperand, if_pos hsome]⟩
  case const c =>
    obtain ⟨index, rfl, _, hindex⟩ := hd
    cases hy
    exact ⟨index, rfl, hconstants ▸ hindex⟩
  case named opcode name =>
    obtain ⟨hsome, index, rfl, _, hindex⟩ := hd
    cases hy
    exact ⟨hop, index, hnames ▸ hentry hindex, by rw [hoperand, if_pos hsome]⟩
  case onLocal opcode name =>
    obtain ⟨hsome, index, rfl, _, hindex⟩ := hd
    cases hy
    exact ⟨hop, index, hlocalNames ▸ hentry hindex, by rw [hoperand, if_pos hsome]⟩
  case compare comparison =>
    subst hd
    cases hy
    simp [Yields, Instruction.ofOpcode, CompareOp.ofCode?_code]
  case jump opcode label =>
    obtain ⟨rfl, hkind⟩ := hd
    obtain ⟨hsame, hjump⟩ := hy
    have hsome := Opcode.hasOperand_of_jumpKind? hkind
    obtain ⟨target, hplaced, htarget, _⟩ := jumpOperand_spec hjump
    rw [hsame] at hop hoperand ⊢
    refine ⟨hop, target, hlabels label target hplaced, ?_⟩
    rw [hoperand, if_pos hsome, Opcode.size, if_pos hsome, htarget]

/-- Drafts are read in the order of their directives, each at its offset. -/
theorem forall₂_instructions {labels : Array (Option Nat)} {xs : List Draft}
    {ys : List Operation} (hd : List.Forall₂ (Directive.Describes a) xs (writing ds))
    (hl : Linked labels ip xs ys) {Q : Nat → Directive → Instruction → Prop}
    (hQ : ∀ d ∈ ds, ∀ ip x, ∀ y ∈ ys, d.Describes a x → Becomes labels ip x y →
      Q ip d (.ofOpcode y.op y.operand ip (ip + y.op.size))) :
    List.Forall₂ (fun w r => r.1 = w.1 ∧ Q w.1 w.2 r.2) (written ip ds)
      (Operation.instructions ip ys) := by
  induction ds generalizing ip xs ys with
  | nil =>
    cases hd
    cases hl
    exact .nil
  | cons d ds ih =>
    have hrest {ys' : List Operation} (hys : ys' ⊆ ys) : ∀ e ∈ ds, ∀ ip x, ∀ y ∈ ys',
        e.Describes a x → Becomes labels ip x y →
          Q ip e (.ofOpcode y.op y.operand ip (ip + y.op.size)) :=
      fun e he ip x y hy => hQ e (List.mem_cons_of_mem _ he) ip x y (hys hy)
    rw [writing, List.filter_cons] at hd
    simp only [written]
    split at hd
    · next hsome =>
      rw [if_pos hsome]
      cases hd with
      | cons hx hd =>
        cases hl with
        | cons hy hl =>
          next x xs y ys =>
          have hop : y.op = x.op := hy.op_eq
          have hsize : d.size = y.op.size := by rw [Directive.size, hx.opcode?, hop]; rfl
          refine .cons ⟨rfl, hQ d List.mem_cons_self ip x y List.mem_cons_self hx hy⟩ ?_
          rw [hsize]
          exact ih hd (hop ▸ hl) (hrest (List.subset_cons_self y ys))
    · next hnone =>
      rw [if_neg hnone]
      exact ih hd hl (hrest (List.Subset.refl ys))

theorem fillable_of_describes (h : d.Describes a x) : Fillable x := by
  intro label hlabel
  cases d <;> simp only [Directive.Describes] at h
  case jump opcode label =>
    obtain ⟨rfl, hkind⟩ := h
    exact ⟨Opcode.hasOperand_of_jumpKind? hkind, rfl⟩
  case op => rw [h.1] at hlabel; cases hlabel
  case opWith => rw [h.1] at hlabel; cases hlabel
  case const => obtain ⟨_, rfl, _⟩ := h; cases hlabel
  case named => obtain ⟨_, _, rfl, _⟩ := h; cases hlabel
  case onLocal => obtain ⟨_, _, rfl, _⟩ := h; cases hlabel
  case compare => rw [h] at hlabel; cases hlabel

theorem exists_of_forall₂ {α β : Type} {R : α → β → Prop} {as : List α} {bs : List β}
    (h : List.Forall₂ R as bs) {a : α} (ha : a ∈ as) : ∃ b ∈ bs, R a b := by
  induction h with
  | nil => cases ha
  | cons hfirst _ ih =>
    rcases List.mem_cons.1 ha with rfl | ha
    · exact ⟨_, List.mem_cons_self, hfirst⟩
    · obtain ⟨b, hb, hrel⟩ := ih ha
      exact ⟨b, List.mem_cons_of_mem _ hb, hrel⟩

theorem finish_ok {serial : Nat} (h : a.finish serial = .ok u) :
    a.error = none ∧ a.jumps.foldlM (resolve a.labels) a.bytes = .ok u.bytes ∧
      u.constants = a.constants ∧ u.names = a.names ∧ u.localNames = a.localNames := by
  unfold finish at h
  cases herror : a.error with
  | some e =>
    rw [herror] at h
    cases h
  | none =>
    rw [herror] at h
    obtain ⟨bytes, hbytes, hunit⟩ := bind_eq_ok h
    cases hunit
    exact ⟨rfl, hbytes, rfl, rfl, rfl⟩

/-- The bytes of a finished unit are operations that can be decoded, and are read as what the
directives ask for. -/
theorem Assembler.Wrote.operations {xs : List Draft} (hw : a.Wrote ds xs) {serial : Nat}
    (h : a.finish serial = .ok u) (hc : ∀ d ∈ ds, d.Comparable u) :
    ∃ ys : List Operation, u.bytes = (encode ys).toArray ∧ (encode ys).length = codeSize ds ∧
      (∀ y ∈ ys, y.Sound) ∧
      List.Forall₂ (fun w r => r.1 = w.1 ∧ r.2.isInvalid = false ∧ w.2.Yields ds u w.1 r.2)
        (written 0 ds) (Operation.instructions 0 ys) := by
  obtain ⟨_, hresolve, hconstants, hnames, hlocalNames⟩ := finish_ok h
  have hdrafts {x : Draft} (hx : x ∈ xs) : ∃ d ∈ ds, d.Describes a x := by
    obtain ⟨d, hd, hdescribes⟩ := exists_of_forall₂ hw.describes hx
    exact ⟨d, (List.mem_filter.1 hd).1, hdescribes⟩
  have hfillable : ∀ x ∈ xs, Fillable x := by
    intro x hx
    obtain ⟨d, _, hdescribes⟩ := hdrafts hx
    exact fillable_of_describes hdescribes
  have hbytes : a.bytes = ([] ++ encodeDrafts xs).toArray := by
    rw [List.nil_append, ← hw.bytes]
  rw [← Array.foldlM_toList, hw.jumps, hbytes] at hresolve
  obtain ⟨ys, hlinked, hys⟩ := linked_of_resolve hfillable [] hresolve
  change Linked a.labels 0 xs ys at hlinked
  have hsound {d : Directive} (hd : d ∈ ds) {ip : Nat} {x : Draft} {y : Operation}
      (hdescribes : d.Describes a x) (hy : Becomes a.labels ip x y) : y.Sound :=
    hdescribes.sound hy hnames hlocalNames (hc d hd)
  refine ⟨ys, hys, ?_, ?_, ?_⟩
  · rw [hlinked.length_encode, codeSize_eq hw.describes]
  · intro y hy
    obtain ⟨ip, x, hx, hbecomes⟩ := hlinked.exists_draft hy
    obtain ⟨d, hd, hdescribes⟩ := hdrafts hx
    exact hsound hd hdescribes hbecomes
  · refine forall₂_instructions hw.describes hlinked
      (Q := fun ip d i => i.isInvalid = false ∧ d.Yields ds u ip i) ?_
    intro d hd ip x y _ hdescribes hy
    have hy' := hsound hd hdescribes hy
    exact ⟨(Instruction.ofOpcode_spec hy'.admits ip _).1,
      hdescribes.yields hy hy' hconstants hnames hlocalNames
        fun label target => (hw.labels label target).1⟩

/-- Reading an assembled unit gives one instruction for each directive that writes an operation, in
order and at its offset, and ends at the end of the bytes. The instruction is what the directive
asks for, if no comparison has an operand that selects none. A label has one place, which is where
an instruction starts or the end of the bytes. -/
theorem decodeFrom_assemble {serial : Nat} {name : String} (h : assemble serial name ds = .ok u)
    (hc : ∀ d ∈ ds, d.Comparable u) :
    (decodeFrom u.bytes 0).stop = u.bytes.size ∧
    List.Forall₂ (fun w r => r.1 = w.1 ∧ r.2.isInvalid = false ∧ w.2.Yields ds u w.1 r.2)
      (written 0 ds) (decodeFrom u.bytes 0).instructions ∧
    ∀ label target, PlacedAt ds label target →
      (∀ target', PlacedAt ds label target' → target' = target) ∧
      (target = u.bytes.size ∨ ∃ i, (target, i) ∈ (decodeFrom u.bytes 0).instructions) := by
  obtain ⟨herror, _⟩ := finish_ok h
  obtain ⟨xs, hw⟩ := wrote_foldl ds herror
  obtain ⟨ys, hbytes, hlength, hsound, hreads⟩ := hw.operations h hc
  rw [hbytes, decodeFrom_encode hsound]
  refine ⟨rfl, hreads, fun label target hplaced => ⟨fun target' hplaced' => ?_, ?_⟩⟩
  · rw [← hw.labels] at hplaced hplaced'
    rw [hplaced] at hplaced'
    simpa [eq_comm] using hplaced'
  · rcases hplaced.boundary with hend | ⟨d, hd⟩
    · exact .inl (hend.trans hlength.symm)
    · obtain ⟨⟨ip, i⟩, hi, hip, _⟩ := exists_of_forall₂ hreads hd
      obtain rfl : ip = target := hip
      exact .inr ⟨i, hi⟩

end Reading

theorem exists_unit {serial : Nat} {name : String} {ds : List Directive} {bytes : Array UInt8}
    (h : (assemble serial name ds).toOption.map UnitOf.bytes = some bytes) :
    ∃ u, assemble serial name ds = .ok u ∧ u.bytes = bytes := by
  cases hu : assemble serial name ds with
  | error e =>
    rw [hu] at h
    cases h
  | ok u =>
    rw [hu] at h
    exact ⟨u, rfl, Option.some_inj.1 h⟩

/-- A unit that jumps over an operation, to a label that is placed after it. -/
def forwardJump : List Directive :=
  [.newLabel, .const (.bool true), .named .storeName "x", .jump .jumpForward 0, .op .nop, .place 0,
    .onLocal .loadFast "y"]

/-- It is read to the end, and an instruction starts where the jump leads. -/
theorem decodeFrom_forwardJump :
    ∃ u, assemble 0 "m" forwardJump = .ok u ∧ (decodeFrom u.bytes 0).stop = 13 ∧
      PlacedAt forwardJump 0 10 ∧ ∃ i, (10, i) ∈ (decodeFrom u.bytes 0).instructions := by
  have hbytes : (assemble 0 "m" forwardJump).toOption.map UnitOf.bytes =
      some #[0x64, 0, 0, 0x5a, 0, 0, 0x6e, 1, 0, 0x09, 0x7c, 0, 0] := by
    decide +kernel
  obtain ⟨u, h, hbytes⟩ := exists_unit hbytes
  have hsize : u.bytes.size = 13 := by rw [hbytes]; rfl
  have hcomparable : ∀ d ∈ forwardJump, d.Comparable u := by
    intro d hd
    simp only [forwardJump, List.mem_cons, List.not_mem_nil, or_false] at hd
    rcases hd with rfl | rfl | rfl | rfl | rfl | rfl | rfl
    case inr.inr.inl => exact fun _ _ hcompare => by cases hcompare
    case inr.inr.inr.inr.inr.inr => exact fun _ _ hcompare => by cases hcompare
    all_goals trivial
  obtain ⟨hstop, _, hlabels⟩ := decodeFrom_assemble h hcomparable
  have hplaced : PlacedAt forwardJump 0 10 := ⟨forwardJump.take 5, forwardJump.drop 6, rfl, rfl⟩
  refine ⟨u, h, hstop.trans hsize, hplaced, ?_⟩
  obtain ⟨_, hend | hinstruction⟩ := hlabels 0 10 hplaced
  · cases hend.trans hsize
  · exact hinstruction

/-- A unit that compares, with the indexes of names as operands. -/
def comparedNames : List Directive :=
  [.named .compareOp "a", .named .compareOp "b", .named .compareOp "c", .op .nop]

/-- No comparison is given its operand, but the third index selects none, and reading stops there,
before the last operation. -/
theorem decodeFrom_comparedNames :
    ∃ u, assemble 0 "m" comparedNames = .ok u ∧
      (∀ operand, .opWith .compareOp operand ∉ comparedNames) ∧
      (decodeFrom u.bytes 0).instructions =
        [(0, .compare .equal), (3, .compare .notEqual), (6, .invalid (.unknownComparison 2 6))] ∧
      (decodeFrom u.bytes 0).stop < u.bytes.size := by
  have hbytes : (assemble 0 "m" comparedNames).toOption.map UnitOf.bytes =
      some #[0x6a, 0, 0, 0x6a, 1, 0, 0x6a, 2, 0, 0x09] := by
    decide +kernel
  obtain ⟨u, h, hbytes⟩ := exists_unit hbytes
  refine ⟨u, h, by simp [comparedNames], ?_⟩
  rw [hbytes]
  decide +kernel

end TaskletMachine
