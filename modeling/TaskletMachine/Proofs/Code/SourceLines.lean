import Mathlib.Algebra.Group.Nat.Defs
import Mathlib.Data.List.TakeWhile
import TaskletMachine.Proofs.Code.Reading

/-!
# Source lines of assembled units

A line map only has a record where the line changes. The assembler records at growing offsets, so
what is recorded later leaves the lines of earlier offsets as they are, and a line that is set again
after another one gets a record of its own. In a finished unit each operation has, over all its
bytes, the line that was set last before it was written.

## Main definitions

* `LineMap.Below`: the records lie before an offset.
* `lastLine?`: the line that directives set last.
* `Assembler.Lined`: the lines that an assembler has recorded after some directives.
* `lines_assemble`: the lines of a finished unit.
-/
namespace TaskletMachine

/-! ## Line maps -/

namespace LineMap

variable {m : LineMap} {ip offset limit : Nat}

/-- All records lie before an offset. -/
def Below (m : LineMap) (limit : Nat) : Prop :=
  ∀ entry ∈ m.entries, entry.1 < limit

theorem line?_empty (offset : Nat) : (⟨#[]⟩ : LineMap).line? offset = none :=
  rfl

/-- A record leaves the lines of the offsets before it as they are. -/
theorem line?_push_of_lt (h : offset < ip) (line : Nat) :
    (m.push ip line).line? offset = m.line? offset := by
  have hnot : ¬ ip ≤ offset := Nat.not_le.2 h
  unfold push
  split
  · rfl
  · simp only [line?, Array.toList_push, List.takeWhile_append]
    split
    · next hall =>
      rw [(List.takeWhile_prefix _).eq_of_length hall]
      simp [hnot]
    · rfl

/-- A record past all others gives its line to every offset from there on, also if it is left out
because the last one has the line already. -/
theorem line?_push_of_le (hm : m.Below ip) (h : ip ≤ offset) (line : Nat) :
    (m.push ip line).line? offset = some line := by
  have hall : m.entries.toList.takeWhile (fun entry => decide (entry.1 ≤ offset)) =
      m.entries.toList := by
    rw [List.takeWhile_eq_self_iff]
    intro entry hentry
    exact decide_eq_true ((hm entry (Array.mem_toList_iff.1 hentry)).le.trans h)
  unfold push
  split
  · next hlast =>
    rw [line?, hall, Array.getLast?_toList]
    exact beq_iff_eq.1 hlast
  · simp [line?, List.takeWhile_append, hall, h]

theorem Below.mono {limit' : Nat} (hm : m.Below limit) (h : limit ≤ limit') : m.Below limit' :=
  fun entry hentry => (hm entry hentry).trans_le h

theorem Below.push (hm : m.Below limit) (h : ip < limit) (line : Nat) :
    (m.push ip line).Below limit := by
  unfold LineMap.push
  split
  · exact hm
  · intro entry hentry
    rcases Array.mem_push.1 hentry with hold | rfl
    · exact hm entry hold
    · exact h

end LineMap

/-! ## Setting lines -/

/-- The line that a directive sets, if it sets one. -/
def Directive.line? : Directive → Option Nat
  | .line n => some n
  | _ => none

/-- The line that directives set last. -/
def lastLine? (ds : List Directive) : Option Nat :=
  (ds.filterMap Directive.line?).getLast?

theorem lastLine?_concat (ds : List Directive) (d : Directive) :
    lastLine? (ds ++ [d]) = d.line?.or (lastLine? ds) := by
  cases h : d.line? <;> simp [lastLine?, h]

namespace Assembler

variable {a : Assembler} {d : Directive} {ds : List Directive}

theorem line_pushWith (a : Assembler) (op : Opcode) (operand : Nat) :
    (a.pushWith op operand).line = a.line := by
  unfold pushWith
  split <;> rfl

theorem line_pushIndex (a : Assembler) (op : Opcode) (table : TableKind) (index : Nat) :
    (a.pushIndex op table index).line = a.line := by
  unfold pushIndex
  split
  · exact line_pushWith a op index
  · rfl

/-- The line stays until a directive sets another one. -/
theorem line_apply (a : Assembler) (d : Directive) : (a.apply d).line = d.line?.or a.line := by
  cases d with
  | line n => rfl
  | op op =>
    simp only [apply]
    split <;> rfl
  | opWith op operand => exact line_pushWith a op _
  | compare op => exact line_pushWith a _ _
  | const c => exact line_pushIndex _ _ _ _
  | named op name => exact line_pushIndex _ _ _ _
  | onLocal op name => exact line_pushIndex _ _ _ _
  | place label =>
    simp only [apply, place]
    split <;> rfl
  | jump op label =>
    simp only [apply, jump]
    split <;> rfl
  | _ => rfl

theorem lines_pushWith {op : Opcode} {operand : Nat} (h : (a.pushWith op operand).error = none) :
    (a.pushWith op operand).lines = (a.emit op).lines := by
  have hoperand := (pushWith_spec h).1
  rw [pushWith, if_pos hoperand]
  rfl

theorem lines_pushIndex {op : Opcode} {table : TableKind} {index : Nat}
    (h : (a.pushIndex op table index).error = none) :
    (a.pushIndex op table index).lines = (a.emit op).lines := by
  have hlt := (pushIndex_spec h).1
  rw [pushIndex, if_pos hlt] at h ⊢
  exact lines_pushWith h

/-- The lines that are recorded when a directive is followed. -/
theorem lines_apply (h : (a.apply d).error = none) :
    (a.apply d).lines =
      match d.opcode? with
      | some op => (a.emit op).lines
      | none => a.lines := by
  cases d with
  | op op =>
    simp only [apply] at h ⊢
    split
    · next hoperand =>
      rw [if_pos hoperand] at h
      exact absurd h (error_fail a _)
    · rfl
  | opWith op operand => exact lines_pushWith h
  | compare op => exact lines_pushWith h
  | const c => exact lines_pushIndex h
  | named op name => exact lines_pushIndex h
  | onLocal op name => exact lines_pushIndex h
  | place label =>
    simp only [apply, place]
    split <;> rfl
  | jump op label =>
    have hjump : ¬ op.jumpKind?.isNone := by
      simpa [Option.isSome_iff_ne_none] using (jump_spec h).1
    simp only [apply, jump, if_neg hjump]
    rfl
  | _ => rfl

/-! ## Recording lines -/

/-- A directive records something exactly if it writes an operation while there is a line; then it
records the line at the offset of the operation, which is in the range of offsets. -/
theorem recording_cases (hsize : a.bytes.size < 2 ^ 32) (hok : (a.apply d).error = none) :
    (a.apply d).lines = a.lines ∧ (d.opcode? = none ∨ a.line = none) ∨
      ∃ op n, d.opcode? = some op ∧ a.line = some n ∧
        (a.apply d).lines = a.lines.push a.bytes.size n := by
  have hlines := lines_apply hok
  cases hd : d.opcode? with
  | none =>
    rw [hd] at hlines
    exact .inl ⟨hlines, .inl rfl⟩
  | some op =>
    rw [hd] at hlines
    cases hline : a.line with
    | none =>
      simp only [emit, hline] at hlines
      exact .inl ⟨hlines, .inr rfl⟩
    | some n =>
      have hoffset : a.bytes.size % Nat.pow 2 32 = a.bytes.size := Nat.mod_eq_of_lt hsize
      simp only [emit, hline, hoffset] at hlines
      exact .inr ⟨op, n, rfl, rfl, hlines⟩

/-- The lines that an assembler has recorded after some directives: each operation has, over all its
bytes, the line that was set last before it. -/
structure Lined (a : Assembler) (ds : List Directive) : Prop where
  line : a.line = lastLine? ds
  below : a.lines.Below (codeSize ds)
  /-- Once a line is set there always is one, so nothing is recorded before. -/
  unset : a.line = none → a.lines = ⟨#[]⟩
  recorded : ∀ before d after op, ds = before ++ d :: after → d.opcode? = some op →
    ∀ k < op.size, a.lines.line? (codeSize before + k) = lastLine? before

theorem codeSize_add_lt {before after : List Directive} {op : Opcode} {k : Nat}
    (hds : ds = before ++ d :: after) (hop : d.opcode? = some op) (hk : k < op.size) :
    codeSize before + k < codeSize ds := by
  have hsize : d.size = op.size := by rw [Directive.size, hop]; rfl
  rw [hds, codeSize_append, codeSize_cons, hsize]
  omega

/-- Following a directive keeps the lines of the operations before it, and gives the current line to
the operation that it writes. -/
theorem Lined.apply (h : a.Lined ds) (hbytes : a.bytes.size = codeSize ds)
    (hsize : codeSize ds < 2 ^ 32) (hok : (a.apply d).error = none) :
    (a.apply d).Lined (ds ++ [d]) := by
  have hline : (a.apply d).line = lastLine? (ds ++ [d]) := by
    rw [line_apply, h.line, lastLine?_concat]
  have hgrows : codeSize ds ≤ codeSize (ds ++ [d]) := by
    rw [codeSize_append]
    exact Nat.le_add_right _ _
  rcases recording_cases (hbytes ▸ hsize) hok with ⟨hlines, hquiet⟩ | ⟨op, n, hd, hcurrent, hlines⟩
  · refine ⟨hline, hlines ▸ h.below.mono hgrows, fun hnone => ?_, ?_⟩
    · rw [line_apply, Option.or_eq_none_iff] at hnone
      rw [hlines, h.unset hnone.2]
    · intro before e after op hds hop k hk
      rw [hlines]
      rcases concat_eq_append_cons hds with ⟨-, rfl, rfl⟩ | ⟨rest, hrest⟩
      · have hcurrent : a.line = none := hquiet.resolve_left (by simp [hop])
        rw [h.unset hcurrent, LineMap.line?_empty, ← h.line, hcurrent]
      · exact h.recorded before e rest op hrest hop k hk
  · have hsizes : 0 < d.size := by
      rw [Directive.size, hd]
      exact Operation.size_pos op
    rw [hbytes] at hlines
    refine ⟨hline, ?_, fun hnone => ?_, ?_⟩
    · rw [hlines, codeSize_concat]
      exact (h.below.mono (Nat.le_add_right _ _)).push (Nat.lt_add_of_pos_right hsizes) n
    · rw [line_apply, Option.or_eq_none_iff, hcurrent] at hnone
      cases hnone.2
    · intro before e after op hds hop k hk
      rw [hlines]
      rcases concat_eq_append_cons hds with ⟨-, rfl, rfl⟩ | ⟨rest, hrest⟩
      · rw [LineMap.line?_push_of_le h.below (Nat.le_add_right _ k), ← h.line, hcurrent]
      · rw [LineMap.line?_push_of_lt (codeSize_add_lt hrest hop hk)]
        exact h.recorded before e rest op hrest hop k hk

/-- The lines that are recorded while all directives of a unit are followed, if there is no misuse
and the offsets stay in their range. -/
theorem lined_foldl {name : String} (ds : List Directive)
    (hok : (ds.foldl apply { name }).error = none) (hsize : codeSize ds < 2 ^ 32) :
    (ds.foldl apply { name }).Lined ds := by
  induction ds using List.reverseRecOn with
  | nil => exact ⟨rfl, nofun, fun _ => rfl, by simp⟩
  | append_singleton ds d ih =>
    rw [codeSize_concat] at hsize
    have hlt : codeSize ds < 2 ^ 32 := (Nat.le_add_right _ _).trans_lt hsize
    rw [List.foldl_append] at hok ⊢
    have hbefore := (follows_apply hok).error
    obtain ⟨xs, hwrote⟩ := wrote_foldl ds hbefore
    exact (ih hbefore hlt).apply hwrote.size_bytes hlt hok

/-! ## Finished units -/

theorem error_of_foldl (h : (ds.foldl apply a).error = none) : a.error = none := by
  induction ds generalizing a with
  | nil => exact h
  | cons d ds ih => exact (follows_apply (ih h)).error

theorem size_foldlM_resolve {labels : Array (Option Nat)} {jumps : List PendingJump}
    {bytes bytes' : Array UInt8} (h : jumps.foldlM (resolve labels) bytes = .ok bytes') :
    bytes'.size = bytes.size := by
  induction jumps generalizing bytes with
  | nil =>
    cases h
    rfl
  | cons j jumps ih =>
    obtain ⟨filled, hfilled, hrest⟩ := bind_eq_ok h
    obtain ⟨operand, -, hbytes⟩ := bind_eq_ok hfilled
    cases hbytes
    rw [ih hrest, Array.size_setIfInBounds, Array.size_setIfInBounds]

/-- A unit has as many bytes as its assembler has written, and the lines that it has recorded. -/
theorem finish_lines {u : CodeUnit} {serial : Nat} (h : a.finish serial = .ok u) :
    u.bytes.size = a.bytes.size ∧ u.lines = a.lines := by
  obtain ⟨herror, hbytes, -⟩ := finish_ok h
  refine ⟨?_, ?_⟩
  · rw [← Array.foldlM_toList] at hbytes
    exact size_foldlM_resolve hbytes
  · rw [finish, herror] at h
    obtain ⟨bytes, -, hunit⟩ := bind_eq_ok h
    cases hunit
    rfl

end Assembler

/-- In a finished unit of less than 2^32 bytes, each offset of an operation has the line that was
set last before the operation was written, and no line if none was set before. The operation starts
where the assembler stood before it. -/
theorem lines_assemble {serial : Nat} {name : String} {before after : List Directive}
    {d : Directive} {op : Opcode} {u : CodeUnit}
    (h : assemble serial name (before ++ d :: after) = .ok u) (hsize : u.bytes.size < 2 ^ 32)
    (hop : d.opcode? = some op) :
    ∀ k < op.size,
      u.line? ((before.foldl Assembler.apply { name }).bytes.size + k) = lastLine? before := by
  intro k hk
  have hok := (finish_ok h).1
  obtain ⟨hbytes, hlines⟩ := Assembler.finish_lines h
  obtain ⟨xs, hwrote⟩ := Assembler.wrote_foldl _ hok
  rw [hbytes, hwrote.size_bytes] at hsize
  have hlined := Assembler.lined_foldl _ hok hsize
  have hbefore : ((before.foldl Assembler.apply { name }).error = none) := by
    rw [List.foldl_append] at hok
    exact Assembler.error_of_foldl hok
  obtain ⟨ys, hstart⟩ := Assembler.wrote_foldl before hbefore
  have hlt : codeSize before + k < Nat.pow 2 32 :=
    (Assembler.codeSize_add_lt rfl hop hk).trans hsize
  rw [hstart.size_bytes, UnitOf.line?, Nat.mod_eq_of_lt hlt, hlines]
  exact hlined.recorded before d after op rfl hop k hk

namespace ReturningLine

/-- Code whose line goes forth and comes back, after an operation that has no line. -/
def before : List Directive :=
  [.op .nop, .line 3, .const (.int 1), .line 7, .op .popTop, .line 3]

/-- The operation on the line that has come back. -/
def store : Directive :=
  .named .storeName "x"

/-- All three bytes of the operation are on the line. -/
theorem lines_of_store : ∃ u, assemble 0 "m" (before ++ store :: []) = .ok u ∧
    u.bytes.size < 2 ^ 32 ∧ ∀ k < 3, u.line? (5 + k) = some 3 := by
  have hbytes : (assemble 0 "m" (before ++ store :: [])).toOption.map UnitOf.bytes =
      some #[0x09, 0x64, 0, 0, 0x01, 0x5a, 0, 0] := by
    decide +kernel
  obtain ⟨u, h, hbytes⟩ := exists_unit hbytes
  have hsize : u.bytes.size < 2 ^ 32 := by
    rw [hbytes]
    decide
  have hstart : (before.foldl Assembler.apply { name := "m" }).bytes.size = 5 := by
    decide +kernel
  have hlines : ∀ k < Opcode.storeName.size,
      u.line? ((before.foldl Assembler.apply { name := "m" }).bytes.size + k) = lastLine? before :=
    lines_assemble h hsize rfl
  rw [hstart] at hlines
  exact ⟨u, h, hsize, hlines⟩

end ReturningLine

end TaskletMachine
