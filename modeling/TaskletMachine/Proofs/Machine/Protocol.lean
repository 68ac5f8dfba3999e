import TaskletMachine.Proofs.Machine.Pending

/-!
# The call protocol

A call instruction takes its operands from the stack of the caller and starts a call. The tasklet may
then run through any number of links and frames, and be suspended and resumed; until the call is over,
the frame of the caller and those below it stand still. If the call ends normally, the caller has got
exactly one value for the operands.

## Main definitions

* `Instruction.Calls`: the call that an instruction finds on the operand stack.
* `Frame.calling`: the frame of the caller while the call lasts.
* `Vm.calls_or_fails`: a call instruction starts a call, or ends the tasklet.
* `Vm.Stage`: a step of the run, a resumption, or a change by the host between runs.
* `Vm.Underway`: the stages that a call passes through until it is over.
* `Vm.call_protocol`: what holds on the way, and how the call ends.
-/
namespace TaskletMachine

open Exec

/-! ## Operands -/

/-- The instruction finds a call with its operands on the operand stack, and leaves the rest. -/
inductive Instruction.Calls : Instruction → List Value → PendingCall → List Value → Prop
  | positional (callee : Value) (args below : List Value) :
      Calls (.call args.length) (args.reverse ++ callee :: below)
        { callee, args, delivery := .push } below
  | named (token : Nat) (callee : Value) (args : List Value) (named : Namespace)
      (below : List Value) :
      Calls (.callWithKeywords (args.length + named.length))
        (.tuple token (named.map fun entry => .str entry.1) ::
          ((named.map Prod.snd).reverse ++ (args.reverse ++ callee :: below)))
        { callee, args, keywords := Names.setAll [] named, delivery := .push } below

theorem Instruction.Calls.delivery_eq {i : Instruction} {stack below : List Value} {c : PendingCall}
    (h : i.Calls stack c below) : c.delivery = .push := by
  cases h <;> rfl

/-- The frame of the caller after a call instruction, which leaves the rest of the stack. -/
def Frame.calling (f : Frame) (next : Nat) (below : List Value) : Frame :=
  { f.reading next with stack := below }

section Operands

variable {m : Machine} {f : Frame} {callers : List Frame}

theorem Exec.popN_append {items below : List Value} (hm : m.context.frames = f :: callers)
    (hf : f.stack = items.reverse ++ below) :
    popN items.length m = .ok items (m.withFrames ({ f with stack := below } :: callers)) := by
  have hlength : ¬ f.stack.length < items.length := by
    rw [hf, List.length_append, List.length_reverse]
    omega
  have hdrop : f.stack.drop items.length = below := by
    rw [hf, ← List.length_reverse, List.drop_left]
  have htake : (f.stack.take items.length).reverse = items := by
    rw [hf, ← List.length_reverse, List.take_left, List.reverse_reverse]
  simp only [popN]
  rw [bind_ok (frame_cons hm), if_neg hlength, bind_ok (modifyFrame_cons hm _), hdrop, htake]
  rfl

/-- The top values are there, or the stack is too short. -/
theorem Exec.popN_cases (count : Nat) (hm : m.context.frames = f :: callers) :
    (∃ items below : List Value, items.length = count ∧ f.stack = items.reverse ++ below) ∨
      popN count m = .error { cause := .stackUnderflow } m := by
  by_cases hlength : f.stack.length < count
  · refine .inr ?_
    simp only [popN]
    rw [bind_ok (frame_cons hm), if_pos hlength]
    rfl
  · refine .inl ⟨(f.stack.take count).reverse, f.stack.drop count, ?_, ?_⟩
    · rw [List.length_reverse, List.length_take]
      omega
    · rw [List.reverse_reverse, List.take_append_drop]

theorem Vm.pairKeywords_named (named keywords : Namespace) (m : Machine) :
    pairKeywords (named.map fun entry => .str entry.1) (named.map Prod.snd) keywords m =
      .ok (keywords.setAll named) m := by
  induction named generalizing keywords with
  | nil => rfl
  | cons entry rest ih => exact ih (keywords.set entry.1 entry.2)

/-- Every value gets a name, or one of the names is none. -/
theorem Vm.pairKeywords_cases {names values : List Value} (hlength : names.length = values.length)
    (keywords : Namespace) (m : Machine) :
    (∃ named : Namespace, names = named.map (fun entry => .str entry.1) ∧
      values = named.map Prod.snd) ∨
    ∃ message, pairKeywords names values keywords m = .error (.fail message) m := by
  induction names generalizing values keywords with
  | nil =>
    rw [List.eq_nil_of_length_eq_zero hlength.symm]
    exact .inl ⟨[], rfl, rfl⟩
  | cons name names ih =>
    cases values with
    | nil => cases hlength
    | cons v values =>
      have hrest : names.length = values.length := Nat.succ.inj hlength
      cases name with
      | str s =>
        rcases ih hrest (keywords.set s v) with ⟨named, rfl, rfl⟩ | herror
        · exact .inl ⟨(s, v) :: named, rfl, rfl⟩
        · exact .inr herror
      | _ => exact .inr ⟨_, rfl⟩

namespace Vm

variable {vm : Vm} {i : Instruction} {c : PendingCall} {below : List Value} {next : Nat}

/-- A call instruction takes its operands and starts the call. -/
theorem execute_calls (h : i.Calls f.stack c below) (hm : m.context.frames = f :: callers) :
    vm.execute i m = .ok (.call c) (m.withFrames ({ f with stack := below } :: callers)) := by
  generalize hstack : f.stack = stack at h
  cases h with
  | positional callee args below =>
    show Vm.call args.length m = _
    unfold call
    rw [bind_ok (popN_append hm hstack), bind_ok (pop_cons rfl rfl)]
    rfl
  | named token callee args named below =>
    show Vm.callWithKeywords (args.length + named.length) m = _
    have hnamed : (named.map fun entry => Value.str entry.1).length =
        (named.map Prod.snd).length := by
      rw [List.length_map, List.length_map]
    have hcount : ¬ args.length + named.length < (named.map Prod.snd).length := by
      rw [List.length_map]
      omega
    have hleft : args.length + named.length - (named.map Prod.snd).length = args.length := by
      rw [List.length_map, Nat.add_sub_cancel]
    unfold callWithKeywords
    rw [bind_ok (pop_cons hm hstack)]
    dsimp only
    rw [hnamed, if_neg hcount, hleft, bind_ok (popN_append rfl rfl),
      bind_ok (pairKeywords_named named [] _), bind_ok (popN_append rfl rfl),
      bind_ok (pop_cons rfl rfl)]
    rfl

theorem advance_calls (vm : Vm) (hm : m.context.frames = f :: callers)
    (hd : decodeAt f.unit.bytes f.ip = some ⟨i, next⟩) (h : i.Calls f.stack c below) :
    vm.advance .fetch m =
      .running (.link c) (m.withFrames (f.calling next below :: callers)) := by
  have hrun : vm.perform .fetch m =
      .ok (.call c) (m.withFrames (f.calling next below :: callers)) := by
    rw [perform_fetch vm hm hd, execute_calls (f := f.reading next) h rfl]
    rfl
  rw [advance, conclude_ok vm hrun]
  rfl

/-- The positional arguments and the callee are there, or the stack is too short. -/
theorem operands_or_error (hm : m.context.frames = f :: callers) (count : Nat) :
    (∃ (callee : Value) (args below : List Value), args.length = count ∧
      f.stack = args.reverse ++ callee :: below) ∨
      ∀ start : List Value → Value → Control, ∃ m',
        (do let args ← popN count; return start args (← pop) : Exec Control) m =
          .error { cause := .stackUnderflow } m' := by
  rcases popN_cases count hm with ⟨args, rest, hlength, hstack⟩ | hargs
  · cases rest with
    | nil =>
      refine .inr fun start => ⟨m.withFrames ({ f with stack := [] } :: callers), ?_⟩
      rw [← hlength, bind_ok (popN_append hm hstack), bind_error (pop_nil rfl rfl)]
    | cons callee below => exact .inl ⟨callee, args, below, hlength, hstack⟩
  · exact .inr fun start => ⟨m, bind_error hargs⟩

/-- Without its operands a call instruction comes to a failure. -/
theorem call_or_error (hm : m.context.frames = f :: callers) (count : Nat) :
    (∃ c below, Instruction.Calls (.call count) f.stack c below) ∨
      ∃ e m', e.isGuest = false ∧ Vm.call count m = .error e m' := by
  rcases operands_or_error hm count with ⟨callee, args, below, rfl, hstack⟩ | herror
  · rw [hstack]
    exact .inl ⟨_, _, .positional callee args below⟩
  · obtain ⟨m', hrun⟩ := herror fun args callee => startCall callee args
    exact .inr ⟨_, m', rfl, hrun⟩

/-- The named arguments are there as well, or something is missing. -/
theorem named_or_error (hm : m.context.frames = f :: callers) {count : Nat} {names : List Value}
    (hcount : names.length ≤ count) :
    (∃ (named : Namespace) (callee : Value) (args below : List Value),
      names = named.map (fun entry => .str entry.1) ∧ args.length + named.length = count ∧
      f.stack = (named.map Prod.snd).reverse ++ (args.reverse ++ callee :: below)) ∨
    ∃ e m', e.isGuest = false ∧ (do
      let values ← popN names.length
      let keywords ← pairKeywords names values []
      let args ← popN (count - names.length)
      return startCall (← pop) args keywords : Exec Control) m = .error e m' := by
  rcases popN_cases names.length hm with ⟨values, rest, hlength, hstack⟩ | hvalues
  · rw [← hlength, bind_ok (popN_append hm hstack)]
    have hm₁ : (m.withFrames ({ f with stack := rest } :: callers)).context.frames =
        { f with stack := rest } :: callers := rfl
    generalize m.withFrames ({ f with stack := rest } :: callers) = m₁ at hm₁
    rcases pairKeywords_cases hlength.symm [] m₁ with ⟨named, rfl, rfl⟩ | ⟨message, hnames⟩
    · rw [bind_ok (pairKeywords_named named [] m₁)]
      rw [List.length_map] at hcount ⊢
      rcases operands_or_error hm₁ (count - named.length) with
        ⟨callee, args, below, hargs, hrest⟩ | herror
      · have hrest' : rest = args.reverse ++ callee :: below := hrest
        exact .inl ⟨named, callee, args, below, rfl, by omega, by rw [hstack, hrest']⟩
      · obtain ⟨m', hrun⟩ :=
          herror fun args callee => startCall callee args (Names.setAll [] named)
        exact .inr ⟨_, m', rfl, hrun⟩
    · exact .inr ⟨_, _, rfl, bind_error hnames⟩
  · exact .inr ⟨_, _, rfl, bind_error hvalues⟩

theorem callWithKeywords_or_error (hm : m.context.frames = f :: callers) (count : Nat) :
    (∃ c below, Instruction.Calls (.callWithKeywords count) f.stack c below) ∨
      ∃ e m', e.isGuest = false ∧ callWithKeywords count m = .error e m' := by
  unfold callWithKeywords
  cases hstack : f.stack with
  | nil => exact .inr ⟨_, m, rfl, bind_error (pop_nil hm hstack)⟩
  | cons top stack =>
    rw [bind_ok (pop_cons hm hstack)]
    cases top with
    | tuple token names =>
      dsimp only
      by_cases hcount : count < names.length
      · rw [if_pos hcount]
        exact .inr ⟨_, _, rfl, rfl⟩
      · rw [if_neg hcount]
        have hm₁ : (m.withFrames ({ f with stack } :: callers)).context.frames =
            { f with stack } :: callers := rfl
        rcases named_or_error hm₁ (Nat.not_lt.1 hcount) with
          ⟨named, callee, args, below, rfl, rfl, hoperands⟩ | hrun
        · have hstack₁ : stack = (named.map Prod.snd).reverse ++ (args.reverse ++ callee :: below) :=
            hoperands
          rw [hstack₁]
          exact .inl ⟨_, _, .named token callee args named below⟩
        · exact .inr hrun
    | _ => exact .inr ⟨_, _, rfl, rfl⟩

/-- Without its operands a call instruction ends the tasklet by a failure. -/
theorem calls_or_fails (hm : m.context.frames = f :: callers)
    (hd : decodeAt f.unit.bytes f.ip = some ⟨i, next⟩) (count : Nat)
    (hi : i = .call count ∨ i = .callWithKeywords count) :
    (∃ c below, i.Calls f.stack c below) ∨ ∃ m', vm.advance .fetch m = .stopped .fatal m' := by
  have hor : (∃ c below, i.Calls f.stack c below) ∨ ∃ e m', e.isGuest = false ∧
      vm.execute i (m.withFrames (f.reading next :: callers)) = .error e m' := by
    rcases hi with rfl | rfl
    · exact call_or_error (f := f.reading next) rfl count
    · exact callWithKeywords_or_error (f := f.reading next) rfl count
  rcases hor with hcalls | ⟨e, m', he, hrun⟩
  · exact .inl hcalls
  · have hcatching : vm.catching (vm.perform .fetch) m = .error e m' := by
      rw [catching, perform_fetch vm hm hd, hrun]
      exact if_neg (by rw [he]; exact Bool.false_ne_true)
    exact .inr ⟨failWith e m', by rw [advance, conclude, hcatching]; rfl⟩

end Vm

end Operands

/-! ## Stages -/

/-- What a tasklet goes through: the steps of a run, and, when it is suspended, its resumption and
the changes that the host makes in between. -/
inductive Vm.Stage (vm : Vm) : Progress → Progress → Prop
  | advance (phase : Phase) (m : Machine) : Stage vm (.running phase m) (vm.advance phase m)
  | resume (k : Continuation) (m : Machine) (hfatal : m.context.fatal = none)
      (hunhandled : m.context.isUnhandled = false) :
      Stage vm (.stopped (.suspended k) m) (vm.resumption k m)
  | outside (k : Continuation) (m : Machine) (world : World) :
      Stage vm (.stopped (.suspended k) m) (.stopped (.suspended k) { m with world })
  | setGlobal (k : Continuation) (m : Machine) (name : String) (v : Value) :
      Stage vm (.stopped (.suspended k) m)
        (.stopped (.suspended k) { m with context := m.context.setGlobal name v })
  | setLoader (k : Continuation) (m : Machine) (loader : Option (Names ModuleRef)) :
      Stage vm (.stopped (.suspended k) m)
        (.stopped (.suspended k) { m with context := { m.context with loader } })

/-- A call that has started is under way until a stage ends it. With it comes the instance that has
been made for it, if its callee has turned out to be a class. -/
inductive Vm.Underway (vm : Vm) (depth : Nat) (start : Progress) : Option Value → Progress → Prop
  | begin (hcalling : start.Calling depth) : Underway vm depth start none start
  | stage {made : Option Value} {p p' : Progress} (h : Underway vm depth start made p)
      (hstage : vm.Stage p p') (hcalling : p'.Calling depth) :
      Underway vm depth start (made.or (p.made? depth)) p'

section Stages

variable {vm : Vm} {limit : Nat} {caller : Frame} {callers : List Frame} {made : Option Value}
  {p p' : Progress}

theorem Vm.made?_of_length_ne {phase : Phase} {m : Machine} {depth : Nat}
    (h : m.context.frames.length ≠ depth) : (Progress.running phase m).made? depth = none := by
  cases phase with
  | fetch => rfl
  | link c =>
    cases hcallee : c.callee with
    | classObj r => simp only [Progress.made?, hcallee, if_neg h]
    | _ => simp only [Progress.made?, hcallee]

theorem Vm.Stage.lawful (h : vm.Stage p p') (hl : vm.maxCallDepth ≤ limit) (hp : p.Lawful limit) :
    p'.Lawful limit := by
  cases h with
  | advance phase m => exact (lawful_advance hl hp).1
  | resume k m hfatal hunhandled => exact (lawful_resumption hp.1 hp.2).1
  | outside k m world => exact hp
  | setGlobal k m name v => exact ⟨(m.context.quiet_setGlobal name v).going hp.1, hp.2⟩
  | setLoader k m loader =>
    have hquiet : m.context.Quiet { m.context with loader } := ⟨rfl, rfl, rfl, rfl⟩
    exact ⟨hquiet.going hp.1, hp.2⟩

/-- What the host does to a tasklet that is suspended leaves its calls under way. -/
theorem Vm.callStep_host {k : Continuation} {m m' : Machine}
    (hsame : SameFrames m.context.frames m'.context.frames)
    (hholds : (Progress.stopped (.suspended k) m).Holds (caller :: callers) made)
    (hcalling : (Progress.stopped (.suspended k) m).Calling (caller :: callers).length) :
    vm.CallStep caller callers (made.or none) (.stopped (.suspended k) m)
      (.stopped (.suspended k) m') := by
  rw [Option.or_none]
  refine .goesOn ?_ ?_
  · cases hholds with
    | waiting p d _ hbase hd => exact .waiting p d m' (hbase.trans hsame) hd
    | above _ habove => exact .above _ (FramesAbove.of_sameFrames habove hsame)
  · cases k with
    | start => exact Nat.lt_of_lt_of_eq hcalling hsame.length_eq.symm
    | resume => exact Nat.lt_of_lt_of_eq hcalling hsame.length_eq.symm
    | await p d => exact Nat.le_trans hcalling (Nat.le_of_eq hsame.length_eq.symm)

/-- What a stage does to a call that is under way. -/
theorem Vm.callStep_stage (h : vm.Stage p p') (hp : p.Lawful limit)
    (hholds : p.Holds (caller :: callers) made)
    (hcalling : p.Calling (caller :: callers).length) :
    vm.CallStep caller callers (made.or (p.made? (caller :: callers).length)) p p' := by
  cases h with
  | advance phase m =>
    cases hholds with
    | linking c _ hsame hd => exact callStep_link vm hsame hd
    | above _ habove =>
      have habove' : FramesAbove (caller :: callers) made m.context.frames := habove
      rw [made?_of_length_ne (Nat.ne_of_gt habove'.length_lt), Option.or_none]
      cases phase with
      | fetch => exact callStep_fetch vm habove
      | link c => exact callStep_follow vm hp.2 habove
  | resume k m hfatal hunhandled =>
    have hmade : (Progress.stopped (.suspended k) m).made? (caller :: callers).length = none := rfl
    rw [hmade, Option.or_none]
    exact callStep_resumption vm hp.2 hholds
  | outside k m world => exact callStep_host (.refl m.context.frames) hholds hcalling
  | setGlobal k m name v =>
    exact callStep_host (Context.sameFrames_mapRoot name v m.context.frames) hholds hcalling
  | setLoader k m loader => exact callStep_host (.refl m.context.frames) hholds hcalling

/-- While a call is under way, its result is still to come to the caller. -/
theorem Vm.Underway.holds {start p : Progress} (hstart : start.Lawful limit)
    (hbegin : start.Holds (caller :: callers) none) (hl : vm.maxCallDepth ≤ limit)
    (h : vm.Underway (caller :: callers).length start made p) :
    p.Lawful limit ∧ p.Holds (caller :: callers) made ∧ p.Calling (caller :: callers).length := by
  induction h with
  | begin hcalling => exact ⟨hstart, hbegin, hcalling⟩
  | stage h hstage hcalling ih =>
    obtain ⟨hlawful, hholds, hwas⟩ := ih
    refine ⟨hstage.lawful hl hlawful, ?_, hcalling⟩
    cases callStep_stage hstage hlawful hholds hwas with
    | goesOn hgoes _ => exact hgoes
    | ends v hv hgets hover => exact absurd hcalling hover
    | throws hthrows hgoes => exact hgoes hcalling

theorem Progress.Holds.standing {base : List Frame} (h : p.Holds base made) :
    ∃ above frames, p.machine.context.frames = above ++ frames ∧ SameFrames base frames := by
  cases h with
  | linking c m hsame hd => exact ⟨[], m.context.frames, rfl, hsame⟩
  | waiting q d m hsame hd => exact ⟨[], m.context.frames, rfl, hsame⟩
  | above _ habove =>
    obtain ⟨above, entered, base', hframes, _, hsame⟩ := habove
    exact ⟨above ++ [entered], base', by rw [hframes, List.append_assoc]; rfl, hsame⟩

end Stages

/-! ## The protocol -/

/-- A call instruction takes the operands and starts the call. While the call is under way, the frame
of the caller and those below it stand still: the rest of the operand stack, the blocks, and the
instruction pointers. When the call is over, either the callee has come to a result, and the caller
has got just one value, the instance that was made for the call or else the result; or an exception
was raised. -/
theorem Vm.call_protocol {vm : Vm} {k : Continuation} {m₀ m : Machine} {f : Frame}
    {callers : List Frame} {i : Instruction} {next : Nat} {c : PendingCall} {below : List Value}
    (hsession : vm.Session k m₀) (hvisits : vm.Visits k m₀ (.running .fetch m))
    (hm : m.context.frames = f :: callers)
    (hd : decodeAt f.unit.bytes f.ip = some ⟨i, next⟩) (hcalls : i.Calls f.stack c below) :
    vm.advance .fetch m = .running (.link c) (m.withFrames (f.calling next below :: callers)) ∧
    ∀ made p, vm.Underway (callers.length + 1) (vm.advance .fetch m) made p →
      (∃ above frames, p.machine.context.frames = above ++ frames ∧
        SameFrames (f.calling next below :: callers) frames) ∧
      ∀ p', vm.Stage p p' → ¬ p'.Calling (callers.length + 1) →
        (∃ v, vm.Results p v ∧ p'.Gets (f.calling next below) callers
          ((made.or (p.made? (callers.length + 1))).getD v)) ∨
        vm.Throws p := by
  have hstart := vm.advance_calls hm hd hcalls
  refine ⟨hstart, ?_⟩
  rw [hstart]
  intro made p hunderway
  have hlawful := (hvisits.lawful (Nat.le_refl vm.maxCallDepth) hsession.between).1
  have hlawful₁ := (lawful_advance (Nat.le_refl vm.maxCallDepth) hlawful).1
  rw [hstart] at hlawful₁
  have hpush : c.delivery.Pushes none := by
    rw [hcalls.delivery_eq]
    exact .push
  obtain ⟨hp, hholds, hcalling⟩ :=
    hunderway.holds hlawful₁ (.linking c _ (.refl _) hpush) (Nat.le_refl _)
  refine ⟨hholds.standing, ?_⟩
  intro p' hstage hover
  cases callStep_stage hstage hp hholds hcalling with
  | goesOn _ hgoes => exact absurd hgoes hover
  | ends v hv hgets _ => exact .inl ⟨v, hv, hgets⟩
  | throws hthrows _ => exact .inr hthrows

namespace ConstructorCall

/-- A unit that calls a class without arguments. -/
def unit : CodeUnit :=
  { bytes := #[0x65, 0, 0, 0x83, 0, 0], names := #["C"] }

/-- An initializer without code, which ends without a value. -/
def initializer : FunctionObject :=
  { name := "__init__", defaults := []
    unit := { bytes := #[], argCount := 1, localNames := #["self"] } }

/-- The machine on the way, with the instances that have been made. -/
def machine (frames : List Frame) (instances : Array InstanceObject) : Machine :=
  { context := { frames, builtins := [("C", .classObj ⟨0⟩)] }
    world := { heap := {
      classes := #[{ name := "C", bases := [], attrs := [("__init__", .function ⟨0⟩)] }]
      functions := #[initializer], instances } } }

/-- The frame of the caller. -/
def caller (instructionIp ip : Nat) (stack : List Value) : Frame :=
  { Frame.start unit .push with instructionIp, ip, stack }

/-- The frame of the initializer. -/
def entered : Frame :=
  { Frame.start initializer.unit (.replace (.instanceObj ⟨0⟩) .push) with
    slots := #[some (.instanceObj ⟨0⟩)] }

/-- A machine whose call stack may hold two frames. -/
def vm : Vm :=
  { (default : Vm) with maxCallDepth := 2 }

/-- The instance. -/
def made : InstanceObject :=
  { cls := ⟨0⟩, attrs := [] }

/-- The call of the class. -/
def call : PendingCall :=
  { callee := .classObj ⟨0⟩, delivery := .push }

/-- The call of the initializer. -/
def construct : PendingCall :=
  { callee := .function ⟨0⟩, args := [.instanceObj ⟨0⟩]
    delivery := .replace (.instanceObj ⟨0⟩) .push }

/-- The class is a builtin, which the caller finds by its name. -/
theorem loaded : vm.advance .fetch (machine [caller 0 0 []] #[]) =
    .running .fetch (machine [caller 0 3 [.classObj ⟨0⟩]] #[]) := by
  have hname : (machine [caller 0 3 []] #[]).context.loadName? "C" = some (.classObj ⟨0⟩) := by
    simp [Context.loadName?, machine, caller, Frame.start, Frame.local?, Frame.slotOf?, unit,
      UnitOf.localIndex?, Names.find?, Entries.get?]
  have hrun : vm.perform .fetch (machine [caller 0 0 []] #[]) =
      .ok .next (machine [caller 0 3 [.classObj ⟨0⟩]] #[]) := by
    have hd : decodeAt (caller 0 0 []).unit.bytes (caller 0 0 []).ip = some ⟨.loadName 0, 3⟩ := rfl
    rw [Vm.perform_fetch vm rfl hd]
    show Vm.pushNamed "C" ((machine [caller 0 3 []] #[]).context.loadName? "C") _ = _
    rw [hname]
    rfl
  exact Vm.conclude_ok vm hrun

end ConstructorCall

open ConstructorCall in
/-- When the initializer ends with a result, the caller gets the instance. -/
theorem ConstructorCall.instance_pushed :
    ∃ v, vm.Results (.running .fetch (machine [entered, caller 3 6 []] #[made])) v ∧
      (vm.advance .fetch (machine [entered, caller 3 6 []] #[made])).machine.context.frames.map
        Frame.stack = [[.instanceObj ⟨0⟩]] := by
  have hsession : vm.Session .start (machine [caller 0 0 []] #[]) :=
    .start unit _ [] [] none (machine [] #[]).world
  have hbegin : vm.Visits .start _ (.running .fetch (machine [caller 0 0 []] #[])) :=
    .begin rfl rfl
  have hloaded := hbegin.step
  rw [loaded] at hloaded
  obtain ⟨hstart, hprotocol⟩ :=
    Vm.call_protocol hsession hloaded rfl rfl (.positional (.classObj ⟨0⟩) [] [])
  have hcall : vm.Underway 1 _ none (.running (.link call) (machine [caller 3 6 []] #[])) :=
    .begin (Nat.le_refl 1)
  have hconstruct : vm.Underway 1 _ (some (.instanceObj ⟨0⟩))
      (.running (.link construct) (machine [caller 3 6 []] #[made])) :=
    .stage hcall (.advance _ _) (Nat.le_refl 1)
  have hentered : vm.Underway 1 _ (some (.instanceObj ⟨0⟩))
      (.running .fetch (machine [entered, caller 3 6 []] #[made])) :=
    .stage hconstruct (.advance _ _) (Nat.lt_succ_self 1)
  rcases (hprotocol _ _ hentered).2 _ (.advance _ _) (Nat.lt_irrefl 1) with
    ⟨v, hv, hgets⟩ | hthrows
  · exact ⟨v, hv, hgets.operands⟩
  · cases hthrows with
    | error _ _ _ _ h => cases h
    | again _ _ _ hi _ => rcases hi with hi | hi <;> cases hi

end TaskletMachine
