import Mathlib.Data.Nat.SuccPred
import Mathlib.Order.Interval.Set.Monotone
import TaskletMachine.Proofs.Machine.HookEndings

/-!
# Loops over values with hooks

A loop over a value with a hook, as a sequence of calls of the hook with the body of the loop
between them. While a call lasts the frame of the loop does not go on; so the instruction of the
loop is executed again after the body only, once for each call. The calls come to values, which the
loop finds above the iterator in this order, until one of them comes to an exception: it ends the
loop if it stops the iteration, and is raised in the frame of the loop otherwise.

## Main definitions

* `Progress.AtLoop`: the next instruction is that of the loop.
* `HookCall`, `Vm.Iterates`: the stages of one call, and of all calls of a loop.
* `HookCall.hookOver`: how a call can end.
* `Vm.StageRun.loop_iterates`: what the loop does.
-/
namespace TaskletMachine

open Exec

/-! ## Runs -/

section Runs

variable {vm : Vm} {limit : Nat} {run : Nat → Progress} {n : Nat} {p p' : Progress}

/-- A stage leaves loops that wait for a value behind that have asked for it. -/
theorem Vm.Stage.loopsWait (h : vm.Stage p p') (hp : p.Lawful limit) (hloops : p.LoopsWait) :
    p'.LoopsWait := by
  cases h with
  | advance phase m => exact loopsWait_advance hloops hp.2
  | resume k m hfatal hunhandled => exact loopsWait_resumption hloops hp.2
  | outside k m world => exact hloops
  | setGlobal k m name v => exact (m.context.quiet_setGlobal name v).loopsWait hloops
  | setLoader k m loader => exact ⟨hloops.ne_nil, hloops.chain⟩

/-- A stage does not change the builtins. -/
theorem Vm.Stage.builtins_eq (h : vm.Stage p p') :
    p'.machine.context.builtins = p.machine.context.builtins := by
  rcases h.calm_or_raises with hcalm | ⟨fault, m, origin, hraises, hcalm⟩
  · exact hcalm.context.builtins
  · obtain ⟨next, hnext, rfl⟩ := hraises.proceed
    obtain ⟨-, hbuiltins, -, -⟩ := vm.records_raiseFault fault m rfl
    have hend : (left (vm.raiseFault fault m)).Calm Eq
        (proceed next (vm.raiseFault fault m)).machine := calm_proceed hnext (refl_of _ _)
    rw [hend.context.builtins, hbuiltins, hcalm.context.builtins]

namespace Vm.StageRun

variable (h : vm.StageRun run n)
include h

theorem loopsWait : ∀ t ≤ n, (run t).LoopsWait := by
  intro t ht
  induction t with
  | zero =>
    obtain ⟨unit, builtins, globals, modules, loader, world, hstart⟩ := h.starts
    have hsession : vm.Session .start _ := .start unit builtins globals modules loader world
    rw [hstart]
    exact hsession.loopsWait
  | succ t ih =>
    have ht' := Nat.le_of_succ_le ht
    exact (h.stages t ht).loopsWait (h.lawful t ht') (ih ht')

theorem builtins_eq : ∀ t ≤ n,
    (run t).machine.context.builtins = (run 0).machine.context.builtins := by
  intro t ht
  induction t with
  | zero => rfl
  | succ t ih => exact (h.stages t ht).builtins_eq.trans (ih (Nat.le_of_succ_le ht))

end Vm.StageRun

end Runs

/-! ## Calls of hooks -/

/-- The next instruction is the one at the given offset of the innermost frame, which is one of so
many. -/
def Progress.AtLoop (depth ip : Nat) : Progress → Prop
  | .running .fetch m =>
    ∃ f callers, m.context.frames = f :: callers ∧ callers.length + 1 = depth ∧ f.ip = ip
  | _ => False

/-- While a call is under way its caller does not go on. -/
theorem Progress.Calling.not_atLoop {depth ip : Nat} {p : Progress} (h : p.Calling depth) :
    ¬ p.AtLoop depth ip := by
  match p, h with
  | .running .fetch m, h =>
    rintro ⟨f, callers, hframes, hdepth, -⟩
    have hlt : depth < m.context.frames.length := h
    rw [hframes, List.length_cons, hdepth] at hlt
    exact Nat.lt_irrefl depth hlt
  | .running (.link c) m, _ => exact id
  | .stopped _ _, _ => exact id

theorem Machine.Asks.atLoop {m : Machine} {q : HookRequest} (h : m.Asks q) :
    (Progress.running .fetch m).AtLoop q.depth q.frame.ip :=
  ⟨q.frame, q.callers, h.frames, rfl, rfl⟩

/-- What has taken the place of the result of a call that began at a stage, before a later one: the
instance of the class to which the call has led first. -/
def madeSince (run : Nat → Progress) (depth t : Nat) : Nat → Option Value
  | 0 => none
  | j + 1 => if t < j then (madeSince run depth t j).or ((run j).made? depth) else none

section Made

variable {run : Nat → Progress} {depth t j : Nat}

theorem madeSince_start (run : Nat → Progress) (depth t : Nat) :
    madeSince run depth t (t + 1) = none :=
  if_neg (Nat.lt_irrefl t)

theorem madeSince_succ (h : t < j) :
    madeSince run depth t (j + 1) = (madeSince run depth t j).or ((run j).made? depth) :=
  if_pos h

/-- The result stands as long as the call has led to no class. -/
theorem madeSince_eq_none_iff (h : t < j) :
    madeSince run depth t j = none ↔ ∀ i, t < i → i < j → (run i).made? depth = none := by
  induction j, h using Nat.le_induction with
  | base =>
    rw [madeSince_start]
    exact iff_of_true rfl fun i hi hj => absurd hj (Nat.not_lt.2 hi)
  | succ j hj ih =>
    rw [madeSince_succ hj, Option.or_eq_none_iff, ih]
    refine ⟨fun ⟨hbefore, hlast⟩ i hi hi' => ?_, fun h => ⟨fun i hi hi' => ?_, ?_⟩⟩
    · exact (Nat.lt_succ_iff_lt_or_eq.1 hi').elim (hbefore i hi) fun heq => heq ▸ hlast
    · exact h i hi (Nat.lt_succ_of_lt hi')
    · exact h j hj (Nat.lt_succ_self j)

end Made

/-- A loop asks for its next value at a stage, and calls its hook for that until a later stage,
which is the last one of the call. The call may lead from callee to callee. -/
structure HookCall (run : Nat → Progress) (q : HookRequest) (t s : Nat) : Prop where
  lt : t < s
  asks : ∃ m, run t = .running .fetch m ∧ m.Asks q
  lasts : ∀ j, t < j → j ≤ s → (run j).Calling q.depth
  isOver : ¬ (run (s + 1)).Calling q.depth

namespace HookCall

variable {vm : Vm} {run : Nat → Progress} {q : HookRequest} {n t s : Nat} {stop : ClassRef}
  {ending : HookEnding}

theorem atLoop (h : HookCall run q t s) : (run t).AtLoop q.depth q.frame.ip := by
  obtain ⟨m, hm, hasks⟩ := h.asks
  rw [hm]
  exact hasks.atLoop

/-- The loop calls its hook. -/
theorem called (h : HookCall run q t s) (hrun : vm.StageRun run n) (hn : t < n) :
    run (t + 1) =
      .running (.link q.call) ((run t).machine.withFrames (q.loop :: q.callers)) := by
  obtain ⟨m, hm, hasks⟩ := h.asks
  have hstage := hrun.stages t hn
  rw [hm] at hstage ⊢
  generalize run (t + 1) = p' at hstage
  cases hstage with
  | advance phase m => exact hasks.advance vm

/-- Until the call is over its result is still to come to the loop, or what has taken its place. -/
theorem awaits (h : HookCall run q t s) (hrun : vm.StageRun run n) (hn : s < n) {j : Nat}
    (hj : t < j) (hs : j ≤ s) :
    (run j).Awaits (q.loop :: q.callers) q.exit (madeSince run q.depth t j) := by
  obtain ⟨m, -, hasks⟩ := h.asks
  have hstack : q.loop.stack ≠ [] := by
    rw [show q.loop.stack = q.iterator :: q.below from hasks.stack]
    exact List.cons_ne_nil _ _
  induction j, hj using Nat.le_induction with
  | base =>
    rw [h.called hrun (h.lt.trans hn), madeSince_start]
    exact .linking q.call _ (.refl _) .iteration
  | succ j hj ih =>
    have hj' := Nat.le_of_succ_le hs
    have hjn : j < n := Nat.lt_trans hs hn
    rw [madeSince_succ hj]
    exact (hrun.stages j hjn).awaits (hrun.lawful j hjn.le) (ih hj') hstack
      (h.lasts (j + 1) (Nat.lt_succ_of_lt hj) hs)

section Over

variable (h : HookCall run q t s) (hrun : vm.StageRun run n) (hn : s < n) {heap : Heap}
  {base : ClassRef} (hbuiltins : heap.DefinesExceptions (run 0).machine.context.builtins base)
  (hstop : (run 0).machine.context.builtins.find? ExceptionKind.stopIteration.name =
    some (.classObj stop))
include h hrun hn hbuiltins hstop

omit hbuiltins in
/-- The call comes to one of its endings, or to a fatal error. -/
theorem hookOver :
    vm.HookOver stop q.depth (madeSince run q.depth t s) (run s) (run (s + 1)) := by
  have heq := hrun.builtins_eq s hn.le
  exact (hrun.stages s hn).hookOver (hrun.lawful s hn.le) (h.awaits hrun hn h.lt (Nat.le_refl s))
    h.isOver (heq ▸ hstop)

/-- When the call is over the loop does what the ending says. -/
theorem reacts
    (hends : vm.HookEnds stop q.depth (madeSince run q.depth t s) (run s) (run (s + 1)) ending) :
    vm.Reacts q (run (s + 1)) ending := by
  obtain ⟨m, -, hasks⟩ := h.asks
  have heq := hrun.builtins_eq s hn.le
  exact hends.reacts (hrun.stages s hn) (hrun.lawful s hn.le) (hrun.loopsWait s hn.le)
    (h.awaits hrun hn h.lt (Nat.le_refl s)) hasks.stack h.isOver (heq ▸ hbuiltins) (heq ▸ hstop)

end Over

end HookCall

/-! ## Iterations -/

/-- The calls that one instruction of a frame at a depth makes, one after the other. All but the
last one come to a value, with which the body of the loop is executed, and then the instruction
again. An exception that is raised in the frames of a call stops the iteration only if the call has
led to no class. -/
structure Vm.Iterates (vm : Vm) (stop : ClassRef) (run : Nat → Progress) (depth ip N : Nat)
    (q : Nat → HookRequest) (asked ended : Nat → Nat) (v : Nat → Value) (ending : HookEnding) :
    Prop where
  calls : ∀ i ≤ N, HookCall run (q i) (asked i) (ended i)
  place : ∀ i ≤ N, (q i).depth = depth ∧ (q i).frame.ip = ip
  values : ∀ i < N, vm.HookEnds stop depth (madeSince run depth (asked i) (ended i))
    (run (ended i)) (run (ended i + 1)) (.value (v i))
  bodies : ∀ i < N, ended i < asked (i + 1) ∧
    ∀ j, ended i < j → j < asked (i + 1) → ¬ (run j).AtLoop depth ip
  last : vm.HookEnds stop depth (madeSince run depth (asked N) (ended N))
    (run (ended N)) (run (ended N + 1)) ending

section Iterations

variable {vm : Vm} {stop : ClassRef} {run : Nat → Progress} {depth ip N n : Nat}
  {q : Nat → HookRequest} {asked ended : Nat → Nat} {v : Nat → Value} {ending : HookEnding}

namespace Vm.Iterates

variable (h : vm.Iterates stop run depth ip N q asked ended v ending)
include h

theorem asked_lt {i : Nat} (hi : i < N) : asked i < asked (i + 1) :=
  (h.calls i hi.le).lt.trans (h.bodies i hi).1

theorem strictMonoOn_asked : StrictMonoOn asked (Set.Iic N) :=
  strictMonoOn_Iic_of_lt_succ fun _ hi => h.asked_lt hi

theorem ended_mono {i j : Nat} (hij : i ≤ j) (hj : j ≤ N) : ended i ≤ ended j := by
  induction j, hij using Nat.le_induction with
  | base => exact Nat.le_refl _
  | succ j hij ih =>
    exact (ih (Nat.le_of_succ_le hj)).trans
      ((h.bodies j hj).1.le.trans (h.calls (j + 1) hj).lt.le)

/-- Up to the end of a call, the instruction is executed where one of the calls begins. -/
theorem exists_asked {k : Nat} (hk : k ≤ N) {j : Nat} (hfirst : asked 0 ≤ j) (hlast : j ≤ ended k)
    (hloop : (run j).AtLoop depth ip) : ∃ i ≤ k, asked i = j := by
  -- within a call the frame of the loop does not go on
  have hcall {i : Nat} (hi : i ≤ N) (hbegin : asked i ≤ j) (hend : j ≤ ended i) : asked i = j := by
    refine hbegin.eq_or_lt.resolve_right fun hlt => ?_
    have hcalling := (h.calls i hi).lasts j hlt hend
    rw [(h.place i hi).1] at hcalling
    exact hcalling.not_atLoop hloop
  induction k with
  | zero => exact ⟨0, Nat.le_refl 0, hcall hk hfirst hlast⟩
  | succ k ih =>
    by_cases hbefore : j ≤ ended k
    · obtain ⟨i, hi, hasked⟩ := ih (Nat.le_of_succ_le hk) hbefore
      exact ⟨i, Nat.le_succ_of_le hi, hasked⟩
    · by_cases hbody : j < asked (k + 1)
      · exact absurd hloop ((h.bodies k hk).2 j (Nat.lt_of_not_le hbefore) hbody)
      · exact ⟨k + 1, Nat.le_refl _, hcall hk (Nat.le_of_not_lt hbody) hlast⟩

/-- The calls are all executions of the instruction, from the first one to the end of the last. -/
theorem bijOn_asked : Set.BijOn asked (Set.Iic N)
    {j | asked 0 ≤ j ∧ j ≤ ended N ∧ (run j).AtLoop depth ip} := by
  refine ⟨fun i hi => ⟨?_, ?_, ?_⟩, h.strictMonoOn_asked.injOn, fun j hj => ?_⟩
  · exact h.strictMonoOn_asked.monotoneOn (Nat.zero_le N) hi (Nat.zero_le i)
  · exact (h.calls i hi).lt.le.trans (h.ended_mono hi (Nat.le_refl N))
  · obtain ⟨hdepth, hip⟩ := h.place i hi
    exact hdepth ▸ hip ▸ (h.calls i hi).atLoop
  · obtain ⟨i, hi, hasked⟩ := h.exists_asked (Nat.le_refl N) hj.1 hj.2.1 hj.2.2
    exact ⟨i, hi, hasked⟩

end Vm.Iterates

/-- **Loops follow their hooks.** Where `N` calls of the hook come to values and the next one comes
to an exception, the instruction of the loop is executed exactly `N + 1` times, and calls the hook
each time; the values are pushed above the iterator one after the other; and after the last call the
loop does what its ending says. If an exception stops the iteration, the iterator is popped and the
loop is left at its exit, without a fault that is pending; every other exception is raised in the
frame of the loop, with the iterator on its stack. An exception of the class that stops iterations
does so where it ends a link of the call, and where it leaves the frames of a call that has led to
no class. -/
theorem Vm.StageRun.loop_iterates (hrun : vm.StageRun run n) {heap : Heap} {base : ClassRef}
    (hbuiltins : heap.DefinesExceptions (run 0).machine.context.builtins base)
    (hstop : (run 0).machine.context.builtins.find? ExceptionKind.stopIteration.name =
      some (.classObj stop))
    (h : vm.Iterates stop run depth ip N q asked ended v ending) (hn : ended N < n) :
    Set.BijOn asked (Set.Iic N) {j | asked 0 ≤ j ∧ j ≤ ended N ∧ (run j).AtLoop depth ip} ∧
      (∀ i ≤ N, run (asked i + 1) = .running (.link (q i).call)
        ((run (asked i)).machine.withFrames ((q i).loop :: (q i).callers))) ∧
      (∀ i < N, vm.Reacts (q i) (run (ended i + 1)) (.value (v i))) ∧
      vm.Reacts (q N) (run (ended N + 1)) ending := by
  have hended {i : Nat} (hi : i ≤ N) : ended i < n := (h.ended_mono hi (Nat.le_refl N)).trans_lt hn
  refine ⟨h.bijOn_asked, fun i hi => ?_, fun i hi => ?_, ?_⟩
  · exact (h.calls i hi).called hrun ((h.calls i hi).lt.trans (hended hi))
  · have hends := h.values i hi
    rw [← (h.place i hi.le).1] at hends
    exact (h.calls i hi.le).reacts hrun (hended hi.le) hbuiltins hstop hends
  · have hends := h.last
    rw [← (h.place N (Nat.le_refl N)).1] at hends
    exact (h.calls N (Nat.le_refl N)).reacts hrun hn hbuiltins hstop hends

end Iterations

/-! ## A loop over a native hook -/

namespace CountedLoop

/-- A function that raises the end of an iteration. -/
def raiser : CodeUnit :=
  { name := "stop", bytes := #[0x65, 0, 0, 0x82, 1, 0], names := #["StopIteration"] }

/-- A loop whose body drops the value. -/
def unit : CodeUnit :=
  { bytes := #[0x65, 0, 0, 0x5D, 4, 0, 0x01, 0x71, 3, 0], names := #["it"] }

/-- A machine whose only native function gives a value at first, and hands over to the guest
function then. -/
def vm : Vm :=
  { (default : Vm) with
    host := ⟨fun _ _ _ w =>
      if w.heap.lists.isEmpty then
        { heap := { w.heap with lists := #[[]] }, outcome := .ok (.value (.bool true)) }
      else { heap := w.heap, outcome := .ok (.tailCall (.function ⟨0⟩) []) }⟩ }

/-- The classes of exceptions. -/
def builtins : Namespace :=
  ExceptionKind.all.map fun kind =>
    (kind.name, .classObj (if kind = .stopIteration then ⟨1⟩ else ⟨0⟩))

/-- The heap, with the lists by which the native function tells its calls apart. -/
def heap (lists : Array (List Value)) : Heap :=
  { lists
    functions := #[{ name := "stop", unit := raiser, defaults := [] }]
    natives := #[{ name := "next", behaviour := .host 0 }]
    classes := #[{ name := "BaseException", bases := [], attrs := [] },
      { name := "StopIteration", bases := [⟨0⟩], attrs := [] },
      { name := "It", bases := [], attrs := [] }]
    instances := #[{ cls := ⟨2⟩, attrs := [("__next__", .native ⟨0⟩)] }] }

/-- The object that the loop goes over. -/
def iterator : Value :=
  .instanceObj ⟨0⟩

/-- The frame of the loop. -/
def loop (instructionIp ip : Nat) (stack : List Value) : Frame :=
  { Frame.start unit .push with instructionIp, ip, stack, names := [("it", iterator)] }

/-- The frame of the guest function. -/
def raising (instructionIp ip : Nat) (stack : List Value) : Frame :=
  { Frame.start raiser (.iteration 10) with instructionIp, ip, stack }

/-- The machine on the way, with the instances that have been made. -/
def machine (frames : List Frame) (lists : Array (List Value)) : Machine :=
  { context := { frames, builtins }, world := { heap := heap lists } }

/-- The machine while the guest function is executed. -/
def entered (instructionIp ip : Nat) (stack : List Value) : Machine :=
  machine [raising instructionIp ip stack, loop 3 6 [iterator]] #[[]]

/-- The loop asks for its next value. -/
def request (instructionIp : Nat) : HookRequest :=
  { frame := loop instructionIp 3 [iterator], callers := [], iterator, below := []
    hook := .native ⟨0⟩, exit := 10, next := 6 }

/-- The call of the class of the exception. -/
def construct : PendingCall :=
  { callee := .classObj ⟨1⟩, delivery := .raise none }

/-- The stages of the run. -/
def state : Nat → Progress
  | 0 => .stopped (.suspended .start) (machine [loop 0 0 []] #[])
  | 1 => .running .fetch (machine [loop 0 0 []] #[])
  | 2 => .running .fetch (machine [loop 0 3 [iterator]] #[])
  | 3 => .running (.link (request 0).call) (machine [loop 3 6 [iterator]] #[])
  | 4 => .running .fetch (machine [loop 3 6 [.bool true, iterator]] #[[]])
  | 5 => .running .fetch (machine [loop 6 7 [iterator]] #[[]])
  | 6 => .running .fetch (machine [loop 7 3 [iterator]] #[[]])
  | 7 => .running (.link (request 7).call) (machine [loop 3 6 [iterator]] #[[]])
  | 8 => .running (.link { callee := .function ⟨0⟩, delivery := .iteration 10 })
    (machine [loop 3 6 [iterator]] #[[]])
  | 9 => .running .fetch (entered 0 0 [])
  | 10 => .running .fetch (entered 0 3 [.classObj ⟨1⟩])
  | 11 => .running (.link construct) (entered 3 6 [])
  | _ => vm.advance (.link construct) (entered 3 6 [])

theorem stageRun : vm.StageRun state 12 := by
  constructor
  · exact ⟨unit, builtins, [("it", iterator)], [], none, { heap := heap #[] },
      by with_unfolding_all rfl⟩
  · intro i hi
    have hload : vm.advance .fetch (machine [loop 0 0 []] #[]) = state 2 := by
      with_unfolding_all rfl
    have hloadClass : vm.advance .fetch (entered 0 0 []) = state 10 := by with_unfolding_all rfl
    rcases i with _ | _ | _ | _ | _ | _ | _ | _ | _ | _ | _ | _ | i
    · exact .resume .start _ rfl rfl
    · exact hload ▸ .advance .fetch _
    · exact .advance .fetch _
    · exact .advance (.link _) _
    · exact .advance .fetch _
    · exact .advance .fetch _
    · exact .advance .fetch _
    · exact .advance (.link _) _
    · exact .advance (.link _) _
    · exact hloadClass ▸ .advance .fetch _
    · exact .advance .fetch _
    · exact .advance (.link _) _
    · omega

theorem definesExceptions : (heap #[]).DefinesExceptions builtins ⟨0⟩ := by
  refine ⟨rfl, fun kind => ?_⟩
  cases kind with
  | stopIteration => exact ⟨⟨1⟩, rfl, by decide⟩
  | _ => exact ⟨⟨0⟩, rfl, Heap.isSubclass_self _ _⟩

/-- The function raises the end of the iteration. -/
def fault : Fault :=
  { value := .instanceObj ⟨1⟩, traceback := [{ unit := "stop", line := none, ip := 3 }] }

/-- The machine in which the fault is raised. -/
def failed : Machine :=
  left (vm.perform (.link construct) (entered 3 6 []))

theorem raises : vm.Raises (state 11) (state 12) fault failed .afresh :=
  .afresh _ _ { cause := .raised (.instanceObj ⟨1⟩) } failed (raising 3 6 [])
    [loop 3 6 [iterator]] (.phase (.link construct) _) rfl rfl rfl rfl rfl rfl

theorem stops : failed.world.heap.Stops ⟨1⟩ fault.value := by
  refine .inl ⟨⟨1⟩, rfl, ?_⟩
  decide

theorem hookCall_zero : HookCall state (request 0) 2 3 := by
  refine ⟨by decide, ⟨_, rfl, rfl, rfl, rfl, rfl⟩, fun j hj hj' => ?_, Nat.lt_irrefl 1⟩
  obtain rfl : j = 3 := by omega
  exact Nat.le_refl 1

theorem hookCall_one : HookCall state (request 7) 6 11 := by
  refine ⟨by decide, ⟨_, rfl, rfl, rfl, rfl, rfl⟩, fun j hj hj' => ?_, Nat.lt_irrefl 1⟩
  obtain rfl | rfl | rfl | rfl | rfl : j = 7 ∨ j = 8 ∨ j = 9 ∨ j = 10 ∨ j = 11 := by omega
  · exact Nat.le_refl 1
  · exact Nat.le_refl 1
  · exact Nat.lt_succ_self 1
  · exact Nat.lt_succ_self 1
  · exact Nat.le_succ 1

/-- The native function hands over to a function. -/
theorem made_one : madeSince state 1 6 11 = none := by
  refine (madeSince_eq_none_iff (by decide)).2 fun i hi hi' => ?_
  obtain rfl | rfl | rfl | rfl : i = 7 ∨ i = 8 ∨ i = 9 ∨ i = 10 := by omega
  all_goals rfl

/-- The requests of the loop. -/
def asks : Nat → HookRequest
  | 0 => request 0
  | _ => request 7

/-- The stages at which the calls begin. -/
def asked : Nat → Nat
  | 0 => 2
  | _ => 6

/-- The last stages of the calls. -/
def ended : Nat → Nat
  | 0 => 3
  | _ => 11

theorem iterates : vm.Iterates ⟨1⟩ state 1 3 1 asks asked ended (fun _ => .bool true) .stops where
  calls i hi := by
    obtain rfl | rfl : i = 0 ∨ i = 1 := by omega
    · exact hookCall_zero
    · exact hookCall_one
  place i hi := by
    obtain rfl | rfl : i = 0 ∨ i = 1 := by omega
    · exact ⟨rfl, rfl⟩
    · exact ⟨rfl, rfl⟩
  values i hi := by
    obtain rfl := Nat.lt_one_iff.1 hi
    have hvalue : vm.HookEnds ⟨1⟩ 1 none (state 3) (state 4) (.value (.bool true)) :=
      .replies (request 0).call _ _ rfl rfl (fun _ => nofun) (.value _ _ _ _ _ rfl rfl)
    exact hvalue
  bodies i hi := by
    obtain rfl := Nat.lt_one_iff.1 hi
    refine ⟨by decide, fun j hj hj' => ?_⟩
    obtain rfl | rfl : j = 4 ∨ j = 5 := by simp only [asked, ended] at hj hj'; omega
    · rintro ⟨f, callers, ⟨⟩, -, ⟨⟩⟩
    · rintro ⟨f, callers, ⟨⟩, -, ⟨⟩⟩
  last := .raisesToStop fault failed .afresh raises (by decide) stops made_one

end CountedLoop

open CountedLoop in
/-- The loop gets the value of the native function; the guest function to which that hands over the
second time ends it. -/
theorem CountedLoop.value_then_stop :
    Set.BijOn asked (Set.Iic 1) {j | 2 ≤ j ∧ j ≤ 11 ∧ (state j).AtLoop 1 3} ∧
      SameFrames [loop 3 6 [.bool true, iterator]] (state 4).machine.context.frames ∧
      SameFrames [loop 3 10 []] (state 12).machine.context.frames ∧
      (state 12).machine.context.fault = none := by
  obtain ⟨hasked, -, hvalues, -, hleft, hfault⟩ :=
    stageRun.loop_iterates definesExceptions rfl iterates (Nat.lt_succ_self 11)
  exact ⟨hasked, hvalues 0 (Nat.lt_succ_self 0), hleft, hfault⟩

/-! ## A loop over a hook that leads to a class -/

namespace CalledClass

/-- An initializer that raises the end of an iteration. -/
def init : CodeUnit :=
  { name := "init", bytes := #[0x65, 0, 0, 0x82, 1, 0], names := #["StopIteration"]
    localNames := #["self"], argCount := 1 }

/-- A machine whose only native function hands over to a class. -/
def vm : Vm :=
  { (default : Vm) with
    host := ⟨fun _ _ _ w => { heap := w.heap, outcome := .ok (.tailCall (.classObj ⟨3⟩) []) }⟩ }

/-- The classes of exceptions, the class with the initializer, and the object of the loop. -/
def heap : Heap :=
  { functions := #[{ name := "init", unit := init, defaults := [] }]
    natives := #[{ name := "next", behaviour := .host 0 }]
    classes := #[{ name := "BaseException", bases := [], attrs := [] },
      { name := "StopIteration", bases := [⟨0⟩], attrs := [] },
      { name := "It", bases := [], attrs := [] },
      { name := "Made", bases := [], attrs := [("__init__", .function ⟨0⟩)] }]
    instances := #[{ cls := ⟨2⟩, attrs := [("__next__", .native ⟨0⟩)] }] }

/-- A loop over the object, whose exit is the end of the unit. -/
def loop : Frame :=
  { Frame.start { name := "loop", bytes := #[0x5D, 1, 0, 0x01] } .push with
    stack := [.instanceObj ⟨0⟩] }

/-- The machine at the instruction of the loop. -/
def machine : Machine :=
  { context := { frames := [loop], builtins := CountedLoop.builtins }, world := { heap } }

/-- The places through which an exception that stops iterations has come to be unhandled. -/
def stoppedAt? (r : RunOutcome × Machine) : Option (List String) :=
  r.2.context.unhandled?.bind fun fault =>
    if vm.isStopIteration r.2.context r.2.world.heap fault.value then
      some (fault.traceback.map (·.unit))
    else none

/-- The exception that the initializer raises is raised in the frame of the loop as well, and the
loop is not left. -/
theorem raised_in_loop :
    (vm.resume 20 .resume machine).bind stoppedAt? = some ["init", "loop"] := by
  decide +kernel

end CalledClass

end TaskletMachine
