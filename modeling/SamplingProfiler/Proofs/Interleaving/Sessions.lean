/-
Every session is a run of the weave.

A session carries out the commands of a script, and hooks come in between.  Each command is
made of operations of the profiler and of changes by the host, so whatever the script and
its hooks are, what happens to the process is a run of the weave.  What is proved of every
run holds of every session.

An action that is made of woven ones is woven.  The proofs follow the definitions; only
hooks, which go round in a circle, take an induction on how deep they may nest.
-/
import SamplingProfiler.Proofs.Interleaving.Adequacy
import SamplingProfiler.Session.Run

namespace SamplingProfiler

variable {ε α β : Type}

namespace Woven

/-! ### Operations -/

/-- It does not matter what is made of the result. -/
theorem of_result {x : Action ε α} {f : α → β} (h : Woven (do return f (← x))) : Woven x := by
  intro p pending
  obtain ⟨os, hos⟩ := h p pending
  refine ⟨os, ?_⟩
  have hsame : ((do return f (← x) : Action ε β) p).2 = (x p).2 := by
    rw [Action.bind_apply]
    rcases x p with ⟨e | a, q⟩ <;> rfl
  rw [← hsame]
  exact hos

/-- What is done with a fault does not matter either. -/
theorem catchPanic {x : Action ε α} (h : Woven x) (answer : String → α) :
    Woven (Action.catchPanic x answer) := by
  intro p pending
  obtain ⟨os, hos⟩ := h p pending
  refine ⟨os, ?_⟩
  have hsame : (Action.catchPanic x answer p).2 = (x p).2 := by
    unfold Action.catchPanic
    rcases x p with ⟨(_ | _) | a, q⟩ <;> rfl
  rw [hsame]
  exact hos

/-- A last change by the host is one more call. -/
theorem thenAlways {x : Action ε α} (h : Woven x) (last : HostChange ε) :
    Woven (Action.thenAlways x last.apply) := by
  intro p pending
  obtain ⟨os, hos⟩ := h p pending
  obtain ⟨os', hos'⟩ := Woven.change last (x p).2 pending
  exact ⟨_, hos.append hos'⟩

theorem times {x : Action ε Unit} (h : Woven x) (n : Nat) : Woven (Action.times n x) := by
  induction n with
  | zero => exact pure ()
  | succ n ih => exact h.bind fun _ => ih

theorem call {body : Action ε Unit} (h : Woven body) (f : Function) : Woven (Action.call f body) :=
  (change (.ofStack (·.enter f.frame))).bind fun _ => h.thenAlways (.ofStack ShadowStack.leave)

section

variable {moments : Moments ε} (hm : ∀ moment, Woven (moments moment))

include hm

theorem tick : Woven (Action.tick moments) :=
  of_result (perform hm .tick)

theorem probe (size : Weight) : Woven (Action.probe moments size) :=
  of_result (perform hm (.probe size))

theorem noteAllocation (size : Weight) : Woven (Action.noteAllocation moments size) :=
  of_result (perform hm (.note size))

theorem exportKind (kind : SamplerKind) : Woven (Action.exportKind moments kind) :=
  of_result (perform hm (.exportKind kind))

/-! ### The workload -/

theorem runInstruction (instruction : Instruction) :
    Woven (Action.runInstruction moments instruction) := by
  cases instruction with
  | parse => exact call (pure ()) _
  | fib n => exact change (.ofStack (·.callFib n))
  | concat bytes =>
      refine call ?_ _
      exact (noteAllocation hm _).bind fun _ => change (.ofHeap (bytes :: ·))
  | collect =>
      refine call ?_ _
      exact (change (.ofStack ShadowStack.enterReclaim)).bind fun _ =>
        (change (.ofHeap (·.take 1))).bind fun _ => change (.ofStack ShadowStack.leaveReclaim)

theorem runInstructions (instructions : List Instruction) :
    Woven (Action.runInstructions moments instructions) := by
  induction instructions with
  | nil => exact pure ()
  | cons instruction rest ih =>
      exact (call (runInstruction hm instruction) _).bind fun _ => ih

theorem runProgram : Woven (Action.runProgram moments) :=
  call (runInstructions hm program) _

theorem runUntilFrom (stop : Process ε → Bool) (runs limit : Nat) :
    Woven (Action.runUntilFrom moments stop runs limit) := by
  induction limit generalizing runs with
  | zero => exact fault _
  | succ limit ih =>
      refine (read stop).bind fun stopped => ?_
      cases stopped with
      | true => exact pure runs
      | false => exact (runProgram hm).bind fun _ => ih (runs + 1)

end

end Woven

/-! ### Commands -/

namespace Session

theorem woven_changeDesk (f : Desk → Desk) : Woven (changeDesk f) := Woven.change (.ofHost f)

theorem woven_readDesk (f : Desk → α) : Woven (readDesk f) := Woven.read _

theorem woven_push (frame : FrameId) : Woven (push frame) := by
  refine (Woven.read (·.stack)).bind fun stack => ?_
  cases stack.push frame with
  | error message => exact Woven.fault _
  | ok stack => exact (Woven.change (.ofStack fun _ => stack)).bind fun _ => woven_changeDesk _

theorem woven_pop : Woven pop := by
  refine (woven_readDesk (·.framesHeld)).bind fun held => ?_
  split
  · exact (Woven.change (.ofStack ShadowStack.leave)).bind fun _ => woven_changeDesk _
  · exact Woven.pure _

theorem woven_enterReclaim : Woven enterReclaim :=
  (Woven.change (.ofStack ShadowStack.enterReclaim)).bind fun _ => woven_changeDesk _

theorem woven_leaveReclaim : Woven leaveReclaim := by
  refine (woven_readDesk (·.reclaimsHeld)).bind fun held => ?_
  split
  · exact (Woven.change (.ofStack ShadowStack.leaveReclaim)).bind fun _ => woven_changeDesk _
  · exact Woven.pure _

theorem woven_configure (f : LogSettings → Except ConfigError LogSettings) :
    Woven (configure f) := by
  refine (Woven.read (·.settings)).bind fun settings => ?_
  cases f settings with
  | error e => exact Woven.pure _
  | ok settings => exact (Woven.change (.ofSettings fun _ => settings)).bind fun _ => Woven.pure _

theorem woven_keep (snapshot : Snapshot) : Woven (keep snapshot) :=
  (woven_readDesk (·.snapshots.size)).bind fun _ =>
    (woven_changeDesk _).bind fun _ => Woven.pure _

theorem woven_withSnapshot (index : Nat) {f : Snapshot → Action Desk Reply}
    (hf : ∀ snapshot, Woven (f snapshot)) : Woven (withSnapshot index f) := by
  refine (woven_readDesk (·.snapshots)).bind fun snapshots => ?_
  cases snapshots[index]?.join with
  | none => exact Woven.pure _
  | some snapshot => exact hf snapshot

theorem woven_consume (index : Nat) (f : Snapshot → Reply) : Woven (consume index f) :=
  woven_withSnapshot index fun _ => (woven_changeDesk _).bind fun _ => Woven.pure _

section

variable {moments : Moments Desk} (hm : ∀ moment, Woven (moments moment))

include hm

theorem woven_deliver (again : Nat) : Woven (deliver moments again) := by
  have hhandler := (Woven.tick hm).thenAlways
    (.ofHost fun d : Desk => { d with inHandler := false })
  induction again with
  | zero =>
      refine (woven_changeDesk _).bind fun _ => ?_
      refine hhandler.bind fun _ => ?_
      refine (woven_readDesk (·.signalPending)).bind fun pending => ?_
      cases pending <;> exact Woven.pure _
  | succ again ih =>
      refine (woven_changeDesk _).bind fun _ => ?_
      refine hhandler.bind fun _ => ?_
      refine (woven_readDesk (·.signalPending)).bind fun pending => ?_
      cases pending with
      | true => exact ih
      | false => exact Woven.pure _

theorem woven_signal (again : Nat) : Woven (signal moments again) := by
  refine (woven_readDesk (·.inHandler)).bind fun inHandler => ?_
  cases inHandler with
  | true => exact woven_changeDesk _
  | false => exact woven_deliver hm again

/-- Whatever the command, if moments are woven. -/
theorem woven_carryOut (again : Nat) (command : Command) :
    Woven (carryOut moments again command) := by
  have hdone : ∀ {x : Action Desk Unit}, Woven x → Woven (do x; return Reply.done) :=
    fun hx => hx.bind fun _ => Woven.pure _
  cases command with
  | push frame => exact hdone (woven_push frame)
  | pop => exact hdone woven_pop
  | enterReclaim => exact hdone woven_enterReclaim
  | leaveReclaim => exact hdone woven_leaveReclaim
  | tick count => exact hdone ((Woven.tick hm).times count)
  | probe size => exact hdone (Woven.probe hm size)
  | note size => exact hdone (Woven.noteAllocation hm size)
  | startCpu milliseconds =>
      exact (Woven.of_result (Woven.perform hm (.start (.cpu milliseconds)))).bind fun _ =>
        Woven.pure _
  | startMemory =>
      exact (Woven.of_result (Woven.perform hm (.start .memory))).bind fun _ => Woven.pure _
  | stopCpu => exact (Woven.of_result (Woven.perform hm (.stop .cpu))).bind fun _ => Woven.pure _
  | stopMemory =>
      exact (Woven.of_result (Woven.perform hm (.stop .memory))).bind fun _ => Woven.pure _
  | states => exact (Woven.read _).bind fun _ => (Woven.read _).bind fun _ => Woven.pure _
  | setCapacity capacity => exact woven_configure _
  | setDepth depth => exact woven_configure _
  | settings => exact (Woven.read _).bind fun _ => Woven.pure _
  | failArming error => exact hdone (Woven.change (.ofFault error))
  | exportKind kind => exact (Woven.exportKind hm kind).bind fun _ => woven_keep _
  | weightOf index frames => exact woven_withSnapshot index fun _ => Woven.pure _
  | heaviest index count => exact woven_withSnapshot index fun _ => Woven.pure _
  | report index count => exact woven_withSnapshot index fun _ => Woven.pure _
  | setName frame name => exact hdone (woven_changeDesk _)
  | functionNames => exact hdone (woven_changeDesk _)
  | clearNames => exact hdone (woven_changeDesk _)
  | document index =>
      exact woven_withSnapshot index fun _ => (woven_readDesk _).bind fun _ => Woven.pure _
  | write index sink =>
      exact woven_withSnapshot index fun _ => (woven_readDesk _).bind fun _ => Woven.pure _
  | writeAll sink =>
      exact (woven_readDesk _).bind fun _ => (woven_readDesk _).bind fun _ => Woven.pure _
  | intoMap index => exact woven_consume index _
  | intoLog index => exact woven_consume index _
  | runProgram count =>
      exact ((Woven.runProgram hm).times count).bind fun _ =>
        (Woven.read _).bind fun _ => Woven.pure _
  | setStop stop => exact hdone (woven_changeDesk _)
  | runUntil =>
      exact (Woven.runUntilFrom hm _ 0 _).bind fun _ =>
        (Woven.read _).bind fun _ => Woven.pure _
  | signal => exact hdone (woven_signal hm again)
  | rebindTimer => exact Woven.pure _
  | hook moment commands => exact hdone (woven_changeDesk _)
  | panic message => exact Woven.fault _

theorem woven_attempt (again : Nat) (command : Command) : Woven (attempt moments again command) :=
  (woven_carryOut hm again command).catchPanic _

theorem woven_runHook (again : Nat) (commands : List Command) :
    Woven (runHook moments again commands) := by
  induction commands with
  | nil => exact Woven.pure _
  | cons command rest ih =>
      have hnext : Woven (do
          let reply ← attempt moments again command
          changeDesk fun d => { d with replies := reply :: d.replies }
          runHook moments again rest) :=
        (woven_attempt hm again command).bind fun _ => (woven_changeDesk _).bind fun _ => ih
      cases command with
      | panic message => exact Woven.fault _
      | _ => exact hnext

end

/-- Hooks are woven, however deep they nest. -/
theorem woven_interrupt (nesting : Nat) (moment : Moment) : Woven (interrupt nesting moment) := by
  induction nesting generalizing moment with
  | zero => exact Woven.pure _
  | succ nesting ih =>
      have hdequeue : Woven (dequeue moment) := by
        refine (woven_readDesk (·.queue)).bind fun queue => ?_
        cases takeHook moment queue with
        | none => exact Woven.pure _
        | some found => exact (woven_changeDesk _).bind fun _ => Woven.pure _
      refine hdequeue.bind fun found => ?_
      cases found with
      | none => exact Woven.pure _
      | some commands => exact woven_runHook ih nesting commands

/-! ### Sessions -/

/-- One command of a script is a run of the weave. -/
theorem run_step (nesting : Nat) (command : Command) (p : Process Desk) :
    ∃ os, Weave.Run ⟨p, []⟩ os ⟨(step nesting command p).2, []⟩ := by
  obtain ⟨os, hos⟩ := woven_changeDesk (fun d => { d with replies := [] }) p []
  obtain ⟨os', hos'⟩ := woven_attempt (woven_interrupt nesting) nesting command
    (p.mapHost fun d => { d with replies := [] }) []
  exact ⟨_, hos.append hos'⟩

/-- A session is a run of the weave, whatever its script and its hooks. -/
theorem run_steps (nesting : Nat) (script : List Command) (p : Process Desk) :
    ∃ os, Weave.Run ⟨p, []⟩ os ⟨(steps nesting script p).2, []⟩ := by
  induction script generalizing p with
  | nil => exact ⟨[], .nil _⟩
  | cons command rest ih =>
      obtain ⟨os, hos⟩ := run_step nesting command p
      obtain ⟨os', hos'⟩ := ih (step nesting command p).2
      exact ⟨_, hos.append hos'⟩

end Session

end SamplingProfiler
