/-
A run of the workload leaves no trace but its allocations.

The workload calls functions, some of them recursively and far past the end of the shadow
stack's storage.  What it stores there overwrites only slots that do not count, so the stack
it leaves shows the same as the one it found, now and later (`ShadowStack.Alike`).

What an action of the workload does can then be said without the stack that it leaves: it
returns, and the sampler of memory and the heap are changed in a way that depends on what the
stack shows (`Does`).  There is one rule for each way in which the workload is put together,
and the rules add up to the two notes of a run.
-/
import Mathlib.Logic.Function.Iterate
import SamplingProfiler.Proofs.GuardedStack
import SamplingProfiler.Session.Run

namespace SamplingProfiler

/-! ### Stacks that show the same -/

namespace ShadowStack

/-- Do two stacks show the same?  The slots that do not count may differ. -/
structure Alike (s t : ShadowStack) : Prop where
  size_eq : s.storage.size = t.storage.size
  depth_eq : s.depth = t.depth
  reclaims_eq : s.reclaims = t.reclaims
  stored : s.storage.toList.take s.depth = t.storage.toList.take t.depth

namespace Alike

variable {s t u : ShadowStack}

theorem refl (s : ShadowStack) : Alike s s := ⟨rfl, rfl, rfl, rfl⟩

theorem trans (h : Alike s t) (h' : Alike t u) : Alike s u :=
  ⟨h.size_eq.trans h'.size_eq, h.depth_eq.trans h'.depth_eq, h.reclaims_eq.trans h'.reclaims_eq,
    h.stored.trans h'.stored⟩

theorem enter (h : Alike s t) (frame : FrameId) : Alike (s.enter frame) (t.enter frame) where
  size_eq := by
    show (s.storage.setIfInBounds ..).size = (t.storage.setIfInBounds ..).size
    rw [Array.size_setIfInBounds, Array.size_setIfInBounds, h.size_eq]
  depth_eq := congrArg (· + 1) h.depth_eq
  reclaims_eq := h.reclaims_eq
  stored := by
    rw [take_storage_enter, take_storage_enter, h.stored, h.size_eq, h.depth_eq]

theorem leave (h : Alike s t) : Alike s.leave t.leave where
  size_eq := h.size_eq
  depth_eq := congrArg (· - 1) h.depth_eq
  reclaims_eq := h.reclaims_eq
  stored := by rw [take_storage_leave, take_storage_leave, h.stored, h.depth_eq]

theorem enterReclaim (h : Alike s t) : Alike s.enterReclaim t.enterReclaim :=
  ⟨h.size_eq, h.depth_eq, congrArg (· + 1) h.reclaims_eq, h.stored⟩

theorem leaveReclaim (h : Alike s t) : Alike s.leaveReclaim t.leaveReclaim :=
  ⟨h.size_eq, h.depth_eq, congrArg (· - 1) h.reclaims_eq, h.stored⟩

theorem isReclaiming_eq (h : Alike s t) : s.isReclaiming = t.isReclaiming := by
  unfold isReclaiming
  rw [h.reclaims_eq]

theorem capture_eq (h : Alike s t) : s.capture = t.capture := by
  funext row
  unfold capture frames
  rw [h.size_eq, h.stored, h.depth_eq]

end Alike

/-- A frame that is entered and left again is not seen. -/
theorem alike_enter_leave (s : ShadowStack) (frame : FrameId) : (s.enter frame).leave.Alike s where
  size_eq := Array.size_setIfInBounds
  depth_eq := rfl
  reclaims_eq := rfl
  stored := by
    show (s.storage.setIfInBounds s.depth frame).toList.take s.depth = _
    rw [Array.toList_setIfInBounds, List.take_set_of_le (Nat.le_refl _)]

/-- Nor is a recursion of any depth. -/
theorem alike_callFib (n : Nat) (s : ShadowStack) : (s.callFib n).Alike s := by
  induction n, s using callFib.induct with
  | case1 s => exact alike_enter_leave s _
  | case2 s => exact alike_enter_leave s _
  | case3 n s ih ih' =>
      rw [callFib]
      exact ((ih'.trans ih).leave).trans (alike_enter_leave s _)

end ShadowStack

/-- Stacks that show the same are told the same by all guards that are held of them. -/
structure GuardedStack.Alike (g h : GuardedStack) : Prop where
  stack : g.stack.Alike h.stack
  pushes_eq : g.pushes = h.pushes
  held_eq : g.held = h.held
  reclaimsHeld_eq : g.reclaimsHeld = h.reclaimsHeld

namespace GuardedStack.Alike

variable {g h : GuardedStack}

theorem drop (a : Alike g h) (number : Nat) : Alike (g.drop number) (h.drop number) := by
  unfold GuardedStack.drop
  rw [a.held_eq]
  by_cases hheld : number ∈ h.held
  · rw [if_pos hheld, if_pos hheld]
    exact ⟨a.stack.leave, a.pushes_eq, rfl, a.reclaimsHeld_eq⟩
  · rw [if_neg hheld, if_neg hheld]
    exact a

theorem answer (a : Alike g h) (call : StackCall) :
    (g.answer call).1 = (h.answer call).1 ∧ Alike (g.answer call).2 (h.answer call).2 := by
  cases call with
  | push frame =>
      unfold GuardedStack.answer
      dsimp only
      rw [push_eq, push_eq]
      by_cases hframe : frame.isReserved = true
      · rw [if_pos hframe, if_pos hframe]
        exact ⟨rfl, a⟩
      · rw [if_neg hframe, if_neg hframe]
        exact ⟨rfl, a.stack.enter frame, congrArg (· + 1) a.pushes_eq,
          by rw [a.pushes_eq, a.held_eq], a.reclaimsHeld_eq⟩
  | drop number => exact ⟨rfl, a.drop number⟩
  | pop =>
      refine ⟨rfl, ?_⟩
      show Alike g.pop h.pop
      unfold GuardedStack.pop
      rw [a.held_eq]
      cases h.held with
      | nil => exact a
      | cons number rest => exact a.drop number
  | enterReclaim =>
      exact ⟨rfl, a.stack.enterReclaim, a.pushes_eq, a.held_eq,
        congrArg (· + 1) a.reclaimsHeld_eq⟩
  | leaveReclaim =>
      refine ⟨rfl, ?_⟩
      show Alike g.leaveReclaim h.leaveReclaim
      unfold GuardedStack.leaveReclaim
      rw [a.reclaimsHeld_eq]
      by_cases hheld : 0 < h.reclaimsHeld
      · rw [if_pos hheld, if_pos hheld]
        exact ⟨a.stack.leaveReclaim, a.pushes_eq, a.held_eq, rfl⟩
      · rw [if_neg hheld, if_neg hheld]
        exact a
  | capture row =>
      refine ⟨?_, a⟩
      show StackAnswer.captured (g.stack.capture row).1 _ = _
      rw [a.stack.capture_eq]
      rfl
  | depth => exact ⟨congrArg StackAnswer.number a.stack.depth_eq, a⟩
  | isReclaiming => exact ⟨congrArg StackAnswer.flag a.stack.isReclaiming_eq, a⟩

end GuardedStack.Alike

/-- Whatever is done with two such stacks, they go on showing the same. -/
theorem ShadowStack.Alike.answers {s t : ShadowStack} (h : s.Alike t) (pushes : Nat)
    (held : List Nat) (reclaimsHeld : Nat) (calls : List StackCall) :
    (GuardedStack.answers ⟨s, pushes, held, reclaimsHeld⟩ calls).1
      = (GuardedStack.answers ⟨t, pushes, held, reclaimsHeld⟩ calls).1 := by
  have halike : GuardedStack.Alike ⟨s, pushes, held, reclaimsHeld⟩ ⟨t, pushes, held, reclaimsHeld⟩ :=
    ⟨h, rfl, rfl, rfl⟩
  exact (replies_alike GuardedStack.Alike GuardedStack.Alike.answer halike calls).1

/-! ### What the sampler of memory sees

Where no hook waits, an operation goes through its moments as if there were none
(`Moments.Silent`).  So what a note does is a function of the stack and the sampler, and of the
stack only what it shows.
-/

/-- Credits a weight to a call stack. -/
def Sampler.credit (stack : ShadowStack) (weight : Weight) (s : Sampler) : Sampler :=
  match s.live with
  | .absent => s
  | .inUse => { s with dropped := s.dropped + 1 }
  | .ready log => { s with live := .ready (log.record stack.capture weight) }

/-- Notes an allocation made on a call stack. -/
def MemorySampler.note (stack : ShadowStack) (size : Weight) (m : MemorySampler) :
    MemorySampler :=
  if m.running then
    let (report, gate) := m.gate.note size
    match report with
    | some bytes => { m with toSampler := m.toSampler.credit stack bytes, gate := gate }
    | none => { m with gate := gate }
  else m

theorem ShadowStack.Alike.note_eq {s t : ShadowStack} (h : s.Alike t) (size : Weight) :
    MemorySampler.note s size = MemorySampler.note t size := by
  funext m
  unfold MemorySampler.note Sampler.credit
  rw [h.capture_eq]

/-- Does nothing happen at the moments of operations while the host keeps this? -/
def Moments.Silent {ε : Type} (moments : Moments ε) (host : ε) : Prop :=
  ∀ moment p, p.host = host → moments moment p = (.ok (), p)

/-- In a session nothing happens if no hook waits. -/
theorem Session.silent_interrupt (nesting : Nat) {desk : Desk} (h : desk.queue = []) :
    (interrupt nesting).Silent desk := by
  intro moment p hp
  cases nesting with
  | zero => rfl
  | succ n =>
      have hqueue : p.host.queue = [] := by rw [hp, h]
      have hnone : dequeue moment p = (.ok none, p) := by
        unfold dequeue readDesk
        rw [Action.bind_apply, Action.read_apply]
        dsimp only
        rw [hqueue]
        rfl
      show (dequeue moment >>= _) p = _
      rw [Action.bind_apply, hnone]
      rfl

variable {ε : Type} {moments : Moments ε} {host : ε}

private theorem record_of_silent (h : moments.Silent host) (weight : Weight) {p : Process ε}
    (hp : p.host = host) :
    Action.record moments .memory weight p
      = (.ok (), p.mapSampler .memory (·.credit p.stack weight)) := by
  unfold Action.record Process.mapSampler
  rw [Action.bind_apply, Action.read_apply]
  dsimp only [Process.sampler]
  cases hlive : p.memory.live with
  | absent =>
      unfold Sampler.credit
      rw [hlive]
      rfl
  | inUse =>
      have hcredit : p.memory.toSampler.credit p.stack weight
          = { p.memory.toSampler with dropped := p.memory.dropped + 1 } := by
        simp only [Sampler.credit, hlive]
      rw [hcredit]
      rfl
  | ready log =>
      have hmoment := h .capture (p.setLive .memory .inUse) hp
      unfold Sampler.credit
      rw [hlive]
      dsimp only
      rw [Action.bind_apply, Action.change_apply]
      dsimp only
      rw [Action.bind_apply]
      unfold Action.onFault
      rw [hmoment]
      rfl

private theorem noteAllocation_of_silent (h : moments.Silent host) (size : Weight) {p : Process ε}
    (hp : p.host = host) :
    Action.noteAllocation moments size p
      = (.ok (), { p with memory := p.memory.note p.stack size }) := by
  unfold Action.noteAllocation MemorySampler.note Action.isRunning
  rw [Action.bind_apply, Action.read_apply]
  dsimp only [Process.sampler]
  by_cases hrun : p.memory.running
  · rw [if_pos hrun, if_pos hrun, Action.bind_apply, Action.read_apply]
    dsimp only
    rw [Action.bind_apply, Action.change_apply]
    dsimp only
    cases hreport : (p.memory.gate.note size).1 with
    | none => rfl
    | some bytes => exact record_of_silent h bytes hp
  · rw [if_neg hrun, if_neg hrun]
    rfl

/-! ### What an action does -/

/-- In a call the body runs on the stack that a push of the function's frame gives. -/
theorem Action.call_apply (f : Function) (body : Action ε Unit) {p : Process ε}
    {pushed : ShadowStack} (h : p.stack.push f.frame = .ok pushed) :
    Action.call f body p = ((body { p with stack := pushed }).1,
      (body { p with stack := pushed }).2.mapStack ShadowStack.leave) := by
  rw [f.push_frame, Except.ok.injEq] at h
  rw [← h]
  rfl

/-- What an action does in a process whose host keeps this: it returns, it changes the sampler of
memory and the heap in these ways, and the stack that it leaves shows the same. -/
structure Does (host : ε) (x : Action ε Unit)
    (onMemory : ShadowStack → MemorySampler → MemorySampler) (onHeap : List Nat → List Nat) :
    Prop where
  /-- What is done to the sampler depends on what the stack shows. -/
  alike : ∀ {s t : ShadowStack}, s.Alike t → onMemory s = onMemory t
  run : ∀ p : Process ε, p.host = host → ∃ s : ShadowStack, s.Alike p.stack
    ∧ x p = (.ok (), { p with
        stack := s, memory := onMemory p.stack p.memory, heap := onHeap p.heap })

/-- The sampler is left alone. -/
abbrev untouched : ShadowStack → MemorySampler → MemorySampler := fun _ m => m

namespace Does

variable {x y : Action ε Unit} {onMemory onMemory' : ShadowStack → MemorySampler → MemorySampler}
  {onHeap onHeap' : List Nat → List Nat}

theorem pure : Does host (Pure.pure ()) untouched id :=
  ⟨fun _ => rfl, fun p _ => ⟨p.stack, .refl _, rfl⟩⟩

/-- One action after the other. -/
theorem andThen (hx : Does host x onMemory onHeap) (hy : Does host y onMemory' onHeap') :
    Does host (do x; y) (fun s => onMemory' s ∘ onMemory s) (onHeap' ∘ onHeap) where
  alike h := by rw [hx.alike h, hy.alike h]
  run p hp := by
    obtain ⟨s, hs, hrun⟩ := hx.run p hp
    obtain ⟨t, ht, hrun'⟩ := hy.run { p with
      stack := s, memory := onMemory p.stack p.memory, heap := onHeap p.heap } hp
    refine ⟨t, ht.trans hs, ?_⟩
    rw [Action.bind_apply, hrun]
    dsimp only
    rw [hrun', hy.alike hs]
    rfl

/-- Again and again. -/
theorem times (h : Does host x onMemory onHeap) (n : Nat) :
    Does host (Action.times n x) (fun s => (onMemory s)^[n]) onHeap^[n] := by
  induction n with
  | zero => exact pure
  | succ n ih => exact h.andThen ih

/-- A change of the heap. -/
theorem heap (f : List Nat → List Nat) :
    Does host (Action.change fun p => { p with heap := f p.heap }) untouched f :=
  ⟨fun _ => rfl, fun p _ => ⟨p.stack, .refl _, rfl⟩⟩

/-- A change of the stack that cannot be seen. -/
theorem stack {f : ShadowStack → ShadowStack} (h : ∀ s, (f s).Alike s) :
    Does host (Action.change (Process.mapStack f)) untouched id :=
  ⟨fun _ => rfl, fun p _ => ⟨f p.stack, h p.stack, rfl⟩⟩

/-- In a call the frame of the function is on the stack. -/
theorem call (h : Does host x onMemory onHeap) (f : Function) :
    Does host (Action.call f x) (fun s => onMemory (s.enter f.frame)) onHeap where
  alike hst := h.alike (hst.enter f.frame)
  run p hp := by
    obtain ⟨s, hs, hrun⟩ := h.run { p with stack := p.stack.enter f.frame } hp
    refine ⟨s.leave, hs.leave.trans (ShadowStack.alike_enter_leave _ _), ?_⟩
    rw [Action.call_apply f x (f.push_frame p.stack), hrun]
    rfl

theorem note (h : moments.Silent host) (size : Weight) :
    Does host (Action.noteAllocation moments size) (fun s => MemorySampler.note s size) id :=
  ⟨fun hst => hst.note_eq size, fun p hp =>
    ⟨p.stack, .refl _, noteAllocation_of_silent h size hp⟩⟩

end Does

/-! ### The program

The program and the notes that stand for it are both put together by the rules for `Does`.  They
are compared by what they do to the sampler of memory, and not step by step.
-/

/-- What an instruction does to the sampler of memory. -/
def Instruction.onMemory : Instruction → ShadowStack → MemorySampler → MemorySampler
  | .concat bytes, s, m => m.note (s.enter Function.concat.frame) (.ofNat bytes)
  | .parse, _, m | .fib _, _, m | .collect, _, m => m

/-- What an instruction does to the heap. -/
def Instruction.onHeap : Instruction → List Nat → List Nat
  | .concat bytes, heap => bytes :: heap
  | .collect, heap => heap.take 1
  | .parse, heap | .fib _, heap => heap

theorem does_runInstruction (h : moments.Silent host) (i : Instruction) :
    Does host (Action.runInstruction moments i) i.onMemory i.onHeap := by
  cases i with
  | parse => exact Does.pure.call .parse
  | fib n => exact .stack (ShadowStack.alike_callFib n)
  | concat bytes => exact ((Does.note h (.ofNat bytes)).andThen (.heap (bytes :: ·))).call .concat
  | collect =>
      have hcollect : Does host Action.collectGarbage untouched (·.take 1) :=
        ⟨fun _ => rfl, fun p _ => ⟨p.stack, .refl _, rfl⟩⟩
      exact hcollect.call .collect

theorem does_runInstructions (h : moments.Silent host) (instructions : List Instruction) :
    Does host (Action.runInstructions moments instructions)
      (fun s m => instructions.foldl (fun m i => i.onMemory (s.enter Function.eval.frame) m) m)
      (fun heap => instructions.foldl (fun heap i => i.onHeap heap) heap) := by
  induction instructions with
  | nil => exact .pure
  | cons i rest ih => exact ((does_runInstruction h i).call .eval).andThen ih

/-- The stack while functions run that were called one from the other, the first one first. -/
def ShadowStack.inside (s : ShadowStack) (functions : List Function) : ShadowStack :=
  functions.foldl (fun s f => s.enter f.frame) s

/-- Where the program allocates. -/
def allocating : List Function := [.main, .eval, .concat]

/-- A run of the program notes two allocations and leaves one block in the heap. -/
theorem does_runProgram (h : moments.Silent host) :
    Does host (Action.runProgram moments)
      (fun s m => (m.note (s.inside allocating) (.ofNat 4096)).note (s.inside allocating)
        (.ofNat 512))
      (fun _ => [512]) :=
  (does_runInstructions h program).call .main

namespace Action

/-- Notes an allocation with the frames of functions on top of the stack, and puts the stack back
as it was. -/
def noteInside (moments : Moments ε) (functions : List Function) (size : Weight) :
    Action ε Unit := do
  let stack ← read (·.stack)
  change (Process.mapStack (·.inside functions))
  noteAllocation moments size
  change (Process.mapStack fun _ => stack)

/-- Notes the allocations of a run of the program. -/
def noteProgram (moments : Moments ε) : Action ε Unit := do
  noteInside moments allocating (.ofNat 4096)
  noteInside moments allocating (.ofNat 512)

end Action

theorem ShadowStack.Alike.inside {s t : ShadowStack} (h : s.Alike t) (functions : List Function) :
    (s.inside functions).Alike (t.inside functions) := by
  induction functions generalizing s t with
  | nil => exact h
  | cons f rest ih => exact ih (h.enter f.frame)

theorem does_noteInside (h : moments.Silent host) (functions : List Function) (size : Weight) :
    Does host (Action.noteInside moments functions size)
      (fun s m => m.note (s.inside functions) size) id where
  alike hst := (hst.inside functions).note_eq size
  run p hp := by
    refine ⟨p.stack, .refl _, ?_⟩
    have hnote := noteAllocation_of_silent h size (p := p.mapStack (·.inside functions)) hp
    unfold Action.noteInside
    rw [Action.bind_apply, Action.read_apply]
    dsimp only
    rw [Action.bind_apply, Action.change_apply]
    dsimp only
    rw [Action.bind_apply, hnote]
    rfl

theorem does_noteProgram (h : moments.Silent host) :
    Does host (Action.noteProgram moments)
      (fun s m => (m.note (s.inside allocating) (.ofNat 4096)).note (s.inside allocating)
        (.ofNat 512)) id :=
  (does_noteInside h allocating _).andThen (does_noteInside h allocating _)

/-- In a session in which no hook waits, the program leaves no trace but its allocations, however
often it runs and however small the stack is.  It returns.  The stack it leaves answers
whatever is asked of it, now or later, as the one it found would.  The sampler of memory is
left as the notes of the allocations alone would leave it, and nothing else is changed but the
heap, which is left with the block that was allocated last. -/
theorem program_leaves_no_trace (nesting n : Nat) {p : Process Desk}
    (hqueue : p.host.queue = []) :
    let moments := Session.interrupt nesting
    let ran := Action.times n (Action.runProgram moments) p
    let noted := Action.times n (Action.noteProgram moments) p
    ran.1 = .ok () ∧ noted.1 = .ok ()
    ∧ ran.2.stack.depth = p.stack.depth ∧ ran.2.stack.reclaims = p.stack.reclaims
    ∧ (∀ pushes held reclaimsHeld calls,
      (GuardedStack.answers ⟨ran.2.stack, pushes, held, reclaimsHeld⟩ calls).1
        = (GuardedStack.answers ⟨p.stack, pushes, held, reclaimsHeld⟩ calls).1)
    ∧ ran.2.cpu = p.cpu ∧ ran.2.memory = noted.2.memory
    ∧ ran.2 = { p with stack := ran.2.stack, memory := ran.2.memory, heap := ran.2.heap }
    ∧ (0 < n → (Action.heapBytes ran.2).1 = .ok 512) := by
  intro moments ran noted
  have hsilent : moments.Silent p.host := Session.silent_interrupt nesting hqueue
  obtain ⟨s, hs, hran⟩ := ((does_runProgram hsilent).times n).run p rfl
  obtain ⟨t, -, hnoted⟩ := ((does_noteProgram hsilent).times n).run p rfl
  have hran' : ran = _ := hran
  have hnoted' : noted = _ := hnoted
  rw [hran', hnoted']
  refine ⟨rfl, rfl, hs.depth_eq, hs.reclaims_eq, fun pushes held reclaimsHeld calls =>
    hs.answers pushes held reclaimsHeld calls, rfl, rfl, rfl, fun hn => ?_⟩
  obtain ⟨n, rfl⟩ := Nat.exists_eq_add_one.mpr hn
  have hheap : (fun _ : List Nat => [512])^[n + 1] p.heap = [512] :=
    Function.iterate_succ_apply' _ n p.heap
  show Except.ok (List.foldl _ 0 ((fun _ : List Nat => [512])^[n + 1] p.heap)) = _
  rw [hheap]
  rfl

/-- For instance two runs on a stack of four frames, of which one is taken when they begin. -/
theorem program_leaves_no_trace_on_four_frames :
    ∃ p q ran, Session.start { logCapacity := 2, maxStackDepth := 4 } 4 true .mixing = .ok p
      ∧ q = (Session.steps 0 [.push ⟨7⟩, .startMemory] p).2 ∧ q.host.queue = []
      ∧ ran = Action.times 2 (Action.runProgram (Session.interrupt 0)) q
      ∧ ran.1 = .ok () ∧ ran.2.stack.depth = 1
      ∧ ran.2.memory.live.log?.map (·.entries) = some [⟨[⟨5⟩, ⟨3⟩, ⟨1⟩, ⟨7⟩], .ofNat 9216⟩]
      ∧ (Action.heapBytes ran.2).1 = .ok 512 := by
  obtain ⟨p, hstart⟩ : ∃ p,
      Session.start { logCapacity := 2, maxStackDepth := 4 } 4 true .mixing = .ok p := ⟨_, rfl⟩
  have hp := Process.eq_of_idle hstart
  obtain ⟨q, hq⟩ : ∃ q, q = (Session.steps 0 [.push ⟨7⟩, .startMemory] p).2 := ⟨_, rfl⟩
  obtain ⟨ran, hran⟩ : ∃ ran,
      ran = Action.times 2 (Action.runProgram (Session.interrupt 0)) q := ⟨_, rfl⟩
  have hqueue : q.host.queue = [] := by
    rw [hq, hp]
    rfl
  obtain ⟨hok, -, hdepth, -, -, -, hmemory, -, hheap⟩ := program_leaves_no_trace 0 2 hqueue
  rw [← hran] at hok hdepth hmemory hheap
  refine ⟨p, q, ran, hstart, hq, hqueue, hran, hok, ?_, ?_, hheap (by decide)⟩
  · rw [hdepth, hq, hp]
    rfl
  · rw [hmemory, hq, hp]
    rfl

end SamplingProfiler
