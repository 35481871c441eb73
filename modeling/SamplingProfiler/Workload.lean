/-
The built-in workload: a small interpreter that runs one fixed program.

Its functions push frames onto the shadow stack, it allocates strings that it reports to
the memory sampler, and it collects its heap.  The program parses its source, computes
Fibonacci numbers by double recursion, concatenates two strings and collects garbage, so
that a profile of it has short stacks and deep ones.  Whatever a run does to the stack it
undoes before it returns, also when it returns by a fault.
-/
import SamplingProfiler.Profiler.Sampling

namespace SamplingProfiler

/-- The functions of the interpreter. -/
inductive Function where
  | main
  | parse
  | eval
  | fib
  | concat
  /-- Collects garbage. -/
  | collect
deriving DecidableEq, Inhabited

namespace Function

/-- All functions. -/
def all : List Function := [main, parse, eval, fib, concat, collect]

/-- The frame of a function: they are numbered from one. -/
def frame : Function → FrameId
  | main => ⟨1⟩
  | parse => ⟨2⟩
  | eval => ⟨3⟩
  | fib => ⟨4⟩
  | concat => ⟨5⟩
  | collect => ⟨6⟩

/-- The name of a function in profiles. -/
def name : Function → String
  | main => "main"
  | parse => "parse"
  | eval => "eval"
  | fib => "fib"
  | concat => "concat"
  | collect => "collect"

/-- The name of a function in diagnostics. -/
def label : Function → String
  | main => "Main"
  | parse => "Parse"
  | eval => "Eval"
  | fib => "Fib"
  | concat => "Concat"
  | collect => "Collect"

/-- The names of all frames. -/
def frameNames : List (FrameId × String) := all.map fun f => (f.frame, f.name)

/-- No function uses a reserved frame. -/
theorem frame_not_reserved (f : Function) : f.frame.isReserved = false := by
  cases f <;> decide

/-- A push of the frame of a function is never refused.  That is why a function enters its frame
without asking, in `Action.call` and in `ShadowStack.callFib`. -/
theorem push_frame (f : Function) (s : ShadowStack) : s.push f.frame = .ok (s.enter f.frame) := by
  unfold ShadowStack.push
  rw [f.frame_not_reserved]
  rfl

end Function

/-- What the interpreter's program is made of. -/
inductive Instruction where
  | parse
  | fib (n : Nat)
  | concat (bytes : Nat)
  /-- Frees all of the heap but the newest block. -/
  | collect
deriving DecidableEq

/-- The program. -/
def program : List Instruction :=
  [.parse, .fib 22, .concat 4096, .fib 18, .concat 512, .collect]

/-- What computing a Fibonacci number by double recursion does to the stack. -/
def ShadowStack.callFib : Nat → ShadowStack → ShadowStack
  | 0, s => (s.enter Function.fib.frame).leave
  | 1, s => (s.enter Function.fib.frame).leave
  | n + 2, s => (callFib n (callFib (n + 1) (s.enter Function.fib.frame))).leave

namespace Action

variable {ε : Type}

/-- Calls a function of the interpreter: its frame is on the stack while the body runs, and
off it afterwards, whether the body returns or faults. -/
def call (f : Function) (body : Action ε Unit) : Action ε Unit := do
  change (Process.mapStack (·.enter f.frame))
  thenAlways body (Process.mapStack ShadowStack.leave)

/-- Reports an allocation and then makes it. -/
def allocate (moments : Moments ε) (bytes : Nat) : Action ε Unit := do
  noteAllocation moments (Weight.ofNat bytes)
  change fun p => { p with heap := bytes :: p.heap }

/-- Frees all blocks but the newest, as a reclamation. -/
def collectGarbage : Action ε Unit := do
  change (Process.mapStack ShadowStack.enterReclaim)
  change fun p => { p with heap := p.heap.take 1 }
  change (Process.mapStack ShadowStack.leaveReclaim)

/-- Carries out one instruction. -/
def runInstruction (moments : Moments ε) : Instruction → Action ε Unit
  | .parse => call .parse (pure ())
  | .fib n => change (Process.mapStack (·.callFib n))
  | .concat bytes => call .concat (allocate moments bytes)
  | .collect => call .collect collectGarbage

/-- Carries out instructions one after the other, each under its own frame of the
evaluator. -/
def runInstructions (moments : Moments ε) : List Instruction → Action ε Unit
  | [] => pure ()
  | i :: rest => do
    call .eval (runInstruction moments i)
    runInstructions moments rest

/-- Runs the program once. -/
def runProgram (moments : Moments ε) : Action ε Unit :=
  call .main (runInstructions moments program)

/-- Runs the program until the host says stop, and adds the runs to a count.  At most
`limit` runs are made; one more does not fit the counter. -/
def runUntilFrom (moments : Moments ε) (stop : Process ε → Bool) (runs : Nat) :
    Nat → Action ε Nat
  | 0 => panic "attempt to add with overflow"
  | limit + 1 => do
    if ← read stop then
      return runs
    runProgram moments
    runUntilFrom moments stop (runs + 1) limit

/-- Runs the program until the host says stop, and counts the runs in 64 bits.  Here the counter
is not taken to be large enough: nothing but the host ends the loop, and one run more than it can
count is a fault. -/
def runUntil (moments : Moments ε) (stop : Process ε → Bool) : Action ε Nat :=
  runUntilFrom moments stop 0 (maxWord + 1)

/-- The bytes in the interpreter's heap. -/
def heapBytes : Action ε Nat := read fun p => p.heap.foldl (· + ·) 0

end Action

end SamplingProfiler
