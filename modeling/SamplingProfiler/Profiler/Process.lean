/-
The profiled process, and actions on it.

A process is a host program with a profiler inside: the host's call stack and heap, both
samplers with their settings and timer, and whatever else the host keeps.

Operations of the profiler are not atomic.  A timer's tick may come while a log is being
made, and an allocation while a timer is being armed.  The places where that matters are
the five `Moment`s.  An operation is written over a choice of what happens at each moment
(`Moments`), so one definition serves for a process left alone, where nothing happens
(`Moments.quiet`), and for one in which other operations come in between.

An `Action` changes the process and then returns or faults.  What it did before a fault
stays done.
-/
import SamplingProfiler.Settings
import SamplingProfiler.ShadowStack
import SamplingProfiler.Timer

namespace SamplingProfiler

/-- A host program with a profiler inside; `ε` is what the host keeps besides. -/
structure Process (ε : Type) where
  /-- The dimensions of logs to be made. -/
  settings : LogSettings
  /-- The sampler of CPU time. -/
  cpu : CpuSampler
  /-- The sampler of allocated memory. -/
  memory : MemorySampler
  /-- The timer of the CPU sampler. -/
  timer : Timer
  /-- The host's call stack. -/
  stack : ShadowStack
  /-- The sizes of the blocks in the host's heap, the newest first. -/
  heap : List Nat
  /-- Does the host say when it is reclaiming memory? -/
  reportsReclaims : Bool
  /-- Where logs draw their hash functions from. -/
  hashers : HashFamily
  /-- How many hash functions have been drawn. -/
  hashersDrawn : Nat
  /-- What else the host keeps. -/
  host : ε

namespace Process

variable {ε : Type}

/-- A process whose profiler was configured and has not done anything. -/
def idle (config : Config) (stackCapacity : Nat) (reportsReclaims : Bool)
    (hashers : HashFamily) (host : ε) : Except ConfigError (Process ε) := do
  config.validate
  return {
    settings := .ofConfig config
    cpu := {}
    memory := { gate := .closed config.allocSampleBytes }
    timer := {}
    stack := .empty stackCapacity
    heap := []
    reportsReclaims := reportsReclaims
    hashers := hashers
    hashersDrawn := 0
    host := host }

/-- A process that was configured has stopped samplers without logs. -/
theorem eq_of_idle {config : Config} {stackCapacity : Nat} {reportsReclaims : Bool}
    {hashers : HashFamily} {host : ε} {p : Process ε}
    (h : idle config stackCapacity reportsReclaims hashers host = .ok p) :
    p = {
      settings := .ofConfig config
      cpu := {}
      memory := { gate := .closed config.allocSampleBytes }
      timer := {}
      stack := .empty stackCapacity
      heap := []
      reportsReclaims := reportsReclaims
      hashers := hashers
      hashersDrawn := 0
      host := host } := by
  unfold idle at h
  cases hvalid : config.validate with
  | error e => rw [hvalid] at h; cases h
  | ok => rw [hvalid] at h; exact (Except.ok.inj h).symm

/-- The part that a sampler shares with the other. -/
def sampler (p : Process ε) : SamplerKind → Sampler
  | .cpu => p.cpu.toSampler
  | .memory => p.memory.toSampler

/-- Changes that part of one sampler. -/
def mapSampler (kind : SamplerKind) (f : Sampler → Sampler) (p : Process ε) : Process ε :=
  match kind with
  | .cpu => { p with cpu := { p.cpu with toSampler := f p.cpu.toSampler } }
  | .memory => { p with memory := { p.memory with toSampler := f p.memory.toSampler } }

/-- Changing one sampler leaves the other alone. -/
theorem sampler_mapSampler (kind kind' : SamplerKind) (f : Sampler → Sampler) (p : Process ε) :
    (p.mapSampler kind f).sampler kind'
      = if kind' = kind then f (p.sampler kind') else p.sampler kind' := by
  cases kind <;> cases kind' <;> rfl

@[simp] theorem sampler_mapSampler_self (kind : SamplerKind) (f : Sampler → Sampler)
    (p : Process ε) : (p.mapSampler kind f).sampler kind = f (p.sampler kind) := by
  rw [sampler_mapSampler, if_pos rfl]

@[simp] theorem settings_mapSampler (kind : SamplerKind) (f : Sampler → Sampler) (p : Process ε) :
    (p.mapSampler kind f).settings = p.settings := by
  cases kind <;> rfl

@[simp] theorem stack_mapSampler (kind : SamplerKind) (f : Sampler → Sampler) (p : Process ε) :
    (p.mapSampler kind f).stack = p.stack := by
  cases kind <;> rfl

@[simp] theorem timer_mapSampler (kind : SamplerKind) (f : Sampler → Sampler) (p : Process ε) :
    (p.mapSampler kind f).timer = p.timer := by
  cases kind <;> rfl

@[simp] theorem reportsReclaims_mapSampler (kind : SamplerKind) (f : Sampler → Sampler)
    (p : Process ε) : (p.mapSampler kind f).reportsReclaims = p.reportsReclaims := by
  cases kind <;> rfl

@[simp] theorem hashers_mapSampler (kind : SamplerKind) (f : Sampler → Sampler) (p : Process ε) :
    (p.mapSampler kind f).hashers = p.hashers := by
  cases kind <;> rfl

@[simp] theorem hashersDrawn_mapSampler (kind : SamplerKind) (f : Sampler → Sampler)
    (p : Process ε) : (p.mapSampler kind f).hashersDrawn = p.hashersDrawn := by
  cases kind <;> rfl

@[simp] theorem interval_mapSampler (kind : SamplerKind) (f : Sampler → Sampler) (p : Process ε) :
    (p.mapSampler kind f).cpu.interval = p.cpu.interval := by
  cases kind <;> rfl

@[simp] theorem gcWeight_mapSampler (kind : SamplerKind) (f : Sampler → Sampler) (p : Process ε) :
    (p.mapSampler kind f).cpu.gcWeight = p.cpu.gcWeight := by
  cases kind <;> rfl

@[simp] theorem gate_mapSampler (kind : SamplerKind) (f : Sampler → Sampler) (p : Process ε) :
    (p.mapSampler kind f).memory.gate = p.memory.gate := by
  cases kind <;> rfl

/-- Changes the call stack. -/
def mapStack (f : ShadowStack → ShadowStack) (p : Process ε) : Process ε :=
  { p with stack := f p.stack }

/-- Changes what the host keeps. -/
def mapHost (f : ε → ε) (p : Process ε) : Process ε := { p with host := f p.host }

end Process

/-- A place inside an operation where other operations may come in between. -/
inductive Moment where
  /-- The call stack is about to be captured; the log recorded into is held. -/
  | capture
  /-- The host is about to be asked whether it is reclaiming memory. -/
  | reclaim
  /-- The timer is about to be armed. -/
  | arm
  /-- The timer is about to be disarmed. -/
  | disarm
  /-- The dimensions of a new log have been read and the log is about to be made. -/
  | newLog
deriving DecidableEq, Inhabited

/-- How an action ends other than by returning. -/
inductive Fault where
  /-- It gives up, with a message. -/
  | panic (message : String)
  /-- It waits forever for a log that the operation it interrupts holds. -/
  | deadlock
deriving DecidableEq

/-- A change of the process that returns or faults. -/
def Action (ε α : Type) : Type := Process ε → Except Fault α × Process ε

namespace Action

variable {ε α β : Type}

instance : Monad (Action ε) where
  pure a := fun p => (.ok a, p)
  bind x f := fun p =>
    match x p with
    | (.ok a, q) => f a q
    | (.error e, q) => (.error e, q)

/-- Reads the process. -/
def read (f : Process ε → α) : Action ε α := fun p => (.ok (f p), p)

/-- Changes the process. -/
def change (f : Process ε → Process ε) : Action ε Unit := fun p => (.ok (), f p)

/-- Faults. -/
def fault (e : Fault) : Action ε α := fun p => (.error e, p)

/-- Gives up with a message. -/
def panic (message : String) : Action ε α := fault (.panic message)

/-- Does an action and, whether it returns or faults, a last change. -/
def thenAlways (x : Action ε α) (last : Process ε → Process ε) : Action ε α := fun p =>
  match x p with
  | (r, q) => (r, last q)

/-- Does an action and, only if it faults, a last change. -/
def onFault (x : Action ε α) (last : Process ε → Process ε) : Action ε α := fun p =>
  match x p with
  | (.ok a, q) => (.ok a, q)
  | (.error e, q) => (.error e, last q)

/-- Does an action, and answers a panic instead of passing it on. -/
def catchPanic (x : Action ε α) (answer : String → α) : Action ε α := fun p =>
  match x p with
  | (.error (.panic message), q) => (.ok (answer message), q)
  | other => other

@[simp] theorem pure_apply (a : α) (p : Process ε) : (pure a : Action ε α) p = (.ok a, p) := rfl

theorem bind_apply (x : Action ε α) (f : α → Action ε β) (p : Process ε) :
    (x >>= f) p = match x p with
      | (.ok a, q) => f a q
      | (.error e, q) => (.error e, q) := rfl

@[simp] theorem read_apply (f : Process ε → α) (p : Process ε) : read f p = (.ok (f p), p) := rfl

@[simp] theorem change_apply (f : Process ε → Process ε) (p : Process ε) :
    change f p = (.ok (), f p) := rfl

@[simp] theorem fault_apply (e : Fault) (p : Process ε) :
    (fault e : Action ε α) p = (.error e, p) := rfl

/-- What follows a fault is not done, so the laws of a monad hold. -/
instance : LawfulMonad (Action ε) := by
  refine LawfulMonad.mk' (Action ε) (fun x => ?_) (fun _ _ => rfl) (fun x f g => ?_)
  · funext p
    show (match x p with
      | (.ok a, q) => (.ok a, q)
      | (.error e, q) => (.error e, q)) = x p
    rcases x p with ⟨_ | _, q⟩ <;> rfl
  · funext p
    simp only [bind_apply]
    rcases x p with ⟨_ | _, q⟩ <;> rfl

/-- Does an action a number of times. -/
def times (n : Nat) (x : Action ε Unit) : Action ε Unit :=
  match n with
  | 0 => pure ()
  | n + 1 => do x; times n x

end Action

/-- What happens at each moment of an operation. -/
abbrev Moments (ε : Type) : Type := Moment → Action ε Unit

/-- Nothing happens: the process is left alone. -/
def Moments.quiet {ε : Type} : Moments ε := fun _ => pure ()

end SamplingProfiler
