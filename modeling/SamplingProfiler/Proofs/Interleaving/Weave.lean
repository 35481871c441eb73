/-
Operations that interrupt each other, step by step.

An operation of the profiler runs from one of its moments to the next.  At a moment it is
suspended: any number of other operations may be called, and suspended in their turn,
before it goes on.  Operations interrupt each other as function calls do, so only the
operation suspended last can go on, and a `Weave` keeps the suspended ones in a stack.

What an operation does before its first moment is `Operation.enter`, and what it does from
a moment to the next is `Suspended.resume`.  Nothing is fixed about what is called at a
moment or how deep calls nest: a `Run` is any sequence of calls, resumptions and, where a
fault passes through a suspended operation, abandonments.
-/
import SamplingProfiler.Profiler.Sampling

namespace SamplingProfiler

/-- Something that a host does without its profiler. -/
structure HostChange (ε : Type) where
  apply : Process ε → Process ε
  /-- The samplers are left alone, -/
  cpu_apply : ∀ p, (apply p).cpu = p.cpu
  memory_apply : ∀ p, (apply p).memory = p.memory
  /-- the timer is neither armed nor disarmed, -/
  armed_apply : ∀ p, (apply p).timer.armed = p.timer.armed
  /-- and no hash functions are drawn. -/
  hashers_apply : ∀ p, (apply p).hashers = p.hashers
  hashersDrawn_apply : ∀ p, (apply p).hashersDrawn = p.hashersDrawn

namespace HostChange

variable {ε : Type}

/-- The host calls a function or returns from it, or begins or finishes to reclaim memory. -/
def ofStack (f : ShadowStack → ShadowStack) : HostChange ε where
  apply := Process.mapStack f
  cpu_apply _ := rfl
  memory_apply _ := rfl
  armed_apply _ := rfl
  hashers_apply _ := rfl
  hashersDrawn_apply _ := rfl

/-- The dimensions of later logs are changed. -/
def ofSettings (f : LogSettings → LogSettings) : HostChange ε where
  apply p := { p with settings := f p.settings }
  cpu_apply _ := rfl
  memory_apply _ := rfl
  armed_apply _ := rfl
  hashers_apply _ := rfl
  hashersDrawn_apply _ := rfl

/-- Arming the timer fails from now on, or succeeds again. -/
def ofFault (fault : Option SamplerError) : HostChange ε where
  apply p := { p with timer := { p.timer with fault := fault } }
  cpu_apply _ := rfl
  memory_apply _ := rfl
  armed_apply _ := rfl
  hashers_apply _ := rfl
  hashersDrawn_apply _ := rfl

/-- The host makes blocks in its heap, or frees them. -/
def ofHeap (f : List Nat → List Nat) : HostChange ε where
  apply p := { p with heap := f p.heap }
  cpu_apply _ := rfl
  memory_apply _ := rfl
  armed_apply _ := rfl
  hashers_apply _ := rfl
  hashersDrawn_apply _ := rfl

/-- The host changes what else it keeps. -/
def ofHost (f : ε → ε) : HostChange ε where
  apply := Process.mapHost f
  cpu_apply _ := rfl
  memory_apply _ := rfl
  armed_apply _ := rfl
  hashers_apply _ := rfl
  hashersDrawn_apply _ := rfl

end HostChange

/-- A request to start a sampler. -/
inductive StartRequest where
  | cpu (milliseconds : Weight)
  | memory
deriving DecidableEq

def StartRequest.kind : StartRequest → SamplerKind
  | cpu _ => .cpu
  | memory => .memory

/-- Something that can be called: an operation of the profiler, or a change by the host. -/
inductive Operation (ε : Type) where
  | start (request : StartRequest)
  | stop (kind : SamplerKind)
  | tick
  | probe (size : Weight)
  | note (size : Weight)
  | exportKind (kind : SamplerKind)
  | host (change : HostChange ε)

/-- What an operation returns. -/
inductive Result where
  | done
  | started (result : Except SamplerError Unit)
  | stopped (running : Bool)
  | exported (snapshot : Snapshot)

/-- An operation that is suspended at a moment, with what it remembers. -/
inductive Suspended where
  /-- A start, about to make a log of the dimensions it has read. -/
  | starting (request : StartRequest) (settings : LogSettings)
  /-- A start, about to arm the timer. -/
  | arming (milliseconds : Weight)
  /-- A stop, about to disarm the timer. -/
  | disarming
  /-- A tick that has read its interval, about to ask whether memory is being reclaimed. -/
  | asking (interval : Weight)
  /-- A sample, about to be captured into the log it holds. -/
  | recording (kind : SamplerKind) (log : BacktraceLog) (weight : Weight)
  /-- An export, about to make a log of the dimensions it has read. -/
  | exporting (kind : SamplerKind) (settings : LogSettings)

/-- How far an operation has come: to its end, or to a moment. -/
inductive Outcome where
  | returned (result : Result)
  | suspended (operation : Suspended)

namespace Suspended

def moment : Suspended → Moment
  | starting .. => .newLog
  | arming .. => .arm
  | disarming => .disarm
  | asking .. => .reclaim
  | recording .. => .capture
  | exporting .. => .newLog

/-- The sampler that a suspended operation is about. -/
def kind : Suspended → SamplerKind
  | starting request _ => request.kind
  | arming _ | disarming | asking _ => .cpu
  | recording kind _ _ => kind
  | exporting kind _ => kind

end Suspended

variable {ε : Type}

/-- The sampler that an operation is about, if it is about one. -/
def Operation.kind? : Operation ε → Option SamplerKind
  | start request => some request.kind
  | stop kind => some kind
  | tick => some .cpu
  | probe _ | note _ => some .memory
  | exportKind kind => some kind
  | host _ => none

/-! ### The parts of operations

From one moment to the next an operation has only what it remembers.  It finds the process as the
others have left it, and so each part looks at the process again.
-/

/-- What a start does when the sampler is running and has a log. -/
def StartRequest.proceed (request : StartRequest) (fresh : Bool) : Action ε Outcome := fun p =>
  match request with
  | .memory => (.ok (.returned (.started (.ok ()))), p)
  | .cpu milliseconds =>
    let gcWeight := if fresh then 0 else p.cpu.gcWeight
    (.ok (.suspended (.arming milliseconds)),
      { p with cpu := { p.cpu with gcWeight := gcWeight, interval := milliseconds } })

/-- What a sample does when it arrives. -/
def arrive (kind : SamplerKind) (weight : Weight) : Action ε Outcome := fun p =>
  match (p.sampler kind).live with
  | .absent => (.ok (.returned .done), p)
  | .inUse => (.ok (.returned .done), p.drop kind)
  | .ready log => (.ok (.suspended (.recording kind log weight)), p.setLive kind .inUse)

theorem arrive_ne_error (kind : SamplerKind) (weight : Weight) (p : Process ε) (e : Fault) :
    (arrive kind weight p).1 ≠ .error e := by
  unfold arrive
  cases (p.sampler kind).live <;> simp

theorem StartRequest.proceed_ne_error (request : StartRequest) (fresh : Bool) (p : Process ε)
    (e : Fault) : (request.proceed fresh p).1 ≠ .error e := by
  cases request <;> simp [proceed]

/-- Makes a snapshot of a log that was taken away. -/
def present (log : Option BacktraceLog) (dropped : Nat) : SamplerKind → Action ε Snapshot
  | .cpu => Action.presentCpu log dropped
  | .memory => Action.presentMemory log dropped

/-- What an export does when it has a new log to install, or none. -/
def handOver (kind : SamplerKind) (prepared : Option BacktraceLog) : Action ε Outcome := fun p =>
  match (p.sampler kind).live with
  | .inUse => (.error .deadlock, p)
  | live =>
    let installed := if (p.sampler kind).running then prepared else none
    (Outcome.returned <$> Result.exported <$> present live.log? (p.sampler kind).dropped kind)
      (p.mapSampler kind fun s => { s with live := .ofOption installed, dropped := 0 })

/-- What an operation does before its first moment. -/
def Operation.enter : Operation ε → Action ε Outcome
  | start request => fun p =>
    if request = .cpu 0 then (.ok (.returned (.started (.error .invalidInterval))), p)
    else if (p.sampler request.kind).running then
      (.ok (.returned (.started (.error (.alreadyRunning request.kind)))), p)
    else
      let q := p.setRunning request.kind true
      match (p.sampler request.kind).live with
      | .inUse => (.error .deadlock, q)
      | .ready _ => request.proceed false q
      | .absent => (.ok (.suspended (.starting request p.settings)), q)
  | stop kind => fun p =>
    let running := (p.sampler kind).running
    let q := p.setRunning kind false
    if kind = .cpu ∧ running then (.ok (.suspended .disarming), q)
    else (.ok (.returned (.stopped running)), q)
  | tick => fun p =>
    if p.cpu.running then
      if p.reportsReclaims then (.ok (.suspended (.asking p.cpu.interval)), p)
      else arrive .cpu p.cpu.interval p
    else (.ok (.returned .done), p)
  | probe size => fun p =>
    if p.memory.running then arrive .memory size p else (.ok (.returned .done), p)
  | note size => fun p =>
    if p.memory.running then
      let (report, gate) := p.memory.gate.note size
      let q := { p with memory := { p.memory with gate := gate } }
      match report with
      | some bytes => arrive .memory bytes q
      | none => (.ok (.returned .done), q)
    else (.ok (.returned .done), p)
  | exportKind kind => fun p =>
    if (p.sampler kind).running then (.ok (.suspended (.exporting kind p.settings)), p)
    else handOver kind none p
  | host change => fun p => (.ok (.returned .done), change.apply p)

/-- What a suspended operation does until its next moment, or its end. -/
def Suspended.resume : Suspended → Action ε Outcome
  | starting request settings => fun p =>
    match settings.newLog p.nextHasher with
    | .error e => (.error (.panic e.message), p.drawHasher)
    | .ok fresh =>
      match (p.sampler request.kind).live with
      | .inUse => (.error .deadlock, p.drawHasher)
      | .ready _ => request.proceed false p.drawHasher
      | .absent => request.proceed true (p.drawHasher.setLive request.kind (.ready fresh))
  | arming milliseconds => fun p =>
    match p.timer.tryArm milliseconds with
    | .ok timer => (.ok (.returned (.started (.ok ()))), { p with timer := timer })
    | .error e => (.ok (.returned (.started (.error e))), p.setRunning .cpu false)
  | disarming => fun p => (.ok (.returned (.stopped true)), { p with timer := p.timer.disarm })
  | asking interval => fun p =>
    if p.stack.isReclaiming then
      (.ok (.returned .done),
        { p with cpu := { p.cpu with gcWeight := p.cpu.gcWeight + interval } })
    else arrive .cpu interval p
  | recording kind log weight => fun p =>
    (.ok (.returned .done), p.setLive kind (.ready (log.record p.stack.capture weight)))
  | exporting kind settings => fun p =>
    match settings.newLog p.nextHasher with
    | .error e => (.error (.panic e.message), p.drawHasher)
    | .ok fresh => handOver kind (some fresh) p.drawHasher

/-- What is left of a suspended operation when a fault passes through it. -/
def Suspended.abandon : Suspended → Process ε → Process ε
  | recording kind log _, p => p.setLive kind (.ready log.loseScratch)
  | _, p => p

/-! ### Runs -/

/-- A process and the operations suspended in it, the latest first. -/
structure Weave (ε : Type) where
  process : Process ε
  suspended : List Suspended

/-- What can happen next. -/
inductive Event (ε : Type) where
  | call (operation : Operation ε)
  | resume
  | abandon (fault : Fault)

/-- The operation that is suspended in the end, if one is. -/
def stillSuspended : Except Fault Outcome → List Suspended
  | .ok (.suspended s) => [s]
  | _ => []

namespace Weave

/-- What happens, with how it ends and what it leaves. -/
inductive Step : Weave ε → Event ε → Except Fault Outcome → Weave ε → Prop where
  | call {operation : Operation ε} {p q : Process ε} {r : Except Fault Outcome}
      {pending : List Suspended} (h : operation.enter p = (r, q)) :
      Step ⟨p, pending⟩ (.call operation) r ⟨q, stillSuspended r ++ pending⟩
  | resume {s : Suspended} {p q : Process ε} {r : Except Fault Outcome}
      {pending : List Suspended} (h : s.resume p = (r, q)) :
      Step ⟨p, s :: pending⟩ .resume r ⟨q, stillSuspended r ++ pending⟩
  | abandon {s : Suspended} {p : Process ε} {fault : Fault} {pending : List Suspended} :
      Step ⟨p, s :: pending⟩ (.abandon fault) (.error fault) ⟨s.abandon p, pending⟩

end Weave

/-- A step that was taken. -/
structure Occurrence (ε : Type) where
  before : Weave ε
  event : Event ε
  outcome : Except Fault Outcome
  after : Weave ε

namespace Weave

/-- Steps taken one after the other. -/
inductive Run : Weave ε → List (Occurrence ε) → Weave ε → Prop where
  | nil (w : Weave ε) : Run w [] w
  | cons {w₁ w₂ w₃ : Weave ε} {event : Event ε} {r : Except Fault Outcome}
      {os : List (Occurrence ε)} (first : Step w₁ event r w₂) (rest : Run w₂ os w₃) :
      Run w₁ (⟨w₁, event, r, w₂⟩ :: os) w₃

theorem Run.append {w₁ w₂ w₃ : Weave ε} {os os' : List (Occurrence ε)} (h : Run w₁ os w₂)
    (h' : Run w₂ os' w₃) : Run w₁ (os ++ os') w₃ := by
  induction h with
  | nil => exact h'
  | cons first _ ih => exact .cons first (ih h')

theorem Run.step_of_mem {w w' : Weave ε} {os : List (Occurrence ε)} (h : Run w os w')
    {o : Occurrence ε} (ho : o ∈ os) : Step o.before o.event o.outcome o.after := by
  induction h with
  | nil => cases ho
  | cons first _ ih =>
      rcases List.mem_cons.mp ho with heq | hmem
      · rw [heq]
        exact first
      · exact ih hmem

/-- A run up to one of its steps. -/
theorem Run.until {w w' : Weave ε} {os : List (Occurrence ε)} (h : Run w os w')
    {o : Occurrence ε} (ho : o ∈ os) :
    ∃ past rest, os = past ++ o :: rest ∧ Run w past o.before
      ∧ Step o.before o.event o.outcome o.after := by
  induction h with
  | nil => cases ho
  | cons first _ ih =>
      rcases List.mem_cons.mp ho with heq | hmem
      · rw [heq]
        exact ⟨[], _, rfl, .nil _, first⟩
      · obtain ⟨past, rest, hos, hrun, hstep⟩ := ih hmem
        exact ⟨_ :: past, rest, congrArg (_ :: ·) hos, .cons first hrun, hstep⟩

/-- What an event does, unless nothing is suspended that it could befall. -/
def next (w : Weave ε) : Event ε → Option (Except Fault Outcome × Weave ε)
  | .call operation =>
    let (r, q) := operation.enter w.process
    some (r, ⟨q, stillSuspended r ++ w.suspended⟩)
  | .resume =>
    match w.suspended with
    | [] => none
    | s :: pending =>
      let (r, q) := s.resume w.process
      some (r, ⟨q, stillSuspended r ++ pending⟩)
  | .abandon fault =>
    match w.suspended with
    | [] => none
    | s :: pending => some (.error fault, ⟨s.abandon w.process, pending⟩)

/-- So steps can be computed. -/
theorem step_of_next {w w' : Weave ε} {event : Event ε} {r : Except Fault Outcome}
    (h : w.next event = some (r, w')) : Step w event r w' := by
  obtain ⟨p, suspended⟩ := w
  cases event with
  | call operation =>
      obtain ⟨rfl, rfl⟩ := Prod.mk.inj (Option.some.inj h)
      exact .call rfl
  | resume =>
      cases suspended with
      | nil => cases h
      | cons s pending =>
          obtain ⟨rfl, rfl⟩ := Prod.mk.inj (Option.some.inj h)
          exact .resume rfl
  | abandon fault =>
      cases suspended with
      | nil => cases h
      | cons s pending =>
          obtain ⟨rfl, rfl⟩ := Prod.mk.inj (Option.some.inj h)
          exact .abandon

/-- The steps that events make one after the other, up to one that can befall nothing. -/
def play (w : Weave ε) : List (Event ε) → List (Occurrence ε) × Weave ε
  | [] => ([], w)
  | event :: rest =>
    match w.next event with
    | none => ([], w)
    | some (r, w') =>
      let (os, last) := play w' rest
      (⟨w, event, r, w'⟩ :: os, last)

theorem run_play (w : Weave ε) (events : List (Event ε)) :
    Run w (w.play events).1 (w.play events).2 := by
  induction events generalizing w with
  | nil => exact .nil w
  | cons event rest ih =>
      unfold play
      cases h : w.next event with
      | none => exact .nil w
      | some x => exact .cons (step_of_next h) (ih x.2)

end Weave

end SamplingProfiler
