/-
Whether the timer does what the state of the CPU sampler says.

A start raises the running flag, sets the interval and arms the timer; a stop lowers the flag
and disarms the timer.  Neither is done in one step.  A start that cannot arm the timer
lowers the flag again.  Between these steps the timer lags behind the flag, and nothing
looks at the flag again when the timer is set.

So it depends on what comes in between.  Ticks, samples, exports, starts of a sampler that is
running and stops of one that is not: none of them matters, and the timer follows the state
(`alarm_follows_state`).  What is needed is that no start or stop takes effect between the
steps of another.  If one does, the timer can be off for a running sampler, or on for a
stopped one, and it stays so (`alarm_left_behind`).

Only the starts and stops of the CPU sampler move the flag, the interval or the timer; every
other part of an operation leaves them `Steady`.
-/
import SamplingProfiler.Proofs.Interleaving.Calm

namespace SamplingProfiler

variable {ε : Type}

/-- Is this a start or a stop of the CPU sampler? -/
def Suspended.paces : Suspended → Bool
  | starting (.cpu _) _ => true
  | arming _ => true
  | disarming => true
  | _ => false

/-- Is this a start or a stop of the CPU sampler? -/
def Operation.paces : Operation ε → Bool
  | start (.cpu _) => true
  | stop .cpu => true
  | _ => false

/-- Does a start or a stop of the CPU sampler take effect while another is suspended? -/
def Occurrence.cutsIn (o : Occurrence ε) : Bool :=
  o.calls && o.before.suspended.any (·.paces)
    && (o.after.process.cpu.running != o.before.process.cpu.running)

/-! ### What leaves the timer alone -/

/-- A part of an operation that moves neither the flag nor the interval of the CPU sampler, nor
its timer, and is not going to. -/
structure Steady (p : Process ε) (x : Except Fault Outcome × Process ε) : Prop where
  running : x.2.cpu.running = p.cpu.running
  interval : x.2.cpu.interval = p.cpu.interval
  armed : x.2.timer.armed = p.timer.armed
  suspended : ∀ s, x.1 = .ok (.suspended s) → s.paces = false

section

variable {p : Process ε}

theorem Steady.trans {q : Process ε} {r : Except Fault Outcome}
    {x : Except Fault Outcome × Process ε} (h : Steady p (r, q)) (h' : Steady q x) : Steady p x :=
  ⟨h'.running.trans h.running, h'.interval.trans h.interval, h'.armed.trans h.armed, h'.suspended⟩

private theorem steady_of_eq {q : Process ε} {r : Except Fault Outcome} (hcpu : q.cpu = p.cpu)
    (harmed : q.timer.armed = p.timer.armed)
    (hs : ∀ s, r = .ok (.suspended s) → s.paces = false) : Steady p (r, q) :=
  ⟨by rw [hcpu], by rw [hcpu], harmed, hs⟩

private theorem steady_mapSampler {kind : SamplerKind} {f : Sampler → Sampler}
    (hf : kind = .cpu → (f p.cpu.toSampler).running = p.cpu.running) {r : Except Fault Outcome}
    (hs : ∀ s, r = .ok (.suspended s) → s.paces = false) : Steady p (r, p.mapSampler kind f) := by
  cases kind with
  | cpu => exact ⟨hf rfl, rfl, rfl, hs⟩
  | memory => exact ⟨rfl, rfl, rfl, hs⟩

private theorem steady_arrive (kind : SamplerKind) (weight : Weight) :
    Steady p (arrive kind weight p) := by
  unfold arrive
  cases (p.sampler kind).live with
  | absent => exact steady_of_eq rfl rfl nofun
  | inUse => exact steady_mapSampler (fun _ => rfl) nofun
  | ready => exact steady_mapSampler (fun _ => rfl) (by rintro s ⟨⟩; rfl)

private theorem steady_handOver (kind : SamplerKind) (prepared : Option BacktraceLog) :
    Steady p (handOver kind prepared p) := by
  by_cases hlive : (p.sampler kind).live = .inUse
  · unfold handOver
    rw [hlive]
    exact steady_of_eq rfl rfl nofun
  · rw [handOver_apply prepared hlive]
    generalize snapshotOf _ _ _ _ _ = snapshot
    have hs : ∀ s, presented snapshot = .ok (.suspended s) → s.paces = false :=
      fun s hs => absurd hs (presented_ne_suspended snapshot s)
    cases kind <;> exact ⟨rfl, rfl, rfl, hs⟩

/-- Only calls that start or stop the CPU sampler move the timer. -/
theorem steady_enter {operation : Operation ε} (hpaces : operation.paces = false) :
    Steady p (operation.enter p) := by
  cases operation with
  | start request =>
      cases request with
      | cpu milliseconds => cases hpaces
      | memory =>
          unfold Operation.enter
          dsimp only
          split
          · exact steady_of_eq rfl rfl nofun
          · split
            · exact steady_of_eq rfl rfl nofun
            · cases (p.sampler StartRequest.memory.kind).live with
              | inUse => exact steady_of_eq rfl rfl nofun
              | absent => exact steady_of_eq rfl rfl (by rintro s ⟨⟩; rfl)
              | ready => exact steady_of_eq rfl rfl nofun
  | stop kind =>
      cases kind with
      | cpu => cases hpaces
      | memory =>
          unfold Operation.enter
          dsimp only
          rw [if_neg (by simp)]
          exact steady_of_eq rfl rfl nofun
  | tick =>
      unfold Operation.enter
      dsimp only
      split
      · split
        · exact steady_of_eq rfl rfl (by rintro s ⟨⟩; rfl)
        · exact steady_arrive _ _
      · exact steady_of_eq rfl rfl nofun
  | probe size =>
      unfold Operation.enter
      dsimp only
      split
      · exact steady_arrive _ _
      · exact steady_of_eq rfl rfl nofun
  | note size =>
      unfold Operation.enter
      dsimp only
      split
      · have hnoted : Steady p (.error .deadlock, { p with memory := { p.memory with
            gate := (p.memory.gate.note size).2 } }) := steady_of_eq rfl rfl nofun
        split
        · exact hnoted.trans (steady_arrive _ _)
        · exact steady_of_eq rfl rfl nofun
      · exact steady_of_eq rfl rfl nofun
  | exportKind kind =>
      unfold Operation.enter
      dsimp only
      split
      · exact steady_of_eq rfl rfl (by rintro s ⟨⟩; rfl)
      · exact steady_handOver kind none
  | host change =>
      exact steady_of_eq (change.cpu_apply p) (change.armed_apply p) nofun

/-- Only suspended starts and stops of the CPU sampler move the timer when they go on. -/
theorem steady_resume {s : Suspended} (hpaces : s.paces = false) : Steady p (s.resume p) := by
  cases s with
  | starting request settings =>
      cases request with
      | cpu milliseconds => cases hpaces
      | memory =>
          unfold Suspended.resume
          dsimp only
          cases settings.newLog p.nextHasher with
          | error e => exact steady_of_eq rfl rfl nofun
          | ok fresh =>
              dsimp only
              cases (p.sampler StartRequest.memory.kind).live with
              | inUse => exact steady_of_eq rfl rfl nofun
              | ready => exact steady_of_eq rfl rfl nofun
              | absent => exact steady_of_eq rfl rfl nofun
  | arming milliseconds => cases hpaces
  | disarming => cases hpaces
  | asking interval =>
      unfold Suspended.resume
      dsimp only
      split
      · exact ⟨rfl, rfl, rfl, nofun⟩
      · exact steady_arrive _ _
  | recording kind log weight => exact steady_mapSampler (fun _ => rfl) nofun
  | exporting kind settings =>
      unfold Suspended.resume
      dsimp only
      cases settings.newLog p.nextHasher with
      | error e => exact steady_of_eq rfl rfl nofun
      | ok fresh =>
          have hdrawn : Steady p (.error .deadlock, p.drawHasher) := steady_of_eq rfl rfl nofun
          exact hdrawn.trans (steady_handOver kind (some fresh))

end

/-! ### The flag, the interval, the timer and who is about to set them

The state and the timer do not say by themselves where they are going.  So the starts and stops that
are suspended belong to `Pacing` too, the latest first, as each of them is yet to set the timer.
-/

/-- The state of the CPU sampler and of its timer, and the starts and stops that are
suspended, the latest first. -/
structure Pacing where
  running : Bool
  interval : Weight
  armed : Option Weight
  pending : List Suspended

def Weave.pacing (w : Weave ε) : Pacing where
  running := w.process.cpu.running
  interval := w.process.cpu.interval
  armed := w.process.timer.armed
  pending := w.suspended.filter (·.paces)

/-- The microseconds between ticks that are so many milliseconds apart. -/
def tickPeriod (milliseconds : Weight) : Weight := .ofNat (1000 * milliseconds.val)

/-- The parts that starts and stops are made of.  The flag says whether something is
called. -/
inductive Pacing.Shift (v : Pacing) : Bool → Pacing → Prop where
  | rest {called : Bool} : Shift v called v
  /-- A start finds no log and is about to make one. -/
  | raise {milliseconds : Weight} {settings : LogSettings} (hrun : v.running = false)
      (hms : milliseconds ≠ 0) : Shift v true { v with
        running := true, pending := .starting (.cpu milliseconds) settings :: v.pending }
  /-- A start finds a log and is about to arm the timer. -/
  | resumed {milliseconds : Weight} (hrun : v.running = false) (hms : milliseconds ≠ 0) :
      Shift v true { v with
        running := true, interval := milliseconds, pending := .arming milliseconds :: v.pending }
  /-- A start has made a log and is about to arm the timer. -/
  | made {milliseconds : Weight} {settings : LogSettings} {others : List Suspended}
      (hpending : v.pending = .starting (.cpu milliseconds) settings :: others) :
      Shift v false { v with
        interval := milliseconds, pending := .arming milliseconds :: others }
  /-- A start arms the timer, -/
  | armed {milliseconds : Weight} {others : List Suspended}
      (hpending : v.pending = .arming milliseconds :: others) :
      Shift v false { v with
        armed := some (Timer.microseconds 0 (milliseconds.val * 1000000)), pending := others }
  /-- or cannot. -/
  | refused {milliseconds : Weight} {others : List Suspended}
      (hpending : v.pending = .arming milliseconds :: others) :
      Shift v false { v with running := false, pending := others }
  /-- A stop is about to disarm the timer. -/
  | lower (hrun : v.running = true) :
      Shift v true { v with running := false, pending := .disarming :: v.pending }
  /-- A stop disarms the timer. -/
  | disarmed {others : List Suspended} (hpending : v.pending = .disarming :: others) :
      Shift v false { v with armed := none, pending := others }

section

variable {p : Process ε} {pending : List Suspended}

private theorem Steady.pacing_eq {x : Except Fault Outcome × Process ε} (h : Steady p x) :
    (⟨x.2, stillSuspended x.1 ++ pending⟩ : Weave ε).pacing = (⟨p, pending⟩ : Weave ε).pacing := by
  have hstill : (stillSuspended x.1).filter (·.paces) = [] := by
    unfold stillSuspended
    split
    · rename_i s hs
      exact List.filter_cons_of_neg (by rw [h.suspended s hs]; exact Bool.false_ne_true)
    · rfl
  unfold Weave.pacing
  rw [h.running, h.interval, h.armed, List.filter_append, hstill, List.nil_append]

private theorem shift_of_call {operation : Operation ε}
    (hblock : (operation.enter p).1 ≠ .error .deadlock) :
    (⟨p, pending⟩ : Weave ε).pacing.Shift true
      (⟨(operation.enter p).2, stillSuspended (operation.enter p).1 ++ pending⟩ :
        Weave ε).pacing := by
  by_cases hpaces : operation.paces = true
  · cases operation with
    | start request =>
        cases request with
        | memory => cases hpaces
        | cpu milliseconds =>
            unfold Operation.enter at hblock ⊢
            dsimp only at hblock ⊢
            split at hblock
            · rename_i hzero
              rw [if_pos hzero]
              exact .rest
            · rename_i hzero
              rw [if_neg hzero]
              have hms : milliseconds ≠ 0 := fun h => hzero (by rw [h])
              cases hrun : (p.sampler (StartRequest.cpu milliseconds).kind).running with
              | true => exact .rest
              | false =>
                  rw [hrun] at hblock
                  simp only [Bool.false_eq_true, if_false] at hblock ⊢
                  cases hlive : (p.sampler (StartRequest.cpu milliseconds).kind).live with
                  | inUse =>
                      rw [hlive] at hblock
                      exact absurd rfl hblock
                  | absent => exact .raise hrun hms
                  | ready log => exact .resumed hrun hms
    | stop kind =>
        cases kind with
        | memory => cases hpaces
        | cpu =>
            unfold Operation.enter
            dsimp only
            cases hrun : (p.sampler .cpu).running with
            | true => exact .lower hrun
            | false =>
                have hsame : (⟨p.setRunning .cpu false, pending⟩ : Weave ε).pacing
                    = (⟨p, pending⟩ : Weave ε).pacing := by
                  unfold Weave.pacing
                  rw [show p.cpu.running = false from hrun]
                  rfl
                rw [if_neg (by simp)]
                show Pacing.Shift _ true (⟨p.setRunning .cpu false, pending⟩ : Weave ε).pacing
                rw [hsame]
                exact .rest
    | tick | probe | note | exportKind | host => cases hpaces
  · rw [(steady_enter (Bool.eq_false_iff.mpr hpaces)).pacing_eq]
    exact .rest

private theorem shift_of_resume {s : Suspended} {r : Except Fault Outcome} {q : Process ε}
    (hresume : s.resume p = (r, q))
    (hcalm : (Occurrence.mk ⟨p, s :: pending⟩ .resume r ⟨q, stillSuspended r ++ pending⟩).Calm) :
    (⟨p, s :: pending⟩ : Weave ε).pacing.Shift false
      (⟨q, stillSuspended r ++ pending⟩ : Weave ε).pacing := by
  obtain ⟨rfl, rfl⟩ : (s.resume p).1 = r ∧ (s.resume p).2 = q := by
    rw [hresume]
    exact ⟨rfl, rfl⟩
  by_cases hpaces : s.paces = true
  · cases s with
    | starting request settings =>
        cases request with
        | memory => cases hpaces
        | cpu milliseconds =>
            obtain ⟨fresh, hfresh⟩ : ∃ log, settings.newLog p.nextHasher = .ok log :=
              hcalm.created settings rfl
            have hblock := hcalm.unblocked
            unfold Suspended.resume at hblock ⊢
            simp only [hfresh] at hblock ⊢
            cases hlive : (p.sampler (StartRequest.cpu milliseconds).kind).live with
            | inUse =>
                rw [hlive] at hblock
                exact absurd rfl hblock
            | ready log => exact .made rfl
            | absent => exact .made rfl
    | arming milliseconds =>
        unfold Suspended.resume Timer.tryArm
        dsimp only
        cases p.timer.fault with
        | some error => exact .refused rfl
        | none => exact .armed rfl
    | disarming => exact .disarmed rfl
    | asking | recording | exporting => cases hpaces
  · have hs : s.paces = false := Bool.eq_false_iff.mpr hpaces
    rw [(steady_resume hs).pacing_eq]
    have hsame : (⟨p, s :: pending⟩ : Weave ε).pacing = (⟨p, pending⟩ : Weave ε).pacing := by
      unfold Weave.pacing
      rw [List.filter_cons_of_neg hpaces]
    rw [hsame]
    exact .rest

end

/-- Every calm step is a part of a start or a stop, or leaves the timer alone. -/
theorem Weave.Step.shift {w w' : Weave ε} {event : Event ε} {r : Except Fault Outcome}
    (h : Weave.Step w event r w') (hcalm : (Occurrence.mk w event r w').Calm) :
    w.pacing.Shift (Occurrence.mk w event r w').calls w'.pacing := by
  cases h with
  | @call operation p q r pending henter =>
      have hblock := hcalm.unblocked
      obtain ⟨rfl, rfl⟩ : (operation.enter p).1 = r ∧ (operation.enter p).2 = q := by
        rw [henter]
        exact ⟨rfl, rfl⟩
      exact shift_of_call hblock
  | resume hresume => exact shift_of_resume hresume hcalm
  | abandon => exact absurd rfl (hcalm.unabandoned _)

/-! ### When the timer follows

`InStep` lists how flag, interval and timer may stand to each other while at most one start or stop
is suspended.  If another one moves the flag then, none of these fits, and no later step looks at
the flag to set it right.
-/

/-- The timer keeps step with the CPU sampler: it is armed for a running one and disarmed for
a stopped one, and while a single start or stop is suspended it is on its way there. -/
inductive Pacing.InStep : Pacing → Prop where
  | stopped (interval : Weight) : InStep ⟨false, interval, none, []⟩
  | running (interval : Weight) : InStep ⟨true, interval, some (tickPeriod interval), []⟩
  | starting (interval : Weight) {milliseconds : Weight} (settings : LogSettings)
      (hms : milliseconds ≠ 0) :
      InStep ⟨true, interval, none, [.starting (.cpu milliseconds) settings]⟩
  | arming {milliseconds : Weight} (hms : milliseconds ≠ 0) :
      InStep ⟨true, milliseconds, none, [.arming milliseconds]⟩
  | disarming (interval : Weight) :
      InStep ⟨false, interval, some (tickPeriod interval), [.disarming]⟩

theorem microseconds_eq_tickPeriod {milliseconds : Weight} (h : milliseconds ≠ 0) :
    Timer.microseconds 0 (milliseconds.val * 1000000) = tickPeriod milliseconds := by
  have hpos : milliseconds.val ≠ 0 := fun hzero => h (Weight.ext hzero)
  unfold Timer.microseconds tickPeriod
  congr 1
  omega

/-- The timer stays in step as long as no start or stop takes effect while another is
suspended. -/
theorem Pacing.InStep.shift {v v' : Pacing} {called : Bool} (hv : v.InStep)
    (h : v.Shift called v')
    (halone : called = true → v.pending ≠ [] → v'.running = v.running) : v'.InStep := by
  cases h with
  | rest => exact hv
  | raise hrun hms =>
      cases hv with
      | stopped interval => exact .starting interval _ hms
      | disarming => exact absurd (halone rfl (by simp)) (by simp)
      | running | starting | arming => cases hrun
  | resumed hrun hms =>
      cases hv with
      | stopped interval => exact .arming hms
      | disarming => exact absurd (halone rfl (by simp)) (by simp)
      | running | starting | arming => cases hrun
  | made hpending =>
      cases hv with
      | starting interval settings hms =>
          cases hpending
          exact .arming hms
      | stopped | running | arming | disarming => cases hpending
  | armed hpending =>
      cases hv with
      | arming hms =>
          cases hpending
          rw [microseconds_eq_tickPeriod hms]
          exact .running _
      | stopped | running | starting | disarming => cases hpending
  | refused hpending =>
      cases hv with
      | arming hms =>
          cases hpending
          exact .stopped _
      | stopped | running | starting | disarming => cases hpending
  | lower hrun =>
      cases hv with
      | running interval => exact .disarming interval
      | starting | arming => exact absurd (halone rfl (by simp)) (by simp)
      | stopped | disarming => cases hrun
  | disarmed hpending =>
      cases hv with
      | disarming interval =>
          cases hpending
          exact .stopped interval
      | stopped | running | starting | arming => cases hpending

/-- In a calm run in which no start or stop cuts in on another the timer stays in step. -/
theorem Weave.Run.inStep {w w' : Weave ε} {os : List (Occurrence ε)} (h : Weave.Run w os w')
    (hcalm : ∀ o ∈ os, o.Calm) (halone : ∀ o ∈ os, o.cutsIn = false) (hw : w.pacing.InStep) :
    w'.pacing.InStep := by
  induction h with
  | nil => exact hw
  | @cons w₁ w₂ w₃ event r os first rest ih =>
      refine ih (fun o ho => hcalm o (List.mem_cons_of_mem _ ho))
        (fun o ho => halone o (List.mem_cons_of_mem _ ho)) ?_
      refine hw.shift (first.shift (hcalm _ List.mem_cons_self)) fun hcalls hpending => ?_
      have hfirst := halone _ List.mem_cons_self
      have hsome : w₁.suspended.any (·.paces) = true := by
        obtain ⟨s, hs⟩ := List.exists_mem_of_ne_nil _ hpending
        exact List.any_eq_true.mpr ⟨s, List.mem_filter.mp hs⟩
      unfold Occurrence.cutsIn at hfirst
      rw [hcalls, hsome] at hfirst
      show w₂.process.cpu.running = w₁.process.cpu.running
      simpa using hfirst

/-- Whatever is called while a log is about to be made, the timer about to be armed or disarmed
or the host about to be asked: if no fault passes through an operation, logs can be made, and
no start or stop of the CPU sampler takes effect while another is suspended, then the timer
follows the state.  Unless a start or stop is suspended, it is armed with the interval of a
running sampler, cut off at the largest word, and disarmed for a stopped one.  At no time is
it armed with another interval than the one that ticks are credited with. -/
theorem alarm_follows_state {config : Config} {stackCapacity : Nat} {reportsReclaims : Bool}
    {hashers : HashFamily} {host : ε} {p : Process ε} {os : List (Occurrence ε)} {w : Weave ε}
    (hidle : Process.idle config stackCapacity reportsReclaims hashers host = .ok p)
    (hrun : Weave.Run ⟨p, []⟩ os w) (hcapture : ∀ o ∈ os, o.atCapture = false)
    (hpanic : ∀ o ∈ os, ∀ fault, o.event ≠ .abandon fault)
    (hcreated : ∀ o ∈ os, ∀ settings, o.creates = some settings →
      ∃ log, settings.newLog o.before.process.nextHasher = .ok log)
    (halone : ∀ o ∈ os, o.cutsIn = false) :
    ((∀ s ∈ w.suspended, s.paces = false) →
      w.process.timer.armed.map (·.val) =
        if w.process.cpu.running then some (min (1000 * w.process.cpu.interval.val) maxWord)
        else none)
    ∧ ∀ period ∈ w.process.timer.armed,
        period.val = min (1000 * w.process.cpu.interval.val) maxWord := by
  have hcalm := hrun.calm (fun kind => (custody_idle hidle).1) nofun hcapture hpanic hcreated
  have hstart : (⟨p, []⟩ : Weave ε).pacing.InStep := by
    rw [Process.eq_of_idle hidle]
    exact .stopped 0
  have hstep := hrun.inStep hcalm halone hstart
  generalize hv : w.pacing = v at hstep
  have hrunning : w.process.cpu.running = v.running := congrArg Pacing.running hv
  have hinterval : w.process.cpu.interval = v.interval := congrArg Pacing.interval hv
  have harmed : w.process.timer.armed = v.armed := congrArg Pacing.armed hv
  have hpending : w.suspended.filter (·.paces) = v.pending := congrArg Pacing.pending hv
  rw [hrunning, hinterval, harmed]
  constructor
  · intro hnone
    have hnil : v.pending = [] := by
      rw [← hpending, List.filter_eq_nil_iff]
      intro s hs
      rw [hnone s hs]
      exact Bool.false_ne_true
    cases hstep with
    | stopped | running => rfl
    | starting | arming | disarming => cases hnil
  · intro period hperiod
    cases hstep with
    | running | disarming =>
        obtain rfl := Option.some.inj hperiod
        rfl
    | stopped | starting | arming => cases hperiod

/-- For instance, while the timer is about to be armed a tick may come and a profile may be
exported. -/
theorem alarm_follows_state_exported_while_arming :
    ∃ (p : Process Unit) (os : List (Occurrence Unit)) (w : Weave Unit),
      Process.idle { logCapacity := 1, maxStackDepth := 1 } 1 false .mixing () = .ok p
      ∧ Weave.Run ⟨p, []⟩ os w ∧ os.length = 7 ∧ w.suspended = []
      ∧ (∀ o ∈ os, o.atCapture = false) ∧ (∀ o ∈ os, ∀ fault, o.event ≠ .abandon fault)
      ∧ (∀ o ∈ os, ∀ settings, o.creates = some settings →
        ∃ log, settings.newLog o.before.process.nextHasher = .ok log)
      ∧ (∀ o ∈ os, o.cutsIn = false)
      ∧ w.process.timer.armed.map (·.val) = some 10000 := by
  obtain ⟨p, hidle⟩ : ∃ p : Process Unit,
      Process.idle { logCapacity := 1, maxStackDepth := 1 } 1 false .mixing () = .ok p := ⟨_, rfl⟩
  have hp := Process.eq_of_idle hidle
  obtain ⟨os, w, hos, hw, hrun, hsuspended, hcapture, hpanic, hcreated⟩ := exists_run_of_events p
    [.call (.start (.cpu (.ofNat 10))), .resume, .call .tick, .resume, .call (.exportKind .cpu),
      .resume, .resume] (by rw [hp]; decide +kernel)
  have halone : os.all (!·.cutsIn) = true := by
    rw [hos, hp]
    decide +kernel
  have halone' : ∀ o ∈ os, o.cutsIn = false := fun o ho => by
    simpa using List.all_eq_true.mp halone o ho
  have hlength : os.length = 7 := by
    rw [hos, hp]
    rfl
  have hrunning : w.process.cpu.running = true ∧ w.process.cpu.interval.val = 10 := by
    rw [hw, hp]
    decide +kernel
  have hfollows := (alarm_follows_state hidle hrun hcapture hpanic hcreated halone').1
    (by rw [hsuspended]; nofun)
  rw [hrunning.1, hrunning.2] at hfollows
  exact ⟨p, os, w, hidle, hrun, hlength, hsuspended, hcapture, hpanic, hcreated, halone', hfollows⟩

/-- If a start or stop does cut in, the timer can be left behind, with nothing suspended that
would see to it: a sampler that is started while it is being stopped runs without a timer, and
one that is stopped while it is being started leaves the timer armed. -/
theorem alarm_left_behind :
    ∃ p : Process Unit,
      Process.idle { logCapacity := 1, maxStackDepth := 1 } 1 false .mixing () = .ok p
      ∧ (∃ os w, Weave.Run ⟨p, []⟩ os w ∧ w.suspended = [] ∧ (∀ o ∈ os, o.atCapture = false)
        ∧ (∀ o ∈ os, ∀ fault, o.event ≠ .abandon fault)
        ∧ (∀ o ∈ os, ∀ settings, o.creates = some settings →
          ∃ log, settings.newLog o.before.process.nextHasher = .ok log)
        ∧ w.process.cpu.running = true ∧ w.process.timer.armed = none)
      ∧ ∃ os w, Weave.Run ⟨p, []⟩ os w ∧ w.suspended = [] ∧ (∀ o ∈ os, o.atCapture = false)
        ∧ (∀ o ∈ os, ∀ fault, o.event ≠ .abandon fault)
        ∧ (∀ o ∈ os, ∀ settings, o.creates = some settings →
          ∃ log, settings.newLog o.before.process.nextHasher = .ok log)
        ∧ w.process.cpu.running = false ∧ w.process.timer.armed = some (.ofNat 10000) := by
  obtain ⟨p, hidle⟩ : ∃ p : Process Unit,
      Process.idle { logCapacity := 1, maxStackDepth := 1 } 1 false .mixing () = .ok p := ⟨_, rfl⟩
  have hp := Process.eq_of_idle hidle
  refine ⟨p, hidle, ?_, ?_⟩
  · obtain ⟨os, w, -, hw, hrun, hsuspended, hcapture, hpanic, hcreated⟩ := exists_run_of_events p
      [.call (.start (.cpu (.ofNat 10))), .resume, .resume, .call (.stop .cpu),
        .call (.start (.cpu (.ofNat 10))), .resume, .resume] (by rw [hp]; decide +kernel)
    have hend : w.process.cpu.running = true ∧ w.process.timer.armed = none := by
      rw [hw, hp]
      decide +kernel
    exact ⟨os, w, hrun, hsuspended, hcapture, hpanic, hcreated, hend⟩
  · obtain ⟨os, w, -, hw, hrun, hsuspended, hcapture, hpanic, hcreated⟩ := exists_run_of_events p
      [.call (.start (.cpu (.ofNat 10))), .resume, .call (.stop .cpu), .resume, .resume]
      (by rw [hp]; decide +kernel)
    have hend : w.process.cpu.running = false
        ∧ w.process.timer.armed = some (.ofNat 10000) := by
      rw [hw, hp]
      decide +kernel
    exact ⟨os, w, hrun, hsuspended, hcapture, hpanic, hcreated, hend⟩

end SamplingProfiler
