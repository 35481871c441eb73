/-
The steps of a weave are the operations of the profiler.

`Operation.perform` is the operation as the profiler has it, over a choice of what happens
at each moment.  `Carries` says how an operation comes about from its parts under such a
choice.  The two agree for every choice (`carries_perform`).  So wherever the choice is to
run further operations, a run of the whole is a run of the weave (`Woven.perform`).
-/
import SamplingProfiler.Proofs.Interleaving.Weave

namespace SamplingProfiler

variable {ε : Type}

/-- Performs an operation of the profiler. -/
def Operation.perform (moments : Moments ε) : Operation ε → Action ε Result
  | start (.cpu milliseconds) => do return .started (← Action.startCpu moments milliseconds)
  | start .memory => do return .started (← Action.startMemory moments)
  | stop .cpu => do return .stopped (← Action.stopCpu moments)
  | stop .memory => do return .stopped (← Action.stopMemory)
  | tick => do Action.tick moments; return .done
  | probe size => do Action.probe moments size; return .done
  | note size => do Action.noteAllocation moments size; return .done
  | exportKind kind => do return .exported (← Action.exportKind moments kind)
  | host change => do Action.change change.apply; return .done

/-- What comes of an operation that has come so far, if this happens at its moments. -/
inductive Carries (moments : Moments ε) :
    Except Fault Outcome × Process ε → Except Fault Result × Process ε → Prop where
  | returned (result : Result) (p : Process ε) :
      Carries moments (.ok (.returned result), p) (.ok result, p)
  | faulted (e : Fault) (p : Process ε) : Carries moments (.error e, p) (.error e, p)
  | resumed {s : Suspended} {p q : Process ε} {x : Except Fault Result × Process ε}
      (hmoment : moments s.moment p = (.ok (), q)) (hrest : Carries moments (s.resume q) x) :
      Carries moments (.ok (.suspended s), p) x
  | abandoned {s : Suspended} {p q : Process ε} {e : Fault}
      (hmoment : moments s.moment p = (.error e, q)) :
      Carries moments (.ok (.suspended s), p) (.error e, s.abandon q)

section

variable (moments : Moments ε)

/-- Going on with the result of an action. -/
private theorem Carries.suspended {s : Suspended} {p : Process ε}
    {x : Except Fault Result × Process ε}
    (hok : ∀ q, moments s.moment p = (.ok (), q) → Carries moments (s.resume q) x)
    (herror : ∀ e q, moments s.moment p = (.error e, q) → x = (.error e, s.abandon q)) :
    Carries moments (.ok (.suspended s), p) x := by
  cases h : moments s.moment p with
  | mk r q =>
      cases r with
      | ok => exact .resumed h (hok q h)
      | error e =>
          rw [herror e q h]
          exact .abandoned h

/-- A sample arrives and is recorded. -/
private theorem carries_record (kind : SamplerKind) (weight : Weight) (p : Process ε) :
    Carries moments (arrive kind weight p)
      ((do Action.record moments kind weight; return .done : Action ε Result) p) := by
  unfold arrive Action.record
  simp only [Action.bind_apply, Action.read_apply]
  cases hlive : (p.sampler kind).live with
  | absent => exact .returned _ _
  | inUse => exact .returned _ _
  | ready log =>
      simp only [Action.bind_apply, Action.change_apply, Action.onFault]
      refine Carries.suspended moments (fun q hq => ?_) (fun e q hq => ?_)
      · rw [show moments .capture _ = _ from hq]
        exact .returned _ _
      · rw [show moments .capture _ = _ from hq]
        rfl

/-- Making a log when the dimensions were read before. -/
private theorem newLog_apply {p q : Process ε} (h : moments .newLog p = (.ok (), q)) :
    Action.newLog moments p = Action.makeLog p.settings q := by
  unfold Action.newLog
  simp only [Action.bind_apply, Action.read_apply, h]

private theorem makeLog_apply (settings : LogSettings) (p : Process ε) :
    Action.makeLog settings p = match settings.newLog p.nextHasher with
      | .ok log => (.ok log, p.drawHasher)
      | .error e => (.error (.panic e.message), p.drawHasher) := by
  unfold Action.makeLog
  simp only [Action.bind_apply, Action.read_apply, Action.change_apply]
  cases settings.newLog p.nextHasher <;> rfl

private theorem heldLog_apply (kind : SamplerKind) (p : Process ε) :
    Action.heldLog kind p = match (p.sampler kind).live with
      | .absent => (.ok none, p)
      | .ready log => (.ok (some log), p)
      | .inUse => (.error .deadlock, p) := by
  unfold Action.heldLog
  simp only [Action.bind_apply, Action.read_apply]
  cases (p.sampler kind).live <;> rfl

/-- A tick asks whether memory is being reclaimed, and then records. -/
private theorem carries_tick (p : Process ε) :
    Carries moments (Operation.tick.enter p) (Operation.perform moments .tick p) := by
  have hrecord := carries_record moments .cpu p.cpu.interval
  unfold Operation.enter Operation.perform Action.tick Action.askReclaiming
  simp only [Action.isRunning, Action.bind_apply, Action.read_apply, Process.sampler]
  cases hrun : p.cpu.running with
  | false => exact .returned _ _
  | true =>
      simp only [if_true, Action.bind_apply, Action.read_apply]
      cases p.reportsReclaims with
      | false => exact hrecord p
      | true =>
          refine Carries.suspended moments (fun q hq => ?_) (fun e q hq => ?_)
          · simp only [if_true, Action.bind_apply, show moments .reclaim p = _ from hq,
              Action.read_apply]
            unfold Suspended.resume
            dsimp only
            cases q.stack.isReclaiming with
            | false => exact hrecord q
            | true => exact .returned _ _
          · simp only [if_true, Action.bind_apply, show moments .reclaim p = _ from hq]
            rfl

private theorem carries_probe (size : Weight) (p : Process ε) :
    Carries moments ((Operation.probe size).enter p)
      (Operation.perform moments (.probe size) p) := by
  have hrecord := carries_record moments .memory size p
  unfold Operation.enter Operation.perform Action.probe
  simp only [Action.isRunning, Action.bind_apply, Action.read_apply, Process.sampler]
  cases p.memory.running with
  | false => exact .returned _ _
  | true => exact hrecord

private theorem carries_note (size : Weight) (p : Process ε) :
    Carries moments ((Operation.note size).enter p)
      (Operation.perform moments (.note size) p) := by
  unfold Operation.enter Operation.perform Action.noteAllocation
  simp only [Action.isRunning, Action.bind_apply, Action.read_apply, Process.sampler]
  cases p.memory.running with
  | false => exact .returned _ _
  | true =>
      simp only [if_true, Action.bind_apply, Action.read_apply, Action.change_apply]
      cases (p.memory.gate.note size).1 with
      | none => exact .returned _ _
      | some bytes => exact carries_record moments .memory bytes _

private theorem carries_stop (kind : SamplerKind) (p : Process ε) :
    Carries moments ((Operation.stop kind).enter p)
      (Operation.perform moments (.stop kind) p) := by
  cases kind with
  | memory => exact .returned _ _
  | cpu =>
      unfold Operation.enter Operation.perform Action.stopCpu Action.finish
      simp only [Action.isRunning, Action.bind_apply, Action.read_apply, Action.change_apply,
        Process.sampler, Action.pure_apply]
      cases p.cpu.running with
      | false => exact .returned _ _
      | true =>
          refine Carries.suspended moments (fun q hq => ?_) (fun e q hq => ?_)
          · simp only [if_true, Action.bind_apply, show moments .disarm _ = _ from hq]
            exact .returned _ _
          · simp only [if_true, Action.bind_apply, show moments .disarm _ = _ from hq]
            rfl

/-- An export from where it has a new log to install, or none. -/
private def conclude (kind : SamplerKind) (prepared : Option BacktraceLog) : Action ε Result := do
  let (log, dropped) ← Action.exchange moments kind prepared
  return .exported (← present log dropped kind)

private theorem perform_export (kind : SamplerKind) :
    Operation.perform moments (.exportKind kind) = (do
      let running ← Action.isRunning kind
      if running then
        let log ← Action.newLog moments
        conclude moments kind (some log)
      else conclude moments kind none) := by
  cases kind with
  | cpu =>
      simp only [Operation.perform, Action.exportKind, Action.exportCpu, Action.rotate, bind_assoc]
      refine bind_congr fun running => ?_
      cases running <;> simp [conclude, present]
  | memory =>
      simp only [Operation.perform, Action.exportKind, Action.exportMemory, Action.rotate,
        bind_assoc]
      refine bind_congr fun running => ?_
      cases running <;> simp [conclude, present]

private theorem carries_presented (log : Option BacktraceLog) (dropped : Nat) (kind : SamplerKind)
    (p : Process ε) :
    Carries moments ((Outcome.returned <$> Result.exported <$> present log dropped kind) p)
      ((do return .exported (← present log dropped kind) : Action ε Result) p) := by
  simp only [← bind_pure_comp, Action.bind_apply]
  rcases present log dropped kind p with ⟨e | snapshot, q⟩
  · exact .faulted e q
  · exact .returned _ q

/-- A log is installed in a running sampler only, so a stopped one needs none. -/
private theorem exchange_apply (kind : SamplerKind) (prepared : Option BacktraceLog)
    (p : Process ε) (h : prepared = none → (p.sampler kind).running = false) :
    Action.exchange moments kind prepared p = match (p.sampler kind).live with
      | .inUse => (.error .deadlock, p)
      | live => (.ok (live.log?, (p.sampler kind).dropped), p.mapSampler kind fun s => { s with
          live := .ofOption (if (p.sampler kind).running then prepared else none)
          dropped := 0 }) := by
  unfold Action.exchange Action.heldLog Action.preparedOr
  simp only [Action.isRunning, Action.bind_apply, Action.read_apply]
  cases (p.sampler kind).live with
  | inUse => rfl
  | absent | ready =>
      cases hrun : (p.sampler kind).running with
      | false =>
          simp only [if_false, hrun, Action.bind_apply, Action.pure_apply, Action.read_apply,
            Action.change_apply, Bool.false_eq_true]
          rfl
      | true =>
          cases prepared with
          | none => rw [hrun] at h; exact absurd (h rfl) (by simp)
          | some log =>
              simp only [if_true, hrun, Action.bind_apply, Action.pure_apply, Action.read_apply,
                Action.change_apply]
              rfl

private theorem carries_handOver (kind : SamplerKind) (prepared : Option BacktraceLog)
    (p : Process ε) (h : prepared = none → (p.sampler kind).running = false) :
    Carries moments (handOver kind prepared p) (conclude moments kind prepared p) := by
  unfold handOver conclude
  rw [Action.bind_apply, exchange_apply moments kind prepared p h]
  cases (p.sampler kind).live with
  | inUse => exact .faulted _ _
  | absent | ready => exact carries_presented moments _ _ kind _

private theorem carries_export (kind : SamplerKind) (p : Process ε) :
    Carries moments ((Operation.exportKind kind).enter p)
      (Operation.perform moments (.exportKind kind) p) := by
  rw [perform_export]
  unfold Operation.enter
  simp only [Action.isRunning, Action.bind_apply, Action.read_apply]
  cases hrun : (p.sampler kind).running with
  | false => exact carries_handOver moments kind none p fun _ => hrun
  | true =>
      refine Carries.suspended moments (fun q hq => ?_) (fun e q hq => ?_)
      · simp only [if_true, Action.bind_apply, newLog_apply moments hq, makeLog_apply]
        unfold Suspended.resume
        dsimp only
        cases p.settings.newLog q.nextHasher with
        | error e => exact .faulted _ _
        | ok log => exact carries_handOver moments kind (some log) _ (by simp)
      · simp only [if_true, Action.newLog, Action.bind_apply, Action.read_apply,
          show moments .newLog p = _ from hq]
        rfl

/-- A start from where the sampler is running and has a log. -/
private def proceed (fresh : Bool) : StartRequest → Action ε (Except SamplerError Unit)
  | .memory => return .ok ()
  | .cpu milliseconds => Action.pace moments milliseconds fresh

private theorem perform_start (request : StartRequest) :
    Operation.perform moments (.start request) =
      if request = .cpu 0 then pure (.started (.error .invalidInterval))
      else (do
        match (← Action.begin moments request.kind) with
        | .error e => return .started (.error e)
        | .ok fresh => return .started (← proceed moments fresh request)) := by
  cases request with
  | memory =>
      unfold Operation.perform Action.startMemory
      rw [bind_assoc, if_neg (by simp)]
      refine bind_congr fun r => ?_
      cases r <;> rfl
  | cpu milliseconds =>
      show (do return .started (← Action.startCpu moments milliseconds) : Action ε Result) = _
      unfold Action.startCpu
      by_cases hzero : milliseconds = 0
      · rw [if_pos hzero, if_pos (by rw [hzero]), pure_bind]
      · rw [if_neg hzero, if_neg (by simpa using hzero), bind_assoc]
        refine bind_congr fun r => ?_
        cases r <;> rfl

private theorem carries_proceed (fresh : Bool) (request : StartRequest) (p : Process ε) :
    Carries moments (request.proceed fresh p)
      ((do return .started (← proceed moments fresh request) : Action ε Result) p) := by
  cases request with
  | memory => exact .returned _ _
  | cpu milliseconds =>
      -- the interval may be set twice
      have hpace : Action.pace moments milliseconds fresh p
          = Action.pace moments milliseconds false { p with cpu := { p.cpu with
              gcWeight := if fresh then 0 else p.cpu.gcWeight
              interval := milliseconds } } := by
        cases fresh <;> rfl
      rw [Action.bind_apply, show proceed moments fresh (.cpu milliseconds) p = _ from hpace]
      unfold Action.pace Action.armTimer
      simp only [Bool.false_eq_true, if_false, Action.bind_apply, Action.change_apply]
      refine Carries.suspended moments (fun q hq => ?_) (fun e q hq => ?_)
      · simp only [Action.read_apply, show moments .arm _ = _ from hq]
        unfold Suspended.resume
        dsimp only
        cases q.timer.tryArm milliseconds with
        | ok timer => exact .returned _ _
        | error e => exact .returned _ _
      · simp only [show moments .arm _ = _ from hq]
        rfl

/-- What is done with a log that was made for a start. -/
private theorem carries_install (request : StartRequest) (fresh : BacktraceLog) (p : Process ε) :
    Carries moments
      (match (p.sampler request.kind).live with
        | .inUse => (.error .deadlock, p)
        | .ready _ => request.proceed false p
        | .absent => request.proceed true (p.setLive request.kind (.ready fresh)))
      ((do
        let installed ← Action.install request.kind fresh
        return .started (← proceed moments installed request) : Action ε Result) p) := by
  unfold Action.install
  simp only [Action.bind_apply, heldLog_apply]
  cases (p.sampler request.kind).live with
  | inUse => exact .faulted _ _
  | ready => exact carries_proceed moments false request p
  | absent => exact carries_proceed moments true request _

private theorem carries_start (request : StartRequest) (p : Process ε) :
    Carries moments ((Operation.start request).enter p)
      (Operation.perform moments (.start request) p) := by
  rw [perform_start]
  unfold Operation.enter
  dsimp only
  by_cases hzero : request = .cpu 0
  · rw [if_pos hzero, if_pos hzero]
    exact .returned _ _
  · rw [if_neg hzero, if_neg hzero, Action.bind_apply]
    unfold Action.begin
    simp only [Action.isRunning, Action.bind_apply, Action.read_apply]
    cases (p.sampler request.kind).running with
    | true => exact .returned _ _
    | false =>
        have hlive : ((p.setRunning request.kind true).sampler request.kind).live
            = (p.sampler request.kind).live := by simp [Process.setRunning]
        have hsettings : (p.setRunning request.kind true).settings = p.settings := by
          simp [Process.setRunning]
        simp only [Bool.false_eq_true, if_false, Action.bind_apply, Action.change_apply,
          heldLog_apply, hlive]
        cases (p.sampler request.kind).live with
        | inUse => exact .faulted _ _
        | ready => exact carries_proceed moments false request _
        | absent =>
            refine Carries.suspended moments (fun q hq => ?_) (fun e q hq => ?_)
            · simp only [Option.isSome_none, Bool.false_eq_true, if_false, Action.bind_apply,
                newLog_apply moments hq, makeLog_apply, hsettings]
              unfold Suspended.resume
              dsimp only
              cases p.settings.newLog q.nextHasher with
              | error e => exact .faulted _ _
              | ok fresh =>
                  have hinstall := carries_install moments request fresh q.drawHasher
                  rw [Action.bind_apply] at hinstall
                  dsimp only at hinstall ⊢
                  revert hinstall
                  rcases Action.install request.kind fresh q.drawHasher with ⟨e | _, q'⟩ <;>
                    exact id
            · simp only [Option.isSome_none, Bool.false_eq_true, if_false, Action.newLog,
                Action.bind_apply, Action.read_apply, show moments .newLog _ = _ from hq]
              rfl

/-- An operation is what its parts make of it, whatever happens at its moments. -/
theorem carries_perform (operation : Operation ε) (p : Process ε) :
    Carries moments (operation.enter p) (operation.perform moments p) := by
  cases operation with
  | start request => exact carries_start moments request p
  | stop kind => exact carries_stop moments kind p
  | tick => exact carries_tick moments p
  | probe size => exact carries_probe moments size p
  | note size => exact carries_note moments size p
  | exportKind kind => exact carries_export moments kind p
  | host change => exact .returned _ _

end

/-! ### Runs

If whatever is run at the moments of an operation can be followed step by step, so can the operation
(`run_perform`).  What is suspended beneath it does not matter and is left as it is, and so the
operations run at its moments may have moments of their own.
-/

/-- How an operation ends, said of its last part. -/
def ending : Except Fault Result → Except Fault Outcome
  | .ok result => .ok (.returned result)
  | .error e => .error e

/-- Whatever is suspended, what the action does to the process is a run of the weave. -/
def Woven {α : Type} (x : Action ε α) : Prop :=
  ∀ (p : Process ε) (pending : List Suspended),
    ∃ os, Weave.Run ⟨p, pending⟩ os ⟨(x p).2, pending⟩

/-- How the last of some steps ends, if the one before them ends so. -/
def lastOutcome (first : Except Fault Outcome) (os : List (Occurrence ε)) : Except Fault Outcome :=
  os.foldl (fun _ o => o.outcome) first

/-- From a part to the end of its operation, if moments are woven. -/
private theorem Carries.woven {moments : Moments ε} (hm : ∀ moment, Woven (moments moment))
    {x : Except Fault Outcome × Process ε} {y : Except Fault Result × Process ε}
    (h : Carries moments x y) (pending : List Suspended) :
    ∃ os, Weave.Run ⟨x.2, stillSuspended x.1 ++ pending⟩ os ⟨y.2, pending⟩ ∧
      lastOutcome x.1 os = ending y.1 := by
  induction h with
  | returned | faulted => exact ⟨[], .nil _, rfl⟩
  | @resumed s p q y hmoment _ ih =>
      obtain ⟨os, hos⟩ := hm s.moment p (s :: pending)
      obtain ⟨os', hos', hlast⟩ := ih
      rw [hmoment] at hos
      refine ⟨_, hos.append (.cons (.resume rfl) hos'), ?_⟩
      rw [← hlast]
      exact List.foldl_append
  | @abandoned s p q e hmoment =>
      obtain ⟨os, hos⟩ := hm s.moment p (s :: pending)
      rw [hmoment] at hos
      refine ⟨_, hos.append (.cons (@Weave.Step.abandon _ _ _ e _) (.nil _)), ?_⟩
      exact List.foldl_append

/-- If further operations are run at the moments of an operation, the whole is a run of the
weave that begins with its call and ends as it does. -/
theorem run_perform {moments : Moments ε} (hm : ∀ moment, Woven (moments moment))
    (operation : Operation ε) (p : Process ε) (pending : List Suspended) :
    ∃ o os, Weave.Run ⟨p, pending⟩ (o :: os) ⟨(operation.perform moments p).2, pending⟩ ∧
      o.event = .call operation ∧
      lastOutcome o.outcome os = ending (operation.perform moments p).1 := by
  obtain ⟨os, hos, hlast⟩ := (carries_perform moments operation p).woven hm pending
  exact ⟨_, os, .cons (.call rfl) hos, rfl, hlast⟩

namespace Woven

variable {α β : Type}

theorem pure (a : α) : Woven (Pure.pure a : Action ε α) := fun _ _ => ⟨[], .nil _⟩

theorem read (f : Process ε → α) : Woven (Action.read f) := fun _ _ => ⟨[], .nil _⟩

theorem fault (e : Fault) : Woven (Action.fault e : Action ε α) := fun _ _ => ⟨[], .nil _⟩

/-- What the host does is a call of its own. -/
theorem change (change : HostChange ε) : Woven (Action.change change.apply) := fun _ _ =>
  ⟨_, .cons (@Weave.Step.call _ (.host change) _ _ _ _ rfl) (.nil _)⟩

theorem bind {x : Action ε α} {f : α → Action ε β} (hx : Woven x) (hf : ∀ a, Woven (f a)) :
    Woven (x >>= f) := by
  intro p pending
  obtain ⟨os, hos⟩ := hx p pending
  rw [Action.bind_apply]
  rcases hr : x p with ⟨e | a, q⟩
  · rw [hr] at hos
    exact ⟨os, hos⟩
  · rw [hr] at hos
    obtain ⟨os', hos'⟩ := hf a q pending
    exact ⟨_, hos.append hos'⟩

theorem perform {moments : Moments ε} (hm : ∀ moment, Woven (moments moment))
    (operation : Operation ε) : Woven (operation.perform moments) := fun p pending =>
  have ⟨_, _, hos, _⟩ := run_perform hm operation p pending
  ⟨_, hos⟩

end Woven

end SamplingProfiler
