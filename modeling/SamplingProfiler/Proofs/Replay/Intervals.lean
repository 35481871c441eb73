/-
Which interval the CPU sampler says it has.

It is meant to be that of the latest start that succeeded.  But a start sets the interval before
it arms the timer, and if it cannot arm it, it takes back only the running flag.  So the
interval is that of the latest start that got as far as the timer, whether it succeeded or not
(`interval_unarmed`).  Starts that are refused, or that give up since no log can be made, do not
get there.

While the sampler is running, its interval is the one it was started with, since a start that
cannot arm the timer leaves the sampler stopped.  So no tick credits a wrong interval.
-/
import SamplingProfiler.Proofs.Interleaving.Pacing
import SamplingProfiler.Proofs.Replay.Book

namespace SamplingProfiler

variable {ε : Type}

/-! ### Starts of the CPU sampler

A start is refused, gives up for want of a log, succeeds, or cannot arm the timer (`CpuStart`).
Only the last two set the interval, and of these only the first leaves the sampler running.
-/

/-- The interval of a start of the CPU sampler that succeeds. -/
def Call.started? (c : Call ε) : Option Weight :=
  match c.operation with
  | .start (.cpu milliseconds) =>
    match (c.operation.perform .quiet c.process).1 with
    | .ok (.started (.ok ())) => some milliseconds
    | _ => none
  | _ => none

/-- The interval of a start of the CPU sampler that fails although the sampler is stopped and the
interval is not zero: the timer cannot be armed. -/
def Call.unarmed? (c : Call ε) : Option Weight :=
  match c.operation with
  | .start (.cpu milliseconds) =>
    match (c.operation.perform .quiet c.process).1 with
    | .ok (.started (.error _)) =>
      if milliseconds ≠ 0 ∧ c.process.cpu.running = false then some milliseconds else none
    | _ => none
  | _ => none

/-- The interval of a start that gets as far as the timer. -/
def Call.paced? (c : Call ε) : Option Weight := c.started?.or c.unarmed?

/-- What was said latest in some calls. -/
def latest {α : Type} (f : Call ε → Option α) (calls : List (Call ε)) : Option α :=
  (calls.filterMap f).getLast?

theorem latest_cons {α : Type} (f : Call ε → Option α) (c : Call ε) (rest : List (Call ε)) :
    latest f (c :: rest) = (latest f rest).or (f c) := by
  unfold latest
  rw [List.filterMap_cons]
  cases f c with
  | none => exact (Option.or_none ..).symm
  | some a =>
      rw [List.getLast?_cons]
      cases (rest.filterMap f).getLast? <;> rfl

section

variable {p : Process ε} {milliseconds : Weight}

/-- How a start of the CPU sampler ends. -/
inductive CpuStart (milliseconds : Weight) (p : Process ε) :
    Except Fault Result × Process ε → Prop where
  | refused {error : SamplerError} (h : milliseconds = 0 ∨ p.cpu.running = true) :
      CpuStart milliseconds p (.ok (.started (.error error)), p)
  /-- There is no log that it could use. -/
  | gaveUp {fault : Fault} {q : Process ε} (hinterval : q.cpu.interval = p.cpu.interval)
      (hwhy : p.cpu.live = .inUse ∨ ¬Call.Succeeds ⟨.start (.cpu milliseconds), p⟩) :
      CpuStart milliseconds p (.error fault, q)
  | succeeded {q : Process ε} (hinterval : q.cpu.interval = milliseconds) :
      CpuStart milliseconds p (.ok (.started (.ok ())), q)
  | unarmed {error : SamplerError} {q : Process ε} (hms : milliseconds ≠ 0)
      (hrun : p.cpu.running = false) (hinterval : q.cpu.interval = milliseconds)
      (hstopped : q.cpu.running = false) :
      CpuStart milliseconds p (.ok (.started (.error error)), q)

/-- The timer is armed, or it is not and the running flag is taken back. -/
private theorem cpuStart_of_proceed {fresh : Bool} {q : Process ε}
    {y : Except Fault Result × Process ε} (hms : milliseconds ≠ 0)
    (hrun : p.cpu.running = false)
    (h : Carries .quiet ((StartRequest.cpu milliseconds).proceed fresh q) y) :
    CpuStart milliseconds p y := by
  have harming := h.quiet_resumed
  unfold Suspended.resume Timer.tryArm at harming
  dsimp only at harming
  cases hfault : q.timer.fault with
  | none =>
      rw [hfault] at harming
      rw [harming.quiet_returned]
      exact .succeeded rfl
  | some error =>
      rw [hfault] at harming
      rw [harming.quiet_returned]
      exact .unarmed hms hrun rfl rfl

theorem quiet_start_cpu (milliseconds : Weight) (p : Process ε) :
    CpuStart milliseconds p ((Operation.start (.cpu milliseconds)).perform .quiet p) := by
  have h := carries_perform .quiet (.start (.cpu milliseconds)) p
  revert h
  generalize (Operation.start (.cpu milliseconds)).perform .quiet p = y
  generalize hrequest : StartRequest.cpu milliseconds = request
  have hkind : request.kind = .cpu := by rw [← hrequest]; rfl
  intro h
  unfold Operation.enter at h
  dsimp only at h
  rw [hkind] at h
  by_cases hzero : request = .cpu 0
  · rw [if_pos hzero] at h
    rw [h.quiet_returned]
    exact .refused (.inl (StartRequest.cpu.inj (hrequest.trans hzero)))
  rw [if_neg hzero] at h
  by_cases hrunning : (p.sampler .cpu).running = true
  · rw [if_pos hrunning] at h
    rw [h.quiet_returned]
    exact .refused (.inr hrunning)
  rw [if_neg hrunning] at h
  have hms : milliseconds ≠ 0 := fun hms => hzero (by rw [← hrequest, hms])
  have hrun : p.cpu.running = false := Bool.eq_false_iff.mpr hrunning
  subst hrequest
  cases hlive : (p.sampler .cpu).live with
  | inUse =>
      rw [hlive] at h
      rw [h.quiet_faulted]
      exact .gaveUp rfl (.inl hlive)
  | ready log =>
      rw [hlive] at h
      exact cpuStart_of_proceed hms hrun h
  | absent =>
      rw [hlive] at h
      have hstarting := h.quiet_resumed
      have hhasher : (p.setRunning .cpu true).nextHasher = p.nextHasher := rfl
      have hlive' : ((p.setRunning .cpu true).sampler (StartRequest.cpu milliseconds).kind).live
        = .absent := hlive
      unfold Suspended.resume at hstarting
      dsimp only at hstarting
      rw [hhasher, hlive'] at hstarting
      cases hmade : p.settings.newLog p.nextHasher with
      | error e =>
          rw [hmade] at hstarting
          rw [hstarting.quiet_faulted]
          refine .gaveUp rfl (.inr fun hsucceeds => ?_)
          have hok : (p.settings.newLog p.nextHasher).isOk = true :=
            hsucceeds (makesLog_start hzero hrun hlive)
          rw [hmade] at hok
          cases hok
      | ok fresh =>
          rw [hmade] at hstarting
          exact cpuStart_of_proceed hms hrun hstarting

/-! ### One call -/

/-- Any other operation leaves the interval as it is, and does not make the sampler run. -/
theorem interval_perform {operation : Operation ε}
    (hstart : ∀ milliseconds, operation ≠ .start (.cpu milliseconds)) (p : Process ε) :
    let q := (operation.perform .quiet p).2
    q.cpu.interval = p.cpu.interval ∧ (q.cpu.running = true → p.cpu.running = true) := by
  dsimp only
  by_cases hpaces : operation.paces = true
  · obtain rfl : operation = .stop .cpu := by
      cases operation with
      | start request =>
          cases request with
          | cpu milliseconds => exact absurd rfl (hstart milliseconds)
          | memory => cases hpaces
      | stop kind =>
          cases kind with
          | cpu => rfl
          | memory => cases hpaces
      | tick | probe | note | exportKind | host => cases hpaces
    rw [quiet_stop]
    dsimp only
    split <;> exact ⟨rfl, nofun⟩
  · have henter := @steady_enter _ p operation (Bool.eq_false_iff.mpr hpaces)
    have hkeeps := (carries_perform .quiet operation p).quiet_keeps
      (f := fun q => (q.cpu.interval, q.cpu.running)) (P := fun s => s.paces = false)
      (fun s q hs => by
        have hresume := @steady_resume _ q s hs
        exact ⟨Prod.ext hresume.interval hresume.running, hresume.suspended⟩) henter.suspended
    obtain ⟨hinterval, hrunning⟩ := Prod.mk.inj hkeeps
    refine ⟨hinterval.trans henter.interval, fun hrun => ?_⟩
    rw [← henter.running, ← hrunning]
    exact hrun

/-- What a call has to do with the interval. -/
inductive Times (c : Call ε) (q : Process ε) : Prop where
  | kept (hstarted : c.started? = none) (hunarmed : c.unarmed? = none)
      (hinterval : q.cpu.interval = c.process.cpu.interval)
      (hrun : c.process.cpu.live ≠ .inUse → c.Succeeds → q.cpu.running = true →
        c.process.cpu.running = true)
  | started (hstarted : c.started? = some q.cpu.interval)
  | unarmed (hstarted : c.started? = none) (hunarmed : c.unarmed? = some q.cpu.interval)
      (hstopped : q.cpu.running = false)

/-- How a start ends says what it has to do with the interval. -/
private theorem times_of_start {y : Except Fault Result × Process ε}
    (h : CpuStart milliseconds p y)
    (hy : (Operation.start (.cpu milliseconds)).perform .quiet p = y) :
    Times ⟨.start (.cpu milliseconds), p⟩ y.2 := by
  have hstarted : Call.started? ⟨.start (.cpu milliseconds), p⟩ = match y.1 with
      | .ok (.started (.ok ())) => some milliseconds
      | _ => none := by
    rw [← hy]
    rfl
  have hunarmed : Call.unarmed? ⟨.start (.cpu milliseconds), p⟩ = match y.1 with
      | .ok (.started (.error _)) =>
        if milliseconds ≠ 0 ∧ p.cpu.running = false then some milliseconds else none
      | _ => none := by
    rw [← hy]
    rfl
  cases h with
  | refused h =>
      refine .kept hstarted (hunarmed.trans (if_neg ?_)) rfl fun _ _ hrun => hrun
      rintro ⟨hms, hrun⟩
      rcases h with hzero | hrunning
      · exact hms hzero
      · rw [hrun] at hrunning
        cases hrunning
  | gaveUp hinterval hwhy =>
      refine .kept hstarted hunarmed hinterval fun hfree hsucceeds _ => ?_
      rcases hwhy with hinUse | hfails
      · exact absurd hinUse hfree
      · exact absurd hsucceeds hfails
  | succeeded hinterval =>
      refine .started ?_
      rw [hinterval]
      exact hstarted
  | unarmed hms hrun hinterval hstopped =>
      refine .unarmed hstarted ?_ hstopped
      rw [hinterval]
      exact hunarmed.trans (if_pos ⟨hms, hrun⟩)

theorem times_perform (operation : Operation ε) (p : Process ε) :
    Times ⟨operation, p⟩ (operation.perform .quiet p).2 := by
  by_cases hstart : ∀ milliseconds, operation ≠ .start (.cpu milliseconds)
  · obtain ⟨hinterval, hrun⟩ := interval_perform hstart p
    refine .kept ?_ ?_ hinterval fun _ _ => hrun
    · unfold Call.started?
      split
      · exact absurd ‹_› (hstart _)
      · rfl
    · unfold Call.unarmed?
      split
      · exact absurd ‹_› (hstart _)
      · rfl
  · obtain ⟨milliseconds, rfl⟩ : ∃ milliseconds, operation = .start (.cpu milliseconds) := by
      simpa using hstart
    exact times_of_start (quiet_start_cpu milliseconds p) rfl

/-- The interval is that of the latest start that gets as far as the timer. -/
private theorem Times.keeps_paced {c : Call ε} {q : Process ε} (h : Times c q) {before : Option Weight}
    (hbefore : c.process.cpu.interval = before.getD 0) :
    q.cpu.interval = (c.paced?.or before).getD 0 := by
  unfold Call.paced?
  cases h with
  | kept hstarted hunarmed hinterval =>
      rw [hstarted, hunarmed, hinterval]
      exact hbefore
  | started hstarted =>
      rw [hstarted]
      rfl
  | unarmed hstarted hunarmed =>
      rw [hstarted, hunarmed]
      rfl

/-- While the sampler is running, it is that of the latest start that succeeded. -/
private theorem Times.keeps_started {c : Call ε} {q : Process ε} (h : Times c q)
    (hfree : c.process.cpu.live ≠ .inUse) (hsucceeds : c.Succeeds) {before : Option Weight}
    (hbefore : c.process.cpu.running = true → before = some c.process.cpu.interval) :
    q.cpu.running = true → c.started?.or before = some q.cpu.interval := by
  intro hrun
  cases h with
  | kept hstarted _ hinterval hraised =>
      rw [hstarted, hinterval]
      exact hbefore (hraised hfree hsucceeds hrun)
  | started hstarted =>
      rw [hstarted]
      rfl
  | unarmed _ _ hstopped =>
      rw [hstopped] at hrun
      cases hrun

end

/-! ### Runs

There are two results about intervals, one of any start that gets as far as the timer and one of
starts that succeed.  Both say that the latest of some calls decides, so the induction is done once,
with what is kept as a parameter (`latest_run`).
-/

section

variable {p : Process ε}

/-- What every call keeps, the run keeps, with what was said latest. -/
theorem latest_run {α : Type} {f : Call ε → Option α} {C : Call ε → Prop}
    {P : Process ε → Option α → Prop}
    (hstep : ∀ operation q before, C ⟨operation, q⟩ → P q before →
      P (operation.perform .quiet q).2 ((f ⟨operation, q⟩).or before))
    {before : Option α} (h : P p before) (operations : List (Operation ε))
    (hcalls : ∀ c ∈ p.calls operations, C c) :
    P (p.after operations) ((latest f (p.calls operations)).or before) := by
  induction operations generalizing p before with
  | nil => exact h
  | cons operation rest ih =>
      have hnext := ih (hstep operation p before (hcalls _ List.mem_cons_self) h)
        fun c hc => hcalls c (List.mem_cons_of_mem _ hc)
      rw [← Option.or_assoc, ← latest_cons] at hnext
      exact hnext

/-- Without calls that say otherwise, what was said latest is the same. -/
theorem latest_paced_eq {calls : List (Call ε)} (h : ∀ c ∈ calls, c.unarmed? = none) :
    latest (·.paced?) calls = latest (·.started?) calls := by
  unfold latest
  rw [List.filterMap_congr fun c hc => ?_]
  unfold Call.paced?
  rw [h c hc, Option.or_none]

/-- The interval of the latest start that gets as far as the timer stays. -/
theorem interval_after (hfirst : p.cpu.interval = 0) (operations : List (Operation ε)) :
    (p.after operations).cpu.interval
      = (latest (·.paced?) (p.calls operations)).getD 0 := by
  have hstep : ∀ (operation : Operation ε) (q : Process ε) (before : Option Weight),
      True → q.cpu.interval = before.getD 0 →
      (operation.perform .quiet q).2.cpu.interval
        = ((Call.paced? ⟨operation, q⟩).or before).getD 0 :=
    fun operation q _ _ h => (times_perform operation q).keeps_paced h
  have hrun := latest_run (P := fun q said => q.cpu.interval = said.getD 0) hstep
    (show p.cpu.interval = (none : Option Weight).getD 0 from hfirst) operations
    fun _ _ => trivial
  rwa [Option.or_none] at hrun

/-- A running sampler has the interval of the latest start that succeeded.  Its book is kept along
the run to see that no start finds the log in use. -/
theorem interval_of_running (hagrees : ∃ b, Agrees .cpu b p) (hfirst : p.cpu.running = false)
    (operations : List (Operation ε)) (hmade : ∀ c ∈ p.calls operations, c.Succeeds)
    (hrun : (p.after operations).cpu.running = true) :
    latest (·.started?) (p.calls operations) = some (p.after operations).cpu.interval := by
  have hstep : ∀ (operation : Operation ε) (q : Process ε) (before : Option Weight),
      Call.Succeeds ⟨operation, q⟩ →
      (∃ b, Agrees .cpu b q) ∧ (q.cpu.running = true → before = some q.cpu.interval) →
      let q' := (operation.perform .quiet q).2
      (∃ b, Agrees .cpu b q') ∧ (q'.cpu.running = true →
        (Call.started? ⟨operation, q⟩).or before = some q'.cpu.interval) := by
    rintro operation q before hsucceeds ⟨⟨b, hbook⟩, hsaid⟩
    exact ⟨⟨_, hbook.next operation hsucceeds⟩,
      (times_perform operation q).keeps_started hbook.live.ne_inUse hsucceeds hsaid⟩
  have hbefore : p.cpu.running = true → none = some p.cpu.interval := by
    rw [hfirst]
    exact nofun
  have hlast := latest_run (P := fun q said => (∃ b, Agrees .cpu b q)
    ∧ (q.cpu.running = true → said = some q.cpu.interval)) hstep ⟨hagrees, hbefore⟩ operations hmade
  rw [Option.or_none] at hlast
  exact hlast.2 hrun

/-- The interval of the CPU sampler is that of the latest start that got as far as the timer.
So it is that of the latest start that succeeded, if the timer could be armed whenever it was
tried, and also while the sampler is running, if logs can be made.  It is zero before. -/
theorem interval_of_latest_start {config : Config} {stackCapacity : Nat} {reportsReclaims : Bool}
    {hashers : HashFamily} {host : ε}
    (hidle : Process.idle config stackCapacity reportsReclaims hashers host = .ok p)
    (operations : List (Operation ε)) :
    let calls := p.calls operations
    let cpu := (p.after operations).cpu
    cpu.interval = (latest (·.paced?) calls).getD 0
    ∧ ((∀ c ∈ calls, c.unarmed? = none) → cpu.interval = (latest (·.started?) calls).getD 0)
    ∧ ((∀ c ∈ calls, c.Succeeds) → cpu.running = true →
      latest (·.started?) calls = some cpu.interval) := by
  intro calls cpu
  have hagrees : Agrees .cpu {} p := agrees_idle hidle
  obtain ⟨hinterval, hstopped⟩ : p.cpu.interval = 0 ∧ p.cpu.running = false := by
    rw [Process.eq_of_idle hidle]
    exact ⟨rfl, rfl⟩
  have hpaced := interval_after hinterval operations
  refine ⟨hpaced, fun hunarmed => ?_, interval_of_running ⟨_, hagrees⟩ hstopped operations⟩
  rw [← latest_paced_eq hunarmed]
  exact hpaced

end

/-- For instance, a start whose timer is taken counts only while the sampler is stopped. -/
theorem interval_of_latest_start_of_restarted :
    ∃ (p : Process Unit) (operations others : List (Operation Unit)),
      Process.idle { logCapacity := 1, maxStackDepth := 1 } 1 true .mixing () = .ok p
      ∧ latest (·.paced?) (p.calls operations) = some (.ofNat 15)
      ∧ (p.after operations).cpu.interval = .ofNat 15
      ∧ latest (·.started?) (p.calls (operations ++ others)) = some (.ofNat 20)
      ∧ (p.after (operations ++ others)).cpu.interval = .ofNat 20
      ∧ (p.after others).cpu.interval = .ofNat 20 := by
  obtain ⟨p, hidle⟩ : ∃ p : Process Unit,
      Process.idle { logCapacity := 1, maxStackDepth := 1 } 1 true .mixing () = .ok p := ⟨_, rfl⟩
  have hp := Process.eq_of_idle hidle
  obtain ⟨operations, hoperations⟩ : ∃ operations : List (Operation Unit), operations = [
      .start (.cpu (.ofNat 10)), .tick, .stop .cpu, .host (.ofFault (some .timerHookTaken)),
      .start (.cpu (.ofNat 15))] := ⟨_, rfl⟩
  obtain ⟨others, hothers⟩ : ∃ operations : List (Operation Unit), operations = [
      .host (.ofFault none), .start (.cpu (.ofNat 20)), .start (.cpu (.ofNat 30)), .tick,
      .exportKind .cpu] := ⟨_, rfl⟩
  have hpaced : latest (·.paced?) (p.calls operations) = some (.ofNat 15) := by
    rw [hoperations, hp]
    decide +kernel
  have hstarted : latest (·.started?) (p.calls (operations ++ others)) = some (.ofNat 20) := by
    rw [hoperations, hothers, hp]
    decide +kernel
  have hmade : ∀ c ∈ p.calls (operations ++ others), c.Succeeds := by
    rw [hoperations, hothers, hp]
    decide +kernel
  have hrunning : (p.after (operations ++ others)).cpu.running = true := by
    rw [hoperations, hothers, hp]
    decide +kernel
  have hunarmed : ∀ c ∈ p.calls others, c.unarmed? = none := by
    rw [hothers, hp]
    decide +kernel
  have hstarted' : latest (·.started?) (p.calls others) = some (.ofNat 20) := by
    rw [hothers, hp]
    decide +kernel
  refine ⟨p, operations, others, hidle, hpaced, ?_, hstarted, ?_, ?_⟩
  · rw [(interval_of_latest_start hidle operations).1, hpaced]
    rfl
  · have hlatest := (interval_of_latest_start hidle (operations ++ others)).2.2 hmade hrunning
    exact Option.some.inj (hlatest.symm.trans hstarted)
  · rw [(interval_of_latest_start hidle others).2.1 hunarmed, hstarted']
    rfl

/-- A start that cannot arm the timer leaves its interval, although none has succeeded. -/
theorem interval_unarmed :
    ∃ (p : Process Unit) (operations : List (Operation Unit)),
      Process.idle { logCapacity := 1, maxStackDepth := 1 } 1 true .mixing () = .ok p
      ∧ (∀ c ∈ p.calls operations, c.Succeeds)
      ∧ latest (·.started?) (p.calls operations) = none
      ∧ (p.after operations).cpu.interval = .ofNat 10 := by
  obtain ⟨p, hidle⟩ : ∃ p : Process Unit,
      Process.idle { logCapacity := 1, maxStackDepth := 1 } 1 true .mixing () = .ok p := ⟨_, rfl⟩
  have hp := Process.eq_of_idle hidle
  refine ⟨p, [.host (.ofFault (some .timerHookTaken)), .start (.cpu (.ofNat 10))], hidle, ?_⟩
  rw [hp]
  exact ⟨by decide +kernel, by decide +kernel, by decide +kernel⟩

end SamplingProfiler
