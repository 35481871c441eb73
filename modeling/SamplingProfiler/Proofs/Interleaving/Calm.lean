/-
Runs in which nothing has to wait.

Only a sample that is being captured holds its log.  So if nothing is called while a sample
is about to be captured, no operation ever finds a log in use that it would have to wait
for.  Where, besides, no fault passes through an operation and logs can be made, the run is
calm (`Weave.Run.calm`).
-/
import SamplingProfiler.Proofs.Interleaving.Custody

namespace SamplingProfiler

variable {ε : Type}

namespace Occurrence

/-- Is something called? -/
def calls (o : Occurrence ε) : Bool :=
  match o.event with
  | .call _ => true
  | _ => false

/-- Is something called while a sample is about to be captured? -/
def atCapture (o : Occurrence ε) : Bool :=
  o.calls && o.before.suspended.head?.any (·.moment = .capture)

end Occurrence

/-! ### Logs that nobody holds -/

section

variable {p : Process ε}

/-- Nothing has to wait if no log is in use. -/
theorem enter_ne_deadlock (hfree : ∀ kind, (p.sampler kind).live ≠ .inUse)
    (operation : Operation ε) : (operation.enter p).1 ≠ .error .deadlock := by
  cases operation with
  | start request =>
      unfold Operation.enter
      dsimp only
      split
      · simp
      · split
        · simp
        · cases hlive : (p.sampler request.kind).live with
          | inUse => exact absurd hlive (hfree _)
          | absent => simp
          | ready => exact StartRequest.proceed_ne_error _ _ _ _
  | stop kind => unfold Operation.enter; dsimp only; split <;> simp
  | tick =>
      unfold Operation.enter
      dsimp only
      split
      · split
        · simp
        · exact arrive_ne_error _ _ _ _
      · simp
  | probe size =>
      unfold Operation.enter
      dsimp only
      split
      · exact arrive_ne_error _ _ _ _
      · simp
  | note size =>
      unfold Operation.enter
      dsimp only
      split
      · split
        · exact arrive_ne_error _ _ _ _
        · simp
      · simp
  | exportKind kind =>
      unfold Operation.enter
      dsimp only
      split
      · simp
      · exact handOver_ne_deadlock none (hfree kind)
  | host change => simp [Operation.enter]

/-- Nor has what was suspended, except that a sample holds the log it is captured into. -/
theorem resume_ne_deadlock {s : Suspended}
    (hfree : s.moment ≠ .capture → (p.sampler s.kind).live ≠ .inUse) :
    (s.resume p).1 ≠ .error .deadlock := by
  have hdraw : ∀ kind, (p.drawHasher.sampler kind) = p.sampler kind := by
    intro kind
    cases kind <;> rfl
  cases s with
  | starting request settings =>
      unfold Suspended.resume
      dsimp only
      cases settings.newLog p.nextHasher with
      | error e => simp
      | ok fresh =>
          dsimp only
          cases hlive : (p.sampler request.kind).live with
          | inUse => exact absurd hlive (hfree (by simp [Suspended.moment]))
          | absent => exact StartRequest.proceed_ne_error _ _ _ _
          | ready => exact StartRequest.proceed_ne_error _ _ _ _
  | arming milliseconds =>
      unfold Suspended.resume
      dsimp only
      cases p.timer.tryArm milliseconds <;> simp
  | disarming => simp [Suspended.resume]
  | asking interval =>
      unfold Suspended.resume
      dsimp only
      split
      · simp
      · exact arrive_ne_error _ _ _ _
  | recording kind log weight => simp [Suspended.resume]
  | exporting kind settings =>
      unfold Suspended.resume
      dsimp only
      cases settings.newLog p.nextHasher with
      | error e => simp
      | ok fresh =>
          refine handOver_ne_deadlock _ ?_
          rw [hdraw]
          exact hfree (by simp [Suspended.moment])

end

/-! ### Steps and runs

What is kept along the run is that no capture is suspended below another operation.  The operation
suspended last may be a capture, but if nothing is called then, it is the next to go on.
-/

private theorem tail_stillSuspended (r : Except Fault Outcome) (pending : List Suspended) :
    ∀ s ∈ (stillSuspended r ++ pending).tail, s ∈ pending := by
  unfold stillSuspended
  split
  · exact fun s hs => hs
  · exact fun s hs => List.mem_of_mem_tail hs

/-- While no sample is about to be captured, no log is in use. -/
private theorem Custody.live_of_suspended {w : Weave ε} {kind : SamplerKind}
    (ok : Custody (w.view kind)) (hnone : ∀ s ∈ w.suspended, s.moment ≠ .capture) :
    (w.process.sampler kind).live ≠ .inUse := by
  refine ok.live_ne_inUse (List.filterMap_eq_nil_iff.mpr fun s hs => ?_)
  cases s with
  | recording => exact absurd rfl (hnone _ hs)
  | _ => rfl

/-- Where nothing is called while a sample is captured, no sample is captured when something is
called. -/
private theorem moment_ne_capture {p : Process ε} {pending : List Suspended}
    {operation : Operation ε} {r : Except Fault Outcome} {w' : Weave ε}
    (htail : ∀ s ∈ pending.tail, s.moment ≠ .capture)
    (hcapture : (Occurrence.mk ⟨p, pending⟩ (.call operation) r w').atCapture = false) :
    ∀ s ∈ pending, s.moment ≠ .capture := by
  intro s hs
  cases pending with
  | nil => cases hs
  | cons top others =>
      rcases List.mem_cons.mp hs with rfl | hother
      · simpa [Occurrence.atCapture, Occurrence.calls] using hcapture
      · exact htail s hother

/-- A step that calls nothing while a sample is captured does not have to wait, and leaves no
capture suspended below another operation. -/
theorem Weave.Step.unblocked {w w' : Weave ε} {event : Event ε} {r : Except Fault Outcome}
    (h : Weave.Step w event r w') (ok : ∀ kind, Custody (w.view kind))
    (htail : ∀ s ∈ w.suspended.tail, s.moment ≠ .capture)
    (hcapture : (Occurrence.mk w event r w').atCapture = false)
    (hpanic : ∀ fault, event ≠ .abandon fault) :
    r ≠ .error .deadlock ∧ ∀ s ∈ w'.suspended.tail, s.moment ≠ .capture := by
  cases h with
  | @call operation p q r pending henter =>
      have hnone := moment_ne_capture htail hcapture
      have hfree := enter_ne_deadlock
        (fun kind => (ok kind).live_of_suspended (w := ⟨p, pending⟩) hnone) operation
      rw [henter] at hfree
      exact ⟨hfree, fun s hs => hnone s (tail_stillSuspended r pending s hs)⟩
  | @resume s p q r pending hresume =>
      have hfree : (s.resume p).1 ≠ .error .deadlock := by
        refine resume_ne_deadlock fun hs => ?_
        refine (ok s.kind).live_of_suspended (w := ⟨p, s :: pending⟩) fun s' hs' => ?_
        rcases List.mem_cons.mp hs' with rfl | hother
        · exact hs
        · exact htail s' hother
      rw [hresume] at hfree
      exact ⟨hfree, fun s hs => htail s (tail_stillSuspended r pending s hs)⟩
  | abandon => exact absurd rfl (hpanic _)

/-- If nothing is called while a sample is captured, nothing has to wait for its log: a run
in which no fault passes through an operation and logs can be made is calm. -/
theorem Weave.Run.calm {w w' : Weave ε} {os : List (Occurrence ε)} (h : Weave.Run w os w')
    (ok : ∀ kind, Custody (w.view kind)) (htail : ∀ s ∈ w.suspended.tail, s.moment ≠ .capture)
    (hcapture : ∀ o ∈ os, o.atCapture = false)
    (hpanic : ∀ o ∈ os, ∀ fault, o.event ≠ .abandon fault)
    (hcreated : ∀ o ∈ os, ∀ settings, o.creates = some settings →
      ∃ log, settings.newLog o.before.process.nextHasher = .ok log) :
    ∀ o ∈ os, o.Calm := by
  induction h with
  | nil =>
      intro o ho
      cases ho
  | @cons w₁ w₂ w₃ event r os first rest ih =>
      have hpanic₁ := hpanic _ List.mem_cons_self
      obtain ⟨hfree, htail₂⟩ := first.unblocked ok htail (hcapture _ List.mem_cons_self) hpanic₁
      have hfirst : (Occurrence.mk w₁ event r w₂).Calm :=
        ⟨hpanic₁, hfree, hcreated _ List.mem_cons_self⟩
      intro o ho
      rcases List.mem_cons.mp ho with rfl | hmem
      · exact hfirst
      · exact ih (fun kind => ((first.turn hfirst kind).custody (ok kind)).1) htail₂
          (fun o ho => hcapture o (List.mem_cons_of_mem _ ho))
          (fun o ho => hpanic o (List.mem_cons_of_mem _ ho))
          (fun o ho => hcreated o (List.mem_cons_of_mem _ ho)) o hmem

/-- The run that some events make, if it is seen to be such a run and to end with nothing
suspended. -/
theorem exists_run_of_events (p : Process ε) (events : List (Event ε))
    (h : (((⟨p, []⟩ : Weave ε).play events).1.all (fun o => o.isCalm && !o.atCapture)
      && ((⟨p, []⟩ : Weave ε).play events).2.suspended.isEmpty) = true) :
    ∃ (os : List (Occurrence ε)) (w : Weave ε), os = ((⟨p, []⟩ : Weave ε).play events).1
      ∧ w = ((⟨p, []⟩ : Weave ε).play events).2 ∧ Weave.Run ⟨p, []⟩ os w ∧ w.suspended = []
      ∧ (∀ o ∈ os, o.atCapture = false)
      ∧ (∀ o ∈ os, ∀ fault, o.event ≠ .abandon fault)
      ∧ ∀ o ∈ os, ∀ settings, o.creates = some settings →
        ∃ log, settings.newLog o.before.process.nextHasher = .ok log := by
  obtain ⟨hall, hempty⟩ := Bool.and_eq_true_iff.mp h
  have hsteps : ∀ o ∈ ((⟨p, []⟩ : Weave ε).play events).1, o.Calm ∧ o.atCapture = false := by
    intro o ho
    obtain ⟨hcalm, hcapture⟩ := Bool.and_eq_true_iff.mp (List.all_eq_true.mp hall o ho)
    exact ⟨Occurrence.calm_of_isCalm hcalm, by simpa using hcapture⟩
  exact ⟨_, _, rfl, rfl, Weave.run_play _ _, List.isEmpty_iff.mp hempty, fun o ho => (hsteps o ho).2,
    fun o ho => (hsteps o ho).1.unabandoned, fun o ho => (hsteps o ho).1.created⟩

end SamplingProfiler
