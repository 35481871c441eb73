/-
What operations do to a process that is left alone.

Nothing happens at the moments of an operation, so it goes through its parts one after the
other, and what it does in the end can be said at once.
-/
import SamplingProfiler.Proofs.Interleaving.Adequacy
import SamplingProfiler.Proofs.Interleaving.Turn

namespace SamplingProfiler

variable {ε : Type}

/-! ### From moment to moment -/

section

variable {p : Process ε} {y : Except Fault Result × Process ε}

theorem Carries.quiet_returned {result : Result}
    (h : Carries .quiet (.ok (.returned result), p) y) : y = (.ok result, p) := by
  cases h
  rfl

theorem Carries.quiet_faulted {e : Fault} (h : Carries .quiet (.error e, p) y) :
    y = (.error e, p) := by
  cases h
  rfl

/-- Nothing happens at a moment. -/
theorem Carries.quiet_resumed {s : Suspended}
    (h : Carries .quiet (.ok (.suspended s), p) y) : Carries .quiet (s.resume p) y := by
  cases h with
  | resumed hmoment hrest =>
      obtain ⟨-, rfl⟩ := Prod.mk.inj hmoment
      exact hrest
  | abandoned hmoment => cases hmoment

end

/-- What no part of an operation changes is left alone by the operation. -/
theorem Carries.quiet_keeps {α : Type} {f : Process ε → α} {P : Suspended → Prop}
    (hresume : ∀ s p, P s →
      f (s.resume p).2 = f p ∧ ∀ t, (s.resume p).1 = .ok (.suspended t) → P t)
    {x : Except Fault Outcome × Process ε} {y : Except Fault Result × Process ε}
    (h : Carries .quiet x y) (hx : ∀ s, x.1 = .ok (.suspended s) → P s) : f y.2 = f x.2 := by
  induction h with
  | returned | faulted => rfl
  | @resumed s q q' y hmoment _ ih =>
      obtain ⟨-, rfl⟩ := Prod.mk.inj hmoment
      obtain ⟨hsame, hnext⟩ := hresume s q (hx s rfl)
      exact (ih hnext).trans hsame
  | abandoned hmoment => cases hmoment

/-! ### Samples -/

/-- Credits a weight to the call stack. -/
def Process.credit (kind : SamplerKind) (weight : Weight) (p : Process ε) : Process ε :=
  match (p.sampler kind).live with
  | .absent => p
  | .inUse => p.drop kind
  | .ready log => p.setLive kind (.ready (log.record p.stack.capture weight))

theorem Process.credit_of_ready {kind : SamplerKind} {p : Process ε} {log : BacktraceLog}
    (h : (p.sampler kind).live = .ready log) (weight : Weight) :
    p.credit kind weight = p.setLive kind (.ready (log.record p.stack.capture weight)) := by
  unfold credit
  rw [h]

private theorem setLive_setLive (kind : SamplerKind) (live live' : LiveLog) (p : Process ε) :
    (p.setLive kind live).setLive kind live' = p.setLive kind live' := by
  cases kind <;> rfl

private theorem quiet_arrive {kind : SamplerKind} {weight : Weight} {p : Process ε}
    {y : Except Fault Result × Process ε} (h : Carries .quiet (arrive kind weight p) y) :
    y = (.ok .done, p.credit kind weight) := by
  unfold arrive at h
  unfold Process.credit
  cases hlive : (p.sampler kind).live with
  | absent =>
      rw [hlive] at h
      exact h.quiet_returned
  | inUse =>
      rw [hlive] at h
      exact h.quiet_returned
  | ready log =>
      rw [hlive] at h
      have hdone := h.quiet_resumed.quiet_returned
      rw [setLive_setLive] at hdone
      simpa [Process.setLive] using hdone

/-- A tick is credited to reclamation if the host says that it is reclaiming memory, and
else to the call stack. -/
theorem quiet_tick (p : Process ε) :
    Operation.tick.perform .quiet p = (.ok .done,
      if p.cpu.running then
        if p.reportsReclaims ∧ p.stack.isReclaiming then
          { p with cpu := { p.cpu with gcWeight := p.cpu.gcWeight + p.cpu.interval } }
        else p.credit .cpu p.cpu.interval
      else p) := by
  have h := carries_perform .quiet .tick p
  unfold Operation.enter at h
  dsimp only at h
  by_cases hrun : p.cpu.running
  · rw [if_pos hrun] at h ⊢
    by_cases hreports : p.reportsReclaims
    · rw [if_pos hreports] at h
      have hasked := h.quiet_resumed
      unfold Suspended.resume at hasked
      dsimp only at hasked
      by_cases hreclaim : p.stack.isReclaiming
      · rw [if_pos hreclaim] at hasked
        rw [if_pos ⟨hreports, hreclaim⟩]
        exact hasked.quiet_returned
      · rw [if_neg hreclaim] at hasked
        rw [if_neg fun h => hreclaim h.2]
        exact quiet_arrive hasked
    · rw [if_neg hreports] at h
      rw [if_neg fun h => hreports h.1]
      exact quiet_arrive h
  · rw [if_neg hrun] at h ⊢
    exact h.quiet_returned

theorem quiet_probe (size : Weight) (p : Process ε) :
    (Operation.probe size).perform .quiet p
      = (.ok .done, if p.memory.running then p.credit .memory size else p) := by
  have h := carries_perform .quiet (.probe size) p
  unfold Operation.enter at h
  dsimp only at h
  by_cases hrun : p.memory.running
  · rw [if_pos hrun] at h ⊢
    exact quiet_arrive h
  · rw [if_neg hrun] at h ⊢
    exact h.quiet_returned

theorem quiet_note (size : Weight) (p : Process ε) :
    (Operation.note size).perform .quiet p = (.ok .done,
      if p.memory.running then
        let (report, gate) := p.memory.gate.note size
        let q := { p with memory := { p.memory with gate := gate } }
        match report with
        | some bytes => q.credit .memory bytes
        | none => q
      else p) := by
  have h := carries_perform .quiet (.note size) p
  unfold Operation.enter at h
  dsimp only at h ⊢
  by_cases hrun : p.memory.running
  · rw [if_pos hrun] at h ⊢
    cases hreport : (p.memory.gate.note size).1 with
    | none =>
        rw [hreport] at h
        exact h.quiet_returned
    | some bytes =>
        rw [hreport] at h
        exact quiet_arrive h
  · rw [if_neg hrun] at h ⊢
    exact h.quiet_returned

/-! ### Stops, starts and exports

A start finds a sampler that is running, or a log that was left by an earlier start, or neither, and
there is one lemma for each.  So it is with exports.  The lemmas say only how the sampler is left
(`Started`, `Exported`), since that is all a book is about.
-/

theorem quiet_stop (kind : SamplerKind) (p : Process ε) :
    (Operation.stop kind).perform .quiet p =
      (.ok (.stopped (p.sampler kind).running),
        let q := p.setRunning kind false
        if kind = .cpu ∧ (p.sampler kind).running then { q with timer := q.timer.disarm }
        else q) := by
  have h := carries_perform .quiet (.stop kind) p
  unfold Operation.enter at h
  dsimp only at h ⊢
  by_cases hstop : kind = .cpu ∧ (p.sampler kind).running
  · rw [if_pos hstop] at h ⊢
    rw [hstop.2]
    exact h.quiet_resumed.quiet_returned
  · rw [if_neg hstop] at h ⊢
    exact h.quiet_returned

/-- Can the sampler be started, as far as the timer is concerned? -/
def StartRequest.canPace (request : StartRequest) (p : Process ε) : Bool :=
  match request with
  | .cpu _ => p.timer.fault.isNone
  | .memory => true

private theorem canPace_mapSampler (request : StartRequest) {kind : SamplerKind}
    (f : Sampler → Sampler) (p : Process ε) :
    request.canPace (p.mapSampler kind f) = request.canPace p := by
  cases request with
  | cpu milliseconds =>
      unfold StartRequest.canPace
      rw [Process.timer_mapSampler]
  | memory => rfl

/-- The interval that is asked for; the memory sampler has none. -/
def StartRequest.interval : StartRequest → Weight
  | .cpu milliseconds => milliseconds
  | .memory => 0

/-- How a start leaves its sampler: running if the timer lets it, with the interval asked for,
and with the log given. -/
structure Started (request : StartRequest) (p q : Process ε) (live : LiveLog) : Prop where
  running : (q.sampler request.kind).running = request.canPace p
  live_eq : (q.sampler request.kind).live = live
  interval : q.intervalOf request.kind = request.interval

/-- What a start does when the sampler is running and has a log. -/
private theorem quiet_proceed {request : StartRequest} {fresh : Bool} {p : Process ε}
    {y : Except Fault Result × Process ε} (hrun : (p.sampler request.kind).running = true)
    (h : Carries .quiet (request.proceed fresh p) y) :
    Started request p y.2 (p.sampler request.kind).live
      ∧ y.2.reclaimedBy request.kind = if fresh then 0 else p.reclaimedBy request.kind := by
  cases request with
  | memory =>
      rw [h.quiet_returned]
      exact ⟨⟨hrun, rfl, rfl⟩, by cases fresh <;> rfl⟩
  | cpu milliseconds =>
      have harming := h.quiet_resumed
      unfold Suspended.resume Timer.tryArm at harming
      dsimp only at harming
      cases hfault : p.timer.fault with
      | none =>
          rw [hfault] at harming
          rw [harming.quiet_returned]
          have hpace : (StartRequest.cpu milliseconds).canPace p = true := by
            unfold StartRequest.canPace
            rw [hfault]
            rfl
          exact ⟨⟨hrun.trans hpace.symm, rfl, rfl⟩, rfl⟩
      | some e =>
          rw [hfault] at harming
          rw [harming.quiet_returned]
          have hpace : (StartRequest.cpu milliseconds).canPace p = false := by
            unfold StartRequest.canPace
            rw [hfault]
            rfl
          exact ⟨⟨hpace.symm, rfl, rfl⟩, rfl⟩

/-- A start that is refused changes nothing. -/
theorem quiet_start_refused {request : StartRequest} {p : Process ε}
    (h : request = .cpu 0 ∨ (p.sampler request.kind).running = true) :
    ((Operation.start request).perform .quiet p).2 = p := by
  have hc := carries_perform .quiet (.start request) p
  unfold Operation.enter at hc
  dsimp only at hc
  by_cases hzero : request = .cpu 0
  · rw [if_pos hzero] at hc
    rw [hc.quiet_returned]
  · rw [if_neg hzero, if_pos (h.resolve_left hzero)] at hc
    rw [hc.quiet_returned]

/-- Any other start resumes the log that there is. -/
theorem quiet_start_resumed {request : StartRequest} {p : Process ε} {log : BacktraceLog}
    (hzero : request ≠ .cpu 0) (hrun : (p.sampler request.kind).running = false)
    (hlive : (p.sampler request.kind).live = .ready log) :
    let q := ((Operation.start request).perform .quiet p).2
    Started request p q (.ready log) ∧ q.reclaimedBy request.kind = p.reclaimedBy request.kind := by
  have h := carries_perform .quiet (.start request) p
  unfold Operation.enter at h
  dsimp only at h
  rw [if_neg hzero, if_neg (by simp [hrun]), hlive] at h
  obtain ⟨hstarted, hreclaimed⟩ := quiet_proceed (by simp [Process.setRunning]) h
  refine ⟨⟨?_, ?_, hstarted.interval⟩, ?_⟩
  · rw [hstarted.running]
    exact canPace_mapSampler request _ p
  · rw [hstarted.live_eq, ← hlive]
    simp [Process.setRunning]
  · rw [hreclaimed]
    exact reclaimedBy_mapSampler _ _ p

/-- Without one, it makes a new log. -/
theorem quiet_start_fresh {request : StartRequest} {p : Process ε} {log : BacktraceLog}
    (hzero : request ≠ .cpu 0) (hrun : (p.sampler request.kind).running = false)
    (hlive : (p.sampler request.kind).live = .absent)
    (hmade : p.settings.newLog p.nextHasher = .ok log) :
    let q := ((Operation.start request).perform .quiet p).2
    Started request p q (.ready log) ∧ q.reclaimedBy request.kind = 0 := by
  have h := carries_perform .quiet (.start request) p
  unfold Operation.enter at h
  dsimp only at h
  rw [if_neg hzero, if_neg (by simp [hrun]), hlive] at h
  have hstarting := h.quiet_resumed
  have hhasher : (p.setRunning request.kind true).nextHasher = p.nextHasher := by
    simp [Process.nextHasher, Process.setRunning]
  have hlive' : ((p.setRunning request.kind true).sampler request.kind).live = .absent := by
    simp [Process.setRunning, hlive]
  unfold Suspended.resume at hstarting
  dsimp only at hstarting
  rw [hhasher, hmade] at hstarting
  dsimp only at hstarting
  rw [hlive'] at hstarting
  obtain ⟨hstarted, hreclaimed⟩ := quiet_proceed (by cases request <;> rfl) hstarting
  refine ⟨⟨?_, ?_, hstarted.interval⟩, hreclaimed⟩
  · rw [hstarted.running]
    cases request <;> rfl
  · rw [hstarted.live_eq]
    simp [Process.setLive]

/-- How an export leaves its sampler: with the log given, and with nothing credited. -/
structure Exported (kind : SamplerKind) (p q : Process ε) (live : LiveLog) : Prop where
  running : (q.sampler kind).running = (p.sampler kind).running
  live_eq : (q.sampler kind).live = live
  interval : q.intervalOf kind = p.intervalOf kind
  reclaimed : q.reclaimedBy kind = 0

/-- The result of an export. -/
def exportResult : Option Snapshot → Except Fault Result
  | some snapshot => .ok (.exported snapshot)
  | none => .error (.panic LogFault.blockTooLarge.message)

private theorem quiet_handOver {kind : SamplerKind} {prepared : Option BacktraceLog}
    {p : Process ε} {y : Except Fault Result × Process ε}
    (hlive : (p.sampler kind).live ≠ .inUse) (h : Carries .quiet (handOver kind prepared p) y) :
    y.1 = exportResult (snapshotOf kind (depthOf (p.sampler kind).live.log? p.settings)
        (p.sampler kind).live.log? (p.reclaimedBy kind) (p.sampler kind).dropped)
      ∧ Exported kind p y.2
        (.ofOption (if (p.sampler kind).running then prepared else none)) := by
  rw [handOver_apply prepared hlive] at h
  have hleft : y.2 = (p.mapSampler kind fun s => { s with
      live := .ofOption (if (p.sampler kind).running then prepared else none)
      dropped := 0 }).forget kind ∧ y.1 = exportResult (snapshotOf kind
        (depthOf (p.sampler kind).live.log? p.settings) (p.sampler kind).live.log?
        (p.reclaimedBy kind) (p.sampler kind).dropped) := by
    revert h
    cases snapshotOf kind (depthOf (p.sampler kind).live.log? p.settings)
        (p.sampler kind).live.log? (p.reclaimedBy kind) (p.sampler kind).dropped with
    | none =>
        intro h
        rw [h.quiet_faulted]
        exact ⟨rfl, rfl⟩
    | some snapshot =>
        intro h
        rw [h.quiet_returned]
        exact ⟨rfl, rfl⟩
  refine ⟨hleft.2, ?_⟩
  rw [hleft.1]
  cases kind <;> exact ⟨rfl, rfl, rfl, rfl⟩

/-- An export of a stopped sampler hands over the log that there is, and leaves none. -/
theorem quiet_export_stopped {kind : SamplerKind} {p : Process ε}
    (hlive : (p.sampler kind).live ≠ .inUse) (hrun : (p.sampler kind).running = false) :
    let y := (Operation.exportKind kind).perform .quiet p
    y.1 = exportResult (snapshotOf kind (depthOf (p.sampler kind).live.log? p.settings)
        (p.sampler kind).live.log? (p.reclaimedBy kind) (p.sampler kind).dropped)
      ∧ Exported kind p y.2 .absent := by
  have h := carries_perform .quiet (.exportKind kind) p
  unfold Operation.enter at h
  dsimp only at h
  rw [if_neg (by simp [hrun])] at h
  have hover := quiet_handOver hlive h
  rw [hrun] at hover
  exact hover

/-- An export of a running sampler leaves a new log in its place. -/
theorem quiet_export_running {kind : SamplerKind} {p : Process ε} {log : BacktraceLog}
    (hlive : (p.sampler kind).live ≠ .inUse) (hrun : (p.sampler kind).running = true)
    (hmade : p.settings.newLog p.nextHasher = .ok log) :
    let y := (Operation.exportKind kind).perform .quiet p
    y.1 = exportResult (snapshotOf kind (depthOf (p.sampler kind).live.log? p.settings)
        (p.sampler kind).live.log? (p.reclaimedBy kind) (p.sampler kind).dropped)
      ∧ Exported kind p y.2 (.ready log) := by
  have h := carries_perform .quiet (.exportKind kind) p
  unfold Operation.enter at h
  dsimp only at h
  rw [if_pos hrun] at h
  have hexporting := h.quiet_resumed
  unfold Suspended.resume at hexporting
  dsimp only at hexporting
  rw [hmade] at hexporting
  have hsampler : p.drawHasher.sampler kind = p.sampler kind := by cases kind <;> rfl
  have hreclaimed : p.drawHasher.reclaimedBy kind = p.reclaimedBy kind := by cases kind <;> rfl
  have hinterval : p.drawHasher.intervalOf kind = p.intervalOf kind := by cases kind <;> rfl
  obtain ⟨hresult, hleft⟩ := quiet_handOver (by rw [hsampler]; exact hlive) hexporting
  rw [hsampler, hreclaimed] at hresult
  refine ⟨hresult, ?_, ?_, ?_, hleft.reclaimed⟩
  · rw [hleft.running, hsampler]
  · rw [hleft.live_eq, hsampler, hrun]
    rfl
  · rw [hleft.interval, hinterval]

/-! ### The other sampler -/

/-- What an operation leaves alone that is about the other sampler, or about none. -/
structure Spares (kind : SamplerKind) (p q : Process ε) : Prop where
  sampler : q.sampler kind = p.sampler kind
  interval : q.intervalOf kind = p.intervalOf kind
  reclaimed : q.reclaimedBy kind = p.reclaimedBy kind

private theorem Carries.quiet_spares {kind : SamplerKind} {p : Process ε}
    {x : Except Fault Outcome × Process ε} {y : Except Fault Result × Process ε}
    (h : Carries .quiet x y) (hx : Elsewhere kind p x) : Spares kind p y.2 := by
  induction h with
  | returned | faulted => exact ⟨hx.sampler, hx.interval, hx.reclaimed⟩
  | @resumed s q q' y hmoment _ ih =>
      obtain ⟨-, rfl⟩ := Prod.mk.inj hmoment
      have hnext := elsewhere_resume (hx.suspended s rfl) q
      exact ih (hx.trans hnext)
  | abandoned hmoment => cases hmoment

/-- An operation leaves alone the sampler that it is not about. -/
theorem quiet_spares {kind : SamplerKind} {operation : Operation ε}
    (hkind : operation.kind? ≠ some kind) (p : Process ε) :
    Spares kind p (operation.perform .quiet p).2 :=
  (carries_perform .quiet operation p).quiet_spares (elsewhere_enter hkind p)

end SamplingProfiler
