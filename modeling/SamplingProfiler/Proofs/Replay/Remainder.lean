/-
What the profiles of allocations lack is still pending.

The memory sampler credits what its gate reports.  So if it is told of allocations in no other
way, no log evicts and no sum is cut off, then the snapshots and the live log weigh as much as
was noted while the sampler was running, but for what is pending at the gate, which is less
than an interval.  It makes no difference when the sampler is stopped, started again or
exported: nothing but a further allocation changes the gate (`gate_perform`).

A call moves bytes between the gate, the live log and the snapshots (`Gathers.next`), and the
run follows by adding up.
-/
import SamplingProfiler.Proofs.AllocationGate
import SamplingProfiler.Proofs.Log.Total
import SamplingProfiler.Proofs.Replay.Exact

namespace SamplingProfiler

variable {ε : Type}

/-! ### What is noted, and where it is -/

/-- The size that is noted at the gate; a stopped sampler notes nothing. -/
def Call.noted? (c : Call ε) : Option Weight :=
  match c.operation with
  | .note size => if c.process.memory.running then some size else none
  | _ => none

/-- How many bytes are noted at the gate. -/
def bytesNoted (calls : List (Call ε)) : Nat := ((calls.filterMap (·.noted?)).map (·.val)).sum

/-- What the snapshots of a sampler weigh. -/
def weightHandedOver (kind : SamplerKind) (calls : List (Call ε)) : Nat :=
  ((snapshotsIn kind calls).map (·.totalWeight.val)).sum

/-- What the live log of a sampler weighs. -/
def Process.liveWeight (kind : SamplerKind) (p : Process ε) : Nat :=
  ((p.sampler kind).live.log?.map (·.totalWeight.val)).getD 0

/-- No sum is cut off, and no eviction round discards anything. -/
structure Call.Exact (c : Call ε) : Prop where
  noted : ∀ size ∈ c.noted?, c.process.memory.gate.pending.val + size.val ≤ maxWord
  recorded : ∀ sample ∈ c.sample? .memory, ∀ log ∈ c.process.memory.live.log?,
    log.sum + sample.weight.val ≤ maxWord
  unevicted : ∀ sample ∈ c.sample? .memory, ∀ log ∈ c.process.memory.live.log?,
    (log.record c.process.stack.capture sample.weight).evictions = log.evictions

instance (c : Call ε) : Decidable c.Exact :=
  decidable_of_iff
    ((∀ size ∈ c.noted?, c.process.memory.gate.pending.val + size.val ≤ maxWord)
      ∧ (∀ sample ∈ c.sample? .memory, ∀ log ∈ c.process.memory.live.log?,
        log.sum + sample.weight.val ≤ maxWord)
      ∧ ∀ sample ∈ c.sample? .memory, ∀ log ∈ c.process.memory.live.log?,
        (log.record c.process.stack.capture sample.weight).evictions = log.evictions)
    ⟨fun ⟨h₁, h₂, h₃⟩ => ⟨h₁, h₂, h₃⟩, fun ⟨h₁, h₂, h₃⟩ => ⟨h₁, h₂, h₃⟩⟩

theorem bytesNoted_cons (c : Call ε) (rest : List (Call ε)) :
    bytesNoted (c :: rest) = (c.noted?.map (·.val)).getD 0 + bytesNoted rest :=
  sum_filterMap_cons _ _ _ _

theorem weightHandedOver_cons (kind : SamplerKind) (c : Call ε) (rest : List (Call ε)) :
    weightHandedOver kind (c :: rest)
      = ((c.snapshot? kind).map (·.totalWeight.val)).getD 0 + weightHandedOver kind rest :=
  sum_filterMap_cons _ _ _ _

/-! ### What changes the gate

Bytes may be pending while the sampler is stopped, started again or exported.  That they stay
pending takes a lemma for each part of each operation, as an operation may stop at any moment.
-/

private theorem gate_proceed (request : StartRequest) (fresh : Bool) (p : Process ε) :
    (request.proceed fresh p).2.memory.gate = p.memory.gate := by
  cases request <;> rfl

private theorem gate_arrive (kind : SamplerKind) (weight : Weight) (p : Process ε) :
    (arrive kind weight p).2.memory.gate = p.memory.gate := by
  unfold arrive
  cases (p.sampler kind).live with
  | absent => rfl
  | inUse => exact Process.gate_mapSampler ..
  | ready log => exact Process.gate_mapSampler ..

private theorem gate_handOver (kind : SamplerKind) (prepared : Option BacktraceLog)
    (p : Process ε) : (handOver kind prepared p).2.memory.gate = p.memory.gate := by
  by_cases hlive : (p.sampler kind).live = .inUse
  · unfold handOver
    rw [hlive]
  · rw [handOver_apply prepared hlive]
    cases kind <;> rfl

private theorem gate_enter {operation : Operation ε} (hnote : ∀ size, operation ≠ .note size)
    (p : Process ε) : (operation.enter p).2.memory.gate = p.memory.gate := by
  cases operation with
  | start request =>
      have hraised : (p.setRunning request.kind true).memory.gate = p.memory.gate :=
        Process.gate_mapSampler ..
      unfold Operation.enter
      dsimp only
      split
      · rfl
      · split
        · rfl
        · cases (p.sampler request.kind).live with
          | inUse | absent => exact hraised
          | ready => exact (gate_proceed ..).trans hraised
  | stop kind =>
      unfold Operation.enter
      dsimp only
      split <;> exact Process.gate_mapSampler ..
  | tick =>
      unfold Operation.enter
      dsimp only
      split
      · split
        · rfl
        · exact gate_arrive ..
      · rfl
  | probe size =>
      unfold Operation.enter
      dsimp only
      split
      · exact gate_arrive ..
      · rfl
  | note size => exact absurd rfl (hnote size)
  | exportKind kind =>
      unfold Operation.enter
      dsimp only
      split
      · rfl
      · exact gate_handOver ..
  | host change => exact congrArg (·.gate) (change.memory_apply p)

private theorem gate_resume (s : Suspended) (p : Process ε) :
    (s.resume p).2.memory.gate = p.memory.gate := by
  cases s with
  | starting request settings =>
      unfold Suspended.resume
      dsimp only
      cases settings.newLog p.nextHasher with
      | error e => rfl
      | ok fresh =>
          dsimp only
          cases (p.sampler request.kind).live with
          | inUse => rfl
          | ready => exact gate_proceed ..
          | absent => exact (gate_proceed ..).trans (Process.gate_mapSampler ..)
  | arming milliseconds =>
      unfold Suspended.resume
      dsimp only
      cases p.timer.tryArm milliseconds <;> rfl
  | disarming => rfl
  | asking interval =>
      unfold Suspended.resume
      dsimp only
      split
      · rfl
      · exact gate_arrive ..
  | recording kind log weight => exact Process.gate_mapSampler ..
  | exporting kind settings =>
      unfold Suspended.resume
      dsimp only
      cases settings.newLog p.nextHasher with
      | error e => rfl
      | ok fresh => exact gate_handOver ..

/-- Nothing changes the gate but an allocation that is noted. -/
theorem gate_perform {operation : Operation ε} (hnote : ∀ size, operation ≠ .note size)
    (p : Process ε) : (operation.perform .quiet p).2.memory.gate = p.memory.gate := by
  have hkeeps := (carries_perform .quiet operation p).quiet_keeps (f := (·.memory.gate))
    (P := fun _ => True) (fun s q _ => ⟨gate_resume s q, fun _ _ => trivial⟩) fun _ _ => trivial
  exact hkeeps.trans (gate_enter hnote p)

/-! ### One call

The bytes that were noted are in three places: at the gate, in the live log and in the snapshots.
`Process.gathered` is what is in the first two.  A note adds to it, an export takes from it what the
snapshot has, and any other call leaves it as it is (`Moves`).
-/

/-- What is pending at the gate and what the live log weighs. -/
def Process.gathered (p : Process ε) : Nat :=
  p.memory.gate.pending.val + p.liveWeight .memory

/-- The gate holds back less than an interval, and no sum was cut off in the live log. -/
structure Gathers (interval : Nat) (b : Book) (p : Process ε) : Prop where
  agrees : Agrees .memory b p
  interval_eq : p.memory.gate.interval = interval
  pending_lt : p.memory.gate.pending.val < interval
  sum_le : ∀ log ∈ p.memory.live.log?, log.sum ≤ maxWord

section

variable {interval : Nat} {b b' : Book} {p q : Process ε}

/-- A new log weighs nothing. -/
theorem sum_of_newLog {settings : LogSettings} {hasher : Hasher} {log : BacktraceLog}
    (h : settings.newLog hasher = .ok log) : log.sum = 0 := by
  rw [(newLog_eq_ok h).1]
  exact BacktraceLog.sum_empty ..

theorem liveWeight_absent (h : p.memory.live = .absent) : p.liveWeight .memory = 0 := by
  unfold Process.liveWeight
  rw [show (p.sampler .memory).live = .absent from h]
  rfl

theorem liveWeight_ready {log : BacktraceLog} (h : p.memory.live = .ready log)
    (hsum : log.sum ≤ maxWord) : p.liveWeight .memory = log.sum := by
  unfold Process.liveWeight
  rw [show (p.sampler .memory).live = .ready log from h]
  exact BacktraceLog.totalWeight_val hsum

/-- The live log is well-formed, if there is one. -/
theorem Gathers.live_cases (h : Gathers interval b p) :
    p.memory.live = .absent ∨ ∃ log, p.memory.live = .ready log ∧ log.WellFormed
      ∧ log.sum ≤ maxWord := by
  have hlive : Backs b.page p.memory.live := h.agrees.live
  have hsum := h.sum_le
  generalize b.page = page at hlive
  generalize p.memory.live = live at hlive hsum ⊢
  cases hlive with
  | absent => exact .inl rfl
  | ready hrecords => exact .inr ⟨_, rfl, hrecords.wellFormed, hsum _ rfl⟩

/-- An operation that leaves the gate alone. -/
private theorem Gathers.of_gate (h : Gathers interval b p) (hagrees : Agrees .memory b' q)
    (hgate : q.memory.gate = p.memory.gate)
    (hsum : ∀ log ∈ q.memory.live.log?, log.sum ≤ maxWord) : Gathers interval b' q where
  agrees := hagrees
  interval_eq := by rw [hgate, h.interval_eq]
  pending_lt := by rw [hgate]; exact h.pending_lt
  sum_le := hsum

/-- Nothing moves if the log stays as it is, too. -/
private theorem Gathers.keep (h : Gathers interval b p) (hagrees : Agrees .memory b' q)
    (hgate : q.memory.gate = p.memory.gate) (hlive : q.memory.live = p.memory.live) :
    Gathers interval b' q ∧ q.gathered = p.gathered := by
  refine ⟨h.of_gate hagrees hgate (by rw [hlive]; exact h.sum_le), ?_⟩
  unfold Process.gathered Process.liveWeight
  rw [hgate, show (q.sampler .memory).live = (p.sampler .memory).live from hlive]

/-- A new log has nothing, nor has none. -/
private theorem Gathers.renew (h : Gathers interval b p) (hagrees : Agrees .memory b' q)
    (hgate : q.memory.gate = p.memory.gate)
    (hlive : q.memory.live = .absent ∨ ∃ log, q.memory.live = .ready log ∧ log.sum = 0) :
    Gathers interval b' q ∧ q.gathered = p.memory.gate.pending.val := by
  unfold Process.gathered
  rw [hgate]
  rcases hlive with hlive | ⟨log, hlive, hlog⟩
  · refine ⟨h.of_gate hagrees hgate ?_, by rw [liveWeight_absent hlive]; rfl⟩
    rw [hlive]
    exact nofun
  · refine ⟨h.of_gate hagrees hgate ?_, by rw [liveWeight_ready hlive (by omega), hlog]; rfl⟩
    rw [hlive]
    intro other hother
    obtain rfl := Option.some.inj hother
    omega

private theorem Gathers.start (h : Gathers interval b p)
    (hagrees : Agrees .memory b' ((Operation.start .memory).perform .quiet p).2)
    (hmade : Call.Succeeds ⟨.start .memory, p⟩) :
    Gathers interval b' ((Operation.start .memory).perform .quiet p).2
      ∧ ((Operation.start .memory).perform .quiet p).2.gathered = p.gathered := by
  have hgate := @gate_perform _ (.start .memory) nofun p
  by_cases hrun : (p.sampler .memory).running = true
  · have hsame := @quiet_start_refused _ .memory p (.inr hrun)
    exact h.keep hagrees hgate (by rw [hsame])
  · have hstopped : (p.sampler .memory).running = false := by simpa using hrun
    rcases h.live_cases with hlive | ⟨log, hlive, -, -⟩
    · have hlive' : (p.sampler .memory).live = .absent := hlive
      obtain ⟨log, hlog⟩ := exists_of_isOk (hmade (@makesLog_start _ p .memory nofun hstopped hlive'))
      obtain ⟨hstarted, -⟩ := @quiet_start_fresh _ .memory p log nofun hstopped hlive' hlog
      obtain ⟨hgathers, hnew⟩ := h.renew hagrees hgate
        (.inr ⟨log, hstarted.live_eq, sum_of_newLog hlog⟩)
      refine ⟨hgathers, hnew.trans ?_⟩
      unfold Process.gathered
      rw [liveWeight_absent hlive]
      rfl
    · obtain ⟨hstarted, -⟩ := @quiet_start_resumed _ .memory p log nofun hstopped hlive
      exact h.keep hagrees hgate (hstarted.live_eq.trans hlive.symm)

/-- A running sampler has a log. -/
private theorem Gathers.exists_log (h : Gathers interval b p) (hrun : p.memory.running = true) :
    ∃ log, p.memory.live = .ready log ∧ log.WellFormed ∧ log.sum ≤ maxWord := by
  refine h.live_cases.resolve_left fun habsent => ?_
  have hpage := h.agrees.started (h.agrees.running.symm.trans hrun)
  have hlive : Backs b.page p.memory.live := h.agrees.live
  rw [habsent] at hlive
  generalize b.page = page at hlive hpage
  cases hlive
  exact hpage rfl

/-- What the gate reports goes from there to the log. -/
private theorem Gathers.report (h : Gathers interval b p) {size : Weight} {log : BacktraceLog}
    (hlive : p.memory.live = .ready log) (hok : log.WellFormed) (hsum : log.sum ≤ maxWord)
    (hbytes : (p.memory.gate.pending + size).val = p.memory.gate.pending.val + size.val)
    (hfits : log.sum + (p.memory.gate.pending + size).val ≤ maxWord)
    (hevict : (log.record p.stack.capture (p.memory.gate.pending + size)).evictions
      = log.evictions)
    (hagrees : Agrees .memory b' q)
    (hgate : q.memory.gate = { p.memory.gate with pending := 0 })
    (hlive' : q.memory.live
      = .ready (log.record p.stack.capture (p.memory.gate.pending + size))) :
    Gathers interval b' q ∧ q.gathered = size.val + p.gathered := by
  have hadded := hok.sum_record hevict hfits
  refine ⟨⟨hagrees, ?_, ?_, ?_⟩, ?_⟩
  · rw [hgate]
    exact h.interval_eq
  · rw [hgate]
    exact Nat.lt_of_le_of_lt (Nat.zero_le _) h.pending_lt
  · rw [hlive']
    intro other hother
    obtain rfl := Option.some.inj hother
    omega
  · unfold Process.gathered
    rw [hgate, liveWeight_ready hlive' (by omega), liveWeight_ready hlive hsum, hadded, hbytes,
      Weight.val_zero]
    omega

/-- What is noted goes to the gate, and with a report it goes on to the log. -/
private theorem Gathers.note (h : Gathers interval b p) (size : Weight)
    (hagrees : Agrees .memory b' ((Operation.note size).perform .quiet p).2)
    (hexact : Call.Exact ⟨.note size, p⟩) :
    Gathers interval b' ((Operation.note size).perform .quiet p).2
      ∧ ((Operation.note size).perform .quiet p).2.gathered
        = ((Call.noted? ⟨.note size, p⟩).map (·.val)).getD 0 + p.gathered := by
  by_cases hrun : p.memory.running = true
  · have hnoted : Call.noted? ⟨.note size, p⟩ = some size := if_pos hrun
    have hsample : Call.sample? .memory ⟨.note size, p⟩
        = (p.memory.gate.note size).1.map fun bytes => ⟨p.stack.captured, bytes⟩ :=
      if_pos ⟨rfl, hrun⟩
    have hinterval := h.interval_eq
    have hval : (p.memory.gate.pending + size).val = p.memory.gate.pending.val + size.val :=
      Nat.min_eq_left (hexact.noted size hnoted)
    rw [quiet_note, if_pos hrun] at hagrees ⊢
    rw [hnoted]
    rcases AllocationGate.note_cases (by rw [hinterval]; exact h.pending_lt) size with
      ⟨hshort, heq⟩ | ⟨-, heq⟩
    · rw [heq] at hagrees ⊢
      refine ⟨⟨hagrees, hinterval, hinterval ▸ hshort, h.sum_le⟩, ?_⟩
      show (p.memory.gate.pending + size).val + p.liveWeight .memory
        = size.val + (p.memory.gate.pending.val + p.liveWeight .memory)
      omega
    · rw [heq] at hagrees ⊢ hsample
      obtain ⟨log, hlive, hok, hsum⟩ := h.exists_log hrun
      have hmem : log ∈ p.memory.live.log? := by rw [hlive]; rfl
      have hcredit := @Process.credit_of_ready _ .memory { p with memory := { p.memory with
        gate := { p.memory.gate with pending := 0 } } } log hlive (p.memory.gate.pending + size)
      refine h.report hlive hok hsum hval (hexact.recorded _ hsample log hmem)
        (hexact.unevicted _ hsample log hmem) hagrees ?_ ?_
      · exact congrArg (·.memory.gate) hcredit
      · exact congrArg (·.memory.live) hcredit
  · have hnoted : Call.noted? ⟨.note size, p⟩ = none := if_neg hrun
    rw [quiet_note, if_neg hrun] at hagrees ⊢
    rw [hnoted]
    obtain ⟨hgathers, hsame⟩ := h.keep hagrees rfl rfl
    exact ⟨hgathers, by simp⟩

/-- A snapshot weighs what its log does, if it has no entry for memory reclamation. -/
theorem Snapshot.totalWeight_eq {s : Snapshot} (h : s.gcWeight = none) :
    s.totalWeight.val = (s.log.map (·.totalWeight.val)).getD 0 := by
  unfold totalWeight entries backtraces gcEntry
  rw [h]
  cases s.log with
  | none => rfl
  | some log =>
      rw [Option.map_none, Option.toList_none, List.append_nil]
      rfl

/-- An export hands over what was in the log. -/
private theorem Gathers.exportKind (h : Gathers interval b p)
    (hagrees : Agrees .memory b' ((Operation.exportKind .memory).perform .quiet p).2)
    (hmade : Call.Succeeds ⟨.exportKind .memory, p⟩) :
    Gathers interval b' ((Operation.exportKind .memory).perform .quiet p).2
      ∧ (((Call.mk (.exportKind .memory) p).snapshot? .memory).map (·.totalWeight.val)).getD 0
          + ((Operation.exportKind .memory).perform .quiet p).2.gathered = p.gathered := by
  have hgate := @gate_perform _ (.exportKind .memory) nofun p
  have hhanded : (((Call.mk (.exportKind .memory) p).snapshot? .memory).map
      (·.totalWeight.val)).getD 0 = p.liveWeight .memory := by
    have hover := h.agrees.handsOver hmade
    unfold Process.liveWeight
    cases hsnapshot : (Call.mk (.exportKind .memory) p).snapshot? .memory with
    | none =>
        rw [hover.lost hsnapshot]
        rfl
    | some s =>
        rw [← hover.log_eq s hsnapshot]
        exact s.totalWeight_eq (hover.gcWeight_eq s hsnapshot nofun)
  obtain ⟨hgathers, hnew⟩ : Gathers interval b' ((Operation.exportKind .memory).perform .quiet p).2
      ∧ ((Operation.exportKind .memory).perform .quiet p).2.gathered
        = p.memory.gate.pending.val := by
    refine h.renew hagrees hgate ?_
    by_cases hrun : (p.sampler .memory).running = true
    · obtain ⟨log, hlog⟩ := exists_of_isOk (hmade hrun)
      obtain ⟨-, hleft⟩ := quiet_export_running h.agrees.live.ne_inUse hrun hlog
      exact .inr ⟨log, hleft.live_eq, sum_of_newLog hlog⟩
    · obtain ⟨-, hleft⟩ := quiet_export_stopped h.agrees.live.ne_inUse (by simpa using hrun)
      exact .inl hleft.live_eq
  refine ⟨hgathers, ?_⟩
  rw [hhanded, hnew, Nat.add_comm]
  rfl

/-- What a call takes in and what it hands over make up for the change of what is gathered. -/
structure Moves (operation : Operation ε) (p q : Process ε) : Prop where
  moved : ((Call.noted? ⟨operation, p⟩).map (·.val)).getD 0 + p.gathered
    = ((Call.snapshot? .memory ⟨operation, p⟩).map (·.totalWeight.val)).getD 0 + q.gathered

/-- A call that neither notes nor exports moves nothing. -/
private theorem Moves.of_gathered {operation : Operation ε}
    (hnote : ∀ size, operation ≠ .note size) (hexport : operation ≠ .exportKind .memory)
    (h : q.gathered = p.gathered) : Moves operation p q where
  moved := by
    have hnoted : Call.noted? ⟨operation, p⟩ = none := by
      cases operation with
      | note size => exact absurd rfl (hnote size)
      | start | stop | tick | probe | exportKind | host => rfl
    have hhanded : Call.snapshot? .memory ⟨operation, p⟩ = none :=
      if_neg fun hexports => hexport (Call.operation_of_exports hexports)
    rw [hnoted, hhanded, h]
    rfl

/-- A call about the memory sampler. -/
private theorem Gathers.next_memory (h : Gathers interval b p) {operation : Operation ε}
    (hkind : operation.kind? = some .memory) (hprobe : ∀ size, operation ≠ .probe size)
    (hmade : Call.Succeeds ⟨operation, p⟩) (hexact : Call.Exact ⟨operation, p⟩) :
    let q := (operation.perform .quiet p).2
    Gathers interval (b.next .memory operation p) q ∧ Moves operation p q := by
  have hagrees := h.agrees.next operation hmade
  cases operation with
  | start request =>
      cases request with
      | cpu milliseconds => cases hkind
      | memory =>
          obtain ⟨hgathers, hsame⟩ := h.start hagrees hmade
          exact ⟨hgathers, .of_gathered nofun nofun hsame⟩
  | stop k =>
      obtain rfl := Option.some.inj hkind
      have hlive : ((Operation.stop .memory).perform .quiet p).2.memory.live = p.memory.live := by
        rw [quiet_stop]
        rfl
      obtain ⟨hgathers, hsame⟩ := h.keep hagrees (@gate_perform _ (.stop .memory) nofun p) hlive
      exact ⟨hgathers, .of_gathered nofun nofun hsame⟩
  | probe size => exact absurd rfl (hprobe size)
  | note size =>
      obtain ⟨hgathers, hnoted⟩ := h.note size hagrees hexact
      exact ⟨hgathers, ⟨hnoted.symm.trans (Nat.zero_add _).symm⟩⟩
  | exportKind k =>
      obtain rfl := Option.some.inj hkind
      obtain ⟨hgathers, hhanded⟩ := h.exportKind hagrees hmade
      exact ⟨hgathers, ⟨(Nat.zero_add _).trans hhanded.symm⟩⟩
  | tick | host => cases hkind

/-- Any call. -/
theorem Gathers.next (h : Gathers interval b p) (operation : Operation ε)
    (hprobe : ∀ size, operation ≠ .probe size) (hmade : Call.Succeeds ⟨operation, p⟩)
    (hexact : Call.Exact ⟨operation, p⟩) :
    let q := (operation.perform .quiet p).2
    Gathers interval (b.next .memory operation p) q ∧ Moves operation p q := by
  by_cases hkind : operation.kind? = some .memory
  · exact h.next_memory hkind hprobe hmade hexact
  · have hnote : ∀ size, operation ≠ .note size := fun size heq => hkind (by rw [heq]; rfl)
    have hexport : operation ≠ .exportKind .memory := fun heq => hkind (by rw [heq]; rfl)
    have hlive : (operation.perform .quiet p).2.memory.live = p.memory.live :=
      congrArg (·.live) (quiet_spares hkind p).sampler
    obtain ⟨hgathers, hsame⟩ :=
      h.keep (h.agrees.next operation hmade) (gate_perform hnote p) hlive
    exact ⟨hgathers, .of_gathered hnote hexport hsame⟩

/-! ### Runs -/

/-- A run in which logs can be made, every allocation is noted, and no byte is lost in a log. -/
structure Lossless (p : Process ε) (operations : List (Operation ε)) : Prop where
  unprobed : ∀ operation ∈ operations, ∀ size, operation ≠ .probe size
  made : ∀ c ∈ p.calls operations, c.Succeeds
  exact : ∀ c ∈ p.calls operations, c.Exact

/-- What is noted in a run is in a snapshot, in the live log or pending. -/
theorem Gathers.run (h : Gathers interval b p) {operations : List (Operation ε)}
    (hrun : Lossless p operations) :
    (∃ b', Gathers interval b' (p.after operations))
      ∧ bytesNoted (p.calls operations) + p.gathered
        = weightHandedOver .memory (p.calls operations) + (p.after operations).gathered := by
  induction operations generalizing b p with
  | nil => exact ⟨⟨b, h⟩, rfl⟩
  | cons operation rest ih =>
      obtain ⟨hprobe, hmade, hexact⟩ := hrun
      obtain ⟨hnext, ⟨hmoved⟩⟩ := h.next operation (hprobe _ List.mem_cons_self)
        (hmade _ List.mem_cons_self) (hexact _ List.mem_cons_self)
      obtain ⟨hlast, hrest⟩ := ih hnext ⟨fun o ho => hprobe o (List.mem_cons_of_mem _ ho),
        fun c hc => hmade c (List.mem_cons_of_mem _ hc),
        fun c hc => hexact c (List.mem_cons_of_mem _ hc)⟩
      refine ⟨hlast, ?_⟩
      rw [Process.calls, bytesNoted_cons, weightHandedOver_cons,
        show p.after (operation :: rest) = (operation.perform .quiet p).2.after rest from rfl]
      omega

theorem gathers_idle {config : Config} {stackCapacity : Nat} {reportsReclaims : Bool}
    {hashers : HashFamily} {host : ε} (hpos : 0 < config.allocSampleBytes)
    (hidle : Process.idle config stackCapacity reportsReclaims hashers host = .ok p) :
    Gathers config.allocSampleBytes {} p ∧ p.gathered = 0 := by
  have hagrees : Agrees .memory {} p := agrees_idle hidle
  rw [Process.eq_of_idle hidle] at hagrees ⊢
  exact ⟨⟨hagrees, rfl, hpos, nofun⟩, rfl⟩

end

/-- The gate accounts for all allocations, and so do the profiles, but for what is pending at
the gate, which is less than an interval. -/
theorem allocations_accounted_for :
    (∀ (interval : Nat) (sizes : List Weight), 0 < interval →
      let noted := (AllocationGate.closed interval).noteAll sizes
      AllocationGate.Accounts interval sizes noted.1 noted.2)
    ∧ ∀ {config : Config} {stackCapacity : Nat} {reportsReclaims : Bool} {hashers : HashFamily}
        {host : ε} {p : Process ε} {operations : List (Operation ε)},
      0 < config.allocSampleBytes →
      Process.idle config stackCapacity reportsReclaims hashers host = .ok p →
      Lossless p operations →
      let last := p.after operations
      last.memory.gate.pending.val < config.allocSampleBytes
      ∧ bytesNoted (p.calls operations) = weightHandedOver .memory (p.calls operations)
        + last.liveWeight .memory + last.memory.gate.pending.val := by
  refine ⟨fun interval sizes hpos => AllocationGate.accounts_noteAll hpos sizes, ?_⟩
  intro config stackCapacity reportsReclaims hashers host p operations hpos hidle hrun last
  obtain ⟨hfirst, hnone⟩ := gathers_idle hpos hidle
  obtain ⟨⟨b, hlast⟩, hsum⟩ := hfirst.run hrun
  refine ⟨hlast.pending_lt, ?_⟩
  rw [hnone, show (p.after operations).gathered
    = last.memory.gate.pending.val + last.liveWeight .memory from rfl] at hsum
  omega

/-- For instance, what is pending when the sampler is stopped is reported after it is started
again and exported; what is allocated in between is not noted. -/
theorem allocations_accounted_for_of_restarted :
    (∃ notes gate, (AllocationGate.closed 100).noteAll [.ofNat 60, .ofNat 70, .ofNat 30]
        = (notes, gate)
      ∧ notes.filterMap (·.report) = [.ofNat 130]
      ∧ AllocationGate.Accounts 100 [.ofNat 60, .ofNat 70, .ofNat 30] notes gate)
    ∧ ∃ (p : Process Unit) (operations : List (Operation Unit)),
      Process.idle { logCapacity := 2, maxStackDepth := 1, allocSampleBytes := 100 } 1 true
        .mixing () = .ok p
      ∧ Lossless p operations
      ∧ bytesNoted (p.calls operations) = 245
      ∧ weightHandedOver .memory (p.calls operations) = 130
      ∧ (p.after operations).liveWeight .memory + (p.after operations).memory.gate.pending.val
        = 115 := by
  obtain ⟨p, hidle⟩ : ∃ p : Process Unit, Process.idle
      { logCapacity := 2, maxStackDepth := 1, allocSampleBytes := 100 } 1 true .mixing ()
        = .ok p := ⟨_, rfl⟩
  have hp := Process.eq_of_idle hidle
  obtain ⟨operations, hoperations⟩ : ∃ operations : List (Operation Unit), operations = [
      .host (.ofStack (·.enter ⟨7⟩)), .start .memory, .note (.ofNat 60), .note (.ofNat 70),
      .note (.ofNat 30), .stop .memory, .note (.ofNat 500), .start .memory, .exportKind .memory,
      .note (.ofNat 80), .note (.ofNat 5)] := ⟨_, rfl⟩
  have hrun : Lossless p operations := by
    refine ⟨?_, ?_, ?_⟩
    · rw [hoperations]
      simp
    · rw [hoperations, hp]
      decide +kernel
    · rw [hoperations, hp]
      decide +kernel
  have hnoted : bytesNoted (p.calls operations) = 245 := by
    rw [hoperations, hp]
    decide +kernel
  have hhanded : weightHandedOver .memory (p.calls operations) = 130 := by
    rw [hoperations, hp]
    decide +kernel
  obtain ⟨hgate, hprofiles⟩ := @allocations_accounted_for Unit
  obtain ⟨-, hsum⟩ := hprofiles (by decide) hidle hrun
  refine ⟨⟨_, _, rfl, by decide, hgate 100 _ (by decide)⟩, p, operations, hidle, hrun, hnoted,
    hhanded, ?_⟩
  omega

end SamplingProfiler
