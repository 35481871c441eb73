/-
Processes that one sampler cannot tell apart.

Two processes are `Twin`s for one sampler if they share what the samplers share and if that
sampler is the same in both, but for the hash function of its log.  Nothing is asked of the
other sampler.  An operation about the sampler does the same in twins, part by part, and
leaves twins (`Twin.enter`, `Twin.resume`).

Logs are made with hash functions that are drawn one after the other, so the hash functions
of twins may differ.  No table depends on them.
-/
import SamplingProfiler.Proofs.Interleaving.Custody
import SamplingProfiler.Snapshot

namespace SamplingProfiler

variable {ε : Type}

/-! ### Logs -/

/-- The logs differ in their hash functions at most. -/
structure BacktraceLog.Same (log log' : BacktraceLog) : Prop where
  wellFormed : log.WellFormed
  wellFormed' : log'.WellFormed
  table_eq : log.table = log'.table

namespace BacktraceLog.Same

variable {log log' : BacktraceLog} (h : log.Same log')
include h

theorem record (source : Source) (weight : Weight) :
    (log.record source weight).Same (log'.record source weight) := by
  obtain ⟨hok, htable⟩ := h.wellFormed.record source weight
  obtain ⟨hok', htable'⟩ := h.wellFormed'.record source weight
  refine ⟨hok, hok', ?_⟩
  rw [htable, htable', h.table_eq]

theorem entries_eq : log.entries = log'.entries := by
  rw [log.entries_eq, log'.entries_eq]
  exact congrArg (fun t => t.toHistogram.entries) h.table_eq

theorem depth_eq : log.depth = log'.depth := congrArg (fun t => t.depth) h.table_eq

theorem evictions_eq : log.evictions = log'.evictions :=
  congrArg (fun t => t.evictions) h.table_eq

theorem capacity_eq : log.capacity = log'.capacity := by
  rw [← log.table_rows_length, ← log'.table_rows_length, h.table_eq]

theorem len_eq : log.len = log'.len := by
  rw [h.wellFormed.len_eq, h.wellFormed'.len_eq]
  exact congrArg (fun t => t.toHistogram.len) h.table_eq

theorem weightOf_eq (frames : List FrameId) : log.weightOf frames = log'.weightOf frames := by
  rw [h.wellFormed.weightOf_eq, h.wellFormed'.weightOf_eq]
  exact congrArg (fun t => t.toHistogram.weightOf frames) h.table_eq

end BacktraceLog.Same

/-- Whether a log can be made does not depend on its hash function, nor does what it holds. -/
theorem newLog_same (settings : LogSettings) (hasher hasher' : Hasher) :
    (∃ e, settings.newLog hasher = .error e ∧ settings.newLog hasher' = .error e)
    ∨ ∃ log log', settings.newLog hasher = .ok log ∧ settings.newLog hasher' = .ok log'
      ∧ log.Same log' := by
  have hsame : (BacktraceLog.empty hasher settings.capacity settings.depth).Same
      (.empty hasher' settings.capacity settings.depth) := by
    refine ⟨BacktraceLog.wellFormed_empty _ _ _, BacktraceLog.wellFormed_empty _ _ _, ?_⟩
    rw [BacktraceLog.table_empty, BacktraceLog.table_empty]
  unfold LogSettings.newLog BacktraceLog.create
  dsimp only
  split
  · exact .inl ⟨_, rfl, rfl⟩
  · split
    · exact .inr ⟨_, _, rfl, rfl, hsame⟩
    · exact .inl ⟨_, rfl, rfl⟩

/-- Live logs that differ in their hash functions at most. -/
inductive LiveLog.Same : LiveLog → LiveLog → Prop where
  | absent : Same .absent .absent
  | inUse : Same .inUse .inUse
  | ready {log log' : BacktraceLog} (h : log.Same log') : Same (.ready log) (.ready log')

namespace LiveLog.Same

variable {live live' : LiveLog} (h : live.Same live')
include h

theorem inUse_iff : live = .inUse ↔ live' = .inUse := by
  cases h <;> simp

theorem depthOf_eq (settings : LogSettings) :
    depthOf live.log? settings = depthOf live'.log? settings := by
  cases h with
  | absent | inUse => rfl
  | ready hlog => exact hlog.depth_eq

end LiveLog.Same

/-! ### Snapshots -/

/-- The snapshots cannot be told apart.  Their maps and their total weights are read off their
entries. -/
structure Snapshot.Alike (s t : Snapshot) : Prop where
  kind : s.kind = t.kind
  depth : s.depth = t.depth
  dropped : s.dropped = t.dropped
  gcWeight : s.gcWeight = t.gcWeight
  entries : s.entries = t.entries
  len : s.len = t.len
  evictions : s.evictions = t.evictions
  capacity : s.capacity = t.capacity
  weightOf : ∀ frames, s.weightOf frames = t.weightOf frames

/-- Snapshots with logs that are the same, or without, cannot be told apart. -/
theorem alike_of_same {live live' : LiveLog} (h : live.Same live') (kind : SamplerKind)
    (depth dropped : Nat) (gcWeight : Option Weight) :
    Snapshot.Alike ⟨kind, depth, live.log?, gcWeight, dropped⟩
      ⟨kind, depth, live'.log?, gcWeight, dropped⟩ := by
  cases h with
  | absent | inUse => exact ⟨rfl, rfl, rfl, rfl, rfl, rfl, rfl, rfl, fun _ => rfl⟩
  | @ready log log' h =>
      refine ⟨rfl, rfl, rfl, rfl, ?_, ?_, h.evictions_eq, h.capacity_eq, fun frames => ?_⟩
      · exact congrArg (· ++ (gcWeight.map fun w => (⟨Snapshot.gcKey depth, w⟩ : Entry)).toList)
          h.entries_eq
      · exact congrArg (· + if gcWeight.isSome then 1 else 0) h.len_eq
      · have hlog := h.weightOf_eq frames
        cases gcWeight with
        | none => exact hlog
        | some w =>
            show (if _ then some w else log.weightOf frames)
              = if _ then some w else log'.weightOf frames
            rw [hlog]

/-! ### Twins -/

/-- What the samplers share, and what else the host has, is the same. -/
structure Shares (p q : Process ε) : Prop where
  settings : p.settings = q.settings
  stack : p.stack = q.stack
  heap : p.heap = q.heap
  reportsReclaims : p.reportsReclaims = q.reportsReclaims
  host : p.host = q.host

/-- What both samplers have, but for the hash function of the log. -/
structure Sampler.Same (s t : Sampler) : Prop where
  running : s.running = t.running
  live : s.live.Same t.live
  dropped : s.dropped = t.dropped

/-- A sampler cannot tell the processes apart. -/
structure Twin (kind : SamplerKind) (p q : Process ε) : Prop extends Shares p q where
  sampler : (p.sampler kind).Same (q.sampler kind)
  interval : p.intervalOf kind = q.intervalOf kind
  reclaimed : p.reclaimedBy kind = q.reclaimedBy kind
  gate : kind = .memory → p.memory.gate = q.memory.gate
  timer : kind = .cpu → p.timer = q.timer

namespace Twin

variable {kind : SamplerKind} {p q : Process ε}

theorem with_cpu (h : Twin .cpu p q) {cpu cpu' : CpuSampler} {timer timer' : Timer}
    (hsampler : cpu.toSampler.Same cpu'.toSampler) (hinterval : cpu.interval = cpu'.interval)
    (hgcWeight : cpu.gcWeight = cpu'.gcWeight) (htimer : timer = timer') :
    Twin .cpu { p with cpu := cpu, timer := timer } { q with cpu := cpu', timer := timer' } :=
  ⟨⟨h.settings, h.stack, h.heap, h.reportsReclaims, h.host⟩, hsampler, hinterval, hgcWeight, nofun,
    fun _ => htimer⟩

theorem with_memory (h : Twin .memory p q) {memory memory' : MemorySampler}
    (hsampler : memory.toSampler.Same memory'.toSampler) (hgate : memory.gate = memory'.gate) :
    Twin .memory { p with memory := memory } { q with memory := memory' } :=
  ⟨⟨h.settings, h.stack, h.heap, h.reportsReclaims, h.host⟩, hsampler, rfl, rfl, fun _ => hgate,
    nofun⟩

theorem mapSampler (h : Twin kind p q) {f g : Sampler → Sampler}
    (hfg : (f (p.sampler kind)).Same (g (q.sampler kind))) :
    Twin kind (p.mapSampler kind f) (q.mapSampler kind g) := by
  cases kind with
  | cpu => exact h.with_cpu hfg h.interval h.reclaimed (h.timer rfl)
  | memory => exact h.with_memory hfg (h.gate rfl)

theorem forget (h : Twin kind p q) : Twin kind (p.forget kind) (q.forget kind) := by
  cases kind with
  | cpu => exact h.with_cpu h.sampler h.interval rfl (h.timer rfl)
  | memory => exact h

theorem setRunning (h : Twin kind p q) (running : Bool) :
    Twin kind (p.setRunning kind running) (q.setRunning kind running) :=
  h.mapSampler ⟨rfl, h.sampler.live, h.sampler.dropped⟩

theorem setLive (h : Twin kind p q) {live live' : LiveLog} (hlive : live.Same live') :
    Twin kind (p.setLive kind live) (q.setLive kind live') :=
  h.mapSampler ⟨h.sampler.running, hlive, h.sampler.dropped⟩

theorem drop (h : Twin kind p q) : Twin kind (p.drop kind) (q.drop kind) :=
  h.mapSampler ⟨h.sampler.running, h.sampler.live, congrArg (· + 1) h.sampler.dropped⟩

/-- Hash functions are drawn in both, or in one. -/
theorem drawHasher (h : Twin kind p q) : Twin kind p.drawHasher q.drawHasher := by
  obtain ⟨⟨hsettings, hstack, hheap, hreports, hhost⟩, hsampler, hinterval, hreclaimed, hgate,
    htimer⟩ := h
  refine ⟨⟨hsettings, hstack, hheap, hreports, hhost⟩, ?_, ?_, ?_, hgate, htimer⟩
  · cases kind <;> exact hsampler
  · cases kind <;> exact hinterval
  · cases kind <;> exact hreclaimed

end Twin

/-! ### Parts of operations

In twins an operation is suspended at the same moment, and holds the same log there if it holds
one.  `Alongside` says this of any point that an operation has come to, so whole operations are
compared part by part.
-/

/-- Suspended operations that hold the same log, or none. -/
inductive Suspended.Same : Suspended → Suspended → Prop where
  | free {s : Suspended} (hs : s.moment ≠ .capture) : Same s s
  | recording {kind : SamplerKind} {log log' : BacktraceLog} {weight : Weight}
      (h : log.Same log') : Same (.recording kind log weight) (.recording kind log' weight)

/-- In two processes an operation about a sampler has come equally far, and they are twins for
the sampler. -/
inductive Alongside (kind : SamplerKind) :
    Except Fault Outcome × Process ε → Except Fault Outcome × Process ε → Prop where
  | returned {result : Result} {p q : Process ε} (h : Twin kind p q) :
      Alongside kind (.ok (.returned result), p) (.ok (.returned result), q)
  | exported {s t : Snapshot} {p q : Process ε} (hst : s.Alike t) (h : Twin kind p q) :
      Alongside kind (.ok (.returned (.exported s)), p) (.ok (.returned (.exported t)), q)
  | suspended {s t : Suspended} {p q : Process ε} (hst : s.Same t) (hkind : s.kind = kind)
      (h : Twin kind p q) : Alongside kind (.ok (.suspended s), p) (.ok (.suspended t), q)
  | faulted {e : Fault} {p q : Process ε} (h : Twin kind p q) :
      Alongside kind (.error e, p) (.error e, q)

namespace Twin

variable {kind : SamplerKind} {p q : Process ε}

private theorem proceed {request : StartRequest} (h : Twin request.kind p q) (fresh : Bool) :
    Alongside request.kind (request.proceed fresh p) (request.proceed fresh q) := by
  cases request with
  | memory => exact .returned h
  | cpu milliseconds =>
      have hgcWeight : (if fresh then 0 else p.cpu.gcWeight)
          = if fresh then 0 else q.cpu.gcWeight := by
        rw [show p.cpu.gcWeight = q.cpu.gcWeight from h.reclaimed]
      refine .suspended (.free nofun) rfl ?_
      exact h.with_cpu h.sampler rfl hgcWeight (h.timer rfl)

private theorem arrive (h : Twin kind p q) (weight : Weight) :
    Alongside kind (SamplingProfiler.arrive kind weight p)
      (SamplingProfiler.arrive kind weight q) := by
  have hlive := h.sampler.live
  unfold SamplingProfiler.arrive
  generalize (p.sampler kind).live = live at hlive
  generalize (q.sampler kind).live = live' at hlive
  cases hlive with
  | absent => exact .returned h
  | inUse => exact .returned h.drop
  | ready hlog => exact .suspended (.recording hlog) rfl (h.setLive .inUse)

private theorem handOver (h : Twin kind p q) {prepared prepared' : Option BacktraceLog}
    (hprepared : (LiveLog.ofOption prepared).Same (.ofOption prepared')) :
    Alongside kind (SamplingProfiler.handOver kind prepared p)
      (SamplingProfiler.handOver kind prepared' q) := by
  have hlive := h.sampler.live
  by_cases huse : (p.sampler kind).live = .inUse
  · unfold SamplingProfiler.handOver
    rw [huse, hlive.inUse_iff.mp huse]
    exact .faulted h
  · rw [handOver_apply prepared huse, handOver_apply prepared' (mt hlive.inUse_iff.mpr huse)]
    have hdepth : depthOf (p.sampler kind).live.log? p.settings
        = depthOf (q.sampler kind).live.log? q.settings := by
      rw [h.settings]
      exact hlive.depthOf_eq _
    have hnext := (h.mapSampler (f := fun s => { s with
        live := .ofOption (if (p.sampler kind).running then prepared else none), dropped := 0 })
      (g := fun s => { s with
        live := .ofOption (if (q.sampler kind).running then prepared' else none), dropped := 0 })
      ⟨h.sampler.running, by
        dsimp only
        rw [h.sampler.running]
        split
        · exact hprepared
        · exact .absent, rfl⟩).forget
    rw [← hdepth, ← h.reclaimed, ← h.sampler.dropped]
    unfold snapshotOf
    split
    · exact .exported (alike_of_same hlive _ _ _ _) hnext
    · exact .faulted hnext

/-- What an operation does before its first moment. -/
theorem enter (h : Twin kind p q) {operation : Operation ε}
    (hkind : operation.kind? = some kind) :
    Alongside kind (operation.enter p) (operation.enter q) := by
  have hrunning := h.sampler.running
  cases operation with
  | start request =>
      obtain rfl : request.kind = kind := Option.some.inj hkind
      unfold Operation.enter
      dsimp only
      rw [← hrunning]
      split
      · exact .returned h
      · split
        · exact .returned h
        · have hraised := h.setRunning true
          have hlive := h.sampler.live
          generalize (p.sampler request.kind).live = live at hlive
          generalize (q.sampler request.kind).live = live' at hlive
          cases hlive with
          | inUse => exact .faulted hraised
          | ready => exact hraised.proceed false
          | absent =>
              rw [h.settings]
              exact .suspended (.free nofun) rfl hraised
  | stop k =>
      obtain rfl : k = kind := Option.some.inj hkind
      have hlowered := h.setRunning false
      unfold Operation.enter
      dsimp only
      rw [← hrunning]
      split
      · rename_i hcpu
        exact .suspended (.free nofun) hcpu.1.symm hlowered
      · exact .returned hlowered
  | tick =>
      obtain rfl : SamplerKind.cpu = kind := Option.some.inj hkind
      have hinterval : p.cpu.interval = q.cpu.interval := h.interval
      have hrunning : p.cpu.running = q.cpu.running := hrunning
      unfold Operation.enter
      dsimp only
      rw [← hrunning, ← hinterval, ← h.reportsReclaims]
      split
      · split
        · exact .suspended (.free nofun) rfl h
        · exact h.arrive _
      · exact .returned h
  | probe size =>
      obtain rfl : SamplerKind.memory = kind := Option.some.inj hkind
      have hrunning : p.memory.running = q.memory.running := hrunning
      unfold Operation.enter
      dsimp only
      rw [← hrunning]
      split
      · exact h.arrive size
      · exact .returned h
  | note size =>
      obtain rfl : SamplerKind.memory = kind := Option.some.inj hkind
      have hrunning : p.memory.running = q.memory.running := hrunning
      unfold Operation.enter
      dsimp only
      rw [← hrunning, ← h.gate rfl]
      have hnoted : Twin .memory
          { p with memory := { p.memory with gate := (p.memory.gate.note size).2 } }
          { q with memory := { q.memory with gate := (p.memory.gate.note size).2 } } :=
        h.with_memory h.sampler rfl
      split
      · cases (p.memory.gate.note size).1 with
        | some bytes => exact hnoted.arrive bytes
        | none => exact .returned hnoted
      · exact .returned h
  | exportKind k =>
      obtain rfl : k = kind := Option.some.inj hkind
      unfold Operation.enter
      dsimp only
      rw [← hrunning]
      split
      · rw [h.settings]
        exact .suspended (.free nofun) rfl h
      · exact h.handOver .absent
  | host change => cases hkind

/-- What a suspended operation does next. -/
theorem resume {s t : Suspended} (h : Twin s.kind p q) (hst : s.Same t) :
    Alongside s.kind (s.resume p) (t.resume q) := by
  cases hst with
  | @recording k log log' weight hlog =>
      have hcaptured := h.setLive (.ready (hlog.record p.stack.capture weight))
      unfold Suspended.resume
      dsimp only
      rw [← h.stack]
      exact .returned hcaptured
  | free hs =>
      cases s with
      | starting request settings =>
          have hdrawn := h.drawHasher
          have hlive : (p.sampler request.kind).live.Same (q.sampler request.kind).live :=
            h.sampler.live
          unfold Suspended.resume
          dsimp only
          rcases newLog_same settings p.nextHasher q.nextHasher with
            ⟨e, hp, hq⟩ | ⟨log, log', hp, hq, hlog⟩
          · rw [hp, hq]
            exact .faulted hdrawn
          · rw [hp, hq]
            dsimp only
            generalize (p.sampler request.kind).live = live at hlive
            generalize (q.sampler request.kind).live = live' at hlive
            cases hlive with
            | inUse => exact .faulted hdrawn
            | ready => exact hdrawn.proceed false
            | absent => exact (hdrawn.setLive (.ready hlog)).proceed true
      | arming milliseconds =>
          unfold Suspended.resume
          dsimp only
          rw [← h.timer rfl]
          cases p.timer.tryArm milliseconds with
          | ok timer => exact .returned (h.with_cpu h.sampler h.interval h.reclaimed rfl)
          | error e => exact .returned (h.setRunning false)
      | disarming =>
          have hdisarmed := h.with_cpu h.sampler h.interval h.reclaimed
            (congrArg Timer.disarm (h.timer rfl))
          exact .returned hdisarmed
      | asking interval =>
          have hreclaiming : q.stack.isReclaiming = p.stack.isReclaiming := by rw [h.stack]
          unfold Suspended.resume
          dsimp only
          rw [hreclaiming]
          split
          · have hcredited : Twin .cpu
                { p with cpu := { p.cpu with gcWeight := p.cpu.gcWeight + interval } }
                { q with cpu := { q.cpu with gcWeight := q.cpu.gcWeight + interval } } :=
              h.with_cpu h.sampler h.interval (congrArg (· + interval) h.reclaimed) (h.timer rfl)
            exact .returned hcredited
          · exact h.arrive interval
      | recording k log weight => exact absurd rfl hs
      | exporting k settings =>
          have hdrawn := h.drawHasher
          unfold Suspended.resume
          dsimp only
          rcases newLog_same settings p.nextHasher q.nextHasher with
            ⟨e, hp, hq⟩ | ⟨log, log', hp, hq, hlog⟩
          · rw [hp, hq]
            exact .faulted hdrawn
          · rw [hp, hq]
            exact hdrawn.handOver (.ready hlog)

end Twin

end SamplingProfiler
