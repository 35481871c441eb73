/-
Every step of a weave is a turn of either sampler.

A part of an operation either is about the sampler, and then it is the turn that its code
says, or it is `Elsewhere`: it leaves alone all that the sampler depends on.
-/
import SamplingProfiler.Proofs.Interleaving.View

namespace SamplingProfiler

variable {ε : Type}

/-! ### What only the CPU sampler has -/

@[simp] theorem intervalOf_mapSampler {k : SamplerKind} (kind : SamplerKind)
    (f : Sampler → Sampler) (p : Process ε) :
    (p.mapSampler k f).intervalOf kind = p.intervalOf kind := by
  cases kind with
  | cpu => exact Process.interval_mapSampler k f p
  | memory => rfl

@[simp] theorem reclaimedBy_mapSampler {k : SamplerKind} (kind : SamplerKind)
    (f : Sampler → Sampler) (p : Process ε) :
    (p.mapSampler k f).reclaimedBy kind = p.reclaimedBy kind := by
  cases kind with
  | cpu => exact Process.gcWeight_mapSampler k f p
  | memory => rfl

/-! ### What an export hands over

An export takes the live log, the count of dropped samples and what was credited to reclamation in
a single part.  So all that it does is one equation, in terms of the process that it found
(`handOver_apply`).
-/

/-- Forgets what was credited to reclamation. -/
def Process.forget (p : Process ε) : SamplerKind → Process ε
  | .cpu => { p with cpu := { p.cpu with gcWeight := 0 } }
  | .memory => p

/-- How an export ends. -/
def presented : Option Snapshot → Except Fault Outcome
  | some snapshot => .ok (.returned (.exported snapshot))
  | none => .error (.panic LogFault.blockTooLarge.message)

theorem presented_ne_suspended (snapshot : Option Snapshot) (s : Suspended) :
    presented snapshot ≠ .ok (.suspended s) := by
  cases snapshot <;> simp [presented]

theorem presented_ne_deadlock (snapshot : Option Snapshot) :
    presented snapshot ≠ .error .deadlock := by
  cases snapshot <;> simp [presented]

theorem eq_of_presented {snapshot? : Option Snapshot} {snapshot : Snapshot}
    (h : presented snapshot? = .ok (.returned (.exported snapshot))) :
    snapshot? = some snapshot := by
  cases snapshot? with
  | none => simp [presented] at h
  | some s => simpa [presented] using h

theorem kind_of_snapshotOf {kind : SamplerKind} {depth dropped : Nat} {log : Option BacktraceLog}
    {reclaimed : Weight} {snapshot : Snapshot}
    (h : snapshotOf kind depth log reclaimed dropped = some snapshot) : snapshot.kind = kind := by
  unfold snapshotOf at h
  split at h
  · cases h
    rfl
  · cases h

private theorem present_apply (log : Option BacktraceLog) (dropped : Nat) (k : SamplerKind)
    (p : Process ε) :
    (Outcome.returned <$> Result.exported <$> present log dropped k) p =
      (presented (snapshotOf k ((log.map (·.depth)).getD p.settings.depth) log
        (p.reclaimedBy k) dropped), p.forget k) := by
  simp only [← bind_pure_comp, Action.bind_apply]
  cases k with
  | memory => rfl
  | cpu =>
      unfold present Action.presentCpu
      simp only [Action.bind_apply, Action.read_apply, Action.change_apply]
      cases hfits : fitsBlock (max 1 ((log.map (·.depth)).getD p.settings.depth)) with
      | true => simp [snapshotOf, hfits, presented, Process.reclaimedBy, Process.forget]
      | false => simp [snapshotOf, hfits, presented, Process.forget, Action.panic]

/-- The depth that a snapshot is given. -/
def depthOf (log : Option BacktraceLog) (settings : LogSettings) : Nat :=
  (log.map (·.depth)).getD settings.depth

/-- An export that need not wait hands over the live log. -/
theorem handOver_apply {k : SamplerKind} {p : Process ε} (prepared : Option BacktraceLog)
    (hlive : (p.sampler k).live ≠ .inUse) :
    handOver k prepared p =
      (presented (snapshotOf k (depthOf (p.sampler k).live.log? p.settings)
        (p.sampler k).live.log? (p.reclaimedBy k) (p.sampler k).dropped),
      (p.mapSampler k fun s => { s with
        live := .ofOption (if (p.sampler k).running then prepared else none)
        dropped := 0 }).forget k) := by
  have hpresent := present_apply (p.sampler k).live.log? (p.sampler k).dropped k
    (p.mapSampler k fun s => { s with
        live := .ofOption (if (p.sampler k).running then prepared else none)
        dropped := 0 })
  rw [Process.settings_mapSampler, reclaimedBy_mapSampler] at hpresent
  unfold handOver
  cases h : (p.sampler k).live with
  | inUse => exact absurd h hlive
  | absent | ready => rw [h] at hpresent; exact hpresent

/-- An export waits for nothing but a log in use. -/
theorem handOver_ne_deadlock {k : SamplerKind} {p : Process ε} (prepared : Option BacktraceLog)
    (hlive : (p.sampler k).live ≠ .inUse) : (handOver k prepared p).1 ≠ .error .deadlock := by
  rw [handOver_apply prepared hlive]
  exact presented_ne_deadlock _

/-! ### Parts of operations about the other sampler

Such a part also leaves nothing suspended that this sampler would depend on, and hands over no
snapshot of it.  The samplers share the count of hash functions that have been drawn, and of that
it can only be said that it does not go down.
-/

/-- A part of an operation that is not about this sampler. -/
structure Elsewhere (kind : SamplerKind) (p : Process ε) (x : Except Fault Outcome × Process ε) :
    Prop where
  sampler : x.2.sampler kind = p.sampler kind
  interval : x.2.intervalOf kind = p.intervalOf kind
  reclaimed : x.2.reclaimedBy kind = p.reclaimedBy kind
  drawn : p.hashersDrawn ≤ x.2.hashersDrawn
  suspended : ∀ s, x.1 = .ok (.suspended s) → s.kind ≠ kind
  exported : ∀ snapshot, x.1 = .ok (.returned (.exported snapshot)) → snapshot.kind ≠ kind

section

variable {kind k : SamplerKind} (hk : k ≠ kind) (p : Process ε)

include hk

private theorem elsewhere_mapSampler (f : Sampler → Sampler) {r : Except Fault Outcome}
    (hsuspended : ∀ s, r = .ok (.suspended s) → s.kind = k)
    (hexported : ∀ snapshot, r = .ok (.returned (.exported snapshot)) → snapshot.kind = k) :
    Elsewhere kind p (r, p.mapSampler k f) where
  sampler := by rw [Process.sampler_mapSampler, if_neg fun h => hk h.symm]
  interval := intervalOf_mapSampler kind f p
  reclaimed := reclaimedBy_mapSampler kind f p
  drawn := Nat.le_of_eq (Process.hashersDrawn_mapSampler k f p).symm
  suspended s hs := by rw [hsuspended s hs]; exact hk
  exported snapshot hs := by rw [hexported snapshot hs]; exact hk

private theorem elsewhere_arrive (weight : Weight) : Elsewhere kind p (arrive k weight p) := by
  unfold arrive
  cases (p.sampler k).live with
  | absent => exact ⟨rfl, rfl, rfl, Nat.le_refl _, by simp, by simp⟩
  | inUse => exact elsewhere_mapSampler hk p _ (by simp) (by simp)
  | ready log =>
      exact elsewhere_mapSampler hk p _ (by rintro s ⟨⟩; rfl) (by simp)

private theorem Elsewhere.forget {p q : Process ε} {r : Except Fault Outcome}
    (h : Elsewhere kind p (r, q)) : Elsewhere kind p (r, q.forget k) := by
  cases k with
  | memory => exact h
  | cpu =>
      cases kind with
      | cpu => exact absurd rfl hk
      | memory => exact ⟨h.sampler, rfl, rfl, h.drawn, h.suspended, h.exported⟩

private theorem elsewhere_handOver (prepared : Option BacktraceLog) :
    Elsewhere kind p (handOver k prepared p) := by
  by_cases hlive : (p.sampler k).live = .inUse
  · unfold handOver
    rw [hlive]
    exact ⟨rfl, rfl, rfl, Nat.le_refl _, by simp, by simp⟩
  · rw [handOver_apply prepared hlive]
    refine Elsewhere.forget hk (elsewhere_mapSampler hk p _ ?_ ?_)
    · intro s hs
      exact absurd hs (presented_ne_suspended _ s)
    · intro snapshot hs
      exact kind_of_snapshotOf (eq_of_presented hs)

end

private theorem elsewhere_proceed {kind : SamplerKind} {request : StartRequest}
    (hr : request.kind ≠ kind) (fresh : Bool) (p : Process ε) :
    Elsewhere kind p (request.proceed fresh p) := by
  cases request with
  | memory => exact ⟨rfl, rfl, rfl, Nat.le_refl _, by simp [StartRequest.proceed],
      by simp [StartRequest.proceed]⟩
  | cpu milliseconds =>
      cases kind with
      | cpu => exact absurd rfl hr
      | memory =>
          exact ⟨rfl, rfl, rfl, Nat.le_refl _, by rintro s ⟨⟩; simp [Suspended.kind],
            by simp [StartRequest.proceed]⟩

theorem Elsewhere.trans {kind : SamplerKind} {p q : Process ε} {r : Except Fault Outcome}
    {x : Except Fault Outcome × Process ε} (h : Elsewhere kind p (r, q))
    (h' : Elsewhere kind q x) : Elsewhere kind p x :=
  ⟨h'.sampler.trans h.sampler, h'.interval.trans h.interval, h'.reclaimed.trans h.reclaimed,
    Nat.le_trans h.drawn h'.drawn, h'.suspended, h'.exported⟩

private theorem elsewhere_drawHasher (kind : SamplerKind) (p : Process ε) (e : Fault) :
    Elsewhere kind p (.error e, p.drawHasher) := by
  cases kind <;> exact ⟨rfl, rfl, rfl, Nat.le_succ _, by simp, by simp⟩

/-- What an operation does before its first moment concerns no sampler but its own. -/
theorem elsewhere_enter {kind : SamplerKind} {operation : Operation ε}
    (hk : operation.kind? ≠ some kind) (p : Process ε) :
    Elsewhere kind p (operation.enter p) := by
  have hself : ∀ {result : Result}, (∀ snapshot, result ≠ .exported snapshot) →
      Elsewhere kind p (.ok (.returned result), p) := fun hresult =>
    ⟨rfl, rfl, rfl, Nat.le_refl _, by simp, fun snapshot hs =>
      absurd (Outcome.returned.inj (Except.ok.inj hs)) (hresult snapshot)⟩
  cases operation with
  | start request =>
      have hr : request.kind ≠ kind := fun h => hk (congrArg some h)
      unfold Operation.enter
      dsimp only
      split
      · exact hself (by simp)
      · split
        · exact hself (by simp)
        · have hraise := fun r hs he => @elsewhere_mapSampler _ _ _ hr p
            (fun s => { s with running := true }) r hs he
          cases (p.sampler request.kind).live with
          | inUse => exact hraise _ (by simp) (by simp)
          | absent => exact hraise _ (by rintro s ⟨⟩; rfl) (by simp)
          | ready =>
              exact (hraise (.error .deadlock) (by simp) (by simp)).trans
                (elsewhere_proceed hr false _)
  | stop k =>
      have hr : k ≠ kind := fun h => hk (congrArg some h)
      unfold Operation.enter
      dsimp only
      split
      · rename_i hstop
        exact elsewhere_mapSampler hr p _ (by rintro s ⟨⟩; exact hstop.1.symm) (by simp)
      · exact elsewhere_mapSampler hr p _ (by simp) (by simp)
  | tick =>
      have hr : SamplerKind.cpu ≠ kind := fun h => hk (congrArg some h)
      unfold Operation.enter
      dsimp only
      split
      · split
        · exact ⟨rfl, rfl, rfl, Nat.le_refl _, by rintro s ⟨⟩; exact hr, by simp⟩
        · exact elsewhere_arrive hr p _
      · exact hself (by simp)
  | probe size =>
      have hr : SamplerKind.memory ≠ kind := fun h => hk (congrArg some h)
      unfold Operation.enter
      dsimp only
      split
      · exact elsewhere_arrive hr p _
      · exact hself (by simp)
  | note size =>
      have hr : SamplerKind.memory ≠ kind := fun h => hk (congrArg some h)
      cases kind with
      | memory => exact absurd rfl hr
      | cpu =>
          unfold Operation.enter
          dsimp only
          split
          · split
            · rename_i bytes _
              have h := elsewhere_arrive hr { p with memory := { p.memory with
                gate := (p.memory.gate.note size).2 } } bytes
              exact ⟨h.sampler, h.interval, h.reclaimed, h.drawn, h.suspended, h.exported⟩
            · exact ⟨rfl, rfl, rfl, Nat.le_refl _, by simp, by simp⟩
          · exact hself (by simp)
  | exportKind k =>
      have hr : k ≠ kind := fun h => hk (congrArg some h)
      unfold Operation.enter
      dsimp only
      split
      · exact ⟨rfl, rfl, rfl, Nat.le_refl _, by rintro s ⟨⟩; exact hr, by simp⟩
      · exact elsewhere_handOver hr p none
  | host change =>
      unfold Operation.enter
      dsimp only
      cases kind with
      | cpu =>
          have hcpu := change.cpu_apply p
          exact ⟨congrArg CpuSampler.toSampler hcpu, congrArg (·.interval) hcpu,
            congrArg (·.gcWeight) hcpu,
            Nat.le_of_eq (change.hashersDrawn_apply p).symm, by simp, by simp⟩
      | memory =>
          exact ⟨congrArg MemorySampler.toSampler (change.memory_apply p), rfl, rfl,
            Nat.le_of_eq (change.hashersDrawn_apply p).symm, by simp, by simp⟩

/-- What a suspended operation does next concerns no sampler but its own. -/
theorem elsewhere_resume {kind : SamplerKind} {s : Suspended} (hk : s.kind ≠ kind)
    (p : Process ε) : Elsewhere kind p (s.resume p) := by
  have hdraw := elsewhere_drawHasher kind p
  cases s with
  | starting request settings =>
      have hr : request.kind ≠ kind := hk
      unfold Suspended.resume
      dsimp only
      cases settings.newLog p.nextHasher with
      | error e => exact hdraw _
      | ok fresh =>
          dsimp only
          cases (p.sampler request.kind).live with
          | inUse => exact hdraw _
          | ready => exact (hdraw .deadlock).trans (elsewhere_proceed hr false _)
          | absent =>
              have hlive := @elsewhere_mapSampler _ _ _ hr p.drawHasher
                (fun s => { s with live := .ready fresh }) (.error .deadlock) (by simp) (by simp)
              exact (hdraw .deadlock).trans (hlive.trans (elsewhere_proceed hr true _))
  | arming milliseconds =>
      have hr : SamplerKind.cpu ≠ kind := hk
      unfold Suspended.resume
      dsimp only
      cases p.timer.tryArm milliseconds with
      | ok timer => cases kind <;> exact ⟨rfl, rfl, rfl, Nat.le_refl _, by simp, by simp⟩
      | error e => exact elsewhere_mapSampler hr p _ (by simp) (by simp)
  | disarming => cases kind <;> exact ⟨rfl, rfl, rfl, Nat.le_refl _, by simp [Suspended.resume],
      by simp [Suspended.resume]⟩
  | asking interval =>
      have hr : SamplerKind.cpu ≠ kind := hk
      unfold Suspended.resume
      dsimp only
      split
      · cases kind with
        | cpu => exact absurd rfl hr
        | memory => exact ⟨rfl, rfl, rfl, Nat.le_refl _, by simp, by simp⟩
      · exact elsewhere_arrive hr p _
  | recording k log weight =>
      exact elsewhere_mapSampler hk p _ (by simp) (by simp)
  | exporting k settings =>
      have hr : k ≠ kind := hk
      unfold Suspended.resume
      dsimp only
      cases settings.newLog p.nextHasher with
      | error e => exact hdraw _
      | ok fresh => exact (hdraw .deadlock).trans (elsewhere_handOver hr _ _)

/-! ### Every step is a turn

Most parts of operations end in one of two ways: a sample arrives at its log, or the live log is
handed over.  These are turned into an `Arrival` and a `Turn` first (`arrival`, `of_handOver`), and
what remains is to go through the operations.
-/

namespace Turn

variable {kind : SamplerKind} {p : Process ε} {pending : List Suspended}

private theorem exported_eq_none {event : Event ε} {w w' : Weave ε} {r : Except Fault Outcome}
    (h : ∀ snapshot, r = .ok (.returned (.exported snapshot)) → snapshot.kind ≠ kind) :
    (Occurrence.mk w event r w').exported kind = none := by
  unfold Occurrence.exported
  dsimp only
  split
  · rename_i snapshot
    exact if_neg (h snapshot rfl)
  · rfl

/-- An operation of the other sampler is not going to do anything to this one. -/
private theorem of_other {s : Suspended} (h : s.kind ≠ kind) :
    s.starts kind = false ∧ s.held? kind = none ∧ s.asks? kind = none := by
  cases s with
  | starting request settings => exact ⟨decide_eq_false h, rfl, rfl⟩
  | recording k log weight => exact ⟨rfl, if_neg h, rfl⟩
  | asking interval => exact ⟨rfl, rfl, if_neg fun hk => h hk.symm⟩
  | arming | disarming | exporting => exact ⟨rfl, rfl, rfl⟩

private theorem of_others {l : List Suspended} (h : ∀ s ∈ l, s.kind ≠ kind) :
    l.countP (·.starts kind) = 0 ∧ l.filterMap (·.held? kind) = []
      ∧ l.filterMap (·.asks? kind) = [] := by
  refine ⟨List.countP_eq_zero.mpr fun s hs => ?_, List.filterMap_eq_nil_iff.mpr fun s hs => ?_,
    List.filterMap_eq_nil_iff.mpr fun s hs => ?_⟩
  · rw [(of_other (h s hs)).1]
    exact Bool.false_ne_true
  · exact (of_other (h s hs)).2.1
  · exact (of_other (h s hs)).2.2

/-- A part of an operation that is not about the sampler is none of its concern. -/
private theorem of_elsewhere (front : List Suspended) (hs : ∀ s ∈ front, s.kind ≠ kind)
    {d : Deed} (hd : d = {}) {x : Except Fault Outcome × Process ε} (h : Elsewhere kind p x) :
    Turn kind ((⟨p, front ++ pending⟩ : Weave ε).view kind) d
      ((⟨x.2, stillSuspended x.1 ++ pending⟩ : Weave ε).view kind) := by
  have hstill : ∀ s ∈ stillSuspended x.1, s.kind ≠ kind := by
    intro s hs
    unfold stillSuspended at hs
    split at hs
    · rename_i s' heq
      rw [List.mem_singleton.mp hs]
      exact h.suspended s' heq
    · cases hs
  obtain ⟨hstarts, hheld, hasks⟩ := of_others hs
  obtain ⟨hstarts', hheld', hasks'⟩ := of_others hstill
  have hview : (⟨x.2, stillSuspended x.1 ++ pending⟩ : Weave ε).view kind
      = { (⟨p, front ++ pending⟩ : Weave ε).view kind with drawn := x.2.hashersDrawn } := by
    unfold Weave.view
    simp only [h.sampler, h.interval, h.reclaimed, List.countP_append, List.filterMap_append,
      hstarts, hheld, hasks, hstarts', hheld', hasks']
  rw [hview, hd]
  exact .rest h.drawn

/-- A sample arrives. -/
private theorem arrival (kind : SamplerKind) (weight : Weight) (p : Process ε)
    (pending : List Suspended) :
    Arrival ((⟨p, pending⟩ : Weave ε).view kind) weight
      ((⟨(arrive kind weight p).2, stillSuspended (arrive kind weight p).1 ++ pending⟩ :
        Weave ε).view kind) := by
  unfold arrive
  cases hlive : (p.sampler kind).live with
  | absent => exact .ignored hlive
  | inUse =>
      have h := @Arrival.dropped ((⟨p, pending⟩ : Weave ε).view kind) weight hlive
      simpa [Weave.view, Process.drop, stillSuspended] using h
  | ready log =>
      have h := @Arrival.held ((⟨p, pending⟩ : Weave ε).view kind) weight log hlive
      simpa [Weave.view, Process.setLive, stillSuspended, Suspended.starts, Suspended.held?,
        Suspended.asks?, List.countP_cons] using h

/-- What a step is that makes no tick, brings no sample and returns no snapshot. -/
private theorem deed_eq_default {o : Occurrence ε} (hticks : o.ticks kind = 0)
    (hsample : o.sample kind = none) (hreclaims : o.reclaims kind = none)
    (hwrites : o.writes kind = none) (hexported : o.exported kind = none) : o.deed kind = {} := by
  unfold Occurrence.deed
  rw [hticks, hsample, hreclaims, hwrites, hexported]

private theorem proceed_view (request : StartRequest) (fresh : Bool) (p : Process ε)
    (pending : List Suspended) :
    ∃ interval, (⟨(request.proceed fresh p).2,
      stillSuspended (request.proceed fresh p).1 ++ pending⟩ : Weave ε).view request.kind =
        { (⟨p, pending⟩ : Weave ε).view request.kind with
          interval := interval
          reclaimed := if fresh then 0 else p.reclaimedBy request.kind } := by
  cases request with
  | memory => exact ⟨0, by cases fresh <;> rfl⟩
  | cpu milliseconds => exact ⟨milliseconds, by cases fresh <;> rfl⟩

/-- An export hands over the live log, and installs the new one if the sampler is running. -/
private theorem of_handOver {prepared : Option BacktraceLog} {p : Process ε}
    {pending : List Suspended} {v : View} (hlive : (p.sampler kind).live ≠ .inUse)
    (hv : (⟨p, pending⟩ : Weave ε).view kind = { v with drawn := p.hashersDrawn })
    (hdrawn : v.drawn ≤ p.hashersDrawn)
    (hfresh : v.running = true →
      ∃ log, prepared = some log ∧ Fresh v log ∧ p.hashersDrawn = v.drawn + 1) :
    Turn kind v
      { exported := (snapshotOf kind (depthOf (p.sampler kind).live.log? p.settings)
        (p.sampler kind).live.log? (p.reclaimedBy kind) (p.sampler kind).dropped) }
      ((⟨(handOver kind prepared p).2, stillSuspended (handOver kind prepared p).1 ++ pending⟩ :
        Weave ε).view kind) := by
  have hrun : (p.sampler kind).running = v.running := congrArg View.running hv
  have hlog : (p.sampler kind).live = v.live := congrArg View.live hv
  have hreclaimed : p.reclaimedBy kind = v.reclaimed := congrArg View.reclaimed hv
  have hdropped : (p.sampler kind).dropped = v.dropped := congrArg View.dropped hv
  have hdepth : ∀ old ∈ v.live.log?, old.depth = depthOf v.live.log? p.settings := by
    intro old hold
    rw [Option.mem_def.mp hold]
    rfl
  have hstill : ∀ snapshot, stillSuspended (presented snapshot) = [] := by
    intro snapshot
    cases snapshot <;> rfl
  rw [handOver_apply prepared hlive, hstill, hrun, hlog, hreclaimed, hdropped]
  rw [hlog] at hlive
  have hview : ∀ installed : Option BacktraceLog,
      (⟨(p.mapSampler kind fun s => { s with live := .ofOption installed, dropped := 0 }).forget
        kind, pending⟩ : Weave ε).view kind = { v with
          live := .ofOption installed, dropped := 0, reclaimed := 0, drawn := p.hashersDrawn } := by
    intro installed
    have h : ∀ w w' : View, w = w' → { w with
        live := LiveLog.ofOption installed, dropped := 0, reclaimed := 0 } = { w' with
        live := LiveLog.ofOption installed, dropped := 0, reclaimed := 0 } := by
      rintro w _ rfl
      rfl
    refine Eq.trans ?_ (h _ _ hv)
    cases kind <;> rfl
  cases hr : v.running with
  | true =>
      obtain ⟨log, rfl, hlog', hnext⟩ := hfresh hr
      rw [if_pos rfl]
      show Turn kind v _ ((⟨_, pending⟩ : Weave ε).view kind)
      rw [hview, hnext]
      exact .replace hr hlive hlog' hdepth
  | false =>
      rw [if_neg Bool.false_ne_true]
      show Turn kind v _ ((⟨_, pending⟩ : Weave ε).view kind)
      rw [hview]
      exact .remove hr hlive hdrawn hdepth

private theorem of_call_start (request : StartRequest) (p : Process ε) (pending : List Suspended)
    (hblock : (Operation.enter (.start request) p).1 ≠ .error .deadlock) :
    Turn request.kind ((⟨p, pending⟩ : Weave ε).view request.kind) {}
      ((⟨(Operation.enter (.start request) p).2,
        stillSuspended (Operation.enter (.start request) p).1 ++ pending⟩ :
          Weave ε).view request.kind) := by
  unfold Operation.enter at hblock ⊢
  dsimp only at hblock ⊢
  split
  · exact .rest (Nat.le_refl _)
  · rename_i hzero
    rw [if_neg hzero] at hblock
    cases hrun : (p.sampler request.kind).running with
    | true => exact .rest (Nat.le_refl _)
    | false =>
        rw [hrun] at hblock
        simp only [Bool.false_eq_true, if_false] at hblock ⊢
        cases hlive : (p.sampler request.kind).live with
        | inUse =>
            rw [hlive] at hblock
            exact absurd rfl hblock
        | ready log =>
            obtain ⟨interval, hview⟩ := proceed_view request false
              (p.setRunning request.kind true) pending
            have h := @resumed request.kind ((⟨p, pending⟩ : Weave ε).view request.kind) interval
              hrun (fun h => by rw [show View.live _ = _ from hlive] at h; cases h)
            refine Eq.subst (motive := fun v => Turn request.kind _ _ v) ?_ h
            refine Eq.trans ?_ hview.symm
            simp [Weave.view, Process.setRunning]
        | absent =>
            have h := @raise request.kind ((⟨p, pending⟩ : Weave ε).view request.kind) hrun hlive
            simpa [Weave.view, Process.setRunning, stillSuspended, Suspended.starts,
              Suspended.held?, Suspended.asks?, List.countP_cons] using h

private theorem of_call_stop (kind : SamplerKind) (p : Process ε) (pending : List Suspended) :
    Turn kind ((⟨p, pending⟩ : Weave ε).view kind) {}
      ((⟨(Operation.enter (.stop kind) p).2,
        stillSuspended (Operation.enter (.stop kind) p).1 ++ pending⟩ : Weave ε).view kind) := by
  have h := @lower kind ((⟨p, pending⟩ : Weave ε).view kind)
  have hview : ∀ s? : List Suspended, s? = [] ∨ s? = [.disarming] →
      (⟨p.setRunning kind false, s? ++ pending⟩ : Weave ε).view kind
        = { (⟨p, pending⟩ : Weave ε).view kind with running := false } := by
    rintro s? (rfl | rfl) <;> cases kind <;> rfl
  unfold Operation.enter
  dsimp only
  split
  · rw [show stillSuspended _ = [Suspended.disarming] from rfl, hview _ (.inr rfl)]
    exact h
  · rw [show stillSuspended _ = [] from rfl, hview _ (.inl rfl)]
    exact h

private theorem exported_arrive {event : Event ε} {w w' : Weave ε} (k : SamplerKind)
    (weight : Weight) (p : Process ε) :
    (Occurrence.mk w event (arrive k weight p).1 w').exported kind = none := by
  unfold arrive
  cases (p.sampler k).live <;> rfl

private theorem exported_presented {event : Event ε} {w w' : Weave ε} {depth dropped : Nat}
    {log : Option BacktraceLog} {reclaimed : Weight} :
    (Occurrence.mk w event (presented (snapshotOf kind depth log reclaimed dropped)) w').exported
      kind = snapshotOf kind depth log reclaimed dropped := by
  cases h : snapshotOf kind depth log reclaimed dropped with
  | none => rfl
  | some snapshot => exact if_pos (kind_of_snapshotOf h)

private theorem exported_handOver {event : Event ε} {w w' : Weave ε} {p : Process ε}
    (prepared : Option BacktraceLog) (hlive : (p.sampler kind).live ≠ .inUse) :
    (Occurrence.mk w event (handOver kind prepared p).1 w').exported kind =
      snapshotOf kind (depthOf (p.sampler kind).live.log? p.settings)
        (p.sampler kind).live.log? (p.reclaimedBy kind) (p.sampler kind).dropped := by
  rw [handOver_apply prepared hlive]
  exact exported_presented

private theorem exported_start {event : Event ε} {w w' : Weave ε} (request : StartRequest)
    (p : Process ε) :
    (Occurrence.mk w event (Operation.enter (.start request) p).1 w').exported kind = none := by
  unfold Operation.enter
  dsimp only
  split
  · rfl
  · split
    · rfl
    · cases (p.sampler request.kind).live with
      | inUse | absent => rfl
      | ready => cases request <;> rfl

/-- A call is a turn of the sampler that it is about. -/
private theorem of_call {operation : Operation ε} (hkind : operation.kind? = some kind)
    {r : Except Fault Outcome} {q : Process ε} (henter : operation.enter p = (r, q))
    (hblock : r ≠ .error .deadlock) (w' : Weave ε) :
    Turn kind ((⟨p, pending⟩ : Weave ε).view kind)
      ((Occurrence.mk ⟨p, pending⟩ (.call operation) r w').deed kind)
      ((⟨q, stillSuspended r ++ pending⟩ : Weave ε).view kind) := by
  obtain ⟨rfl, rfl⟩ : (operation.enter p).1 = r ∧ (operation.enter p).2 = q := by
    rw [henter]
    exact ⟨rfl, rfl⟩
  cases operation with
  | start request =>
      cases hkind
      have h := of_call_start request p pending hblock
      rw [deed_eq_default (by cases request <;> rfl) (by cases request <;> rfl)
        (by cases request <;> rfl) rfl (exported_start request p)]
      exact h
  | stop =>
      cases hkind
      have hexported : (Occurrence.mk ⟨p, pending⟩ (.call (.stop kind))
          (Operation.enter (.stop kind) p).1 w').exported kind = none := by
        unfold Operation.enter
        dsimp only
        split <;> rfl
      rw [deed_eq_default (by cases kind <;> rfl) (by cases kind <;> rfl)
        (by cases kind <;> rfl) rfl hexported]
      exact of_call_stop kind p pending
  | tick =>
      cases hkind
      unfold Operation.enter Occurrence.deed Occurrence.ticks Occurrence.sample
      dsimp only
      cases hrun : p.cpu.running with
      | false => exact .rest (Nat.le_refl _)
      | true =>
          cases hasks : p.reportsReclaims with
          | true => exact .ask rfl hrun
          | false =>
              simp only [if_true, Bool.false_eq_true, if_false, exported_arrive]
              exact .ticked rfl hrun (arrival .cpu _ p pending)
  | probe size =>
      cases hkind
      unfold Operation.enter Occurrence.deed Occurrence.sample
      dsimp only
      cases hrun : p.memory.running with
      | false => exact .rest (Nat.le_refl _)
      | true =>
          simp only [if_true, exported_arrive]
          exact .allocated rfl hrun (arrival .memory size p pending)
  | note size =>
      cases hkind
      unfold Operation.enter Occurrence.deed Occurrence.sample
      dsimp only
      cases hrun : p.memory.running with
      | false => exact .rest (Nat.le_refl _)
      | true =>
          simp only [if_true]
          cases hreport : (p.memory.gate.note size).1 with
          | none => exact .rest (Nat.le_refl _)
          | some bytes =>
              simp only [exported_arrive]
              exact .allocated rfl hrun (arrival .memory bytes
                { p with memory := { p.memory with gate := (p.memory.gate.note size).2 } } pending)
  | exportKind =>
      cases hkind
      unfold Operation.enter at hblock ⊢
      dsimp only at hblock ⊢
      cases hrun : (p.sampler kind).running with
      | true => cases kind <;> exact .rest (Nat.le_refl _)
      | false =>
          rw [hrun] at hblock
          simp only [Bool.false_eq_true, if_false] at hblock ⊢
          have hlive : (p.sampler kind).live ≠ .inUse := by
            intro h
            unfold handOver at hblock
            rw [h] at hblock
            exact hblock rfl
          have hdeed : (Occurrence.mk ⟨p, pending⟩ (.call (.exportKind kind))
              (handOver kind none p).1 w').deed kind = { exported := _ } :=
            congr (by cases kind <;> rfl) (exported_handOver none hlive)
          rw [hdeed]
          exact of_handOver hlive rfl (Nat.le_refl _) fun h => by
            rw [show View.running _ = _ from hrun] at h
            cases h
  | host change => cases hkind

private theorem resume_starting (request : StartRequest) {settings : LogSettings}
    {fresh : BacktraceLog} (h : settings.newLog p.nextHasher = .ok fresh) :
    Suspended.resume (.starting request settings) p = match (p.sampler request.kind).live with
      | .inUse => (.error .deadlock, p.drawHasher)
      | .ready _ => request.proceed false p.drawHasher
      | .absent => request.proceed true (p.drawHasher.setLive request.kind (.ready fresh)) := by
  unfold Suspended.resume
  dsimp only
  split
  · rename_i e hfailed
    rw [h] at hfailed
    cases hfailed
  · rename_i made hmade
    obtain rfl := Except.ok.inj (h.symm.trans hmade)
    rfl

private theorem resume_exporting (k : SamplerKind) {settings : LogSettings}
    {fresh : BacktraceLog} (h : settings.newLog p.nextHasher = .ok fresh) :
    Suspended.resume (.exporting k settings) p = handOver k (some fresh) p.drawHasher := by
  unfold Suspended.resume
  simp only [h]

/-- A start that has made a log. -/
private theorem of_made (request : StartRequest) {fresh : BacktraceLog}
    (hlive : (p.sampler request.kind).live ≠ .inUse) {settings : LogSettings}
    (hfresh : Fresh ((⟨p, .starting request settings :: pending⟩ : Weave ε).view request.kind)
      fresh)
    {x : Except Fault Outcome × Process ε}
    (hx : x = match (p.sampler request.kind).live with
      | .inUse => (.error .deadlock, p.drawHasher)
      | .ready _ => request.proceed false p.drawHasher
      | .absent => request.proceed true (p.drawHasher.setLive request.kind (.ready fresh))) :
    Turn request.kind
      ((⟨p, .starting request settings :: pending⟩ : Weave ε).view request.kind) {}
      ((⟨x.2, stillSuspended x.1 ++ pending⟩ : Weave ε).view request.kind) := by
  have hstarts : ((⟨p, .starting request settings :: pending⟩ : Weave ε).view request.kind).starts
      = pending.countP (·.starts request.kind) + 1 :=
    List.countP_cons_of_pos (decide_eq_true rfl)
  cases h : (p.sampler request.kind).live with
  | inUse => exact absurd h hlive
  | ready log =>
      rw [h] at hx
      obtain ⟨interval, hview⟩ := proceed_view request false p.drawHasher pending
      have hturn := @spare request.kind _ _ p.drawHasher.hashersDrawn interval hstarts
        (fun habsent => by rw [show View.live _ = _ from h] at habsent; cases habsent)
        (Nat.le_succ _)
      rw [hx, hview]
      cases request <;> exact hturn
  | absent =>
      rw [h] at hx
      obtain ⟨interval, hview⟩ := proceed_view request true
        (p.drawHasher.setLive request.kind (.ready fresh)) pending
      have hturn := @install request.kind _ _ interval fresh hstarts h hfresh
      rw [hx, hview]
      cases request <;> exact hturn

/-- A resumption is a turn of the sampler that it is about. -/
private theorem of_resume {s : Suspended} (hkind : s.kind = kind)
    {r : Except Fault Outcome} {q : Process ε} (hresume : s.resume p = (r, q)) (w' : Weave ε)
    (hcalm : (Occurrence.mk ⟨p, s :: pending⟩ .resume r w').Calm) :
    Turn kind ((⟨p, s :: pending⟩ : Weave ε).view kind)
      ((Occurrence.mk ⟨p, s :: pending⟩ .resume r w').deed kind)
      ((⟨q, stillSuspended r ++ pending⟩ : Weave ε).view kind) := by
  obtain ⟨rfl, rfl⟩ : (s.resume p).1 = r ∧ (s.resume p).2 = q := by
    rw [hresume]
    exact ⟨rfl, rfl⟩
  have hblock : (s.resume p).1 ≠ .error .deadlock := hcalm.unblocked
  cases s with
  | starting request settings =>
      obtain ⟨fresh, hfresh⟩ : ∃ log, settings.newLog p.nextHasher = .ok log :=
        hcalm.created settings rfl
      obtain rfl : request.kind = kind := hkind
      have hx := resume_starting request hfresh
      have hlive : (p.sampler request.kind).live ≠ .inUse := by
        intro h
        rw [hx, h] at hblock
        exact hblock rfl
      have hexported : (Occurrence.mk ⟨p, .starting request settings :: pending⟩ .resume
          (Suspended.resume (.starting request settings) p).1 w').exported request.kind
          = none := by
        rw [hx]
        cases (p.sampler request.kind).live <;> cases request <;> rfl
      rw [deed_eq_default (by cases request <;> rfl) (by cases request <;> rfl)
        (by cases request <;> rfl) rfl hexported]
      exact of_made request hlive ⟨settings, p.nextHasher, rfl, hfresh⟩ hx
  | arming milliseconds =>
      obtain rfl : SamplerKind.cpu = kind := hkind
      unfold Suspended.resume
      dsimp only
      cases p.timer.tryArm milliseconds with
      | ok timer => exact .rest (Nat.le_refl _)
      | error e => exact .lower
  | disarming =>
      obtain rfl : SamplerKind.cpu = kind := hkind
      exact .rest (Nat.le_refl _)
  | asking interval =>
      obtain rfl : SamplerKind.cpu = kind := hkind
      unfold Suspended.resume Occurrence.deed Occurrence.sample Occurrence.reclaims
      dsimp only
      cases p.stack.isReclaiming with
      | true => exact .reclaim rfl rfl
      | false =>
          simp only [Bool.false_eq_true, if_false, exported_arrive]
          exact .answered rfl rfl (arrival .cpu interval p pending)
  | recording k log weight =>
      obtain rfl : k = kind := hkind
      have hdeed : (Occurrence.mk ⟨p, .recording k log weight :: pending⟩ .resume
          (Suspended.resume (.recording k log weight) p).1 w').deed k
          = { writes := some ⟨log, weight, log.record p.stack.capture weight⟩ } := by
        unfold Occurrence.deed Occurrence.writes
        dsimp only
        rw [if_pos rfl]
        cases k <;> rfl
      have hheld : ((⟨p, .recording k log weight :: pending⟩ : Weave ε).view k).held
          = (log, weight) :: pending.filterMap (·.held? k) := by
        exact List.filterMap_cons_some (if_pos rfl)
      rw [hdeed]
      have h := @write k _ _ _ _ p.stack.capture hheld
      cases k <;> exact h
  | exporting k settings =>
      obtain ⟨fresh, hfresh⟩ : ∃ log, settings.newLog p.nextHasher = .ok log :=
        hcalm.created settings rfl
      obtain rfl : k = kind := hkind
      have hx : Suspended.resume (.exporting k settings) p
          = handOver k (some fresh) p.drawHasher := resume_exporting k hfresh
      have hlive : (p.drawHasher.sampler k).live ≠ .inUse := by
        intro h
        rw [hx] at hblock
        unfold handOver at hblock
        rw [h] at hblock
        exact hblock rfl
      have hdeed : (Occurrence.mk ⟨p, .exporting k settings :: pending⟩ .resume
          (handOver k (some fresh) p.drawHasher).1 w').deed k = { exported := _ } :=
        congr (by cases k <;> rfl) (exported_handOver (some fresh) hlive)
      rw [hx, hdeed]
      refine of_handOver hlive (by cases k <;> rfl) (Nat.le_succ _) fun _ => ?_
      exact ⟨fresh, rfl, ⟨settings, p.nextHasher, rfl, hfresh⟩, rfl⟩

/-- A call about the other sampler, or none. -/
private theorem deed_call {operation : Operation ε} (hk : operation.kind? ≠ some kind)
    {r : Except Fault Outcome} {w' : Weave ε}
    (hexported : ∀ snapshot, r = .ok (.returned (.exported snapshot)) → snapshot.kind ≠ kind) :
    (Occurrence.mk ⟨p, pending⟩ (.call operation) r w').deed kind = {} := by
  refine deed_eq_default ?_ ?_ ?_ rfl (exported_eq_none hexported) <;>
    cases kind <;> cases operation <;> first | rfl | exact absurd rfl hk

/-- A resumption about the other sampler. -/
private theorem deed_resume {s : Suspended} (hk : s.kind ≠ kind)
    {r : Except Fault Outcome} {w' : Weave ε}
    (hexported : ∀ snapshot, r = .ok (.returned (.exported snapshot)) → snapshot.kind ≠ kind) :
    (Occurrence.mk ⟨p, s :: pending⟩ .resume r w').deed kind = {} := by
  refine deed_eq_default ?_ ?_ ?_ ?_ (exported_eq_none hexported)
  · cases kind <;> rfl
  · cases kind <;> cases s <;> first | rfl | exact absurd rfl hk
  · cases kind <;> cases s <;> first | rfl | exact absurd rfl hk
  · cases s with
    | recording k log weight => exact if_neg hk
    | _ => rfl

end Turn

/-- Every step of a weave that is calm is a turn of either sampler. -/
theorem Weave.Step.turn {w w' : Weave ε} {event : Event ε} {r : Except Fault Outcome}
    (h : Weave.Step w event r w') (hcalm : (Occurrence.mk w event r w').Calm)
    (kind : SamplerKind) :
    Turn kind (w.view kind) ((Occurrence.mk w event r w').deed kind) (w'.view kind) := by
  cases h with
  | @call operation p q r pending henter =>
      by_cases hkind : operation.kind? = some kind
      · exact Turn.of_call hkind henter hcalm.unblocked _
      · have helse := elsewhere_enter hkind p
        rw [henter] at helse
        exact Turn.of_elsewhere [] (by simp) (Turn.deed_call hkind helse.exported) helse
  | @resume s p q r pending hresume =>
      by_cases hkind : s.kind = kind
      · exact Turn.of_resume hkind hresume _ hcalm
      · have helse := elsewhere_resume hkind p
        rw [hresume] at helse
        exact Turn.of_elsewhere [s] (by simpa using hkind)
          (Turn.deed_resume hkind helse.exported) helse
  | abandon => exact absurd rfl (hcalm.unabandoned _)

end SamplingProfiler
