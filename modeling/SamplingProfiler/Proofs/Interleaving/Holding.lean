/-
What becomes of the log of a sampler, whatever happens.

The turns of a sampler are those of calm runs.  Here no calm is asked for: a fault may pass
through any operation, an operation may wait for a log that another holds, and a log may be
too large to be made.  Little is left to say of the sampler then, but its log is still in
one place: it is live, or one sample holds it.  Each step leaves the log as it
is, writes one sample to it, takes its scratch row, or puts a new log or none in its place
(`Weave.Step.move`).

When nothing is suspended no sample holds a log, so no log is in use
(`Weave.Run.live_ne_inUse`).
-/
import SamplingProfiler.Proofs.Interleaving.Custody

namespace SamplingProfiler

variable {ε : Type}

/-- The log that loses its scratch row, as a fault passes through the sample that holds it. -/
def Occurrence.strikes (kind : SamplerKind) (o : Occurrence ε) : Option BacktraceLog :=
  match o.event, o.before.suspended with
  | .abandon _, .recording k log _ :: _ => if k = kind then some log else none
  | _, _ => none

/-- What a step does to a log that a sample holds. -/
structure Act where
  writes : Option Writing := none
  strikes : Option BacktraceLog := none

def Occurrence.act (kind : SamplerKind) (o : Occurrence ε) : Act := ⟨o.writes kind, o.strikes kind⟩

/-- What a step can do with the log of a sampler. -/
inductive Move (v : View) (a : Act) (v' : View) : Prop where
  | rest (hact : a = {}) (hlive : v'.live = v.live) (hheld : v'.held = v.held)
  /-- A sample takes the log. -/
  | hold {log : BacktraceLog} {weight : Weight} (hact : a = {}) (hlive : v.live = .ready log)
      (hlive' : v'.live = .inUse) (hheld' : v'.held = (log, weight) :: v.held)
  /-- The sample is written to it, -/
  | write {writing : Writing} {held : List (BacktraceLog × Weight)}
      (hact : a = { writes := some writing })
      (hheld : v.held = (writing.log, writing.weight) :: held)
      (hlive' : v'.live = .ready writing.written) (hheld' : v'.held = held)
  /-- or a fault passes through the sample. -/
  | lose {log : BacktraceLog} {weight : Weight} {held : List (BacktraceLog × Weight)}
      (hact : a = { strikes := some log }) (hheld : v.held = (log, weight) :: held)
      (hlive' : v'.live = .ready log.loseScratch) (hheld' : v'.held = held)
  /-- A new log is put in its place, -/
  | install {log : BacktraceLog} (hact : a = {}) (hlive : v.live ≠ .inUse) (hlog : Fresh v log)
      (hdrawn : v'.drawn = v.drawn + 1) (hlive' : v'.live = .ready log) (hheld' : v'.held = v.held)
  /-- or none. -/
  | remove (hact : a = {}) (hlive : v.live ≠ .inUse) (hlive' : v'.live = .absent)
      (hheld' : v'.held = v.held)

section

variable {kind : SamplerKind} {v v' : View} {p : Process ε} {pending : List Suspended}

/-! ### Steps that are calm -/

private theorem Turn.move {d : Deed} (h : Turn kind v d v') : Move v ⟨d.writes, none⟩ v' := by
  cases h with
  | rest | ask | reclaim | raise | resumed | spare | lower => exact .rest rfl rfl rfl
  | answered _ _ harrival | ticked _ _ harrival | allocated _ _ harrival =>
      cases harrival with
      | ignored | dropped => exact .rest rfl rfl rfl
      | held hlive => exact .hold rfl hlive rfl rfl
  | write hheld => exact .write rfl hheld rfl rfl
  | install _ hlive hlog => exact .install rfl (by simp [hlive]) hlog rfl rfl rfl
  | replace _ hlive hlog => exact .install rfl hlive hlog rfl rfl rfl
  | remove _ hlive => exact .remove rfl hlive rfl rfl

private theorem Turn.drawn_le {d : Deed} (h : Turn kind v d v') : v.drawn ≤ v'.drawn := by
  cases h with
  | answered _ _ harrival | ticked _ _ harrival | allocated _ _ harrival =>
      cases harrival <;> exact Nat.le_refl _
  | rest hdrawn | spare _ _ hdrawn | remove _ _ hdrawn => exact hdrawn
  | install | replace => exact Nat.le_succ _
  | _ => exact Nat.le_refl _

/-! ### Steps that are not

A step that has to wait, or cannot make its log, stops before it moves one.  All that it may have
done is to draw a hash function (`Stands`).
-/

/-- The logs are where they were. -/
private structure Stands (p q : Process ε) : Prop where
  live : ∀ kind, (q.sampler kind).live = (p.sampler kind).live
  drawn : p.hashersDrawn ≤ q.hashersDrawn

private theorem stands_drawHasher (p : Process ε) : Stands p p.drawHasher :=
  ⟨fun kind => by cases kind <;> rfl, Nat.le_succ _⟩

/-- An export that has to wait does nothing. -/
private theorem handOver_of_deadlock {kind : SamplerKind} {prepared : Option BacktraceLog}
    (h : (handOver kind prepared p).1 = .error .deadlock) :
    (handOver kind prepared p).2 = p := by
  by_cases hlive : (p.sampler kind).live = .inUse
  · unfold handOver
    rw [hlive]
  · exact absurd h (handOver_ne_deadlock prepared hlive)

/-- A call that has to wait moves no log. -/
private theorem stands_enter {operation : Operation ε}
    (h : (operation.enter p).1 = .error .deadlock) : Stands p (operation.enter p).2 := by
  cases operation with
  | start request =>
      unfold Operation.enter at h ⊢
      dsimp only at h ⊢
      split at h
      · cases h
      · rename_i hzero
        rw [if_neg hzero]
        split at h
        · cases h
        · rename_i hrun
          rw [if_neg hrun]
          cases hlive : (p.sampler request.kind).live with
          | absent => simp [hlive] at h
          | ready log =>
              rw [hlive] at h
              exact absurd h (StartRequest.proceed_ne_error _ _ _ _)
          | inUse =>
              refine ⟨fun kind => ?_, Nat.le_of_eq ?_⟩
              · simp only [Process.setRunning, Process.sampler_mapSampler]
                split <;> rfl
              · simp [Process.setRunning]
  | stop kind =>
      unfold Operation.enter at h
      dsimp only at h
      split at h <;> cases h
  | tick =>
      unfold Operation.enter at h
      dsimp only at h
      split at h
      · split at h
        · cases h
        · exact absurd h (arrive_ne_error _ _ _ _)
      · cases h
  | probe size =>
      unfold Operation.enter at h
      dsimp only at h
      split at h
      · exact absurd h (arrive_ne_error _ _ _ _)
      · cases h
  | note size =>
      unfold Operation.enter at h
      dsimp only at h
      split at h
      · split at h
        · exact absurd h (arrive_ne_error _ _ _ _)
        · cases h
      · cases h
  | exportKind kind =>
      unfold Operation.enter at h ⊢
      dsimp only at h ⊢
      split at h
      · cases h
      · rename_i hrun
        rw [if_neg hrun, handOver_of_deadlock h]
        exact ⟨fun _ => rfl, Nat.le_refl _⟩
  | host change => cases h

/-- A suspended operation that cannot make its log, or has to wait, moves no log. -/
private theorem stands_resume {s : Suspended} {r : Except Fault Outcome} {q : Process ε}
    {w' : Weave ε} (hresume : s.resume p = (r, q))
    (hcalm : ¬ (Occurrence.mk ⟨p, s :: pending⟩ .resume r w').Calm) :
    Stands p q ∧ stillSuspended r = [] ∧ s.moment ≠ .capture := by
  have hfailed : r = .error .deadlock ∨
      ∃ settings, (Occurrence.mk ⟨p, s :: pending⟩ .resume r w').creates = some settings ∧
        ∀ log, settings.newLog p.nextHasher ≠ .ok log := by
    by_cases hblocked : r = .error .deadlock
    · exact .inl hblocked
    · refine .inr ?_
      by_contra hnone
      refine hcalm ⟨nofun, hblocked, fun settings hcreates => ?_⟩
      by_contra hlog
      exact hnone ⟨settings, hcreates, fun log h => hlog ⟨log, h⟩⟩
  have hdrawn := stands_drawHasher p
  obtain ⟨rfl, rfl⟩ : (s.resume p).1 = r ∧ (s.resume p).2 = q := by
    rw [hresume]
    exact ⟨rfl, rfl⟩
  clear hresume hcalm
  cases s with
  | starting request settings =>
      unfold Suspended.resume at hfailed ⊢
      dsimp only at hfailed ⊢
      cases hmade : settings.newLog p.nextHasher with
      | error e => exact ⟨hdrawn, rfl, nofun⟩
      | ok fresh =>
          rw [hmade] at hfailed
          rcases hfailed with hblocked | ⟨settings', hcreates, hnone⟩
          · dsimp only at hblocked ⊢
            cases hlive : (p.sampler request.kind).live with
            | inUse => exact ⟨hdrawn, rfl, nofun⟩
            | absent | ready =>
                rw [hlive] at hblocked
                exact absurd hblocked (StartRequest.proceed_ne_error _ _ _ _)
          · obtain rfl : settings = settings' := Option.some.inj hcreates
            exact absurd hmade (hnone fresh)
  | exporting k settings =>
      unfold Suspended.resume at hfailed ⊢
      dsimp only at hfailed ⊢
      cases hmade : settings.newLog p.nextHasher with
      | error e => exact ⟨hdrawn, rfl, nofun⟩
      | ok fresh =>
          rw [hmade] at hfailed
          rcases hfailed with hblocked | ⟨settings', hcreates, hnone⟩
          · dsimp only at hblocked ⊢
            rw [handOver_of_deadlock hblocked, hblocked]
            exact ⟨hdrawn, rfl, nofun⟩
          · obtain rfl : settings = settings' := Option.some.inj hcreates
            exact absurd hmade (hnone fresh)
  | arming milliseconds =>
      rcases hfailed with hblocked | ⟨settings, hcreates, -⟩
      · unfold Suspended.resume at hblocked
        dsimp only at hblocked
        cases hfault : p.timer.tryArm milliseconds <;> simp [hfault] at hblocked
      · cases hcreates
  | disarming =>
      rcases hfailed with hblocked | ⟨settings, hcreates, -⟩
      · cases hblocked
      · cases hcreates
  | asking interval =>
      rcases hfailed with hblocked | ⟨settings, hcreates, -⟩
      · unfold Suspended.resume at hblocked
        dsimp only at hblocked
        split at hblocked
        · cases hblocked
        · exact absurd hblocked (arrive_ne_error _ _ _ _)
      · cases hcreates
  | recording k log weight =>
      rcases hfailed with hblocked | ⟨settings, hcreates, -⟩
      · cases hblocked
      · cases hcreates

/-! ### Every step -/

private theorem held?_of_moment {s : Suspended} (h : s.moment ≠ .capture) :
    s.held? kind = none := by
  cases s with
  | recording k log weight => exact absurd rfl h
  | _ => rfl

/-- Where the logs stand, a step has moved none. -/
private theorem Stands.move {q : Process ε} (h : Stands p q) {w w' : Weave ε}
    (hp : w.process = p) (hq : w'.process = q)
    (hheld : w'.suspended.filterMap (·.held? kind) = w.suspended.filterMap (·.held? kind)) :
    Move (w.view kind) {} (w'.view kind) ∧ (w.view kind).drawn ≤ (w'.view kind).drawn := by
  subst hp hq
  exact ⟨.rest rfl (h.live kind) hheld, h.drawn⟩

/-- A fault that passes through a sample takes the scratch row of its log; through any other
operation it passes without trace. -/
private theorem move_abandon (s : Suspended) (p : Process ε) (pending : List Suspended)
    (fault : Fault) (w' : Weave ε) :
    Move ((⟨p, s :: pending⟩ : Weave ε).view kind)
        ((Occurrence.mk ⟨p, s :: pending⟩ (.abandon fault) (.error fault) w').act kind)
        ((⟨s.abandon p, pending⟩ : Weave ε).view kind) ∧
      p.hashersDrawn ≤ (s.abandon p).hashersDrawn := by
  cases s with
  | recording k log weight =>
      have hdrawn : p.hashersDrawn ≤ (p.setLive k (.ready log.loseScratch)).hashersDrawn := by
        simp [Process.setLive]
      refine ⟨?_, hdrawn⟩
      by_cases hk : k = kind
      · subst hk
        refine @Move.lose _ _ _ log weight (pending.filterMap (·.held? k)) ?_ ?_ ?_ rfl
        · simp [Occurrence.act, Occurrence.strikes, Occurrence.writes]
        · exact List.filterMap_cons_some (if_pos rfl)
        · simp [Weave.view, Suspended.abandon, Process.setLive]
      · refine .rest ?_ ?_ ?_
        · simp [Occurrence.act, Occurrence.strikes, Occurrence.writes, hk]
        · have hne : ¬ kind = k := fun h => hk h.symm
          simp [Weave.view, Suspended.abandon, Process.setLive, Process.sampler_mapSampler, hne]
        · have hnone : (Suspended.recording k log weight).held? kind = none := if_neg hk
          exact (List.filterMap_cons_none hnone).symm
  | starting | arming | disarming | asking | exporting =>
      exact ⟨.rest rfl rfl rfl, Nat.le_refl _⟩

end

/-- Whatever happens in a step, it moves the log of a sampler as said. -/
theorem Weave.Step.move {w w' : Weave ε} {event : Event ε} {r : Except Fault Outcome}
    (h : Weave.Step w event r w') (kind : SamplerKind) :
    Move (w.view kind) ((Occurrence.mk w event r w').act kind) (w'.view kind) ∧
      (w.view kind).drawn ≤ (w'.view kind).drawn := by
  by_cases hcalm : (Occurrence.mk w event r w').Calm
  · have hturn := h.turn hcalm kind
    refine ⟨?_, hturn.drawn_le⟩
    have hstrikes : (Occurrence.mk w event r w').strikes kind = none := by
      unfold Occurrence.strikes
      split
      · rename_i fault k log weight pending hevent hsuspended
        exact absurd hevent (hcalm.unabandoned fault)
      · rfl
    unfold Occurrence.act
    rw [hstrikes]
    exact hturn.move
  · cases h with
    | @call operation p q r pending henter =>
        have hblocked : r = .error .deadlock := by
          by_contra hblocked
          exact hcalm ⟨nofun, hblocked, nofun⟩
        subst hblocked
        obtain rfl : (operation.enter p).2 = q := congrArg Prod.snd henter
        exact (stands_enter (congrArg Prod.fst henter)).move rfl rfl rfl
    | @resume s p q r pending hresume =>
        obtain ⟨hstands, hstill, hmoment⟩ := stands_resume hresume hcalm
        have hact : (Occurrence.mk ⟨p, s :: pending⟩ .resume r
            ⟨q, stillSuspended r ++ pending⟩).act kind = {} := by
          cases s with
          | recording => exact absurd rfl hmoment
          | _ => rfl
        rw [hact]
        refine hstands.move rfl rfl ?_
        rw [hstill]
        exact (List.filterMap_cons_none (held?_of_moment hmoment)).symm
    | @abandon s p fault pending => exact move_abandon s p pending fault _

/-! ### What is handed over

Only an export returns a snapshot, and it does so only where it hands over the log.  So what the
snapshot is can be said from the sampler as it was, whether the step is calm or not.
-/

private theorem handOver_exported {kind : SamplerKind} {prepared : Option BacktraceLog}
    {p : Process ε} {snapshot : Snapshot}
    (h : (handOver kind prepared p).1 = .ok (.returned (.exported snapshot))) :
    snapshotOf kind (depthOf (p.sampler kind).live.log? p.settings) (p.sampler kind).live.log?
      (p.reclaimedBy kind) (p.sampler kind).dropped = some snapshot := by
  by_cases hlive : (p.sampler kind).live = .inUse
  · unfold handOver at h
    rw [hlive] at h
    cases h
  · rw [handOver_apply prepared hlive] at h
    exact eq_of_presented h

private theorem arrive_ne_exported (kind : SamplerKind) (weight : Weight) (p : Process ε)
    (snapshot : Snapshot) : (arrive kind weight p).1 ≠ .ok (.returned (.exported snapshot)) := by
  unfold arrive
  cases (p.sampler kind).live <;> simp

private theorem proceed_ne_exported (request : StartRequest) (fresh : Bool) (p : Process ε)
    (snapshot : Snapshot) :
    (request.proceed fresh p).1 ≠ .ok (.returned (.exported snapshot)) := by
  cases request <;> simp [StartRequest.proceed]

/-- A call returns a snapshot only if an export is called. -/
private theorem enter_exported {operation : Operation ε} {p : Process ε} {snapshot : Snapshot}
    (h : (operation.enter p).1 = .ok (.returned (.exported snapshot))) :
    ∃ kind, (handOver kind none p).1 = .ok (.returned (.exported snapshot)) := by
  unfold Operation.enter at h
  cases operation with
  | exportKind kind =>
      dsimp only at h
      split at h
      · cases h
      · exact ⟨kind, h⟩
  | start request =>
      dsimp only at h
      split at h
      · cases h
      · split at h
        · cases h
        · cases hlive : (p.sampler request.kind).live with
          | inUse | absent => simp [hlive] at h
          | ready log =>
              rw [hlive] at h
              exact absurd h (proceed_ne_exported _ _ _ _)
  | stop kind =>
      dsimp only at h
      split at h <;> cases h
  | tick =>
      dsimp only at h
      split at h
      · split at h
        · cases h
        · exact absurd h (arrive_ne_exported _ _ _ _)
      · cases h
  | probe size =>
      dsimp only at h
      split at h
      · exact absurd h (arrive_ne_exported _ _ _ _)
      · cases h
  | note size =>
      dsimp only at h
      split at h
      · split at h
        · exact absurd h (arrive_ne_exported _ _ _ _)
        · cases h
      · cases h
  | host change => cases h

/-- A suspended operation returns a snapshot only if it is an export. -/
private theorem resume_exported {s : Suspended} {p : Process ε} {snapshot : Snapshot}
    (h : (s.resume p).1 = .ok (.returned (.exported snapshot))) :
    ∃ kind fresh, (handOver kind (some fresh) p.drawHasher).1
      = .ok (.returned (.exported snapshot)) := by
  unfold Suspended.resume at h
  cases s with
  | exporting kind settings =>
      dsimp only at h
      cases hmade : settings.newLog p.nextHasher with
      | error e => simp [hmade] at h
      | ok fresh =>
          rw [hmade] at h
          exact ⟨kind, fresh, h⟩
  | starting request settings =>
      dsimp only at h
      cases hmade : settings.newLog p.nextHasher with
      | error e => simp [hmade] at h
      | ok fresh =>
          rw [hmade] at h
          dsimp only at h
          cases hlive : (p.sampler request.kind).live with
          | inUse => simp [hlive] at h
          | absent | ready =>
              rw [hlive] at h
              exact absurd h (proceed_ne_exported _ _ _ _)
  | arming milliseconds =>
      dsimp only at h
      cases htimer : p.timer.tryArm milliseconds <;> simp [htimer] at h
  | disarming => cases h
  | asking interval =>
      dsimp only at h
      split at h
      · cases h
      · exact absurd h (arrive_ne_exported _ _ _ _)
  | recording kind log weight => cases h

/-- A snapshot is one of the live log, as the sampler was when it was taken away. -/
theorem Weave.Step.snapshot_eq {w w' : Weave ε} {event : Event ε} {r : Except Fault Outcome}
    (h : Weave.Step w event r w') {kind : SamplerKind} {snapshot : Snapshot}
    (hs : (Occurrence.mk w event r w').exported kind = some snapshot) :
    let s := w.process.sampler kind
    snapshotOf kind (depthOf s.live.log? w.process.settings) s.live.log?
      (w.process.reclaimedBy kind) s.dropped = some snapshot := by
  obtain ⟨rfl, hkind⟩ : r = .ok (.returned (.exported snapshot)) ∧ snapshot.kind = kind := by
    unfold Occurrence.exported at hs
    dsimp only at hs
    split at hs
    · split at hs
      · rename_i hkind
        obtain rfl := Option.some.inj hs
        exact ⟨rfl, hkind⟩
      · cases hs
    · cases hs
  cases h with
  | @call operation p q r pending henter =>
      obtain ⟨k, hover⟩ := enter_exported (congrArg Prod.fst henter)
      have heq := handOver_exported hover
      obtain rfl : k = kind := (kind_of_snapshotOf heq).symm.trans hkind
      exact heq
  | @resume s p q r pending hresume =>
      obtain ⟨k, fresh, hover⟩ := resume_exported (congrArg Prod.fst hresume)
      have heq := handOver_exported hover
      obtain rfl : k = kind := (kind_of_snapshotOf heq).symm.trans hkind
      cases k <;> exact heq

/-! ### Where the log is

Of what calm runs keep (`Custody`), this much holds of all: the log is live or one sample holds it
(`Shelved`).  Every move keeps that, and each log that is in custody after it can be traced back
(`Origin`).
-/

/-- Where a log in custody comes from. -/
inductive Origin (v : View) (a : Act) (v' : View) : BacktraceLog → Prop where
  | kept {log : BacktraceLog} (hact : a = {}) (hlog : log ∈ v.custody) : Origin v a v' log
  | written {writing : Writing} (hact : a = { writes := some writing })
      (hlog : writing.log ∈ v.custody) : Origin v a v' writing.written
  | struck {log : BacktraceLog} (hact : a = { strikes := some log }) (hlog : log ∈ v.custody) :
      Origin v a v' log.loseScratch
  | fresh {log : BacktraceLog} (hact : a = {}) (hlog : Fresh v log)
      (hdrawn : v'.drawn = v.drawn + 1) : Origin v a v' log

section

variable {v v' : View} {a : Act}

private theorem Shelved.of_ready {log : BacktraceLog} (hlive : v.live = .ready log)
    (hheld : v.held = []) : Shelved v ∧ v.custody = [log] := by
  have ok : Shelved v := by
    refine ⟨fun h => ?_, fun _ => hheld⟩
    rw [hlive] at h
    cases h
  exact ⟨ok, ok.custody_ready hlive⟩

/-- A move leaves the log in one place, and says where it comes from. -/
theorem Move.shelved (h : Move v a v') (ok : Shelved v) :
    Shelved v' ∧ ∀ log ∈ v'.custody, Origin v a v' log := by
  cases h with
  | rest hact hlive hheld =>
      have hcustody : v'.custody = v.custody := by
        unfold View.custody
        rw [hlive, hheld]
      refine ⟨⟨?_, ?_⟩, fun log hlog => .kept hact (hcustody ▸ hlog)⟩
      · rw [hlive, hheld]
        exact ok.held_inUse
      · rw [hlive, hheld]
        exact ok.held_free
  | @hold log weight hact hlive hlive' hheld' =>
      rw [ok.held_free (by simp [hlive])] at hheld'
      have ok' : Shelved v' := ⟨fun _ => ⟨_, hheld'⟩, fun h => absurd hlive' h⟩
      refine ⟨ok', fun log' hlog' => .kept hact ?_⟩
      rw [(ok'.custody_held hheld').2.2] at hlog'
      rw [ok.custody_ready hlive]
      exact hlog'
  | @write writing held hact hheld hlive' hheld' =>
      obtain ⟨-, rfl, hcustody⟩ := ok.custody_held hheld
      obtain ⟨ok', hcustody'⟩ := Shelved.of_ready hlive' hheld'
      refine ⟨ok', fun log hlog => ?_⟩
      rw [hcustody'] at hlog
      rw [List.mem_singleton.mp hlog]
      exact .written hact (by rw [hcustody]; exact List.mem_singleton_self _)
  | @lose log weight held hact hheld hlive' hheld' =>
      obtain ⟨-, rfl, hcustody⟩ := ok.custody_held hheld
      obtain ⟨ok', hcustody'⟩ := Shelved.of_ready hlive' hheld'
      refine ⟨ok', fun log' hlog' => ?_⟩
      rw [hcustody'] at hlog'
      rw [List.mem_singleton.mp hlog']
      exact .struck hact (by rw [hcustody]; exact List.mem_singleton_self _)
  | @install log hact hlive hlog hdrawn hlive' hheld' =>
      obtain ⟨ok', hcustody'⟩ := Shelved.of_ready hlive' (hheld'.trans (ok.held_free hlive))
      refine ⟨ok', fun log' hlog' => ?_⟩
      rw [hcustody'] at hlog'
      rw [List.mem_singleton.mp hlog']
      exact .fresh hact hlog hdrawn
  | remove hact hlive hlive' hheld' =>
      have ok' : Shelved v' := ⟨fun h => absurd (hlive'.symm.trans h) nofun,
        fun _ => hheld'.trans (ok.held_free hlive)⟩
      refine ⟨ok', fun log hlog => ?_⟩
      rw [ok'.custody_absent hlive'] at hlog
      cases hlog

end

/-- In every run the log of a sampler stays in one place. -/
theorem Weave.Run.shelved {w w' : Weave ε} {os : List (Occurrence ε)} (h : Weave.Run w os w')
    {kind : SamplerKind} (ok : Shelved (w.view kind)) : Shelved (w'.view kind) := by
  induction h with
  | nil => exact ok
  | cons first _ ih => exact ih ((first.move kind).1.shelved ok).1

/-- When nothing is suspended, no log is in use, whatever has happened before. -/
theorem Weave.Run.live_ne_inUse {config : Config} {stackCapacity : Nat} {reportsReclaims : Bool}
    {hashers : HashFamily} {host : ε} {p q : Process ε} {os : List (Occurrence ε)}
    (h : Weave.Run ⟨p, []⟩ os ⟨q, []⟩)
    (hidle : Process.idle config stackCapacity reportsReclaims hashers host = .ok p)
    (kind : SamplerKind) : (q.sampler kind).live ≠ .inUse :=
  (h.shelved (custody_idle hidle).1.shelved).live_ne_inUse rfl

end SamplingProfiler
