/-
Snapshots of a shadow stack are consistent.

The host of a shadow stack pushes, leaves and reclaims, and changes its settings through
checks.  So at any time it is in no reserved frame, and the settings have a depth
(`Weave.Run.orderly`).  All that a log holds was captured from such stacks, in whatever
order things happened, through evictions, and with a scratch row or without one: its
history says so.  The depth of a snapshot is that of its log, or of the settings if there
is none.
-/
import SamplingProfiler.Proofs.Interleaving.Confined
import SamplingProfiler.Proofs.Replay.History
import SamplingProfiler.Proofs.Settings
import SamplingProfiler.Proofs.Snapshot

namespace SamplingProfiler

variable {ε : Type}

/-! ### The host

Only the host changes the stack and the settings, since what belongs to a sampler is confined to it.
So it is enough that the host goes through the checks, whatever the samplers do at the same time.
-/

/-- The host is in no reserved frame, and its settings are valid. -/
structure Orderly (p : Process ε) : Prop where
  proper : p.stack.Proper
  valid : p.settings.Valid

/-- Is it the host that does something? -/
def Occurrence.isHost (o : Occurrence ε) : Bool :=
  match o.event with
  | .call (.host _) => true
  | _ => false

/-- The host goes through the checks of its stack and of its settings. -/
def Occurrence.Checked (o : Occurrence ε) : Prop :=
  o.isHost = true → o.before.process.stack.Reaches o.after.process.stack
    ∧ o.before.process.settings.Reaches o.after.process.settings

theorem orderly_idle {config : Config} {stackCapacity : Nat} {reportsReclaims : Bool}
    {hashers : HashFamily} {host : ε} {p : Process ε}
    (hidle : Process.idle config stackCapacity reportsReclaims hashers host = .ok p) :
    Orderly p := by
  have hvalid : config.validate = .ok () := by
    unfold Process.idle at hidle
    cases h : config.validate with
    | error e => rw [h] at hidle; cases hidle
    | ok => rfl
  rw [Process.eq_of_idle hidle]
  exact ⟨ShadowStack.proper_empty _, (Config.validate_eq_ok_iff config).mp hvalid⟩

/-- What the host does not do, is confined to one sampler. -/
theorem Weave.Step.confined_of_profiler {o : Occurrence ε}
    (hstep : Weave.Step o.before o.event o.outcome o.after) (hhost : ¬o.isHost = true) :
    ∃ kind, Confined kind o.before.process o.after.process :=
  hstep.confined fun change hevent => hhost (by
    unfold Occurrence.isHost
    rw [hevent])

/-- The samplers change neither. -/
theorem Orderly.step {o : Occurrence ε} (h : Orderly o.before.process)
    (hstep : Weave.Step o.before o.event o.outcome o.after) (hchecked : o.Checked) :
    Orderly o.after.process := by
  by_cases hhost : o.isHost = true
  · obtain ⟨hstack, hsettings⟩ := hchecked hhost
    exact ⟨hstack.proper h.proper, hsettings.valid h.valid⟩
  · obtain ⟨kind, hconfined⟩ := hstep.confined_of_profiler hhost
    refine ⟨?_, ?_⟩
    · rw [hconfined.stack]
      exact h.proper
    · rw [hconfined.settings]
      exact h.valid

theorem Weave.Run.orderly {w w' : Weave ε} {os : List (Occurrence ε)} (h : Weave.Run w os w')
    (hchecked : ∀ o ∈ os, o.Checked) (hfirst : Orderly w.process) :
    ∀ o ∈ os, Orderly o.before.process := by
  induction h with
  | nil =>
      intro o ho
      cases ho
  | @cons w₁ w₂ w₃ event r os first _ ih =>
      have hchecked' : (Occurrence.mk w₁ event r w₂).Checked := hchecked _ List.mem_cons_self
      have hnext : Orderly w₂.process :=
        Orderly.step (o := ⟨w₁, event, r, w₂⟩) hfirst first hchecked'
      intro o ho
      rcases List.mem_cons.mp ho with heq | hmem
      · rw [heq]
        exact hfirst
      · exact ih (fun o ho => hchecked o (List.mem_cons_of_mem _ ho)) hnext o hmem

/-- No reserved frame is captured from an orderly process. -/
theorem Orderly.captured {p : Process ε} (h : Orderly p) :
    ∀ f ∈ p.stack.captured, f.isReserved = false := by
  unfold ShadowStack.captured
  split
  · exact nofun
  · exact h.proper

/-! ### Snapshots -/

/-- Whatever happens, a log has backtraces of functions only. -/
theorem Chronicled.clean {kind : SamplerKind} {past : List (Occurrence ε)} {w : Weave ε}
    (h : Chronicled kind past w) (horderly : ∀ o ∈ past, Orderly o.before.process)
    {log : BacktraceLog} (hlog : log ∈ w.custody kind) :
    0 < log.depth ∧ ∀ e ∈ log.entries, Backtrace.Clean e.frames := by
  refine (h.marked log hlog).forall_frames fun c hc => Backtrace.clean_normalise ?_ _
  rcases mem_credited hc with hnone | hmem
  · rw [hnone]
    exact nofun
  · obtain ⟨o, ho, hframes⟩ := frames_of_mem_history hmem
    rw [hframes]
    exact (horderly o ho).captured

/-- A snapshot as samplers make them, whatever was captured: it has the depth of its log. -/
structure Snapshot.Formed (s : Snapshot) : Prop where
  depth_pos : 0 < s.depth
  wellFormed : ∀ log ∈ s.log, log.WellFormed
  depth_eq : ∀ log ∈ s.log, log.depth = s.depth

/-- A snapshot that is handed over has the live log, which the history of its sampler is true of,
and so it is formed. -/
theorem Chronicled.formed {kind : SamplerKind} {past : List (Occurrence ε)} {o : Occurrence ε}
    (h : Chronicled kind past o.before) (hvalid : o.before.process.settings.Valid)
    (hstep : Weave.Step o.before o.event o.outcome o.after) {snapshot : Snapshot}
    (hexported : o.exported kind = some snapshot) :
    snapshot.kind = kind ∧ snapshot.Formed ∧ (snapshot.gcWeight.isSome = true ↔ kind = .cpu)
      ∧ ∀ log ∈ snapshot.log, log ∈ o.before.custody kind := by
  have hsnapshot := hstep.snapshot_eq hexported
  have hlogs : ∀ log ∈ (o.before.process.sampler kind).live.log?, log ∈ o.before.custody kind :=
    fun log hlog => List.mem_append_left _ (Option.mem_toList.mpr hlog)
  unfold snapshotOf at hsnapshot
  dsimp only at hsnapshot
  split at hsnapshot
  · obtain rfl := Option.some.inj hsnapshot
    refine ⟨rfl, ⟨?_, fun log hlog => (h.marked log (hlogs log hlog)).wellFormed,
      fun log hlog => ?_⟩, ?_, hlogs⟩
    · show 0 < depthOf _ _
      cases hlog : (o.before.process.sampler kind).live.log? with
      | none => exact hvalid.depth_pos
      | some log =>
          exact ((h.marked log (hlogs log hlog)).forall_frames (P := fun _ => True)
            fun _ _ => trivial).1
    · show log.depth = depthOf _ _
      unfold depthOf
      rw [show (o.before.process.sampler kind).live.log? = some log from hlog]
      rfl
    · show (if kind = .cpu then some _ else none).isSome = true ↔ kind = .cpu
      split <;> simp [*]
  · cases hsnapshot

/-- A snapshot that is handed over in an orderly process is regular. -/
theorem Chronicled.regular {kind : SamplerKind} {past : List (Occurrence ε)} {o : Occurrence ε}
    (h : Chronicled kind past o.before) (horderly : ∀ o ∈ past, Orderly o.before.process)
    (hlast : Orderly o.before.process)
    (hstep : Weave.Step o.before o.event o.outcome o.after) {snapshot : Snapshot}
    (hexported : o.exported kind = some snapshot) :
    snapshot.kind = kind ∧ snapshot.Regular := by
  obtain ⟨hkind, hformed, hgc, hlogs⟩ := h.formed hlast.valid hstep hexported
  refine ⟨hkind, hformed.depth_pos, ?_, hformed.wellFormed, hformed.depth_eq,
    fun log hlog => (h.clean horderly (hlogs log hlog)).2⟩
  rw [hgc, hkind]

/-- Every snapshot of a host that respects its checks is regular. -/
theorem Weave.Run.exported_regular {config : Config} {stackCapacity : Nat}
    {reportsReclaims : Bool} {hashers : HashFamily} {host : ε} {p : Process ε}
    {os : List (Occurrence ε)} {w : Weave ε}
    (hidle : Process.idle config stackCapacity reportsReclaims hashers host = .ok p)
    (hrun : Weave.Run ⟨p, []⟩ os w) (hchecked : ∀ o ∈ os, o.Checked) {o : Occurrence ε}
    (ho : o ∈ os) {kind : SamplerKind} {snapshot : Snapshot}
    (hexported : o.exported kind = some snapshot) : snapshot.kind = kind ∧ snapshot.Regular := by
  obtain ⟨past, rest, hos, hpast, hstep⟩ := hrun.until ho
  have horderly := hrun.orderly hchecked (orderly_idle hidle)
  have hchronicled : Chronicled kind past o.before := hpast.chronicled (chronicled_idle hidle)
  have hbefore : ∀ o' ∈ past, Orderly o'.before.process := by
    intro o' ho'
    rw [hos] at horderly
    exact horderly o' (List.mem_append_left _ ho')
  exact hchronicled.regular hbefore (horderly o ho) hstep hexported

/-- Whatever happens to a profiler of a shadow stack whose host respects the checks of the stack
and of the settings, every snapshot is consistent. -/
theorem snapshots_consistent {config : Config} {stackCapacity : Nat} {reportsReclaims : Bool}
    {hashers : HashFamily} {host : ε} {p : Process ε} {os : List (Occurrence ε)} {w : Weave ε}
    (hidle : Process.idle config stackCapacity reportsReclaims hashers host = .ok p)
    (hrun : Weave.Run ⟨p, []⟩ os w) (hchecked : ∀ o ∈ os, o.Checked) :
    ∀ o ∈ os, ∀ kind snapshot, o.exported kind = some snapshot →
      snapshot.kind = kind ∧ snapshot.Consistent := by
  intro o ho kind snapshot hexported
  obtain ⟨hkind, hregular⟩ := hrun.exported_regular hidle hchecked ho hexported
  exact ⟨hkind, hregular.consistent⟩

/-- For instance, the depth may be changed while a log is in use. -/
theorem snapshots_consistent_of_deepened :
    ∃ (p : Process Unit) (os : List (Occurrence Unit)) (w : Weave Unit) (snapshot : Snapshot),
      Process.idle { logCapacity := 2, maxStackDepth := 2 } 2 true .mixing () = .ok p
      ∧ Weave.Run ⟨p, []⟩ os w ∧ (∀ o ∈ os, o.Checked)
      ∧ (∃ o ∈ os, o.exported .cpu = some snapshot)
      ∧ snapshot.entries = [⟨[⟨7⟩, FrameId.null], .ofNat 10⟩, ⟨[FrameId.gc, FrameId.null], 0⟩]
      ∧ snapshot.weightOf [⟨7⟩] = some (.ofNat 10) := by
  obtain ⟨p, hidle⟩ : ∃ p : Process Unit,
      Process.idle { logCapacity := 2, maxStackDepth := 2 } 2 true .mixing () = .ok p := ⟨_, rfl⟩
  have hp := Process.eq_of_idle hidle
  generalize hplay : Weave.play (⟨p, []⟩ : Weave Unit)
    [.call (.host (.ofStack (·.enter ⟨7⟩))), .call (.start (.cpu (.ofNat 10))), .resume, .resume,
      .call (.host (.ofSettings ({ · with depth := 3 }))), .call .tick, .resume, .resume,
      .call (.exportKind .cpu), .resume] = play
  have hrun : Weave.Run ⟨p, []⟩ play.1 play.2 := by
    rw [← hplay]
    exact Weave.run_play _ _
  have hchecked : ∀ o ∈ play.1, o.Checked := by
    rw [← hplay, hp]
    show ∀ o ∈ [_, _, _, _, _, _, _, _, _, _], Occurrence.Checked o
    simp only [List.forall_mem_cons]
    refine ⟨fun _ => ⟨@ShadowStack.Reaches.push _ _ _ ⟨7⟩ .refl rfl, .refl⟩, nofun, nofun, nofun,
      fun _ => ⟨.refl, @LogSettings.Reaches.depth _ _ _ 3 .refl rfl⟩, nofun, nofun, nofun, nofun,
      nofun, ?_⟩
    exact fun o ho => absurd ho List.not_mem_nil
  obtain ⟨o, snapshot, ho, hexported, hentries⟩ : ∃ o snapshot, o ∈ play.1
      ∧ o.exported .cpu = some snapshot
      ∧ snapshot.entries
        = [⟨[⟨7⟩, FrameId.null], .ofNat 10⟩, ⟨[FrameId.gc, FrameId.null], 0⟩] := by
    rw [← hplay, hp]
    exact ⟨_, _, List.mem_of_getElem? (i := 9) rfl, rfl, rfl⟩
  obtain ⟨-, hconsistent⟩ := snapshots_consistent hidle hrun hchecked o ho .cpu snapshot hexported
  have hmem : (⟨[⟨7⟩, FrameId.null], .ofNat 10⟩ : Entry) ∈ snapshot.entries := by
    rw [hentries]
    exact List.mem_cons_self
  have hdepth := hconsistent.length_frames _ hmem
  refine ⟨p, _, _, snapshot, hidle, hrun, hchecked, ⟨o, ho, hexported⟩, hentries, ?_⟩
  rw [hconsistent.weightOf_iff, ← hdepth]
  exact hmem

end SamplingProfiler
