/-
What a panic in the middle of a sample costs.

It costs that sample, and nothing else if it is the last thing that happens to its log.  Else
it costs every later sample of the log its frames, since the scratch row is gone for good
(`frames_lost_after_panic`).  The logs that are made later are sound.
-/
import SamplingProfiler.Proofs.Replay.History

namespace SamplingProfiler

variable {ε : Type}

/-! ### Histories that end at a panic -/

/-- Is no sample taken after a panic? -/
def endsAtPanic : List Mark → Bool
  | [] => true
  | .sample _ :: rest => endsAtPanic rest
  | .panic :: rest => (accepted rest).isEmpty

/-- If no sample is taken after a panic, all are credited to their own frames. -/
theorem credited_of_endsAtPanic {marks : List Mark} (h : endsAtPanic marks = true) :
    credited marks = accepted marks := by
  induction marks with
  | nil => rfl
  | cons mark rest ih =>
      cases mark with
      | sample capture => exact congrArg (capture :: ·) (ih h)
      | panic =>
          have hnone : accepted rest = [] := List.isEmpty_iff.mp h
          simp [credited, accepted, hnone]

theorem endsAtPanic_of_not_mem {marks : List Mark} (h : .panic ∉ marks) :
    endsAtPanic marks = true := by
  induction marks with
  | nil => rfl
  | cons mark rest ih =>
      cases mark with
      | sample capture => exact ih fun hrest => h (List.mem_cons_of_mem _ hrest)
      | panic => exact absurd List.mem_cons_self h

/-- The log cannot be told from a fresh log of its dimensions to which these samples were added
one by one. -/
def Replays (log : BacktraceLog) (samples : List Capture) : Prop :=
  ∀ hasher, let replayed := Page.replay ⟨⟨log.capacity, log.depth⟩, samples⟩ hasher
    log.entries = replayed.entries ∧ log.evictions = replayed.evictions

theorem Marked.replays {log : BacktraceLog} {marks : List Mark} (h : Marked log marks) :
    Replays log (credited marks) := by
  intro hasher
  obtain ⟨hentries, hevictions, -, -⟩ := Page.replay_of_table h.table_eq hasher
  exact ⟨hentries, hevictions⟩

/-! ### Logs that come about -/

/-- In some run of some process a sampler comes to have this log, and this befalls it until it
is looked at. -/
inductive Comes (ε : Type) : BacktraceLog → List Mark → Prop where
  /-- The sampler has the log at the end of the run, -/
  | live {config : Config} {stackCapacity : Nat} {reportsReclaims : Bool} {hashers : HashFamily}
      {host : ε} {p : Process ε} {os : List (Occurrence ε)} {w : Weave ε} {kind : SamplerKind}
      {log : BacktraceLog}
      (hidle : Process.idle config stackCapacity reportsReclaims hashers host = .ok p)
      (hrun : Weave.Run ⟨p, []⟩ os w) (hlog : log ∈ w.custody kind) :
      Comes ε log (history kind log.hasher.key os)
  /-- or hands it over in the last step. -/
  | exported {config : Config} {stackCapacity : Nat} {reportsReclaims : Bool}
      {hashers : HashFamily} {host : ε} {p : Process ε} {os : List (Occurrence ε)}
      {o : Occurrence ε} {kind : SamplerKind} {snapshot : Snapshot} {log : BacktraceLog}
      (hidle : Process.idle config stackCapacity reportsReclaims hashers host = .ok p)
      (hrun : Weave.Run ⟨p, []⟩ os o.before)
      (hstep : Weave.Step o.before o.event o.outcome o.after)
      (hexported : o.exported kind = some snapshot) (hlog : snapshot.log = some log) :
      Comes ε log (history kind log.hasher.key os)

private theorem Comes.marked {log : BacktraceLog} {marks : List Mark} (h : Comes ε log marks) :
    Marked log marks := by
  cases h with
  | live hidle hrun hlog => exact (hrun.chronicled (chronicled_idle hidle)).marked log hlog
  | @exported _ _ _ _ _ _ os o kind snapshot log hidle hrun hstep hexported hlog =>
      have hsnapshot := hstep.snapshot_eq hexported
      have hlive : (o.before.process.sampler kind).live.log? = some log := by
        unfold snapshotOf at hsnapshot
        dsimp only at hsnapshot
        split at hsnapshot
        · rw [← Option.some.inj hsnapshot] at hlog
          exact hlog
        · cases hsnapshot
      refine (hrun.chronicled (chronicled_idle hidle)).marked log (List.mem_append_left _ ?_)
      exact Option.mem_toList.mpr hlive

/-- Whatever happens, a log holds the samples that it has taken, with the frames they are
credited to.
If no sample came after a panic, these are the frames of the call stack, and the log cannot be
told from one of its dimensions that took the same samples and never saw a panic. -/
theorem samples_after_panics {log : BacktraceLog} {marks : List Mark} (h : Comes ε log marks) :
    Replays log (credited marks)
    ∧ (endsAtPanic marks = true → Replays log (accepted marks)
      ∧ ∀ log' marks', Comes ε log' marks' → .panic ∉ marks' → accepted marks' = accepted marks →
        log'.capacity = log.capacity → log'.depth = log.depth →
        log.entries = log'.entries ∧ log.evictions = log'.evictions) := by
  have hreplays := h.marked.replays
  refine ⟨hreplays, fun hends => ?_⟩
  rw [credited_of_endsAtPanic hends] at hreplays
  refine ⟨hreplays, fun log' marks' h' hnone haccepted hcapacity hdepth => ?_⟩
  have hreplays' := h'.marked.replays
  rw [credited_of_endsAtPanic (endsAtPanic_of_not_mem hnone), haccepted] at hreplays'
  obtain ⟨hentries, hevictions⟩ := hreplays log.hasher
  obtain ⟨hentries', hevictions'⟩ := hreplays' log.hasher
  rw [hcapacity, hdepth] at hentries' hevictions'
  exact ⟨hentries.trans hentries'.symm, hevictions.trans hevictions'.symm⟩

/-- For instance, a panic costs nothing but its own sample if the log is looked at next. -/
theorem samples_after_panics_of_last :
    ∃ log marks, Comes Unit log marks ∧ .panic ∈ marks ∧ endsAtPanic marks = true
      ∧ log.entries = [⟨[⟨7⟩], .ofNat 5⟩] := by
  obtain ⟨p, hidle⟩ : ∃ p : Process Unit,
      Process.idle { logCapacity := 2, maxStackDepth := 1 } 2 false .mixing () = .ok p := ⟨_, rfl⟩
  have hp := Process.eq_of_idle hidle
  generalize hplay : Weave.play (⟨p, []⟩ : Weave Unit)
    [.call (.host (.ofStack (·.enter ⟨7⟩))), .call (.start .memory), .resume,
      .call (.probe (.ofNat 5)), .resume, .call (.probe (.ofNat 1)), .abandon (.panic "")] = play
  have hrun : Weave.Run ⟨p, []⟩ play.1 play.2 := by
    rw [← hplay]
    exact Weave.run_play _ _
  obtain ⟨log, hlog, hhistory, hcapacity, hdepth⟩ : ∃ log, play.2.custody .memory = [log]
      ∧ history .memory log.hasher.key play.1 = [.sample ⟨[⟨7⟩], .ofNat 5⟩, .panic]
      ∧ log.capacity = 2 ∧ log.depth = 1 := by
    rw [← hplay, hp]
    exact ⟨_, rfl, rfl, rfl, rfl⟩
  have hcomes := Comes.live hidle hrun (by rw [hlog]; exact List.mem_singleton_self log)
  rw [hhistory] at hcomes
  have hentries := (((samples_after_panics hcomes).2 rfl).1 (HashFamily.mixing.hasher 0)).1
  rw [hcapacity, hdepth] at hentries
  exact ⟨log, _, hcomes, List.mem_cons_of_mem _ List.mem_cons_self, rfl, hentries⟩

/-- But a sample that comes after a panic loses its frames, in the log that is handed over. -/
theorem frames_lost_after_panic :
    ∃ log marks, Comes Unit log marks ∧ accepted marks = [⟨[⟨7⟩], .ofNat 5⟩]
      ∧ log.entries = [⟨[FrameId.null], .ofNat 5⟩] ∧ ¬ Replays log (accepted marks) := by
  obtain ⟨p, hidle⟩ : ∃ p : Process Unit,
      Process.idle { logCapacity := 2, maxStackDepth := 1 } 2 false .mixing () = .ok p := ⟨_, rfl⟩
  have hp := Process.eq_of_idle hidle
  generalize hplay : Weave.play (⟨p, []⟩ : Weave Unit)
    [.call (.host (.ofStack (·.enter ⟨7⟩))), .call (.start .memory), .resume,
      .call (.probe (.ofNat 1)), .abandon (.panic ""), .call (.probe (.ofNat 5)), .resume,
      .call (.stop .memory)] = play
  have hrun : Weave.Run ⟨p, []⟩ play.1 play.2 := by
    rw [← hplay]
    exact Weave.run_play _ _
  obtain ⟨r, w', snapshot, log, hnext, hexported, hlog, hhistory, hentries, hcapacity, hdepth⟩ :
      ∃ r w' snapshot log, play.2.next (.call (.exportKind .memory)) = some (r, w')
        ∧ (Occurrence.mk play.2 (.call (.exportKind .memory)) r w').exported .memory
          = some snapshot
        ∧ snapshot.log = some log
        ∧ history .memory log.hasher.key play.1 = [.panic, .sample ⟨[⟨7⟩], .ofNat 5⟩]
        ∧ log.entries = [⟨[FrameId.null], .ofNat 5⟩] ∧ log.capacity = 2 ∧ log.depth = 1 := by
    rw [← hplay, hp]
    exact ⟨_, _, _, _, rfl, rfl, rfl, rfl, rfl, rfl, rfl⟩
  have hcomes := Comes.exported hidle hrun (Weave.step_of_next hnext) hexported hlog
  rw [hhistory] at hcomes
  refine ⟨log, _, hcomes, rfl, hentries, fun hreplays => ?_⟩
  have hown := (hreplays (HashFamily.mixing.hasher 0)).1
  rw [hcapacity, hdepth, hentries] at hown
  exact absurd hown (by decide +kernel)

end SamplingProfiler
