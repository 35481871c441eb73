/-
What has befallen a log, and what that leaves.

A sample lends the scratch row of its log to the source of call stacks.  If the source
gives up, the row is lost and the log goes on without it.  Nothing can be captured into a
row of no length, so from then on every sample of that log is credited to the backtrace that
has no frames.

The `history` of a log says which samples it has taken and where it was struck.  What the log
holds is read off its history alone, through evictions and with a scratch row or without one
(`Marked`).  No run is too wild for this: whatever happens, the histories of the logs of a
sampler are true (`Weave.Run.chronicled`).
-/
import SamplingProfiler.Proofs.Interleaving.Holding
import SamplingProfiler.Proofs.Log.Amortised
import SamplingProfiler.Proofs.Replay.Page

namespace SamplingProfiler

variable {ε : Type}

/-! ### Histories

A log is told from the others of its sampler by its hash function, since that is drawn when the log
is made and no two logs draw the same.  So the history of one log can be read off a run in which
several are made (`Occurrence.mark`).
-/

/-- What befalls a log: it takes a sample, or a fault passes through the sample that it is
held by. -/
inductive Mark where
  | sample (capture : Capture)
  | panic
deriving DecidableEq

/-- The samples that were taken, each with the frames of the call stack. -/
def accepted : List Mark → List Capture
  | [] => []
  | .sample capture :: rest => capture :: accepted rest
  | .panic :: rest => accepted rest

/-- The samples with the frames they are credited to: after the first panic there are none. -/
def credited : List Mark → List Capture
  | [] => []
  | .sample capture :: rest => capture :: credited rest
  | .panic :: rest => (accepted rest).map fun capture => { capture with frames := [] }

theorem accepted_append (marks others : List Mark) :
    accepted (marks ++ others) = accepted marks ++ accepted others := by
  induction marks with
  | nil => rfl
  | cons mark rest ih =>
      cases mark with
      | sample capture => exact congrArg (capture :: ·) ih
      | panic => exact ih

/-- A further sample is credited to its own frames only if there was no panic. -/
theorem credited_sample (marks : List Mark) (capture : Capture) :
    credited (marks ++ [.sample capture])
      = credited marks ++ [if .panic ∈ marks then { capture with frames := [] } else capture] := by
  induction marks with
  | nil => rfl
  | cons mark rest ih =>
      cases mark with
      | sample first => simpa [credited] using ih
      | panic => simp [credited, accepted_append, accepted]

/-- A further panic changes nothing that was credited. -/
theorem credited_panic (marks : List Mark) : credited (marks ++ [.panic]) = credited marks := by
  induction marks with
  | nil => rfl
  | cons mark rest ih =>
      cases mark with
      | sample first => exact congrArg (first :: ·) ih
      | panic => simp [credited, accepted_append, accepted]

/-- Each sample is credited to no frames or to those that it was taken with. -/
theorem mem_credited {marks : List Mark} {c : Capture} (h : c ∈ credited marks) :
    c.frames = [] ∨ .sample c ∈ marks := by
  induction marks with
  | nil => cases h
  | cons mark rest ih =>
      cases mark with
      | sample first =>
          rcases List.mem_cons.mp h with rfl | hrest
          · exact .inr List.mem_cons_self
          · exact (ih hrest).imp_right (List.mem_cons_of_mem _)
      | panic =>
          obtain ⟨lost, -, rfl⟩ := List.mem_map.mp h
          exact .inl rfl

/-- What a step does to the log with a hash function.  No two logs have the same one. -/
def Occurrence.mark (kind : SamplerKind) (key : Nat) (o : Occurrence ε) : Option Mark :=
  match o.act kind with
  | ⟨some writing, _⟩ =>
    if writing.log.hasher.key = key then
      some (.sample ⟨o.before.process.stack.captured, writing.weight⟩)
    else none
  | ⟨none, some log⟩ => if log.hasher.key = key then some .panic else none
  | ⟨none, none⟩ => none

/-- What befalls a log in a run, the first thing first. -/
def history (kind : SamplerKind) (key : Nat) (os : List (Occurrence ε)) : List Mark :=
  os.filterMap (·.mark kind key)

theorem history_concat (kind : SamplerKind) (key : Nat) (os : List (Occurrence ε))
    (o : Occurrence ε) :
    history kind key (os ++ [o]) = history kind key os ++ (o.mark kind key).toList := by
  unfold history
  rw [List.filterMap_append, List.filterMap_cons]
  cases o.mark kind key <;> rfl

/-- The frames that a log takes are those of the call stack at the time. -/
theorem frames_of_mem_history {kind : SamplerKind} {key : Nat} {os : List (Occurrence ε)}
    {c : Capture} (h : .sample c ∈ history kind key os) :
    ∃ o ∈ os, c.frames = o.before.process.stack.captured := by
  obtain ⟨o, ho, hmark⟩ := List.mem_filterMap.mp h
  refine ⟨o, ho, ?_⟩
  unfold Occurrence.mark at hmark
  split at hmark
  · split at hmark
    · cases hmark
      rfl
    · cases hmark
  · split at hmark <;> cases hmark
  · cases hmark

/-! ### What a history leaves

Which frames a sample is credited to depends on the scratch row, which is whole until the first
panic and gone after it.  So `Marked` has both cases beside the table, and an invariant about the
table alone would not be kept by a sample.
-/

/-- A log to which these things have happened. -/
structure Marked (log : BacktraceLog) (marks : List Mark) : Prop where
  wellFormed : log.WellFormed
  /-- The scratch row has the length of the log until a panic takes it. -/
  scratch_length : .panic ∉ marks → log.scratch.length = log.depth
  scratch_lost : .panic ∈ marks → log.scratch = []
  table_eq : log.table
    = { (Page.mk ⟨log.capacity, log.depth⟩ (credited marks)).table with scratch := log.scratch }

/-- Nothing has happened to a log that was just made. -/
theorem Marked.fresh {settings : LogSettings} {hasher : Hasher} {log : BacktraceLog}
    (h : settings.newLog hasher = .ok log) : Marked log [] := by
  obtain ⟨rfl, -⟩ := newLog_eq_ok h
  refine ⟨BacktraceLog.wellFormed_empty _ _ _, fun _ => List.length_replicate, nofun, ?_⟩
  have hcapacity : (BacktraceLog.empty hasher settings.capacity settings.depth).capacity
      = BacktraceLog.rowsFor settings.capacity := by
    simp [BacktraceLog.capacity, BacktraceLog.empty]
  have hdepth : (BacktraceLog.empty hasher settings.capacity settings.depth).depth
      = BacktraceLog.depthFor settings.depth := rfl
  have hrows : BacktraceLog.rowsFor (BacktraceLog.rowsFor settings.capacity)
      = BacktraceLog.rowsFor settings.capacity := by
    unfold BacktraceLog.rowsFor BacktraceLog.maxRows
    omega
  have hlength : BacktraceLog.depthFor (BacktraceLog.depthFor settings.depth)
      = BacktraceLog.depthFor settings.depth := by
    unfold BacktraceLog.depthFor
    omega
  have hpage : (Page.mk ⟨BacktraceLog.rowsFor settings.capacity,
        BacktraceLog.depthFor settings.depth⟩ []).table
      = .empty (BacktraceLog.rowsFor settings.capacity)
        (BacktraceLog.depthFor settings.depth) := by
    show Table.empty (BacktraceLog.rowsFor (BacktraceLog.rowsFor settings.capacity))
      (BacktraceLog.depthFor (BacktraceLog.depthFor settings.depth)) = _
    rw [hrows, hlength]
  rw [show credited [] = [] from rfl, hcapacity, hdepth, hpage]
  exact BacktraceLog.table_empty _ _ _

/-- A panic takes the scratch row. -/
theorem Marked.strike {log : BacktraceLog} {marks : List Mark} (h : Marked log marks) :
    Marked log.loseScratch (marks ++ [.panic]) where
  wellFormed := h.wellFormed.with_scratch []
  scratch_length hnone := absurd (List.mem_append_right _ List.mem_cons_self) hnone
  scratch_lost _ := rfl
  table_eq := by
    have htable : log.loseScratch.table = { log.table with scratch := [] } := rfl
    rw [htable, h.table_eq, credited_panic]
    rfl

/-- Without a scratch row nothing is captured. -/
theorem Table.record_lost (t : Table) (stack : ShadowStack) (weight : Weight)
    (hscratch : t.scratch = []) :
    t.record stack.capture weight = { (t.add [] weight).2 with scratch := [] } := by
  obtain ⟨hlength, -⟩ := stack.capture_eq []
  have hnil : (stack.capture []).1 = [] := List.eq_nil_of_length_eq_zero hlength
  have hnone : ∀ claimed, Backtrace.normalise 0 (([] : List FrameId).take claimed) = [] := by
    simp [Backtrace.normalise]
  unfold record
  dsimp only
  rw [hscratch, hnil, List.length_nil, hnone]

/-- A sample is written to the log as it is credited. -/
theorem Marked.capture {log : BacktraceLog} {marks : List Mark} (h : Marked log marks)
    (stack : ShadowStack) (weight : Weight) :
    Marked (log.record stack.capture weight)
      (marks ++ [.sample ⟨stack.captured, weight⟩]) := by
  obtain ⟨hok, htable⟩ := h.wellFormed.record stack.capture weight
  have hcapacity : (log.record stack.capture weight).capacity = log.capacity :=
    h.wellFormed.capacity_answer (.record stack.capture weight)
  have hdepth : (log.record stack.capture weight).depth = log.depth :=
    (log.sameMake_record stack.capture weight).2
  -- The scratch row decides which frames the sample is credited to.
  obtain ⟨frames, scratch, hcredited, hlength, hlost, hrecord⟩ : ∃ frames scratch,
      credited (marks ++ [.sample ⟨stack.captured, weight⟩])
        = credited marks ++ [⟨frames, weight⟩]
      ∧ (.panic ∉ marks → scratch.length = log.depth)
      ∧ (.panic ∈ marks → scratch = [])
      ∧ log.table.record stack.capture weight
        = { (log.table.add frames weight).2 with scratch := scratch } := by
    by_cases hpanic : .panic ∈ marks
    · refine ⟨[], [], ?_, fun h => absurd hpanic h, fun _ => rfl, ?_⟩
      · rw [credited_sample, if_pos hpanic]
      · exact log.table.record_lost stack weight (h.scratch_lost hpanic)
    · obtain ⟨scratch, hlength, hrecord⟩ :=
        log.table.record_capture stack weight (h.scratch_length hpanic)
      refine ⟨stack.captured, scratch, ?_, fun _ => hlength, fun h => absurd h hpanic, hrecord⟩
      rw [credited_sample, if_neg hpanic]
  rw [hrecord] at htable
  have hscratch : (log.record stack.capture weight).scratch = scratch :=
    congrArg (·.scratch) htable
  refine ⟨hok, fun hnone => ?_, fun hsome => ?_, ?_⟩
  · rw [hscratch, hdepth]
    exact hlength fun h => hnone (List.mem_append_left _ h)
  · rw [hscratch]
    exact hlost (by simpa using hsome)
  · rw [htable, hscratch, hcapacity, hdepth, hcredited, h.table_eq, Table.add_with_scratch]
    exact congrArg (fun t => { t with scratch := scratch })
      (Page.table_write ⟨⟨log.capacity, log.depth⟩, credited marks⟩ ⟨frames, weight⟩).symm

/-- What holds of all frames that were credited holds of the backtraces in the log. -/
theorem Marked.forall_frames {P : List FrameId → Prop} {log : BacktraceLog} {marks : List Mark}
    (h : Marked log marks)
    (hP : ∀ c ∈ credited marks, P (Backtrace.normalise log.depth c.frames)) :
    0 < log.depth ∧ ∀ e ∈ log.entries, P e.frames := by
  have hdepth : log.depth = BacktraceLog.depthFor log.depth := by
    have hpage := (@Page.forall_frames (fun _ => True)
      ⟨⟨log.capacity, log.depth⟩, credited marks⟩ fun _ _ => trivial).1
    exact (congrArg (fun t => t.depth) h.table_eq).trans hpage
  have hpage := (@Page.forall_frames P ⟨⟨log.capacity, log.depth⟩, credited marks⟩ (by
    intro c hc
    rw [← hdepth]
    exact hP c hc)).2
  refine ⟨?_, ?_⟩
  · unfold BacktraceLog.depthFor at hdepth
    omega
  · have hentries : log.entries = (Page.mk ⟨log.capacity, log.depth⟩ (credited marks)).table.entries := by
      rw [log.entries_eq]
      exact congrArg (fun t => t.toHistogram.entries) h.table_eq
    rw [hentries]
    exact hpage

/-! ### Runs

A step touches at most the log that a sample holds.  That log gets one more mark, and the others
keep their histories.  A hash function that is yet to be drawn has none, and so a new log begins
with an empty one.
-/

/-- A step touches no log but the one that a sample holds. -/
private theorem Move.touches {v v' : View} {a : Act} (h : Move v a v') :
    (∀ writing, a.writes = some writing → writing.log ∈ v.custody)
      ∧ ∀ log, a.strikes = some log → log ∈ v.custody := by
  have hheld : ∀ log weight held, v.held = (log, weight) :: held → log ∈ v.custody := by
    intro log weight held h
    unfold View.custody
    rw [h]
    exact List.mem_append_right _ List.mem_cons_self
  cases h with
  | write hact hfirst =>
      subst hact
      refine ⟨fun writing heq => ?_, nofun⟩
      obtain rfl := Option.some.inj heq
      exact hheld _ _ _ hfirst
  | lose hact hfirst =>
      subst hact
      refine ⟨nofun, fun log heq => ?_⟩
      obtain rfl := Option.some.inj heq
      exact hheld _ _ _ hfirst
  | rest hact | hold hact | install hact | remove hact =>
      subst hact
      exact ⟨nofun, nofun⟩

/-- The histories of the logs of a sampler are true. -/
structure Chronicled (kind : SamplerKind) (past : List (Occurrence ε)) (w : Weave ε) : Prop where
  shelved : Shelved (w.view kind)
  marked : ∀ log ∈ w.custody kind, Marked log (history kind log.hasher.key past)
  /-- A log has one of the hash functions that have been drawn, -/
  drawn : ∀ log ∈ w.custody kind, log.hasher.key < w.process.hashersDrawn
  /-- and nothing has happened to the logs that are yet to be made. -/
  unmarked : ∀ key, w.process.hashersDrawn ≤ key → history kind key past = []

/-- A step that touches no log, or a log with another hash function, makes no mark. -/
private theorem Occurrence.mark_none {kind : SamplerKind} {key : Nat} {o : Occurrence ε}
    (hwrites : ∀ writing, (o.act kind).writes = some writing → writing.log.hasher.key ≠ key)
    (hstrikes : ∀ log, (o.act kind).strikes = some log → log.hasher.key ≠ key) :
    o.mark kind key = none := by
  unfold Occurrence.mark
  split
  · rename_i hact
    exact if_neg (hwrites _ (by rw [hact]))
  · rename_i hact
    exact if_neg (hstrikes _ (by rw [hact]))
  · rfl

private theorem Occurrence.mark_rest {kind : SamplerKind} {o : Occurrence ε}
    (hact : o.act kind = {}) (key : Nat) : o.mark kind key = none := by
  refine Occurrence.mark_none (fun writing h => ?_) (fun log h => ?_)
  · rw [hact] at h
    cases h
  · rw [hact] at h
    cases h

/-- A sample is written to a log as it is captured from the call stack. -/
private theorem Occurrence.written_eq {kind : SamplerKind} {o : Occurrence ε} {writing : Writing}
    (h : o.writes kind = some writing) :
    writing.written = writing.log.record o.before.process.stack.capture writing.weight := by
  unfold Occurrence.writes at h
  split at h
  · split at h
    · rw [← Option.some.inj h]
    · cases h
  · cases h

theorem Chronicled.step {kind : SamplerKind} {past : List (Occurrence ε)} {o : Occurrence ε}
    (h : Chronicled kind past o.before)
    (hstep : Weave.Step o.before o.event o.outcome o.after) :
    Chronicled kind (past ++ [o]) o.after := by
  obtain ⟨hmove, hdrawn⟩ := hstep.move kind
  obtain ⟨hshelved, horigin⟩ := hmove.shelved h.shelved
  obtain ⟨hwrites, hstrikes⟩ := hmove.touches
  have hunmarked : ∀ key, o.before.process.hashersDrawn ≤ key →
      history kind key (past ++ [o]) = [] := by
    intro key hkey
    have hnone : o.mark kind key = none :=
      Occurrence.mark_none
        (fun writing heq => Nat.ne_of_lt (Nat.lt_of_lt_of_le (h.drawn _ (hwrites _ heq)) hkey))
        (fun log heq => Nat.ne_of_lt (Nat.lt_of_lt_of_le (h.drawn _ (hstrikes _ heq)) hkey))
    rw [history_concat, h.unmarked key hkey, hnone]
    rfl
  have hlogs : ∀ log ∈ o.after.custody kind,
      Marked log (history kind log.hasher.key (past ++ [o]))
        ∧ log.hasher.key < o.after.process.hashersDrawn := by
    intro log hlog
    cases horigin log hlog with
    | kept hact hheld =>
        refine ⟨?_, Nat.lt_of_lt_of_le (h.drawn log hheld) hdrawn⟩
        rw [history_concat, Occurrence.mark_rest hact]
        simpa using h.marked log hheld
    | @written writing hact hheld =>
        have hwritten := Occurrence.written_eq (congrArg Act.writes hact)
        have hkey : writing.written.hasher = writing.log.hasher := by
          rw [hwritten]
          exact (writing.log.sameMake_record _ _).1
        have hmark : o.mark kind writing.log.hasher.key
            = some (.sample ⟨o.before.process.stack.captured, writing.weight⟩) := by
          have hact' : o.act kind = ⟨some writing, none⟩ := hact
          unfold Occurrence.mark
          rw [hact']
          exact if_pos rfl
        rw [hkey]
        refine ⟨?_, Nat.lt_of_lt_of_le (h.drawn _ hheld) hdrawn⟩
        rw [history_concat, hmark, hwritten]
        exact (h.marked _ hheld).capture _ _
    | @struck log hact hheld =>
        have hmark : o.mark kind log.hasher.key = some .panic := by
          have hact' : o.act kind = ⟨none, some log⟩ := hact
          unfold Occurrence.mark
          rw [hact']
          exact if_pos rfl
        rw [show log.loseScratch.hasher = log.hasher from rfl]
        refine ⟨?_, Nat.lt_of_lt_of_le (h.drawn _ hheld) hdrawn⟩
        rw [history_concat, hmark]
        exact (h.marked _ hheld).strike
    | fresh hact hfresh hnext =>
        have hkey : log.hasher.key = o.before.process.hashersDrawn := hfresh.key_eq
        have hnext' : o.after.process.hashersDrawn = o.before.process.hashersDrawn + 1 := hnext
        obtain ⟨settings, hasher, -, hmade⟩ := hfresh
        rw [hunmarked _ (Nat.le_of_eq hkey.symm), hkey, hnext']
        exact ⟨.fresh hmade, Nat.lt_succ_self _⟩
  exact ⟨hshelved, fun log hlog => (hlogs log hlog).1, fun log hlog => (hlogs log hlog).2,
    fun key hkey => hunmarked key (Nat.le_trans hdrawn hkey)⟩

theorem Weave.Run.chronicled {kind : SamplerKind} {w w' : Weave ε} {os : List (Occurrence ε)}
    (h : Weave.Run w os w') {past : List (Occurrence ε)} (hpast : Chronicled kind past w) :
    Chronicled kind (past ++ os) w' := by
  induction h generalizing past with
  | nil w => simpa using hpast
  | @cons w₁ w₂ w₃ event r os first _ ih =>
      have hfirst := Chronicled.step (o := ⟨w₁, event, r, w₂⟩) hpast first
      simpa using ih hfirst

/-- To a process that has done nothing nothing has happened. -/
theorem chronicled_idle {kind : SamplerKind} {config : Config} {stackCapacity : Nat}
    {reportsReclaims : Bool} {hashers : HashFamily} {host : ε} {p : Process ε}
    (hidle : Process.idle config stackCapacity reportsReclaims hashers host = .ok p) :
    Chronicled kind [] (⟨p, []⟩ : Weave ε) := by
  have hlive : ((⟨p, []⟩ : Weave ε).view kind).live = .absent := by
    rw [Process.eq_of_idle hidle]
    cases kind <;> rfl
  have hshelved := (@custody_idle ε kind _ _ _ _ _ _ hidle).1.shelved
  have hcustody : (⟨p, []⟩ : Weave ε).custody kind = [] := hshelved.custody_absent hlive
  refine ⟨hshelved, ?_, ?_, fun _ _ => rfl⟩
  · rw [hcustody]
    exact nofun
  · rw [hcustody]
    exact nofun

end SamplingProfiler
