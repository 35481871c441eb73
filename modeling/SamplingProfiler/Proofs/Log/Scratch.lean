/-
The scratch row, and why nothing that was left in it is recorded.

All recordings of a log write into one row.  A source may leave a part of it as it was, and it
may claim more frames than it wrote, so that the row goes into the log with frames of an earlier
recording.  But what lies past the claim is cleared.  A source that claims no more than it
wrote is therefore recorded as if its frames had been looked up, whatever other sources did
before it (`record_of_writes`).

Nothing but a source reads the row: every step of a recording is the same whatever is in it
(`add_withScratch`).  `record?` is a recording that fails if it would clear a part of the row
that does not exist.  It never fails.
-/
import SamplingProfiler.Log.Basic

namespace SamplingProfiler

/-- A backtrace that was brought to a length it fits in is still the same backtrace. -/
theorem Backtrace.normalise_normalise {frames : List FrameId} {length : Nat}
    (hle : frames.length ≤ length) (depth : Nat) :
    normalise depth (normalise length frames) = normalise depth frames := by
  unfold normalise
  rw [List.take_of_length_le hle, List.take_append, List.take_replicate, List.length_append,
    List.length_replicate, List.append_assoc, List.replicate_append_replicate]
  congr 2
  omega

namespace BacktraceLog

/-- The log with something else in its scratch row. -/
def withScratch (log : BacktraceLog) (scratch : List FrameId) : BacktraceLog :=
  { log with scratch := scratch }

/-! ### What does not read the row

Each step of a recording gives the same answer whatever is in the row, and leaves the same log but
for the row.  There is one lemma for each step, the innermost first.
-/

section

variable (log : BacktraceLog) (scratch : List FrameId)

theorem unlink_withScratch (r : Nat) (row : Row) :
    (log.withScratch scratch).unlink r row = (log.unlink r row).withScratch scratch := by
  unfold unlink
  rw [show (log.withScratch scratch).index = log.index from rfl]
  cases log.index[row.hash]? with
  | none => rfl
  | some head =>
      by_cases hhead : head = r
      · simp only [if_pos hhead]
        cases row.next <;> rfl
      · simp only [if_neg hhead]
        rw [show (log.withScratch scratch).rows = log.rows from rfl,
          show (log.withScratch scratch).capacity = log.capacity from rfl]
        cases linkTo log.rows r log.capacity head <;> rfl

theorem release_withScratch (r : Nat) :
    (log.withScratch scratch).release r = (log.release r).withScratch scratch := by
  unfold release
  rw [show (log.withScratch scratch).rows = log.rows from rfl]
  cases log.rows[r]? with
  | none => rfl
  | some row =>
      dsimp only
      rw [unlink_withScratch]
      rfl

theorem sweep_withScratch (line r : Nat) :
    sweep line (log.withScratch scratch) r = (sweep line log r).withScratch scratch := by
  unfold sweep
  rw [show (log.withScratch scratch).rows = log.rows from rfl, release_withScratch]
  split <;> rfl

theorem evict_withScratch : (log.withScratch scratch).evict = log.evict.withScratch scratch := by
  have hswept : ∀ (line : Nat) (rs : List Nat), rs.foldl (sweep line) (log.withScratch scratch)
      = (rs.foldl (sweep line) log).withScratch scratch := by
    intro line rs
    induction rs generalizing log with
    | nil => rfl
    | cons r rest ih => rw [List.foldl_cons, List.foldl_cons, sweep_withScratch, ih]
  unfold evict
  rw [show (log.withScratch scratch).evictionLine = log.evictionLine from rfl,
    show (log.withScratch scratch).capacity = log.capacity from rfl, hswept]
  rfl

theorem takeRow_withScratch (rounds : Nat) :
    (log.withScratch scratch).takeRow rounds
      = ((log.takeRow rounds).1, (log.takeRow rounds).2.withScratch scratch) := by
  induction rounds generalizing log with
  | zero =>
      unfold takeRow
      rw [show (log.withScratch scratch).free = log.free from rfl]
      cases log.free <;> rfl
  | succ rounds ih =>
      unfold takeRow
      rw [show (log.withScratch scratch).free = log.free from rfl]
      cases log.free with
      | nil =>
          dsimp only
          rw [evict_withScratch, ih]
      | cons r rest => rfl

theorem lookupOrCreate_withScratch (frames : List FrameId) :
    (log.withScratch scratch).lookupOrCreate frames
      = ((log.lookupOrCreate frames).1, (log.lookupOrCreate frames).2.withScratch scratch) := by
  unfold lookupOrCreate
  dsimp only
  rw [show (log.withScratch scratch).depth = log.depth from rfl,
    show (log.withScratch scratch).rowOf = log.rowOf from rfl,
    show (log.withScratch scratch).capacity = log.capacity from rfl, takeRow_withScratch]
  cases log.rowOf (Backtrace.normalise log.depth frames) <;> rfl

/-- Adding to a backtrace is the same whatever is in the scratch row. -/
theorem add_withScratch (frames : List FrameId) (weight : Weight) :
    (log.withScratch scratch).add frames weight
      = ((log.add frames weight).1, (log.add frames weight).2.withScratch scratch) := by
  unfold add
  rw [lookupOrCreate_withScratch]
  rfl

theorem add_normalise {frames : List FrameId} {length : Nat} (hle : frames.length ≤ length)
    (weight : Weight) :
    log.add (Backtrace.normalise length frames) weight = log.add frames weight := by
  unfold add lookupOrCreate
  rw [Backtrace.normalise_normalise hle]

end

/-! ### Recordings -/

/-- A source writes these frames into a row, from the front on, and claims so many. -/
def Writes (source : Source) (row frames : List FrameId) (claim : Nat) : Prop :=
  source row = (frames ++ row.drop frames.length, claim)

variable {log : BacktraceLog} {source : Source} {frames : List FrameId} {claim : Nat}

/-- A source that claims no more than it wrote is recorded as a look-up of what it claims. -/
theorem record_of_writes (hwrites : Writes source log.scratch frames claim)
    (hclaim : claim ≤ frames.length) (weight : Weight) :
    log.record source weight
      = (log.add (frames.take claim) weight).2.withScratch
          (Backtrace.normalise (frames ++ log.scratch.drop frames.length).length
            (frames.take claim)) := by
  have hle : (frames.take claim).length
      ≤ (frames ++ log.scratch.drop frames.length).length := by
    rw [List.length_take, List.length_append]
    omega
  unfold record
  rw [hwrites]
  dsimp only
  rw [List.take_append_of_le_length hclaim, add_normalise _ hle]
  rfl

/-- A row with padding from a position on; there is none if the row ends before it. -/
def clearFrom (row : List FrameId) (start : Nat) : Option (List FrameId) :=
  if start ≤ row.length then
    some (row.take start ++ List.replicate (row.length - start) FrameId.null)
  else none

/-- A recording that fails if it would clear the scratch row from past its end. -/
def record? (log : BacktraceLog) (source : Source) (weight : Weight) : Option BacktraceLog :=
  let (written, claimed) := source log.scratch
  (clearFrom written (min claimed written.length)).map fun scratch =>
    (log.add scratch weight).2.withScratch scratch

/-- No recording clears the scratch row from past its end. -/
theorem record?_eq (log : BacktraceLog) (source : Source) (weight : Weight) :
    log.record? source weight = some (log.record source weight) := by
  unfold record? record clearFrom
  dsimp only
  generalize (source log.scratch).1 = written
  generalize (source log.scratch).2 = claimed
  rw [if_pos (Nat.min_le_right ..), Option.map_some]
  have hcleared : written.take (min claimed written.length)
        ++ List.replicate (written.length - min claimed written.length) FrameId.null
      = Backtrace.normalise written.length (written.take claimed) := by
    unfold Backtrace.normalise
    have hfits : (written.take claimed).length ≤ written.length := by
      rw [List.length_take]
      exact Nat.min_le_right ..
    rw [← List.take_eq_take_min, List.take_of_length_le hfits, List.length_take]
  rw [hcleared]
  rfl

/-- What a source does when it is called, and the weight of what it writes. -/
structure Recording where
  source : Source
  weight : Weight
  /-- A source can write into the row it is given, but not make it longer or shorter. -/
  length_source : ∀ row, (source row).1.length = row.length

/-- The source that writes frames as far as the row goes leaves the row its length. -/
theorem length_writing (frames : List FrameId) (claim : Option Nat) (row : List FrameId) :
    (writing frames claim row).1.length = row.length := by
  show (frames.take (min frames.length row.length)
    ++ row.drop (min frames.length row.length)).length = _
  rw [List.length_append, List.length_take, List.length_drop]
  omega

/-- It writes what there is room for. -/
theorem writes_writing (frames row : List FrameId) (claim : Nat) :
    Writes (writing frames (some claim)) row (frames.take row.length) claim := by
  unfold Writes writing
  dsimp only
  rw [Option.getD_some, List.length_take, Nat.min_comm row.length,
    List.take_eq_take_min (i := row.length), Nat.min_comm row.length]

/-- A recording of frames of which so many are claimed. -/
def Recording.writing (frames : List FrameId) (claim : Nat) (weight : Weight) : Recording where
  source := BacktraceLog.writing frames (some claim)
  weight := weight
  length_source := length_writing frames (some claim)

/-- A log after recordings, one after the other. -/
def recordAll (log : BacktraceLog) (calls : List Recording) : BacktraceLog :=
  calls.foldl (fun log call => log.record call.source call.weight) log

/-- Recordings of which none may clear the scratch row from past its end. -/
def recordAll? (log : BacktraceLog) (calls : List Recording) : Option BacktraceLog :=
  calls.foldlM (fun log call => log.record? call.source call.weight) log

theorem recordAll?_eq (log : BacktraceLog) (calls : List Recording) :
    log.recordAll? calls = some (log.recordAll calls) := by
  unfold recordAll? recordAll
  induction calls generalizing log with
  | nil => rfl
  | cons call rest ih =>
      rw [List.foldlM_cons, record?_eq, Option.bind_eq_bind, Option.bind_some, ih]
      rfl

theorem length_scratch_record (log : BacktraceLog) (call : Recording) :
    (log.record call.source call.weight).scratch.length = log.scratch.length := by
  show (Backtrace.normalise (call.source log.scratch).1.length _).length = _
  rw [Backtrace.length_normalise, call.length_source]

/-- Every source is given the whole scratch row. -/
theorem length_scratch_recordAll (log : BacktraceLog) (calls : List Recording) :
    (log.recordAll calls).scratch.length = log.scratch.length := by
  unfold recordAll
  induction calls generalizing log with
  | nil => rfl
  | cons call rest ih => rw [List.foldl_cons, ih, length_scratch_record]

/-- A source that claims no more than it wrote leaves nothing in a log of what was in the scratch
row before. -/
theorem record_withScratch {call : Recording} {leftover : List FrameId}
    (hlength : leftover.length = log.scratch.length)
    (hwrites : Writes call.source log.scratch frames claim)
    (hwrites' : Writes call.source leftover frames claim) (hclaim : claim ≤ frames.length) :
    (log.withScratch leftover).record call.source call.weight
      = log.record call.source call.weight := by
  have hrow : (frames ++ log.scratch.drop frames.length).length = log.scratch.length := by
    rw [← call.length_source log.scratch, hwrites]
  have hrow' : (frames ++ leftover.drop frames.length).length = log.scratch.length := by
    rw [← hlength, ← call.length_source leftover, hwrites']
  have hrecord : Writes call.source (log.withScratch leftover).scratch frames claim := hwrites'
  rw [record_of_writes hrecord hclaim, record_of_writes hwrites hclaim, add_withScratch, hrow]
  show ((log.add _ _).2.withScratch leftover).withScratch (Backtrace.normalise
    (frames ++ leftover.drop frames.length).length _) = _
  rw [hrow']
  rfl

/-- Of recordings by whatever sources, into whatever log: none clears the scratch row from past
its end, and every source is given the whole row.  If one of them writes some frames and claims
no more than these, the log changes as by a look-up of the frames that it claims and an addition
to their row, except that the scratch row is another.  With anything else left in the scratch row
before, the recording would leave the same log. -/
theorem recordings_leak_nothing (log : BacktraceLog) (calls : List Recording) :
    log.recordAll? calls = some (log.recordAll calls)
    ∧ ∀ before call after, calls = before ++ call :: after →
      let now := log.recordAll before
      let next := now.record call.source call.weight
      log.recordAll (before ++ [call]) = next
      ∧ now.scratch.length = log.scratch.length
      ∧ ∀ frames claim, Writes call.source now.scratch frames claim → claim ≤ frames.length →
        let found := now.lookupOrCreate (frames.take claim)
        next = (found.2.increment found.1 call.weight).withScratch next.scratch
        ∧ ∀ leftover, leftover.length = now.scratch.length →
          Writes call.source leftover frames claim →
          (now.withScratch leftover).record call.source call.weight = next := by
  refine ⟨recordAll?_eq log calls, ?_⟩
  intro before call after _ now next
  refine ⟨?_, length_scratch_recordAll log before, ?_⟩
  · show (before ++ [call]).foldl _ log = _
    rw [List.foldl_append]
    rfl
  · intro frames claim hwrites hclaim
    refine ⟨?_, fun leftover hlength hwrites' => ?_⟩
    · show next = (now.add (frames.take claim) call.weight).2.withScratch next.scratch
      have hnext : next = _ := record_of_writes hwrites hclaim call.weight
      rw [hnext]
      rfl
    · exact record_withScratch hlength hwrites hwrites' hclaim

/-- For instance, a source that writes one frame and claims five is recorded with two frames of
the recording before it.  The next one writes one frame and claims one; it takes the row of the
other after a round, and is recorded without them. -/
theorem recordings_leak_nothing_after_overclaim :
    ∃ (log now : BacktraceLog) (before : List Recording) (call : Recording),
      log = empty (HashFamily.mixing.hasher 0) 2 3
      ∧ before = [.writing [⟨1⟩, ⟨2⟩, ⟨3⟩] 3 (.ofNat 5), .writing [⟨7⟩] 5 (.ofNat 1)]
      ∧ call = .writing [⟨8⟩] 1 (.ofNat 4)
      ∧ now = log.recordAll before
      ∧ now.scratch = [⟨7⟩, ⟨2⟩, ⟨3⟩]
      ∧ Writes call.source now.scratch [⟨8⟩] 1
      ∧ log.recordAll (before ++ [call])
        = ((now.lookupOrCreate [⟨8⟩]).2.increment (now.lookupOrCreate [⟨8⟩]).1
            call.weight).withScratch (now.record call.source call.weight).scratch
      ∧ (now.record call.source call.weight).entries
        = [⟨[⟨1⟩, ⟨2⟩, ⟨3⟩], .ofNat 5⟩, ⟨[⟨8⟩, FrameId.null, FrameId.null], .ofNat 4⟩]
      ∧ (now.withScratch [⟨4⟩, ⟨5⟩, ⟨6⟩]).record call.source call.weight
        = now.record call.source call.weight := by
  obtain ⟨before, hbefore⟩ : ∃ calls : List Recording,
      calls = [.writing [⟨1⟩, ⟨2⟩, ⟨3⟩] 3 (.ofNat 5), .writing [⟨7⟩] 5 (.ofNat 1)] := ⟨_, rfl⟩
  obtain ⟨log, hlog⟩ : ∃ log : BacktraceLog, log = empty (HashFamily.mixing.hasher 0) 2 3 :=
    ⟨_, rfl⟩
  have hscratch : (log.recordAll before).scratch = [⟨7⟩, ⟨2⟩, ⟨3⟩] := by
    rw [hlog, hbefore]
    decide +kernel
  have hentries : ((log.recordAll before).record (writing [⟨8⟩] (some 1)) (.ofNat 4)).entries
      = [⟨[⟨1⟩, ⟨2⟩, ⟨3⟩], .ofNat 5⟩, ⟨[⟨8⟩, FrameId.null, FrameId.null], .ofNat 4⟩] := by
    rw [hlog, hbefore]
    decide +kernel
  have hwrites : Writes (writing [⟨8⟩] (some 1)) (log.recordAll before).scratch [⟨8⟩] 1 := by
    rw [hscratch]
    exact writes_writing [⟨8⟩] [⟨7⟩, ⟨2⟩, ⟨3⟩] 1
  obtain ⟨hnext, -, hlaw⟩ := (recordings_leak_nothing log
    (before ++ [.writing [⟨8⟩] 1 (.ofNat 4)])).2 before (.writing [⟨8⟩] 1 (.ofNat 4)) [] rfl
  obtain ⟨hrecord, hleftover⟩ := hlaw [⟨8⟩] 1 hwrites (Nat.le_refl 1)
  refine ⟨log, _, before, .writing [⟨8⟩] 1 (.ofNat 4), hlog, hbefore, rfl, rfl, hscratch, hwrites,
    hnext.trans hrecord, hentries, ?_⟩
  exact hleftover [⟨4⟩, ⟨5⟩, ⟨6⟩] (by rw [hscratch]; rfl)
    (writes_writing [⟨8⟩] [⟨4⟩, ⟨5⟩, ⟨6⟩] 1)

end BacktraceLog

end SamplingProfiler
