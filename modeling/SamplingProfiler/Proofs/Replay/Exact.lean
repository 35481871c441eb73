/-
Profiles are exact.

In a process that is left alone and whose settings stay as they are, all samples that a sampler
takes from one export to the next go to one log.  If no such stretch has more backtraces than a
log has rows, the run is an ample one (`Ample`), and no log evicts anything.  So what the
snapshots and the live log hold of a backtrace is what was taken of it, and it depends neither
on the order of the samples nor on where the exports, stops and restarts fall.

The proof goes along the calls, with the samples on the page of the book as those of the
stretch that has begun (`Agrees.balanced`).
-/
import SamplingProfiler.Proofs.Log.Room
import SamplingProfiler.Proofs.Replay.Book
import SamplingProfiler.Proofs.Replay.Snapshots

namespace SamplingProfiler

variable {ε : Type}

/-! ### Samples and snapshots of calls -/

/-- Is the sampler exported? -/
def Call.exports (kind : SamplerKind) (c : Call ε) : Bool :=
  match c.operation with
  | .exportKind k => k = kind
  | _ => false

/-- The sample that a sampler takes: of a tick that does not find memory being reclaimed, of an
allocation, or of what the gate reports. -/
def Call.sample? (kind : SamplerKind) (c : Call ε) : Option Capture :=
  let p := c.process
  match c.operation with
  | .tick =>
    if kind = .cpu ∧ p.cpu.running ∧ ¬(p.reportsReclaims ∧ p.stack.isReclaiming) then
      some ⟨p.stack.captured, p.cpu.interval⟩
    else none
  | .probe size =>
    if kind = .memory ∧ p.memory.running then some ⟨p.stack.captured, size⟩ else none
  | .note size =>
    if kind = .memory ∧ p.memory.running then
      (p.memory.gate.note size).1.map fun bytes => ⟨p.stack.captured, bytes⟩
    else none
  | _ => none

/-- The snapshot that is handed over. -/
def Call.snapshot? (kind : SamplerKind) (c : Call ε) : Option Snapshot :=
  if c.exports kind then
    match (c.operation.perform .quiet c.process).1 with
    | .ok (.exported snapshot) => some snapshot
    | _ => none
  else none

/-- A sample with its backtrace at this depth. -/
def Capture.entry (depth : Nat) (c : Capture) : Entry :=
  ⟨Backtrace.normalise depth c.frames, c.weight⟩

/-- The samples that a sampler takes, with their backtraces at this depth. -/
def samplesIn (kind : SamplerKind) (depth : Nat) (calls : List (Call ε)) : List Entry :=
  (calls.filterMap (·.sample? kind)).map (·.entry depth)

/-- The snapshots of a sampler that are handed over. -/
def snapshotsIn (kind : SamplerKind) (calls : List (Call ε)) : List Snapshot :=
  calls.filterMap (·.snapshot? kind)

theorem samplesIn_cons (kind : SamplerKind) (depth : Nat) (c : Call ε) (rest : List (Call ε)) :
    samplesIn kind depth (c :: rest)
      = (c.sample? kind).toList.map (·.entry depth) ++ samplesIn kind depth rest := by
  unfold samplesIn
  rw [List.filterMap_cons]
  cases c.sample? kind <;> simp

theorem snapshotsIn_cons (kind : SamplerKind) (c : Call ε) (rest : List (Call ε)) :
    snapshotsIn kind (c :: rest) = (c.snapshot? kind).toList ++ snapshotsIn kind rest := by
  unfold snapshotsIn
  rw [List.filterMap_cons]
  cases c.snapshot? kind <;> simp

/-- What a log holds of a backtrace: nothing, if there is no log. -/
def heldIn (log? : Option BacktraceLog) (frames : List FrameId) : Nat :=
  amountOf (log?.bind (·.weightOf frames))

/-- What the logs of the snapshots and the live log hold of a backtrace after a run. -/
def heldAfter (kind : SamplerKind) (p : Process ε) (operations : List (Operation ε))
    (frames : List FrameId) : Nat :=
  ((snapshotsIn kind (p.calls operations)).map fun s => heldIn s.log frames).sum
    + heldIn ((p.after operations).sampler kind).live.log? frames

/-- A run in which logs can be made, the settings stay as they are, and the backtraces of no
stretch between exports are more than a log has rows. -/
structure Ample (kind : SamplerKind) (p : Process ε) (operations : List (Operation ε)) :
    Prop where
  /-- Nothing was done before. -/
  idle : ∃ config stackCapacity reportsReclaims hashers host,
    Process.idle config stackCapacity reportsReclaims hashers host = .ok p
  made : ∀ c ∈ p.calls operations, c.Succeeds
  unchanged : ∀ c ∈ p.calls operations, c.process.settings = p.settings
  room : ∀ stretch ∈ (p.calls operations).splitOnP (·.exports kind),
    distinctBacktraces (samplesIn kind p.settings.depth stretch) ≤ p.settings.capacity

/-! ### Pages with room

On a log with room for all backtraces of a page no sample asks for an eviction round, so the log
goes on telling the samples of the page, one after the other.  The room is said in numbers of
distinct backtraces, and that does not depend on their order.
-/

section

variable {settings : LogSettings} {page? : Option Page} {live : LiveLog}

/-- A log with room for all samples adds them without an eviction round. -/
theorem BacktraceLog.WellFormed.tells_foldl_add {log : BacktraceLog} (ok : log.WellFormed)
    {depth : Nat} (hdepth : log.depth = depth) {es : List Entry} (ht : log.histogram.Tells es)
    (samples : List Capture)
    (hroom : distinctBacktraces (es ++ samples.map (·.entry depth)) ≤ log.capacity) :
    let log' := samples.foldl (fun log sample => (log.add sample.frames sample.weight).2) log
    log'.evictions = log.evictions ∧ log'.depth = depth
      ∧ log'.histogram.Tells (es ++ samples.map (·.entry depth)) := by
  induction samples generalizing log es with
  | nil =>
      refine ⟨rfl, hdepth, ?_⟩
      simpa using ht
  | cons sample rest ih =>
      rw [List.map_cons, List.append_cons] at hroom ⊢
      have hfirst : Capture.entry depth sample
          = ⟨Backtrace.normalise log.depth sample.frames, sample.weight⟩ := by
        rw [hdepth]
        rfl
      rw [hfirst] at hroom ⊢
      obtain ⟨hround, hadded⟩ := ok.tells_add ht sample.frames sample.weight
        (Nat.le_trans (distinctBacktraces_append _ _) hroom)
      obtain ⟨hcapacity, hdepth'⟩ := ok.dimensions_add sample.frames sample.weight
      rw [← hcapacity] at hroom
      obtain ⟨hrounds, hrest⟩ := ih (ok.add sample.frames sample.weight).1
        (hdepth'.trans hdepth) hadded hroom
      exact ⟨hrounds.trans hround, hrest⟩

/-- A log holds the samples that were taken at these settings, and has evicted nothing. -/
structure HoldsExactly (settings : LogSettings) (es : List Entry) (log? : Option BacktraceLog) :
    Prop where
  unevicted : ∀ log ∈ log?, log.evictions = 0
  depth_eq : ∀ log ∈ log?, log.depth = settings.depth
  held_eq : ∀ frames, heldIn log? frames
    = min (weightUnder (Backtrace.normalise settings.depth frames) es) maxWord

/-- The samples on a page, if there is one, with their backtraces at this depth. -/
def entriesOn (depth : Nat) (page? : Option Page) : List Entry :=
  ((page?.map (·.samples)).getD []).map (·.entry depth)

/-- A log on a page with room for all samples holds exactly those. -/
theorem Records.holdsExactly {page : Page} {log : BacktraceLog} (h : Records page log)
    (hvalid : page.settings.Valid)
    (hroom : distinctBacktraces (page.samples.map (·.entry page.settings.depth))
      ≤ page.settings.capacity) :
    HoldsExactly page.settings (page.samples.map (·.entry page.settings.depth)) (some log) := by
  have hempty := hvalid.empty_eq log.hasher
  have hnone : (BacktraceLog.empty log.hasher page.settings.capacity
      page.settings.depth).histogram.Tells [] := by
    rw [BacktraceLog.histogram_empty]
    exact Histogram.tells_empty _ _
  obtain ⟨hround, hdepth, htells⟩ := (BacktraceLog.wellFormed_empty log.hasher
    page.settings.capacity page.settings.depth).tells_foldl_add hempty.2 hnone page.samples (by
      rw [hempty.1]
      exact hroom)
  obtain ⟨hentries, hevictions, -, hsame⟩ := h.replay log.hasher
  have htells' : log.histogram.Tells (page.samples.map (·.entry page.settings.depth)) := by
    rw [log.entries_eq, (page.replay log.hasher).entries_eq] at hentries
    exact htells.congr hentries
  have hdepth' : log.depth = page.settings.depth := hsame.trans hdepth
  refine ⟨?_, ?_, ?_⟩
  · intro log' hlog
    rw [← Option.some.inj hlog]
    exact hevictions.trans hround
  · intro log' hlog
    rw [← Option.some.inj hlog]
    exact hdepth'
  · intro frames
    have hweight := h.wellFormed.amountOf_weightOf htells' frames
    rw [hdepth'] at hweight
    exact hweight

/-- So does a live log that is as its page says, whether there is one or not. -/
theorem Backs.holdsExactly (h : Backs page? live) (hvalid : settings.Valid)
    (hpage : ∀ page ∈ page?, page.settings = settings)
    (hroom : distinctBacktraces (entriesOn settings.depth page?) ≤ settings.capacity) :
    HoldsExactly settings (entriesOn settings.depth page?) live.log? := by
  cases h with
  | absent => exact ⟨nofun, nofun, fun frames => rfl⟩
  | @ready page log hrecords hfits =>
      obtain rfl := hpage page rfl
      exact hrecords.holdsExactly hvalid hroom

end

/-! ### One call

There are many operations, but to the page in use only four things can happen (`Turns`): it is left
as it is, begun, written on, or taken away.  The induction over a run goes by these.
-/

section

variable {kind : SamplerKind} {b : Book} {p : Process ε} {c : Call ε} {settings : LogSettings}

/-- What a call does to the page of the log in use. -/
inductive Turns (kind : SamplerKind) (c : Call ε) : Option Page → Option Page → Prop where
  | kept {page? : Option Page} (hexports : c.exports kind = false)
      (hsample : c.sample? kind = none) : Turns kind c page? page?
  /-- A start without a log begins a page. -/
  | begun (hexports : c.exports kind = false) (hsample : c.sample? kind = none) :
      Turns kind c none (some (.blank c.process.settings))
  | wrote {page : Page} {sample : Capture} (hexports : c.exports kind = false)
      (hsample : c.sample? kind = some sample) : Turns kind c (some page) (some (page.write sample))
  /-- An export takes the page away, and begins another if the sampler is running. -/
  | turned {page? next? : Option Page} (hexports : c.exports kind = true)
      (hblank : next? = none ∨ next? = some (.blank c.process.settings)) :
      Turns kind c page? next?

/-- A running sampler has a page to write on. -/
private theorem Agrees.turns_take (h : Agrees kind b p) (hrun : b.running = true)
    {operation : Operation ε} {weight : Weight}
    (hexports : (Call.mk operation p).exports kind = false)
    (hsample : (Call.mk operation p).sample? kind = some ⟨p.stack.captured, weight⟩) :
    Turns kind ⟨operation, p⟩ b.page (b.take p.stack weight).page := by
  have hpage := h.started hrun
  unfold Book.take
  cases hb : b.page with
  | none => exact absurd hb hpage
  | some page => exact .wrote hexports hsample

theorem Agrees.turns (h : Agrees kind b p) (operation : Operation ε) :
    Turns kind ⟨operation, p⟩ b.page (b.next kind operation p).page := by
  have hrunning := h.running
  unfold Book.next
  cases operation with
  | start request =>
      dsimp only
      by_cases hgo : request.kind = kind ∧ request ≠ .cpu 0 ∧ b.running = false
      · rw [if_pos hgo]
        cases b.page with
        | none => exact .begun rfl rfl
        | some page => exact .kept rfl rfl
      · rw [if_neg hgo]
        exact .kept rfl rfl
  | stop k =>
      dsimp only
      by_cases hk : k = kind
      · rw [if_pos hk]
        exact .kept rfl rfl
      · rw [if_neg hk]
        exact .kept rfl rfl
  | tick =>
      dsimp only
      by_cases htick : kind = .cpu ∧ b.running = true
      · rw [if_pos htick]
        obtain ⟨rfl, hrun⟩ := htick
        have hrun' : p.cpu.running = true := hrunning.trans hrun
        have hinterval : p.cpu.interval = b.interval := h.interval hrun
        by_cases hreclaim : p.reportsReclaims ∧ p.stack.isReclaiming
        · rw [if_pos hreclaim]
          exact .kept rfl (if_neg fun h => h.2.2 hreclaim)
        · rw [if_neg hreclaim]
          refine h.turns_take hrun rfl ?_
          rw [← hinterval]
          exact if_pos ⟨rfl, hrun', hreclaim⟩
      · rw [if_neg htick]
        refine .kept rfl (if_neg ?_)
        rintro ⟨rfl, hrun, -⟩
        exact htick ⟨rfl, hrunning.symm.trans hrun⟩
  | probe size =>
      dsimp only
      by_cases hprobe : kind = .memory ∧ b.running = true
      · rw [if_pos hprobe]
        obtain ⟨rfl, hrun⟩ := hprobe
        exact h.turns_take hrun rfl (if_pos ⟨rfl, hrunning.trans hrun⟩)
      · rw [if_neg hprobe]
        refine .kept rfl (if_neg ?_)
        rintro ⟨rfl, hrun⟩
        exact hprobe ⟨rfl, hrunning.symm.trans hrun⟩
  | note size =>
      dsimp only
      by_cases hnote : kind = .memory ∧ b.running = true
      · rw [if_pos hnote]
        obtain ⟨rfl, hrun⟩ := hnote
        have hsample : (Call.mk (.note size) p).sample? .memory
            = (p.memory.gate.note size).1.map fun bytes => ⟨p.stack.captured, bytes⟩ :=
          if_pos ⟨rfl, hrunning.trans hrun⟩
        cases hreport : (p.memory.gate.note size).1 with
        | none => exact .kept rfl (by rw [hsample, hreport]; rfl)
        | some bytes => exact h.turns_take hrun rfl (by rw [hsample, hreport]; rfl)
      · rw [if_neg hnote]
        refine .kept rfl (if_neg ?_)
        rintro ⟨rfl, hrun⟩
        exact hnote ⟨rfl, hrunning.symm.trans hrun⟩
  | exportKind k =>
      dsimp only
      by_cases hk : k = kind
      · rw [if_pos hk]
        refine .turned (decide_eq_true hk) ?_
        by_cases hrun : b.running = true
        · rw [if_pos hrun]
          exact .inr rfl
        · rw [if_neg hrun]
          exact .inl rfl
      · rw [if_neg hk]
        exact .kept (decide_eq_false hk) rfl
  | host change => exact .kept rfl rfl

/-- Every page is of the settings, as long as they stay as they are. -/
theorem Turns.settings_eq {page? next? : Option Page} (h : Turns kind c page? next?)
    (hpage : ∀ page ∈ page?, page.settings = settings)
    (hsettings : c.process.settings = settings) :
    ∀ page ∈ next?, page.settings = settings := by
  intro page hmem
  cases h with
  | kept => exact hpage page hmem
  | begun =>
      rw [← Option.some.inj hmem]
      exact hsettings
  | @wrote before sample =>
      rw [← Option.some.inj hmem]
      exact hpage before rfl
  | turned hexports hblank =>
      rcases hblank with rfl | rfl
      · cases hmem
      · rw [← Option.some.inj hmem]
        exact hsettings

/-- A call that is no export adds the sample that is taken. -/
theorem Turns.entriesOn_eq {page? next? : Option Page} (h : Turns kind c page? next?)
    (hexports : c.exports kind = false) (depth : Nat) :
    entriesOn depth next?
      = entriesOn depth page? ++ (c.sample? kind).toList.map (·.entry depth) := by
  cases h with
  | kept _ hsample => simp [hsample]
  | begun _ hsample => simp [hsample, entriesOn, Page.blank]
  | wrote _ hsample => simp [hsample, entriesOn, Page.write]
  | turned hexports' =>
      rw [hexports] at hexports'
      cases hexports'

/-- An export leaves nothing on the page. -/
theorem Turns.entriesOn_eq_nil {page? next? : Option Page} (h : Turns kind c page? next?)
    (hexports : c.exports kind = true) (depth : Nat) : entriesOn depth next? = [] := by
  cases h with
  | kept hexports' | begun hexports' | wrote hexports' =>
      rw [hexports] at hexports'
      cases hexports'
  | turned _ hblank =>
      rcases hblank with rfl | rfl <;> simp [entriesOn, Page.blank]

theorem Call.operation_of_exports (h : c.exports kind = true) :
    c.operation = .exportKind kind := by
  unfold Call.exports at h
  split at h
  · rename_i k hk
    rw [hk, of_decide_eq_true h]
  · cases h

theorem Call.sample?_of_exports (h : c.exports kind = true) : c.sample? kind = none := by
  unfold Call.sample?
  rw [c.operation_of_exports h]

/-- What an export hands over, it has from the live log, and it loses no log. -/
structure HandsOver (kind : SamplerKind) (settings : LogSettings) (log? : Option BacktraceLog)
    (snapshot? : Option Snapshot) : Prop where
  log_eq : ∀ s ∈ snapshot?, s.log = log?
  depth_eq : ∀ s ∈ snapshot?, s.depth = depthOf log? settings
  gcWeight_eq : ∀ s ∈ snapshot?, kind ≠ .cpu → s.gcWeight = none
  lost : snapshot? = none → log? = none

theorem Agrees.handsOver (h : Agrees kind b p)
    (hmade : Call.Succeeds ⟨.exportKind kind, p⟩) :
    HandsOver kind p.settings (p.sampler kind).live.log?
      ((Call.mk (.exportKind kind) p).snapshot? kind) := by
  have hexports : (Call.mk (.exportKind kind) p).exports kind = true := by simp [Call.exports]
  have hsnapshot : (Call.mk (.exportKind kind) p).snapshot? kind
      = snapshotOf kind (depthOf (p.sampler kind).live.log? p.settings)
        (p.sampler kind).live.log? (Weight.sum b.reclaimed) (p.sampler kind).dropped := by
    unfold Call.snapshot?
    rw [if_pos hexports]
    dsimp only
    rw [h.export_eq hmade]
    cases snapshotOf kind (depthOf (p.sampler kind).live.log? p.settings)
      (p.sampler kind).live.log? (Weight.sum b.reclaimed) (p.sampler kind).dropped <;> rfl
  rw [hsnapshot]
  unfold snapshotOf
  by_cases hfits : kind = .memory
      ∨ fitsBlock (max 1 (depthOf (p.sampler kind).live.log? p.settings))
  · rw [if_pos hfits]
    refine ⟨?_, ?_, ?_, nofun⟩
    · intro s hs
      rw [← Option.some.inj hs]
    · intro s hs
      rw [← Option.some.inj hs]
    · intro s hs hkind
      rw [← Option.some.inj hs]
      exact if_neg hkind
  · rw [if_neg hfits]
    refine ⟨nofun, nofun, nofun, ?_⟩
    intro _
    by_cases hpage : b.page = none
    · have hlive := h.live
      rw [hpage] at hlive
      generalize (p.sampler kind).live = live at hlive
      cases hlive
      rfl
    · exact absurd (.inr (h.live.fits hpage p.settings)) hfits

end

/-! ### Runs

The induction may begin in the middle of a stretch, with samples on the page already.  These stand
in front of the first stretch that is to come, and the log has to have room for both.
-/

section

variable {kind : SamplerKind} {b : Book} {p : Process ε} {settings : LogSettings}

/-- The stretches between exports, with the samples of each. -/
def stretchesIn (kind : SamplerKind) (depth : Nat) (calls : List (Call ε)) : List (List Entry) :=
  (calls.splitOnP (·.exports kind)).map (samplesIn kind depth)

theorem stretchesIn_cons (kind : SamplerKind) (depth : Nat) (c : Call ε) (rest : List (Call ε)) :
    stretchesIn kind depth (c :: rest) = if c.exports kind then [] :: stretchesIn kind depth rest
      else (stretchesIn kind depth rest).modifyHead
        ((c.sample? kind).toList.map (·.entry depth) ++ ·) := by
  unfold stretchesIn
  rw [List.splitOnP_cons_eq_if_modifyHead]
  by_cases hexports : c.exports kind = true
  · rw [if_pos hexports, if_pos hexports]
    rfl
  · rw [if_neg hexports, if_neg hexports]
    cases rest.splitOnP (·.exports kind) with
    | nil => rfl
    | cons stretch others => simp [samplesIn_cons]

/-- In a run with room, the snapshots and the live log hold what was on the page before and what
was taken since. -/
structure Balanced (kind : SamplerKind) (settings : LogSettings) (before : List Entry)
    (p : Process ε) (operations : List (Operation ε)) : Prop where
  snapshots : ∀ s ∈ snapshotsIn kind (p.calls operations),
    s.evictions = 0 ∧ s.depth = settings.depth ∧ (kind ≠ .cpu → s.gcWeight = none)
  held_eq : ∀ frames,
    let key := Backtrace.normalise settings.depth frames
    let taken := before ++ samplesIn kind settings.depth (p.calls operations)
    weightUnder key taken ≤ maxWord → heldAfter kind p operations frames = weightUnder key taken

theorem heldAfter_cons (kind : SamplerKind) (p : Process ε) (operation : Operation ε)
    (rest : List (Operation ε)) (frames : List FrameId) :
    heldAfter kind p (operation :: rest) frames
      = (((Call.mk operation p).snapshot? kind).toList.map fun s => heldIn s.log frames).sum
        + heldAfter kind (operation.perform .quiet p).2 rest frames := by
  unfold heldAfter
  rw [Process.calls, snapshotsIn_cons, List.map_append, List.sum_append, Nat.add_assoc]
  rfl

/-- The snapshot holds what the live log held. -/
theorem HandsOver.held_eq {log? : Option BacktraceLog} {snapshot? : Option Snapshot}
    (h : HandsOver kind settings log? snapshot?) (frames : List FrameId) :
    (snapshot?.toList.map fun s => heldIn s.log frames).sum = heldIn log? frames := by
  cases snapshot? with
  | none =>
      rw [h.lost rfl]
      rfl
  | some s => simp [h.log_eq s rfl]

theorem HandsOver.unevicted {log? : Option BacktraceLog} {snapshot? : Option Snapshot}
    (h : HandsOver kind settings log? snapshot?) {es : List Entry}
    (hexact : HoldsExactly settings es log?) :
    ∀ s ∈ snapshot?, s.evictions = 0 ∧ s.depth = settings.depth
      ∧ (kind ≠ .cpu → s.gcWeight = none) := by
  intro s hs
  have hlog := h.log_eq s hs
  refine ⟨?_, ?_, h.gcWeight_eq s hs⟩
  · unfold Snapshot.evictions
    rw [hlog]
    cases hsome : log? with
    | none => rfl
    | some log => exact hexact.unevicted log hsome
  · rw [h.depth_eq s hs]
    unfold depthOf
    cases hsome : log? with
    | none => rfl
    | some log => exact hexact.depth_eq log hsome

/-- Before anything is called, it is all in the live log. -/
theorem HoldsExactly.balanced {es : List Entry}
    (hexact : HoldsExactly settings es (p.sampler kind).live.log?) :
    Balanced kind settings es p [] := by
  refine ⟨nofun, ?_⟩
  intro frames key taken hword
  have htaken : taken = es := List.append_nil es
  have hheld : heldAfter kind p [] frames = heldIn (p.sampler kind).live.log? frames :=
    Nat.zero_add _
  rw [htaken] at hword ⊢
  rw [hheld, hexact.held_eq]
  exact Nat.min_eq_left hword

/-- An export hands over what was taken before it, and what is taken later is handed over later. -/
theorem Balanced.cons_export {es : List Entry} {operation : Operation ε}
    {rest : List (Operation ε)}
    (h : Balanced kind settings [] (operation.perform .quiet p).2 rest)
    (hexports : (Call.mk operation p).exports kind = true)
    (hexact : HoldsExactly settings es (p.sampler kind).live.log?)
    (hover : HandsOver kind settings (p.sampler kind).live.log?
      ((Call.mk operation p).snapshot? kind)) :
    Balanced kind settings es p (operation :: rest) := by
  refine ⟨?_, ?_⟩
  · rw [Process.calls, snapshotsIn_cons]
    intro s hs
    rcases List.mem_append.mp hs with hfirst | hlater
    · exact hover.unevicted hexact s (Option.mem_toList.mp hfirst)
    · exact h.snapshots s hlater
  · intro frames
    have hlater := h.held_eq frames
    dsimp only at hlater ⊢
    rw [Process.calls, samplesIn_cons, Call.sample?_of_exports hexports, weightUnder_append,
      heldAfter_cons, hover.held_eq, hexact.held_eq]
    intro hword
    have htaken := hlater (Nat.le_trans (Nat.le_add_left _ _) hword)
    rw [htaken, Nat.min_eq_left (Nat.le_trans (Nat.le_add_right _ _) hword)]
    rfl

/-- Any other call adds what it takes to what was taken before. -/
theorem Balanced.cons_sample {es : List Entry} {operation : Operation ε}
    {rest : List (Operation ε)}
    (h : Balanced kind settings
      (es ++ ((Call.mk operation p).sample? kind).toList.map (·.entry settings.depth))
      (operation.perform .quiet p).2 rest)
    (hexports : (Call.mk operation p).exports kind = false) :
    Balanced kind settings es p (operation :: rest) := by
  have hsnapshot : (Call.mk operation p).snapshot? kind = none := by
    unfold Call.snapshot?
    rw [hexports]
    rfl
  refine ⟨?_, ?_⟩
  · rw [Process.calls, snapshotsIn_cons, hsnapshot]
    exact h.snapshots
  · have hheld := h.held_eq
    simp only [List.append_assoc, ← samplesIn_cons] at hheld
    intro frames
    rw [heldAfter_cons, hsnapshot]
    show _ → 0 + _ = _
    rw [Nat.zero_add]
    exact hheld frames

/-- What holds of a process with a true book, by induction on the operations: the samples on the
page are those of the stretch that has begun. -/
theorem Agrees.balanced (h : Agrees kind b p) (hvalid : settings.Valid)
    (hpage : ∀ page ∈ b.page, page.settings = settings) (operations : List (Operation ε))
    (hmade : ∀ c ∈ p.calls operations, c.Succeeds)
    (hsettings : ∀ c ∈ p.calls operations, c.process.settings = settings)
    (hroom : ∀ es ∈ (stretchesIn kind settings.depth (p.calls operations)).modifyHead
        (entriesOn settings.depth b.page ++ ·),
      distinctBacktraces es ≤ settings.capacity) :
    Balanced kind settings (entriesOn settings.depth b.page) p operations := by
  induction operations generalizing b p with
  | nil =>
      refine (h.live.holdsExactly hvalid hpage (hroom _ ?_)).balanced
      simp [Process.calls, stretchesIn, samplesIn]
  | cons operation rest ih =>
      have hsettings' := hsettings ⟨operation, p⟩ List.mem_cons_self
      have hmade' := hmade ⟨operation, p⟩ List.mem_cons_self
      have hturns := h.turns operation
      have hrest := ih (h.next operation hmade') (hturns.settings_eq hpage hsettings')
        (fun c hc => hmade c (List.mem_cons_of_mem _ hc))
        (fun c hc => hsettings c (List.mem_cons_of_mem _ hc))
      rw [Process.calls, stretchesIn_cons] at hroom
      by_cases hexports : (Call.mk operation p).exports kind = true
      · -- The stretch ends, its log is handed over, and the next one begins with nothing.
        rw [if_pos hexports] at hroom
        have hnil := hturns.entriesOn_eq_nil hexports settings.depth
        rw [hnil] at hrest
        have hover : HandsOver kind settings (p.sampler kind).live.log?
            ((Call.mk operation p).snapshot? kind) := by
          obtain rfl := Call.operation_of_exports hexports
          rw [← hsettings']
          exact h.handsOver hmade'
        refine (hrest ?_).cons_export hexports (h.live.holdsExactly hvalid hpage (hroom _ ?_)) hover
        · intro es hes
          rw [show (([] : List Entry) ++ ·) = id from rfl, List.modifyHead_id] at hes
          exact hroom es (List.mem_cons_of_mem _ hes)
        · simp
      · -- The stretch goes on, with what is taken.
        have hexports' : (Call.mk operation p).exports kind = false := by simpa using hexports
        rw [if_neg hexports, List.modifyHead_modifyHead] at hroom
        have hmore := hturns.entriesOn_eq hexports' settings.depth
        rw [hmore] at hrest
        refine (hrest ?_).cons_sample hexports'
        intro es hes
        refine hroom es ?_
        simpa [Function.comp_def] using hes

/-- An ample run holds in the end what was taken. -/
theorem Ample.balanced {operations : List (Operation ε)} (h : Ample kind p operations) :
    p.settings.Valid ∧ Balanced kind p.settings [] p operations := by
  obtain ⟨config, stackCapacity, reportsReclaims, hashers, host, hidle⟩ := h.idle
  have hvalid := (orderly_idle hidle).valid
  refine ⟨hvalid, ?_⟩
  have hfirst : Agrees kind {} p := agrees_idle hidle
  refine hfirst.balanced hvalid nofun operations h.made h.unchanged ?_
  intro es hes
  rw [show (entriesOn p.settings.depth (none : Option Page) ++ ·) = id from rfl,
    List.modifyHead_id] at hes
  obtain ⟨stretch, hstretch, rfl⟩ := List.mem_map.mp hes
  exact h.room stretch hstretch

theorem Ample.held_eq {operations : List (Operation ε)} (h : Ample kind p operations)
    (frames : List FrameId)
    (hword : weightUnder (Backtrace.normalise p.settings.depth frames)
      (samplesIn kind p.settings.depth (p.calls operations)) ≤ maxWord) :
    heldAfter kind p operations frames
      = weightUnder (Backtrace.normalise p.settings.depth frames)
        (samplesIn kind p.settings.depth (p.calls operations)) :=
  h.balanced.2.held_eq frames hword

end

/-! ### Exact profiles -/

/-- A snapshot answers from its log, unless it is asked about reclamation. -/
theorem Snapshot.weightOf_of_ne {s : Snapshot} {frames : List FrameId}
    (h : s.gcWeight = none ∨ Backtrace.normalise (max 1 s.depth) frames ≠ gcKey s.depth) :
    s.weightOf frames = s.log.bind (·.weightOf frames) := by
  unfold weightOf
  cases hgc : s.gcWeight with
  | none => rfl
  | some w =>
      rw [hgc] at h
      exact if_neg (h.resolve_left nofun)

/-- Samples that are the same but for their order have the same depth, if there are any. -/
private theorem weightUnder_samplesIn_of_perm {ε' : Type} {kind : SamplerKind}
    {depth depth' : Nat} {calls : List (Call ε)} {calls' : List (Call ε')}
    (h : (samplesIn kind depth calls).Perm (samplesIn kind depth' calls'))
    (frames : List FrameId) :
    weightUnder (Backtrace.normalise depth' frames) (samplesIn kind depth' calls')
      = weightUnder (Backtrace.normalise depth frames) (samplesIn kind depth calls) := by
  have hlength : ∀ {ε : Type} {depth : Nat} {calls : List (Call ε)},
      ∀ e ∈ samplesIn kind depth calls, e.frames.length = depth := by
    intro ε depth calls e he
    obtain ⟨c, -, rfl⟩ := List.mem_map.mp he
    exact Backtrace.length_normalise _ _
  rw [← weightUnder_perm h]
  cases htaken : samplesIn kind depth calls with
  | nil => rfl
  | cons e rest =>
      have he : e ∈ samplesIn kind depth calls := by simp [htaken]
      rw [← hlength e he, ← hlength e (h.mem_iff.mp he)]

/-- In an ample run no snapshot reports an eviction, and the snapshots and the live log hold of
every backtrace exactly what was taken of it, as long as that fits a weight.  A snapshot says so
itself, unless it is asked about the backtrace that stands for reclamation.  So two ample runs
that take the same samples, in whatever order, hold the same of every backtrace. -/
theorem profiles_are_exact {kind : SamplerKind} {p : Process ε} {operations : List (Operation ε)}
    (h : Ample kind p operations) :
    let depth := p.settings.depth
    let snapshots := snapshotsIn kind (p.calls operations)
    let taken := samplesIn kind depth (p.calls operations)
    (∀ s ∈ snapshots, s.evictions = 0)
    ∧ (∀ frames, weightUnder (Backtrace.normalise depth frames) taken ≤ maxWord →
        heldAfter kind p operations frames = weightUnder (Backtrace.normalise depth frames) taken)
    ∧ (∀ frames, weightUnder (Backtrace.normalise depth frames) taken ≤ maxWord →
        (kind = .cpu → Backtrace.normalise depth frames ≠ Snapshot.gcKey depth) →
        (snapshots.map fun s => amountOf (s.weightOf frames)).sum
          + heldIn ((p.after operations).sampler kind).live.log? frames
          = weightUnder (Backtrace.normalise depth frames) taken)
    ∧ ∀ {ε' : Type} (q : Process ε') (operations' : List (Operation ε')),
        Ample kind q operations' →
        taken.Perm (samplesIn kind q.settings.depth (q.calls operations')) →
        ∀ frames, weightUnder (Backtrace.normalise depth frames) taken ≤ maxWord →
          heldAfter kind p operations frames = heldAfter kind q operations' frames := by
  intro depth snapshots taken
  obtain ⟨hvalid, hbalanced⟩ := h.balanced
  refine ⟨?_, h.held_eq, ?_, ?_⟩
  · intro s hs
    exact (hbalanced.snapshots s hs).1
  · intro frames hword hkey
    rw [← h.held_eq frames hword]
    unfold heldAfter
    congr 2
    refine List.map_congr_left ?_
    intro s hs
    obtain ⟨-, hdepth, hgc⟩ := hbalanced.snapshots s hs
    refine congrArg amountOf (s.weightOf_of_ne ?_)
    by_cases hkind : kind = .cpu
    · right
      have hdeep : max 1 p.settings.depth = p.settings.depth := hvalid.depthFor_eq
      rw [hdepth, hdeep]
      exact hkey hkind
    · left
      exact hgc hkind
  · intro ε' q operations' h' hperm frames hword
    have hsame := weightUnder_samplesIn_of_perm hperm frames
    rw [h.held_eq frames hword, h'.held_eq frames (by rw [hsame]; exact hword), hsame]

/-- For instance, a sampler that is exported twice and restarted once holds the same as one that
takes the same samples in another order and is never exported. -/
theorem profiles_are_exact_of_reordered :
    ∃ (p q : Process Unit) (operations operations' : List (Operation Unit)),
      Ample .cpu p operations ∧ Ample .cpu q operations'
      ∧ (samplesIn .cpu p.settings.depth (p.calls operations)).Perm
        (samplesIn .cpu q.settings.depth (q.calls operations'))
      ∧ (snapshotsIn .cpu (p.calls operations)).length = 2
      ∧ (∀ s ∈ snapshotsIn .cpu (p.calls operations), s.evictions = 0)
      ∧ snapshotsIn .cpu (q.calls operations') = []
      ∧ heldAfter .cpu p operations [⟨2⟩, ⟨1⟩] = 15
      ∧ heldAfter .cpu q operations' [⟨2⟩, ⟨1⟩] = 15 := by
  obtain ⟨p, hp⟩ : ∃ p : Process Unit,
      Process.idle { logCapacity := 2, maxStackDepth := 2 } 3 true .mixing () = .ok p := ⟨_, rfl⟩
  obtain ⟨q, hq⟩ : ∃ q : Process Unit,
      Process.idle { logCapacity := 3, maxStackDepth := 2 } 3 true .mixing () = .ok q := ⟨_, rfl⟩
  have hp' := Process.eq_of_idle hp
  have hq' := Process.eq_of_idle hq
  -- The third frame does not fit a backtrace, and the first alone does not fill one.
  obtain ⟨operations, hoperations⟩ : ∃ operations : List (Operation Unit), operations = [
      .host (.ofStack (·.enter ⟨1⟩)), .start (.cpu (.ofNat 10)), .tick,
      .host (.ofStack (·.enter ⟨2⟩)), .tick, .exportKind .cpu,
      .host (.ofStack (·.enter ⟨3⟩)), .tick, .stop .cpu, .start (.cpu (.ofNat 5)),
      .host (.ofStack (·.leave)), .tick, .exportKind .cpu] := ⟨_, rfl⟩
  obtain ⟨operations', hoperations'⟩ : ∃ operations : List (Operation Unit), operations = [
      .host (.ofStack (·.enter ⟨1⟩)), .host (.ofStack (·.enter ⟨2⟩)), .start (.cpu (.ofNat 5)),
      .tick, .stop .cpu, .start (.cpu (.ofNat 10)), .host (.ofStack (·.enter ⟨3⟩)), .tick,
      .host (.ofStack (·.leave)), .tick, .host (.ofStack (·.leave)), .tick] := ⟨_, rfl⟩
  have hample : Ample .cpu p operations := by
    refine ⟨⟨_, _, _, _, _, hp⟩, ?_, ?_, ?_⟩ <;>
    · rw [hoperations, hp']
      decide +kernel
  have hample' : Ample .cpu q operations' := by
    refine ⟨⟨_, _, _, _, _, hq⟩, ?_, ?_, ?_⟩ <;>
    · rw [hoperations', hq']
      decide +kernel
  have hperm : (samplesIn .cpu p.settings.depth (p.calls operations)).Perm
      (samplesIn .cpu q.settings.depth (q.calls operations')) := by
    rw [hoperations, hoperations', hp', hq']
    decide +kernel
  have hsnapshots : (snapshotsIn .cpu (p.calls operations)).length = 2 := by
    rw [hoperations, hp']
    decide +kernel
  have hsnapshots' : snapshotsIn .cpu (q.calls operations') = [] := by
    refine List.eq_nil_of_length_eq_zero ?_
    rw [hoperations', hq']
    decide +kernel
  have htaken : weightUnder (Backtrace.normalise p.settings.depth [⟨2⟩, ⟨1⟩])
      (samplesIn .cpu p.settings.depth (p.calls operations)) = 15 := by
    rw [hoperations, hp']
    decide +kernel
  have hword : weightUnder (Backtrace.normalise p.settings.depth [⟨2⟩, ⟨1⟩])
      (samplesIn .cpu p.settings.depth (p.calls operations)) ≤ maxWord := by
    rw [htaken]
    decide
  obtain ⟨hunevicted, hheld, -, htwo⟩ := profiles_are_exact hample
  have hheld' := (hheld [⟨2⟩, ⟨1⟩] hword).trans htaken
  have hsame := htwo q operations' hample' hperm [⟨2⟩, ⟨1⟩] hword
  exact ⟨p, q, operations, operations', hample, hample', hperm, hsnapshots, hunevicted,
    hsnapshots', hheld', hsame.symm.trans hheld'⟩

end SamplingProfiler
