/-
A snapshot is a replay.

A `Book` is kept of what the host of a process does, for one sampler.  It has the page of
the log that is in use and the ticks that were credited to reclamation.  It is kept by
looking at the call stack, the settings and the timer, and never at a log.

As long as the process is left alone and logs can be made, the book is true (`Agrees.next`).
So a snapshot holds what its page says, and neither a stop, a further start, a start that
fails nor a change of the settings makes any difference to it.
-/
import SamplingProfiler.Proofs.Replay.Page
import SamplingProfiler.Proofs.Replay.Quiet
import SamplingProfiler.Proofs.Interleaving.Custody
import SamplingProfiler.Proofs.Weight

namespace SamplingProfiler

variable {ε : Type}

/-! ### Books

`Book.next` has a case for each operation, and says what it writes down.  For `Agrees` there is a
lemma for each as well, and `Agrees.next` puts them together.  An operation about the other sampler
is in none of these cases: it writes nothing, and it does nothing here either (`quiet_spares`).
-/

/-- What is known of a sampler from what was called. -/
structure Book where
  /-- Has it been started, and not been stopped since? -/
  running : Bool := false
  /-- The interval of the latest start. -/
  interval : Weight := 0
  /-- The page of the log in use, if there is one. -/
  page : Option Page := none
  /-- The intervals of the ticks that found memory being reclaimed since the last export. -/
  reclaimed : List Weight := []
deriving DecidableEq

namespace Book

/-- Writes down a sample. -/
def take (b : Book) (stack : ShadowStack) (weight : Weight) : Book :=
  { b with page := b.page.map (·.write ⟨stack.captured, weight⟩) }

/-- Writes down an operation that is called in a process. -/
def next (kind : SamplerKind) (b : Book) (operation : Operation ε) (p : Process ε) : Book :=
  match operation with
  | .start request =>
    if request.kind = kind ∧ request ≠ .cpu 0 ∧ b.running = false then
      { b with
        running := request.canPace p
        interval := request.interval
        page := some (b.page.getD (.blank p.settings)) }
    else b
  | .stop k => if k = kind then { b with running := false } else b
  | .tick =>
    if kind = .cpu ∧ b.running then
      if p.reportsReclaims ∧ p.stack.isReclaiming then
        { b with reclaimed := b.reclaimed ++ [b.interval] }
      else b.take p.stack b.interval
    else b
  | .probe size => if kind = .memory ∧ b.running then b.take p.stack size else b
  | .note size =>
    if kind = .memory ∧ b.running then
      match (p.memory.gate.note size).1 with
      | some bytes => b.take p.stack bytes
      | none => b
    else b
  | .exportKind k =>
    if k = kind then
      { b with
        page := if b.running then some (.blank p.settings) else none
        reclaimed := [] }
    else b
  | .host _ => b

/-- An operation about the other sampler is not written down. -/
theorem next_of_other {kind : SamplerKind} {operation : Operation ε}
    (hkind : operation.kind? ≠ some kind) (b : Book) (p : Process ε) :
    b.next kind operation p = b := by
  cases operation with
  | start request => exact if_neg fun h => hkind (congrArg some h.1)
  | stop k => exact if_neg fun h => hkind (congrArg some h)
  | tick => exact if_neg fun h => hkind (congrArg some h.1.symm)
  | probe size => exact if_neg fun h => hkind (congrArg some h.1.symm)
  | note size => exact if_neg fun h => hkind (congrArg some h.1.symm)
  | exportKind k => exact if_neg fun h => hkind (congrArg some h)
  | host change => rfl

end Book

/-- A log that is in use is the one on the page, and its profile can be laid out. -/
inductive Backs : Option Page → LiveLog → Prop where
  | absent : Backs none .absent
  | ready {page : Page} {log : BacktraceLog} (h : Records page log)
      (hfits : fitsBlock (max 1 log.depth) = true) : Backs (some page) (.ready log)

/-- A book is true of a process. -/
structure Agrees (kind : SamplerKind) (b : Book) (p : Process ε) : Prop where
  running : (p.sampler kind).running = b.running
  live : Backs b.page (p.sampler kind).live
  /-- A running sampler has a log, -/
  started : b.running = true → b.page ≠ none
  interval : b.running = true → p.intervalOf kind = b.interval
  reclaimed : p.reclaimedBy kind = Weight.sum b.reclaimed
  /-- and without a log nothing is credited to reclamation. -/
  fallow : b.page = none → b.reclaimed = []

section

variable {kind : SamplerKind} {b : Book} {p q : Process ε}

theorem Backs.ne_inUse {page : Option Page} {live : LiveLog} (h : Backs page live) :
    live ≠ .inUse := by
  cases h with
  | absent => exact nofun
  | ready => exact nofun

/-- The book stays true if nothing happens to the sampler. -/
theorem Agrees.of_spares (h : Agrees kind b p) (hspares : Spares kind p q) :
    Agrees kind b q where
  running := by rw [hspares.sampler]; exact h.running
  live := by rw [hspares.sampler]; exact h.live
  started := h.started
  interval hrun := by rw [hspares.interval]; exact h.interval hrun
  reclaimed := by rw [hspares.reclaimed]; exact h.reclaimed
  fallow := h.fallow

/-- A new log stands on a blank page. -/
theorem Backs.fresh {settings : LogSettings} {hasher : Hasher} {log : BacktraceLog}
    (hmade : settings.newLog hasher = .ok log) : Backs (some (.blank settings)) (.ready log) := by
  have hsound := sound_of_newLog hmade
  obtain ⟨rfl, -⟩ := newLog_eq_ok hmade
  exact .ready (.blank settings hasher) hsound.fits

theorem Agrees.credit (h : Agrees kind b p) (weight : Weight) :
    Agrees kind (b.take p.stack weight) (p.credit kind weight) := by
  obtain ⟨running, interval, page, reclaimed⟩ := b
  obtain ⟨hrunning, hlive, hstarted, hinterval, hreclaimed, hfallow⟩ := h
  dsimp only at hrunning hlive hstarted hinterval hreclaimed hfallow
  generalize hready : (p.sampler kind).live = live at hlive
  cases hlive with
  | absent =>
      unfold Process.credit
      rw [hready]
      refine ⟨hrunning, ?_, hstarted, hinterval, hreclaimed, fun _ => hfallow rfl⟩
      rw [hready]
      exact .absent
  | @ready page log hrecords hfits =>
      have hfits' : fitsBlock (max 1 (log.record p.stack.capture weight).depth) = true := by
        rw [(log.sameMake_record p.stack.capture weight).2]
        exact hfits
      unfold Process.credit
      rw [hready]
      refine ⟨?_, ?_, fun _ => Option.some_ne_none _, fun hrun => ?_, ?_, nofun⟩
      · simpa [Process.setLive, Book.take] using hrunning
      · simpa [Process.setLive, Book.take] using
          Backs.ready (hrecords.capture p.stack weight) hfits'
      · simpa [Process.setLive, Book.take] using hinterval hrun
      · simpa [Process.setLive, Book.take] using hreclaimed

/-- A log is made when a start finds none, and when a running sampler is exported. -/
def makesLog (operation : Operation ε) (p : Process ε) : Bool :=
  match operation with
  | .start request =>
    request ≠ .cpu 0 && !(p.sampler request.kind).running
      && (p.sampler request.kind).live.log?.isNone
  | .exportKind kind => (p.sampler kind).running
  | _ => false

theorem makesLog_start {request : StartRequest} (hzero : request ≠ .cpu 0)
    (hrun : (p.sampler request.kind).running = false)
    (hlive : (p.sampler request.kind).live = .absent) : makesLog (.start request) p = true := by
  unfold makesLog
  simp only [hrun, hlive, decide_eq_true hzero]
  rfl

/-- An operation that is called in a process. -/
structure Call (ε : Type) where
  operation : Operation ε
  process : Process ε

/-- If a log is made, it can be made. -/
def Call.Succeeds (c : Call ε) : Prop :=
  makesLog c.operation c.process = true →
    (c.process.settings.newLog c.process.nextHasher).isOk = true

instance (c : Call ε) : Decidable c.Succeeds := inferInstanceAs (Decidable (_ → _))

theorem exists_of_isOk {α β : Type} {x : Except α β} (h : x.isOk = true) :
    ∃ b, x = .ok b := by
  cases x with
  | ok b => exact ⟨b, rfl⟩
  | error e => cases h

private theorem Agrees.start (h : Agrees kind b p) {request : StartRequest}
    (hkind : request.kind = kind) (hmade : Call.Succeeds ⟨.start request, p⟩) :
    Agrees kind (b.next kind (.start request) p)
      ((Operation.start request).perform .quiet p).2 := by
  obtain rfl := hkind
  unfold Book.next
  dsimp only
  by_cases hgo : request ≠ .cpu 0 ∧ b.running = false
  · rw [if_pos ⟨rfl, hgo⟩]
    have hrun : (p.sampler request.kind).running = false := h.running.trans hgo.2
    have hlive := h.live
    have hreclaimed := h.reclaimed
    generalize hready : (p.sampler request.kind).live = live at hlive
    generalize hpage : b.page = page at hlive
    cases hlive with
    | absent =>
        obtain ⟨log, hlog⟩ := exists_of_isOk (hmade (makesLog_start hgo.1 hrun hready))
        obtain ⟨hstarted, hforgot⟩ := quiet_start_fresh hgo.1 hrun hready hlog
        refine ⟨hstarted.running, ?_, fun _ => Option.some_ne_none _, fun _ => hstarted.interval,
          ?_, nofun⟩
        · rw [hstarted.live_eq]
          exact .fresh hlog
        · rw [hforgot, h.fallow hpage]
          rfl
    | @ready page log hrecords hfits =>
        obtain ⟨hstarted, hkept⟩ := quiet_start_resumed hgo.1 hrun hready
        refine ⟨hstarted.running, ?_, fun _ => Option.some_ne_none _, fun _ => hstarted.interval,
          hkept.trans hreclaimed, nofun⟩
        rw [hstarted.live_eq]
        exact .ready hrecords hfits
  · rw [if_neg fun h => hgo h.2]
    have hrefused : request = .cpu 0 ∨ (p.sampler request.kind).running = true := by
      rw [h.running]
      by_cases hzero : request = .cpu 0
      · exact .inl hzero
      · exact .inr (by simpa [hzero] using hgo)
    rw [quiet_start_refused hrefused]
    exact h

private theorem Agrees.exportKind (h : Agrees kind b p)
    (hmade : Call.Succeeds ⟨.exportKind kind, p⟩) :
    Agrees kind (b.next kind (.exportKind kind) p)
      ((Operation.exportKind kind).perform .quiet p).2 := by
  have hlive := h.live.ne_inUse
  unfold Book.next
  dsimp only
  rw [if_pos rfl]
  by_cases hrun : b.running = true
  · have hrun' : (p.sampler kind).running = true := h.running.trans hrun
    obtain ⟨log, hlog⟩ := exists_of_isOk (hmade hrun')
    obtain ⟨-, hleft⟩ := quiet_export_running hlive hrun' hlog
    rw [if_pos hrun]
    refine ⟨hleft.running.trans h.running, ?_, fun _ => Option.some_ne_none _, fun _ => ?_,
      hleft.reclaimed, nofun⟩
    · rw [hleft.live_eq]
      exact .fresh hlog
    · exact hleft.interval.trans (h.interval hrun)
  · have hrun' : (p.sampler kind).running = false := by simpa [h.running] using hrun
    obtain ⟨-, hleft⟩ := quiet_export_stopped hlive hrun'
    rw [if_neg hrun]
    refine ⟨hleft.running.trans h.running, ?_, fun h => absurd h hrun, fun h => absurd h hrun,
      hleft.reclaimed, fun _ => rfl⟩
    rw [hleft.live_eq]
    exact .absent

private theorem Agrees.stop (h : Agrees kind b p) :
    Agrees kind (b.next kind (.stop kind) p) ((Operation.stop kind).perform .quiet p).2 := by
  have hlowered : Agrees kind { b with running := false } (p.setRunning kind false) := by
    refine ⟨?_, ?_, nofun, nofun, ?_, h.fallow⟩
    · simp [Process.setRunning]
    · simpa [Process.setRunning] using h.live
    · simpa [Process.setRunning] using h.reclaimed
  rw [quiet_stop]
  unfold Book.next
  dsimp only
  rw [if_pos rfl]
  split
  · refine hlowered.of_spares ⟨?_, ?_, ?_⟩
    · cases kind <;> rfl
    · cases kind <;> rfl
    · cases kind <;> rfl
  · exact hlowered

private theorem Agrees.tick (h : Agrees .cpu b p) :
    Agrees .cpu (b.next .cpu .tick p) (Operation.tick.perform .quiet p).2 := by
  have hrunning : p.cpu.running = b.running := h.running
  rw [quiet_tick]
  unfold Book.next
  dsimp only
  rw [hrunning]
  by_cases hrun : b.running = true
  · have hinterval : p.cpu.interval = b.interval := h.interval hrun
    rw [if_pos ⟨rfl, hrun⟩, if_pos hrun, hinterval]
    split
    · refine ⟨h.running, h.live, h.started, fun _ => rfl, ?_, fun hpage => ?_⟩
      · rw [Weight.sum_concat, ← h.reclaimed]
        rfl
      · exact absurd hpage (h.started hrun)
    · exact h.credit b.interval
  · rw [if_neg fun h => hrun h.2, if_neg hrun]
    exact h

private theorem Agrees.probe (h : Agrees .memory b p) (size : Weight) :
    Agrees .memory (b.next .memory (.probe size) p)
      ((Operation.probe size).perform .quiet p).2 := by
  have hrunning : p.memory.running = b.running := h.running
  rw [quiet_probe]
  unfold Book.next
  dsimp only
  rw [hrunning]
  by_cases hrun : b.running = true
  · rw [if_pos ⟨rfl, hrun⟩, if_pos hrun]
    exact h.credit size
  · rw [if_neg fun h => hrun h.2, if_neg hrun]
    exact h

/-- What the gate reports is written down. -/
private theorem Agrees.note (h : Agrees .memory b p) (size : Weight) :
    Agrees .memory (b.next .memory (.note size) p) ((Operation.note size).perform .quiet p).2 := by
  have hrunning : p.memory.running = b.running := h.running
  rw [quiet_note]
  unfold Book.next
  dsimp only
  rw [hrunning]
  by_cases hrun : b.running = true
  · rw [if_pos ⟨rfl, hrun⟩, if_pos hrun]
    have hgate : Agrees .memory b { p with memory := { p.memory with
        gate := (p.memory.gate.note size).2 } } :=
      ⟨h.running, h.live, h.started, h.interval, h.reclaimed, h.fallow⟩
    cases (p.memory.gate.note size).1 with
    | none => exact hgate
    | some bytes => exact hgate.credit bytes
  · rw [if_neg fun h => hrun h.2, if_neg hrun]
    exact h

/-- Every operation is written down. -/
theorem Agrees.next (h : Agrees kind b p) (operation : Operation ε)
    (hmade : Call.Succeeds ⟨operation, p⟩) :
    Agrees kind (b.next kind operation p) (operation.perform .quiet p).2 := by
  by_cases hkind : operation.kind? = some kind
  · cases operation with
    | start request => exact h.start (Option.some.inj hkind) hmade
    | stop k =>
        obtain rfl := Option.some.inj hkind
        exact h.stop
    | tick =>
        obtain rfl := Option.some.inj hkind
        exact h.tick
    | probe size =>
        obtain rfl := Option.some.inj hkind
        exact h.probe size
    | note size =>
        obtain rfl := Option.some.inj hkind
        exact h.note size
    | exportKind k =>
        obtain rfl := Option.some.inj hkind
        exact h.exportKind hmade
    | host change => cases hkind
  · rw [Book.next_of_other hkind]
    exact h.of_spares (quiet_spares hkind p)

/-! ### Runs -/

/-- The process after operations that are called one after the other. -/
def Process.after (p : Process ε) (operations : List (Operation ε)) : Process ε :=
  operations.foldl (fun q operation => (operation.perform .quiet q).2) p

/-- The operations with the processes in which they are called. -/
def Process.calls (p : Process ε) : List (Operation ε) → List (Call ε)
  | [] => []
  | operation :: rest => ⟨operation, p⟩ :: (operation.perform .quiet p).2.calls rest

/-- The book of a sampler after some calls. -/
def Book.of (kind : SamplerKind) (calls : List (Call ε)) : Book :=
  calls.foldl (fun b c => b.next kind c.operation c.process) {}

theorem Process.calls_append (p : Process ε) (operations others : List (Operation ε)) :
    p.calls (operations ++ others)
      = p.calls operations ++ (p.after operations).calls others := by
  induction operations generalizing p with
  | nil => rfl
  | cons operation rest ih => exact congrArg (_ :: ·) (ih _)

/-- A book that is true stays true. -/
theorem Agrees.run (h : Agrees kind b p) (operations : List (Operation ε))
    (hmade : ∀ c ∈ p.calls operations, c.Succeeds) :
    Agrees kind ((p.calls operations).foldl (fun b c => b.next kind c.operation c.process) b)
      (p.after operations) := by
  induction operations generalizing b p with
  | nil => exact h
  | cons operation rest ih =>
      have hnext := h.next operation (hmade _ List.mem_cons_self)
      exact ih hnext fun c hc => hmade c (List.mem_cons_of_mem _ hc)

/-- The empty book is true of a process that has done nothing. -/
theorem agrees_idle {config : Config} {stackCapacity : Nat} {reportsReclaims : Bool}
    {hashers : HashFamily} {host : ε}
    (hidle : Process.idle config stackCapacity reportsReclaims hashers host = .ok p) :
    Agrees kind {} p := by
  rw [Process.eq_of_idle hidle]
  refine ⟨?_, ?_, nofun, nofun, ?_, fun _ => rfl⟩
  · cases kind <;> rfl
  · cases kind <;> exact .absent
  · cases kind <;> rfl

/-- A log on a page, or neither. -/
private theorem Backs.replay {page : Option Page} {live : LiveLog} (h : Backs page live) :
    live.log?.isSome = page.isSome
      ∧ ∀ log ∈ live.log?, ∀ written ∈ page, ∀ hasher,
        log.entries = (written.replay hasher).entries
        ∧ log.evictions = (written.replay hasher).evictions
        ∧ log.capacity = (written.replay hasher).capacity
        ∧ log.depth = (written.replay hasher).depth := by
  cases h with
  | absent => exact ⟨rfl, nofun⟩
  | ready hrecords hfits =>
      refine ⟨rfl, fun log hlog written hwritten hasher => ?_⟩
      obtain rfl := Option.some.inj hlog
      obtain rfl := Option.some.inj hwritten
      exact hrecords.replay hasher

/-- The profile of a log on a page can be laid out. -/
theorem Backs.fits {page : Option Page} {live : LiveLog} (h : Backs page live)
    (hpage : page ≠ none) (settings : LogSettings) :
    fitsBlock (max 1 (depthOf live.log? settings)) = true := by
  cases h with
  | absent => exact absurd rfl hpage
  | ready _ hfits => exact hfits

private theorem exportResult_eq {snapshot? : Option Snapshot} {snapshot : Snapshot} :
    exportResult snapshot? = .ok (.exported snapshot) ↔ snapshot? = some snapshot := by
  cases snapshot? <;> simp [exportResult]

/-- What an export hands over of a sampler whose book is true. -/
theorem Agrees.export_eq (h : Agrees kind b p)
    (hmade : Call.Succeeds ⟨.exportKind kind, p⟩) :
    ((Operation.exportKind kind).perform .quiet p).1 = exportResult
      (snapshotOf kind (depthOf (p.sampler kind).live.log? p.settings)
        (p.sampler kind).live.log? (Weight.sum b.reclaimed) (p.sampler kind).dropped) := by
  rw [← h.reclaimed]
  by_cases hrun : (p.sampler kind).running = true
  · obtain ⟨log, hlog⟩ := exists_of_isOk (hmade hrun)
    exact (quiet_export_running h.live.ne_inUse hrun hlog).1
  · exact (quiet_export_stopped h.live.ne_inUse (by simpa using hrun)).1

private theorem Agrees.result_eq (h : Agrees kind b p)
    (hmade : Call.Succeeds ⟨.exportKind kind, p⟩) (snapshot : Snapshot) :
    ((Operation.exportKind kind).perform .quiet p).1 = .ok (.exported snapshot) ↔
      snapshotOf kind (depthOf (p.sampler kind).live.log? p.settings)
        (p.sampler kind).live.log? (Weight.sum b.reclaimed) (p.sampler kind).dropped
          = some snapshot := by
  rw [h.export_eq hmade, exportResult_eq]

/-- In a process that is left alone and in which logs can be made, an export hands over what
the book of its sampler says:
a log that cannot be told from the one that is replayed from its page, whatever the hash
function, and the sum of what was credited to reclamation since the export before. -/
theorem snapshot_is_replay {config : Config} {stackCapacity : Nat} {reportsReclaims : Bool}
    {hashers : HashFamily} {host : ε} (operations : List (Operation ε))
    (hidle : Process.idle config stackCapacity reportsReclaims hashers host = .ok p)
    (hmade : ∀ c ∈ p.calls (operations ++ [.exportKind kind]), c.Succeeds) :
    let book := Book.of kind (p.calls operations)
    let result := ((Operation.exportKind kind).perform .quiet (p.after operations)).1
    (book.page ≠ none → ∃ snapshot, result = .ok (.exported snapshot))
      ∧ ∀ snapshot, result = .ok (.exported snapshot) →
        snapshot.kind = kind
        ∧ snapshot.log.isSome = book.page.isSome
        ∧ (∀ log ∈ snapshot.log, ∀ page ∈ book.page, ∀ hasher,
          log.entries = (page.replay hasher).entries
          ∧ log.evictions = (page.replay hasher).evictions
          ∧ log.capacity = (page.replay hasher).capacity
          ∧ log.depth = (page.replay hasher).depth)
        ∧ snapshot.gcWeight = if kind = .cpu then some (Weight.sum book.reclaimed) else none := by
  rw [Process.calls_append] at hmade
  have hagrees : Agrees kind (Book.of kind (p.calls operations)) (p.after operations) :=
    (agrees_idle hidle).run operations fun c hc => hmade c (List.mem_append_left _ hc)
  have hresult := hagrees.result_eq
    (hmade ⟨.exportKind kind, p.after operations⟩ (List.mem_append_right _ List.mem_cons_self))
  obtain ⟨hsame, hreplay⟩ := hagrees.live.replay
  refine ⟨fun hpage => ?_, fun snapshot hsnapshot => ?_⟩
  · refine ⟨_, (hresult _).mpr (if_pos (.inr ?_))⟩
    exact hagrees.live.fits hpage _
  · have hof := (hresult snapshot).mp hsnapshot
    unfold snapshotOf at hof
    split at hof
    · obtain rfl := Option.some.inj hof
      exact ⟨rfl, hsame, hreplay, rfl⟩
    · cases hof

/-- For instance, a log stays what it is when the depth is changed, and the sampler is stopped,
fails to start, and is started again with another interval. -/
theorem snapshot_is_replay_of_restarted :
    ∃ (p : Process Unit) (operations : List (Operation Unit)),
      Process.idle { logCapacity := 2, maxStackDepth := 2 } 2 true .mixing () = .ok p
      ∧ (∀ c ∈ p.calls (operations ++ [.exportKind .cpu]), c.Succeeds)
      ∧ (Book.of .cpu (p.calls operations)).page
        = some ⟨⟨2, 2⟩, [⟨[⟨1⟩], .ofNat 10⟩, ⟨[⟨2⟩, ⟨1⟩], .ofNat 20⟩]⟩
      ∧ ∃ snapshot, ((Operation.exportKind .cpu).perform .quiet (p.after operations)).1
          = .ok (.exported snapshot)
        ∧ snapshot.log.isSome
        ∧ (∀ log ∈ snapshot.log, ∀ page ∈ (Book.of .cpu (p.calls operations)).page, ∀ hasher,
          log.entries = (page.replay hasher).entries)
        ∧ snapshot.gcWeight = some (.ofNat 20) := by
  obtain ⟨p, hidle⟩ : ∃ p : Process Unit,
      Process.idle { logCapacity := 2, maxStackDepth := 2 } 2 true .mixing () = .ok p := ⟨_, rfl⟩
  have hp := Process.eq_of_idle hidle
  generalize hoperations : ([
    .host (.ofStack (·.enter ⟨1⟩)), .start (.cpu (.ofNat 10)), .tick,
    .host (.ofSettings fun s => { s with depth := 1 }), .stop .cpu,
    .host (.ofFault (some .timerHookTaken)), .start (.cpu (.ofNat 15)), .tick,
    .host (.ofFault none), .start (.cpu (.ofNat 20)),
    .host (.ofStack (·.enter ⟨2⟩)), .tick,
    .host (.ofStack (·.enterReclaim)), .tick] : List (Operation Unit)) = operations
  have hmade : ∀ c ∈ p.calls (operations ++ [.exportKind .cpu]), c.Succeeds := by
    rw [← hoperations, hp]
    decide +kernel
  have hbook : Book.of .cpu (p.calls operations) = {
      running := true, interval := .ofNat 20, reclaimed := [.ofNat 20]
      page := some ⟨⟨2, 2⟩, [⟨[⟨1⟩], .ofNat 10⟩, ⟨[⟨2⟩, ⟨1⟩], .ofNat 20⟩]⟩ } := by
    rw [← hoperations, hp]
    decide +kernel
  obtain ⟨hexports, hreplay⟩ := @snapshot_is_replay _ .cpu _ _ _ _ _ _ operations hidle hmade
  obtain ⟨snapshot, hsnapshot⟩ := hexports (by rw [hbook]; exact nofun)
  obtain ⟨-, hsome, hlog, hreclaimed⟩ := hreplay snapshot hsnapshot
  refine ⟨p, operations, hidle, hmade, by rw [hbook], snapshot, hsnapshot, ?_, ?_, ?_⟩
  · rw [hsome, hbook]
    rfl
  · exact fun log hmem page hpage hasher => (hlog log hmem page hpage hasher).1
  · rw [hreclaimed, hbook]
    rfl

end

end SamplingProfiler
