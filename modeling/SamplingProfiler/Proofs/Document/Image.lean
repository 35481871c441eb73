/-
A document is the image of its snapshot.

What a document has to show of a snapshot is said without the exporter that makes it (`Image`):
one sample for each entry, ranked by weight, every frame under its name.  There is just one
document like that, and it is the one that is made (`Snapshot.Formed.image_iff`).  So nothing
about the order of the samples or the labels of their frames is left to the exporter.

It does not matter what was captured.  All that is asked of a snapshot is that it has the depth of
its log, and every snapshot that a sampler hands over has.
-/
import SamplingProfiler.Proofs.Document.Samples
import SamplingProfiler.Proofs.Replay.Snapshots

namespace SamplingProfiler

variable {ε : Type}

/-! ### Frames and samples -/

/-- How a frame is shown: padding not at all, memory reclamation always under the same name, and
a function under the name it is registered with, or else under its number. -/
inductive Shows (names : FrameId → Option String) : FrameId → Option FrameLabel → Prop where
  | null : Shows names FrameId.null none
  | gc : Shows names FrameId.gc (some (.name "[gc]"))
  | named {frame : FrameId} {name : String} (hframe : frame.isReserved = false)
      (hname : names frame = some name) : Shows names frame (some (.name name))
  | unnamed {frame : FrameId} (hframe : frame.isReserved = false)
      (hname : names frame = none) : Shows names frame (some (.id frame))

/-- A sample shows an entry: its weight, and its frames one by one. -/
structure ShowsEntry (names : FrameId → Option String) (e : Entry) (sample : Sample) : Prop where
  frames : List.Forall₂ (Shows names) e.frames sample.frames
  weight : sample.weight = e.weight

/-- The name that a frame is registered with. -/
def Exporter.nameOf (x : Exporter) (frame : FrameId) : Option String := x.names.lookup frame

/-- A relation that is the graph of a function relates a list to its image. -/
private theorem forall₂_iff_map_eq {α β : Type} {R : α → β → Prop} {f : α → β}
    (h : ∀ a b, R a b ↔ f a = b) {as : List α} {bs : List β} :
    List.Forall₂ R as bs ↔ as.map f = bs := by
  have hgraph : R = fun a b => f a = b := funext₂ fun a b => propext (h a b)
  rw [hgraph, ← List.forall₂_map_left_iff, List.forall₂_eq_eq_eq]

section

variable (x : Exporter)

/-- A frame that is not reserved is shown under what the exporter knows of it. -/
theorem Exporter.label_of_function {frame : FrameId} (h : frame.isReserved = false) :
    x.label frame = some (match x.nameOf frame with
      | some name => .name name
      | none => .id frame) := by
  unfold FrameId.isReserved at h
  rw [Bool.or_eq_false_iff, beq_eq_false_iff_ne, beq_eq_false_iff_ne] at h
  unfold label nameOf
  rw [if_neg h.1, if_neg h.2]
  cases x.names.lookup frame <;> rfl

theorem shows_iff (frame : FrameId) (label : Option FrameLabel) :
    Shows x.nameOf frame label ↔ x.label frame = label := by
  constructor
  · intro h
    cases h with
    | null => rfl
    | gc => rfl
    | named hframe hname | unnamed hframe hname =>
        rw [x.label_of_function hframe, hname]
  · rintro rfl
    by_cases hnull : frame = FrameId.null
    · rw [hnull]
      exact .null
    by_cases hgc : frame = FrameId.gc
    · rw [hgc]
      exact .gc
    have hframe : frame.isReserved = false := by simp [FrameId.isReserved, hnull, hgc]
    rw [x.label_of_function hframe]
    cases hname : x.nameOf frame with
    | some name => exact .named hframe hname
    | none => exact .unnamed hframe hname

theorem showsEntry_iff (e : Entry) (sample : Sample) :
    ShowsEntry x.nameOf e sample ↔ x.sample e = sample := by
  have hframes : List.Forall₂ (Shows x.nameOf) e.frames sample.frames
      ↔ e.frames.map x.label = sample.frames := forall₂_iff_map_eq (shows_iff x)
  constructor
  · intro h
    show Sample.mk (e.frames.map x.label) e.weight = sample
    rw [hframes.mp h.frames, ← h.weight]
  · rintro rfl
    exact ⟨hframes.mpr rfl, rfl⟩

end

/-! ### Documents

An image has a sample for each entry in some order that ranks them.  As there is only one such
order, the samples of two images are the same, and the total weight follows from the samples.
-/

/-- What a document is to show of a snapshot. -/
structure Image (names : FrameId → Option String) (s : Snapshot) (d : Document) : Prop where
  kind_eq : d.kind = s.kind
  maxStackDepth_eq : d.maxStackDepth = s.depth
  evictions_eq : d.evictions = (s.log.map (·.evictions)).getD 0
  droppedSamples_eq : d.droppedSamples = s.dropped
  logCapacity_eq : d.logCapacity = (s.log.map (·.capacity)).getD 0
  /-- There is one sample for each entry, the heaviest first.  Of those of one weight the recorded
  backtraces come in the order of their rows, and the entry for memory reclamation last. -/
  samples : ∃ ranked, RanksByWeight ranked
      ((s.log.map (·.entries)).getD [] ++ s.gcEntry.toList)
    ∧ List.Forall₂ (ShowsEntry names) ranked d.samples
  length_frames : ∀ sample ∈ d.samples, sample.frames.length = d.maxStackDepth
  totalWeight_eq : d.totalWeight.val = min (d.samples.map (·.weight.val)).sum maxWord

/-- All entries of a snapshot are as long as its depth. -/
theorem Snapshot.Formed.length_frames {s : Snapshot} (h : s.Formed) {e : Entry}
    (he : e ∈ s.entries) : e.frames.length = s.depth := by
  unfold Snapshot.entries Snapshot.backtraces Snapshot.gcEntry at he
  rcases List.mem_append.mp he with hlogged | hgc
  · cases hlog : s.log with
    | none =>
        rw [hlog] at hlogged
        cases hlogged
    | some log =>
        rw [hlog] at hlogged
        exact ((h.wellFormed log hlog).length_of_mem hlogged).trans (h.depth_eq log hlog)
  · rw [Option.mem_toList, Option.map_eq_some_iff] at hgc
    obtain ⟨w, -, rfl⟩ := hgc
    exact (Snapshot.length_gcKey _).trans (Nat.max_eq_right h.depth_pos)

/-- The document that is made shows what it is to show. -/
theorem Snapshot.Formed.image {s : Snapshot} (h : s.Formed) (x : Exporter) :
    Image x.nameOf s (x.document s) where
  kind_eq := rfl
  maxStackDepth_eq := rfl
  evictions_eq := rfl
  droppedSamples_eq := rfl
  logCapacity_eq := rfl
  samples := ⟨_, ranksByWeight_byWeight s.entries,
    (forall₂_iff_map_eq (showsEntry_iff x)).mpr rfl⟩
  length_frames := by
    intro sample hsample
    obtain ⟨e, he, rfl⟩ := List.mem_map.mp hsample
    rw [(ranksByWeight_byWeight s.entries).perm.mem_iff] at he
    exact (List.length_map _).trans (h.length_frames he)
  totalWeight_eq := by
    have hsamples : (x.document s).samples.map (·.weight.val)
        = (byWeight s.entries).map (·.weight.val) := List.map_map ..
    have hperm := (ranksByWeight_byWeight s.entries).perm.map (·.weight.val)
    rw [hsamples, hperm.sum_nat]
    exact (Weight.val_sum _).trans (by rw [List.map_map]; rfl)

/-- No other document does. -/
theorem Snapshot.Formed.image_iff {s : Snapshot} (h : s.Formed) (x : Exporter) (d : Document) :
    Image x.nameOf s d ↔ d = x.document s := by
  constructor
  · intro hd
    have hmade := h.image x
    obtain ⟨ranked, hranked, hshown⟩ := hd.samples
    have hsamples : d.samples = (x.document s).samples := by
      rw [← (forall₂_iff_map_eq (showsEntry_iff x)).mp hshown,
        hranked.unique (ranksByWeight_byWeight s.entries)]
      rfl
    have htotal : d.totalWeight = (x.document s).totalWeight := by
      refine Weight.ext ?_
      rw [hd.totalWeight_eq, hmade.totalWeight_eq, hsamples]
    obtain ⟨kind, maxStackDepth, logCapacity, evictions, droppedSamples, totalWeight, samples⟩ := d
    obtain ⟨rfl, rfl, rfl, rfl, rfl, -, -, -⟩ := hd
    dsimp only at hsamples htotal
    rw [hsamples, htotal]
    rfl
  · rintro rfl
    exact h.image x

/-- Only names of functions are shown. -/
theorem Exporter.document_congr {x y : Exporter}
    (h : ∀ frame, frame.isReserved = false → x.nameOf frame = y.nameOf frame) (s : Snapshot) :
    x.document s = y.document s := by
  have hlabel : x.label = y.label := by
    funext frame
    by_cases hframe : frame.isReserved = false
    · rw [x.label_of_function hframe, y.label_of_function hframe, h frame hframe]
    · have hreserved := Bool.eq_true_of_not_eq_false hframe
      unfold FrameId.isReserved at hreserved
      rw [Bool.or_eq_true, beq_iff_eq, beq_iff_eq] at hreserved
      rcases hreserved with rfl | rfl
      · rfl
      · rfl
  unfold document sample
  rw [hlabel]

/-! ### Snapshots of a run

What the host captures may have any frames here, reserved ones among them.  So only the settings
have to go through their checks, and the stack does not.
-/

/-- The host goes through the checks of the settings; it may do anything else. -/
def Occurrence.Configured (o : Occurrence ε) : Prop :=
  o.isHost = true → o.before.process.settings.Reaches o.after.process.settings

/-- Only the host changes the settings. -/
theorem Occurrence.Configured.valid {o : Occurrence ε} (h : o.Configured)
    (hstep : Weave.Step o.before o.event o.outcome o.after)
    (hvalid : o.before.process.settings.Valid) : o.after.process.settings.Valid := by
  by_cases hhost : o.isHost = true
  · exact (h hhost).valid hvalid
  · obtain ⟨kind, hconfined⟩ := hstep.confined_of_profiler hhost
    rw [hconfined.settings]
    exact hvalid

/-- The settings stay valid. -/
theorem Weave.Run.settings_valid {w w' : Weave ε} {os : List (Occurrence ε)}
    (h : Weave.Run w os w') (hconfigured : ∀ o ∈ os, o.Configured)
    (hfirst : w.process.settings.Valid) : w'.process.settings.Valid := by
  induction h with
  | nil => exact hfirst
  | cons first _ ih =>
      have hnext := (hconfigured _ List.mem_cons_self).valid first hfirst
      exact ih (fun o ho => hconfigured o (List.mem_cons_of_mem _ ho)) hnext

/-- Whatever is captured and whatever comes in between, the snapshots of a sampler are formed. -/
theorem Weave.Run.exported_formed {config : Config} {stackCapacity : Nat}
    {reportsReclaims : Bool} {hashers : HashFamily} {host : ε} {p : Process ε}
    {os : List (Occurrence ε)} {w : Weave ε}
    (hidle : Process.idle config stackCapacity reportsReclaims hashers host = .ok p)
    (hrun : Weave.Run ⟨p, []⟩ os w) (hconfigured : ∀ o ∈ os, o.Configured) {o : Occurrence ε}
    (ho : o ∈ os) {kind : SamplerKind} {snapshot : Snapshot}
    (hexported : o.exported kind = some snapshot) : snapshot.Formed := by
  obtain ⟨past, rest, rfl, hpast, hstep⟩ := hrun.until ho
  have hvalid := hpast.settings_valid
    (fun o ho => hconfigured o (List.mem_append_left _ ho)) (orderly_idle hidle).valid
  have hchronicled : Chronicled kind past o.before := hpast.chronicled (chronicled_idle hidle)
  exact (hchronicled.formed hvalid hstep hexported).2.1

/-- The document of a snapshot shows all that it is to show, and it is the only one that does.
Names of padding and of memory reclamation make no difference.  And every snapshot of a profiler
is of the kind that this is said of, whatever its host captures and whenever it is exported, if
the settings are changed through their checks. -/
theorem document_is_image :
    (∀ (s : Snapshot), s.Formed → ∀ (x : Exporter) (d : Document),
      Image x.nameOf s d ↔ d = x.document s)
    ∧ (∀ {x y : Exporter},
      (∀ frame, frame.isReserved = false → x.nameOf frame = y.nameOf frame) →
      ∀ s, x.document s = y.document s)
    ∧ ∀ {config : Config} {stackCapacity : Nat} {reportsReclaims : Bool} {hashers : HashFamily}
        {host : ε} {p : Process ε} {os : List (Occurrence ε)} {w : Weave ε},
      Process.idle config stackCapacity reportsReclaims hashers host = .ok p →
      Weave.Run ⟨p, []⟩ os w → (∀ o ∈ os, o.Configured) →
      ∀ o ∈ os, ∀ kind snapshot, o.exported kind = some snapshot → snapshot.Formed := by
  refine ⟨fun s hs x d => hs.image_iff x d, fun h s => Exporter.document_congr h s, ?_⟩
  intro config stackCapacity reportsReclaims hashers host p os w hidle hrun hconfigured o ho kind
    snapshot hexported
  exact hrun.exported_formed hidle hconfigured ho hexported

/-- For instance, of a log with room for two backtraces the one that came after an eviction
round is listed before memory reclamation, which weighs the same.  A name for the latter does not
show. -/
theorem document_is_image_of_evicted :
    ∃ (p : Process Unit) (os : List (Occurrence Unit)) (w : Weave Unit) (snapshot : Snapshot),
      Process.idle { logCapacity := 2, maxStackDepth := 1 } 3 true .mixing () = .ok p
      ∧ Weave.Run ⟨p, []⟩ os w ∧ (∀ o ∈ os, o.Configured)
      ∧ (∃ o ∈ os, o.exported .cpu = some snapshot)
      ∧ snapshot.evictions = 1
      ∧ (let x := (Exporter.nameless.setName ⟨9⟩ "main").setName FrameId.gc "pause"
        Image x.nameOf snapshot (x.document snapshot)
        ∧ x.document snapshot = (Exporter.nameless.setName ⟨9⟩ "main").document snapshot
        ∧ (x.document snapshot).samples
          = [⟨[some (.name "main")], .ofNat 10⟩, ⟨[some (.name "[gc]")], .ofNat 10⟩]) := by
  obtain ⟨p, hidle⟩ : ∃ p : Process Unit,
      Process.idle { logCapacity := 2, maxStackDepth := 1 } 3 true .mixing () = .ok p := ⟨_, rfl⟩
  have hp := Process.eq_of_idle hidle
  obtain ⟨play, hplay⟩ : ∃ play, play = Weave.play (⟨p, []⟩ : Weave Unit) [
      .call (.host (.ofStack (·.enter ⟨7⟩))), .call (.start (.cpu (.ofNat 10))), .resume, .resume,
      .call .tick, .resume, .resume, .call (.host (.ofStack (·.enter ⟨8⟩))),
      .call .tick, .resume, .resume, .call (.host (.ofStack (·.enter ⟨9⟩))),
      .call .tick, .resume, .resume, .call (.host (.ofStack (·.enterReclaim))),
      .call .tick, .resume, .call (.exportKind .cpu), .resume] := ⟨_, rfl⟩
  have hrun : Weave.Run ⟨p, []⟩ play.1 play.2 := by
    rw [hplay]
    exact Weave.run_play _ _
  have hsettings : ∀ o ∈ play.1, o.after.process.settings = o.before.process.settings := by
    rw [hplay, hp]
    decide +kernel
  have hconfigured : ∀ o ∈ play.1, o.Configured := by
    intro o ho _
    rw [hsettings o ho]
    exact .refl
  have hsnapshots : (play.1.filterMap (·.exported .cpu)).map (fun s => (s.evictions, s.entries))
      = [(1, [⟨[⟨9⟩], .ofNat 10⟩, ⟨[FrameId.gc], .ofNat 10⟩])] := by
    rw [hplay, hp]
    decide +kernel
  obtain ⟨snapshot, hmem, heq⟩ := List.mem_map.mp (hsnapshots ▸ List.mem_cons_self)
  obtain ⟨hevictions, hentries⟩ := Prod.mk.inj heq
  obtain ⟨o, ho, hexported⟩ := List.mem_filterMap.mp hmem
  obtain ⟨himage, hnames, hformed⟩ := @document_is_image Unit
  have hs := hformed hidle hrun hconfigured o ho .cpu snapshot hexported
  refine ⟨p, _, _, snapshot, hidle, hrun, hconfigured, ⟨o, ho, hexported⟩, hevictions,
    (himage snapshot hs _ _).mpr rfl, hnames (fun frame hframe => ?_) snapshot, ?_⟩
  · have hgc : (frame == FrameId.gc) = false := by
      unfold FrameId.isReserved at hframe
      exact (Bool.or_eq_false_iff.mp hframe).2
    unfold Exporter.nameOf Exporter.setName
    rw [List.lookup_cons, hgc]
  · have hranked : byWeight snapshot.entries = snapshot.entries := by
      rw [hentries]
      exact List.mergeSort_of_pairwise (by decide)
    show (byWeight snapshot.entries).map _ = _
    rw [hranked, hentries]
    decide

end SamplingProfiler
