/-
The summary of a profile and its document.

The heaviest call stacks are picked by code of their own: entries that weigh nothing are left out
before the others are ranked, and a backtrace is cut off at its first null.  The document ranks
all entries and keeps the padding.  They agree all the same.  Ranking is stable, so it does not
matter that some entries were left out first (`byWeight_filter`), and in the profile of a shadow
stack there is nothing but padding behind a null (`Snapshot.Regular.takeWhile_frames`).
-/
import SamplingProfiler.Hotspot
import SamplingProfiler.Proofs.Document.Samples
import SamplingProfiler.Proofs.Replay.Snapshots

namespace SamplingProfiler

variable {ε : Type}

/-! ### Frames without padding -/

/-- The frames of a backtrace without padding. -/
def Entry.functions (e : Entry) : List FrameId := e.frames.filter fun f => !f.isNull

/-- The frames that a sample shows without padding, where no names are registered. -/
def Sample.functions (x : Sample) : Option (List FrameId) :=
  (x.frames.filter (·.isSome)).mapM FrameLabel.frame?

theorem Exporter.isSome_label (x : Exporter) (frame : FrameId) :
    (x.label frame).isSome = !frame.isNull := by
  unfold label FrameId.isNull
  by_cases hnull : frame = FrameId.null
  · rw [if_pos hnull, hnull]
    rfl
  · rw [if_neg hnull, beq_false_of_ne hnull]
    split
    · rfl
    · split <;> rfl

/-- A sample shows the frames of its entry. -/
theorem Exporter.functions_sample (e : Entry) : (nameless.sample e).functions = some e.functions := by
  have hfilter : (e.frames.map nameless.label).filter (·.isSome)
      = e.functions.map nameless.label := by
    rw [List.filter_map]
    exact congrArg (List.map _) (List.filter_congr fun f _ => nameless.isSome_label f)
  unfold Sample.functions sample
  rw [hfilter]
  exact mapM_map_of_eq_some frame?_label _

/-- Where there is nothing but padding behind a null, nothing else is cut off there. -/
theorem Backtrace.takeWhile_padded {frames : List FrameId}
    (h : ∀ f ∈ frames, f.isNull = false) (n : Nat) :
    (frames ++ List.replicate n FrameId.null).takeWhile (fun f => !f.isNull)
      = (frames ++ List.replicate n FrameId.null).filter fun f => !f.isNull := by
  have hkept : ∀ f ∈ frames, (!f.isNull) = true := fun f hf => by rw [h f hf]; rfl
  rw [List.takeWhile_append_of_pos hkept, List.filter_append, List.filter_eq_self.mpr hkept,
    List.takeWhile_replicate, List.filter_replicate]

/-- All entries of a regular snapshot are padded at their end only. -/
theorem Snapshot.Regular.takeWhile_frames {s : Snapshot} (h : s.Regular) {e : Entry}
    (he : e ∈ s.entries) : e.frames.takeWhile (fun f => !f.isNull) = e.functions := by
  unfold Entry.functions
  unfold Snapshot.entries at he
  rcases List.mem_append.mp he with hlogged | hgc
  · obtain ⟨frames, n, heq, hframes⟩ := h.consistent.clean e hlogged
    rw [heq]
    refine Backtrace.takeWhile_padded (fun f hf => ?_) n
    exact (Bool.or_eq_false_iff.mp (hframes f hf)).1
  · unfold Snapshot.gcEntry at hgc
    rw [Option.mem_toList, Option.map_eq_some_iff] at hgc
    obtain ⟨w, -, rfl⟩ := hgc
    refine Backtrace.takeWhile_padded (fun f hf => ?_) _
    rw [List.mem_singleton.mp (List.mem_of_mem_take hf)]
    rfl

/-! ### What is listed

Any summary is the beginning of one list, the ranked entries that weigh something
(`heaviest_eq`).  That it agrees with the first samples, that a longer one begins with a shorter
one, and that nothing heavier is left out are all read off that list.
-/

/-- A hotspot lists a sample: its weight, and its frames without padding. -/
structure Hotspot.Lists (h : Hotspot) (x : Sample) : Prop where
  weight : h.weight = x.weight
  frames : x.functions = some h.frames

/-- A hotspot stands for an entry. -/
structure Hotspot.Of (h : Hotspot) (e : Entry) : Prop where
  weight : h.weight = e.weight
  frames : h.frames = e.functions

/-- The heaviest call stacks are what the document without names says they are. -/
structure Snapshot.Summarised (s : Snapshot) : Prop where
  /-- They are the first samples that weigh something, in this order. -/
  lists : ∀ n, List.Forall₂ Hotspot.Lists (heaviest s n)
    (((Exporter.nameless.document s).samples.filter fun x => 0 < x.weight.val).take n)
  /-- If more are asked for, the others come behind. -/
  further : ∀ m n, m ≤ n → heaviest s m <+: heaviest s n
  /-- No entry that is left out weighs more than one that is listed. -/
  left_out : ∀ n, ∃ listed left, s.entries.Perm (listed ++ left)
    ∧ List.Forall₂ Hotspot.Of (heaviest s n) listed
    ∧ ∀ e ∈ left, ∀ h ∈ heaviest s n, e.weight.val ≤ h.weight.val

/-- The entries that weigh something, ranked. -/
def Snapshot.heavy (s : Snapshot) : List Entry :=
  (byWeight s.entries).filter fun e => 0 < e.weight.val

/-- The hotspot of an entry. -/
def Snapshot.hotspot (s : Snapshot) (e : Entry) : Hotspot where
  frames := e.frames.takeWhile fun f => !f.isNull
  weight := e.weight
  share := share e.weight s.totalWeight

theorem heaviest_eq (s : Snapshot) (n : Nat) :
    heaviest s n = (s.heavy.take n).map s.hotspot := by
  unfold heaviest
  rw [byWeight_filter]
  rfl

/-- Of a list in descending order nothing that is left weighs more than what was taken. -/
theorem Snapshot.weight_le_of_drop (s : Snapshot) {n : Nat} {e e' : Entry}
    (he : e ∈ s.heavy.drop n) (he' : e' ∈ s.heavy.take n) : e.weight.val ≤ e'.weight.val := by
  have hdescending := (ranksByWeight_byWeight s.entries).descending.filter
    (fun e => decide (0 < e.weight.val))
  rw [← List.take_append_drop n (List.filter _ _), List.pairwise_append] at hdescending
  exact hdescending.2.2 e' he' e he

/-- The hotspot of an entry shows its frames. -/
theorem Snapshot.Regular.hotspot_of {s : Snapshot} (h : s.Regular) {n : Nat} {e : Entry}
    (he : e ∈ s.heavy.take n) : (s.hotspot e).Of e := by
  have hranked := (List.mem_filter.mp (List.mem_of_mem_take he)).1
  exact ⟨rfl, h.takeWhile_frames ((ranksByWeight_byWeight s.entries).perm.mem_iff.mp hranked)⟩

theorem Snapshot.Regular.summarised {s : Snapshot} (h : s.Regular) : s.Summarised where
  lists := by
    intro n
    have hsamples : (Exporter.nameless.document s).samples.filter (fun x => 0 < x.weight.val)
        = s.heavy.map Exporter.nameless.sample := List.filter_map
    rw [hsamples, heaviest_eq, ← List.map_take, List.forall₂_map_left_iff,
      List.forall₂_map_right_iff, List.forall₂_same]
    intro e he
    refine ⟨rfl, ?_⟩
    rw [Exporter.functions_sample, ← (h.hotspot_of he).frames]
  further := by
    intro m n hle
    rw [heaviest_eq, heaviest_eq]
    exact (List.take_prefix_take_left hle).map _
  left_out := by
    intro n
    refine ⟨s.heavy.take n, s.heavy.drop n
      ++ (byWeight s.entries).filter (fun e => !decide (0 < e.weight.val)), ?_, ?_, ?_⟩
    · rw [← List.append_assoc, List.take_append_drop]
      exact (ranksByWeight_byWeight s.entries).perm.symm.trans
        (List.filter_append_perm _ _).symm
    · rw [heaviest_eq, List.forall₂_map_left_iff, List.forall₂_same]
      exact fun e he => h.hotspot_of he
    · intro e he hotspot hhotspot
      rw [heaviest_eq] at hhotspot
      obtain ⟨e', he', rfl⟩ := List.mem_map.mp hhotspot
      rcases List.mem_append.mp he with hdropped | hlight
      · exact s.weight_le_of_drop hdropped he'
      · have hnothing := (List.mem_filter.mp hlight).2
        have hzero : e.weight.val = 0 := by simpa using hnothing
        rw [hzero]
        exact Nat.zero_le _

/-- In a profiler of a shadow stack whose host respects its checks, the summary of every snapshot
agrees with the document. -/
theorem summary_agrees_with_document {config : Config} {stackCapacity : Nat}
    {reportsReclaims : Bool} {hashers : HashFamily} {host : ε} {p : Process ε}
    {os : List (Occurrence ε)} {w : Weave ε}
    (hidle : Process.idle config stackCapacity reportsReclaims hashers host = .ok p)
    (hrun : Weave.Run ⟨p, []⟩ os w) (hchecked : ∀ o ∈ os, o.Checked) :
    ∀ o ∈ os, ∀ kind snapshot, o.exported kind = some snapshot → snapshot.Summarised :=
  fun _ ho _ _ hexported => (hrun.exported_regular hidle hchecked ho hexported).2.summarised

/-- For instance, of a profile in which no memory was reclaimed at most two call stacks are
listed, and if one is asked for, it is the one that weighs more. -/
theorem summary_agrees_with_document_of_two :
    ∃ (p : Process Unit) (os : List (Occurrence Unit)) (w : Weave Unit) (snapshot : Snapshot),
      Process.idle { logCapacity := 2, maxStackDepth := 2 } 2 true .mixing () = .ok p
      ∧ Weave.Run ⟨p, []⟩ os w ∧ (∀ o ∈ os, o.Checked)
      ∧ (∃ o ∈ os, o.exported .cpu = some snapshot)
      ∧ snapshot.entries = [⟨[⟨8⟩, ⟨7⟩], .ofNat 20⟩, ⟨[⟨7⟩, FrameId.null], .ofNat 10⟩,
        ⟨[FrameId.gc, FrameId.null], 0⟩]
      ∧ snapshot.Summarised
      ∧ (heaviest snapshot 5).map (fun h => (h.frames, h.weight))
        = [([⟨8⟩, ⟨7⟩], .ofNat 20), ([⟨7⟩], .ofNat 10)]
      ∧ heaviest snapshot 1 <+: heaviest snapshot 5 := by
  obtain ⟨p, hidle⟩ : ∃ p : Process Unit,
      Process.idle { logCapacity := 2, maxStackDepth := 2 } 2 true .mixing () = .ok p := ⟨_, rfl⟩
  have hp := Process.eq_of_idle hidle
  obtain ⟨play, hplay⟩ : ∃ play, play = Weave.play (⟨p, []⟩ : Weave Unit) [
      .call (.host (.ofStack (·.enter ⟨7⟩))), .call (.host (.ofStack (·.enter ⟨8⟩))),
      .call (.start (.cpu (.ofNat 20))), .resume, .resume, .call .tick, .resume, .resume,
      .call (.stop .cpu), .resume, .call (.host (.ofStack (·.leave))),
      .call (.start (.cpu (.ofNat 10))), .resume, .call .tick, .resume, .resume,
      .call (.exportKind .cpu), .resume] := ⟨_, rfl⟩
  have hrun : Weave.Run ⟨p, []⟩ play.1 play.2 := by
    rw [hplay]
    exact Weave.run_play _ _
  have hchecked : ∀ o ∈ play.1, o.Checked := by
    rw [hplay, hp]
    show ∀ o ∈ [_, _, _, _, _, _, _, _, _, _, _, _, _, _, _, _, _, _], Occurrence.Checked o
    simp only [List.forall_mem_cons]
    refine ⟨fun _ => ⟨@ShadowStack.Reaches.push _ _ _ ⟨7⟩ .refl rfl, .refl⟩,
      fun _ => ⟨@ShadowStack.Reaches.push _ _ _ ⟨8⟩ .refl rfl, .refl⟩, nofun, nofun, nofun, nofun,
      nofun, nofun, nofun, nofun, fun _ => ⟨.leave .refl, .refl⟩, nofun, nofun, nofun, nofun,
      nofun, nofun, nofun, ?_⟩
    exact fun o ho => absurd ho List.not_mem_nil
  have hsnapshots : (play.1.filterMap (·.exported .cpu)).map (·.entries)
      = [[⟨[⟨8⟩, ⟨7⟩], .ofNat 20⟩, ⟨[⟨7⟩, FrameId.null], .ofNat 10⟩,
        ⟨[FrameId.gc, FrameId.null], 0⟩]] := by
    rw [hplay, hp]
    decide +kernel
  obtain ⟨snapshot, hmem, hentries⟩ := List.mem_map.mp (hsnapshots ▸ List.mem_cons_self)
  obtain ⟨o, ho, hexported⟩ := List.mem_filterMap.mp hmem
  have hsummarised := summary_agrees_with_document hidle hrun hchecked o ho .cpu snapshot hexported
  refine ⟨p, _, _, snapshot, hidle, hrun, hchecked, ⟨o, ho, hexported⟩, hentries, hsummarised, ?_,
    hsummarised.further 1 5 (by decide)⟩
  have hranked : byWeight snapshot.entries = snapshot.entries := by
    rw [hentries]
    exact List.mergeSort_of_pairwise (by decide)
  rw [heaviest_eq, List.map_map]
  unfold Snapshot.heavy
  rw [hranked, hentries]
  rfl

end SamplingProfiler
