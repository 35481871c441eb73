/-
Every way of looking at a snapshot shows the same entries.

A snapshot can be asked for its entries one by one, for one weight, for a map, for how many
there are and for how much they weigh.  The entry for memory reclamation is not in the log,
so each of these answers is put together from two parts.  They fit since the key of that
entry is no backtrace of a call stack: it has a frame that no function has.
-/
import SamplingProfiler.Proofs.Log.Reference
import SamplingProfiler.Proofs.ShadowStack
import SamplingProfiler.Proofs.Weight
import SamplingProfiler.Snapshot

namespace SamplingProfiler

namespace Snapshot

/-- A snapshot of a log that took samples of a call stack, or of a sampler without a log. -/
structure Regular (s : Snapshot) : Prop where
  depth_pos : 0 < s.depth
  gcWeight : s.gcWeight.isSome = true ↔ s.kind = .cpu
  wellFormed : ∀ log ∈ s.log, log.WellFormed
  depth_eq : ∀ log ∈ s.log, log.depth = s.depth
  clean : ∀ log ∈ s.log, ∀ e ∈ log.entries, Backtrace.Clean e.frames

/-- All that can be asked of a snapshot agrees with its entries. -/
structure Consistent (s : Snapshot) : Prop where
  length_frames : ∀ e ∈ s.entries, e.frames.length = s.depth
  /-- What was recorded are frames of functions, followed by padding. -/
  clean : ∀ e ∈ s.backtraces, Backtrace.Clean e.frames
  /-- There is one more entry in a CPU profile, and in a memory profile there is not. -/
  entries_cpu : s.kind = .cpu → ∃ w, s.gcWeight = some w ∧ s.entries = s.backtraces
    ++ [⟨FrameId.gc :: List.replicate (s.depth - 1) FrameId.null, w⟩]
  entries_memory : s.kind = .memory → s.entries = s.backtraces
  nodup : (s.entries.map (·.frames)).Nodup
  len_eq : s.len = s.entries.length
  weightOf_iff : ∀ frames w,
    s.weightOf frames = some w ↔ (⟨Backtrace.normalise s.depth frames, w⟩ : Entry) ∈ s.entries
  /-- The map has as many keys as there are entries, with the weights of the entries. -/
  nodup_toMap : (s.toMap.map (·.frames)).Nodup
  length_toMap : s.toMap.length = s.len
  mem_toMap : ∀ e, e ∈ s.toMap ↔ e ∈ s.entries
  totalWeight_eq : s.totalWeight.val = min (s.entries.map (·.weight.val)).sum maxWord

variable {s : Snapshot}

/-! ### The map

The entries are put into the map one after the other, each where its key belongs.  An entry with a
key that is there already would take the place of another.  Since no two entries have the same key,
the map has all of them, in another order.
-/

/-- A new key is put in between the others. -/
private theorem insertSorted_perm {e : Entry} {m : List Entry}
    (h : ∀ other ∈ m, e.frames ≠ other.frames) : (insertSorted e m).Perm (e :: m) := by
  induction m with
  | nil => exact .refl _
  | cons other rest ih =>
      have hrest := ih fun o ho => h o (List.mem_cons_of_mem _ ho)
      unfold insertSorted
      rw [if_neg (h other List.mem_cons_self)]
      by_cases hlt : Backtrace.lt e.frames other.frames = true
      · rw [if_pos hlt]
      · rw [if_neg hlt]
        exact (hrest.cons other).trans (.swap e other rest)

private theorem foldl_insertSorted_perm (es m : List Entry)
    (h : ((es ++ m).map (·.frames)).Nodup) :
    (es.foldl (fun m e => insertSorted e m) m).Perm (es ++ m) := by
  induction es generalizing m with
  | nil => exact .refl _
  | cons e rest ih =>
      rw [List.cons_append, List.map_cons, List.nodup_cons] at h
      obtain ⟨hnew, hrest⟩ := h
      have hinsert : (insertSorted e m).Perm (e :: m) := by
        refine insertSorted_perm fun other hother heq => hnew ?_
        rw [heq]
        exact List.mem_map_of_mem (List.mem_append_right _ hother)
      -- The fold goes on from a map that has the new entry among the old ones.
      have hmiddle : (rest ++ insertSorted e m).Perm (e :: (rest ++ m)) :=
        (hinsert.append_left rest).trans List.perm_middle
      have hnodup : ((rest ++ insertSorted e m).map (·.frames)).Nodup := by
        refine (hmiddle.map _).nodup_iff.mpr ?_
        exact List.nodup_cons.mpr ⟨hnew, hrest⟩
      exact (ih _ hnodup).trans hmiddle

/-- The entries of the map are the entries of the snapshot. -/
private theorem toMap_perm (h : (s.entries.map (·.frames)).Nodup) : s.toMap.Perm s.entries := by
  have hperm := foldl_insertSorted_perm s.entries []
  rw [List.append_nil] at hperm
  exact hperm h

/-! ### Entries -/

theorem gcKey_eq {depth : Nat} (h : 0 < depth) :
    gcKey depth = FrameId.gc :: List.replicate (depth - 1) FrameId.null := by
  obtain ⟨n, rfl⟩ := Nat.exists_eq_succ_of_ne_zero (Nat.ne_of_gt h)
  unfold gcKey Backtrace.normalise
  rw [Nat.max_eq_right (Nat.succ_pos n)]
  simp

theorem length_gcKey (depth : Nat) : (gcKey depth).length = max 1 depth :=
  Backtrace.length_normalise _ _

namespace Regular

variable (h : s.Regular)
include h

private theorem gcEntry_eq (w : Weight) :
    (⟨gcKey s.depth, w⟩ : Entry)
      = ⟨FrameId.gc :: List.replicate (s.depth - 1) FrameId.null, w⟩ := by
  rw [gcKey_eq h.depth_pos]

private theorem clean_backtrace {e : Entry} (he : e ∈ s.backtraces) :
    Backtrace.Clean e.frames := by
  unfold backtraces at he
  cases hlog : s.log with
  | none => rw [hlog] at he; cases he
  | some log =>
      rw [hlog] at he
      exact h.clean log hlog e he

private theorem length_backtrace {e : Entry} (he : e ∈ s.backtraces) :
    e.frames.length = s.depth := by
  unfold backtraces at he
  cases hlog : s.log with
  | none => rw [hlog] at he; cases he
  | some log =>
      rw [hlog] at he
      exact ((h.wellFormed log hlog).length_of_mem he).trans (h.depth_eq log hlog)

/-- No recorded backtrace is the key of the entry for memory reclamation. -/
private theorem frames_ne_gcKey {e : Entry} (he : e ∈ s.backtraces) :
    e.frames ≠ gcKey s.depth := by
  intro heq
  have hgc := (h.clean_backtrace he).gc_notMem
  rw [heq, gcKey_eq h.depth_pos] at hgc
  exact hgc List.mem_cons_self

private theorem nodup_backtraces : (s.backtraces.map (·.frames)).Nodup := by
  unfold backtraces
  cases hlog : s.log with
  | none => exact List.nodup_nil
  | some log =>
      show (log.entries.map (·.frames)).Nodup
      rw [log.entries_eq]
      exact (h.wellFormed log hlog).nodup_keys

private theorem weightOf_backtraces (frames : List FrameId) (w : Weight) :
    s.log.bind (·.weightOf frames) = some w ↔
      (⟨Backtrace.normalise s.depth frames, w⟩ : Entry) ∈ s.backtraces := by
  unfold backtraces
  cases hlog : s.log with
  | none => simp
  | some log =>
      rw [← h.depth_eq log hlog]
      exact (h.wellFormed log hlog).weightOf_eq_some_iff frames w

private theorem nodup_entries : (s.entries.map (·.frames)).Nodup := by
  unfold entries gcEntry
  rw [List.map_append, List.nodup_append]
  refine ⟨h.nodup_backtraces, ?_, ?_⟩
  · cases s.gcWeight <;> simp
  · intro key hkey key' hkey' heq
    obtain ⟨e, he, rfl⟩ := List.mem_map.mp hkey
    cases hgc : s.gcWeight with
    | none => rw [hgc] at hkey'; cases hkey'
    | some w =>
        rw [hgc] at hkey'
        exact h.frames_ne_gcKey he (heq.trans (List.mem_singleton.mp hkey'))

private theorem len_entries : s.len = s.entries.length := by
  unfold len entries backtraces gcEntry
  rw [List.length_append]
  have hlog : (s.log.map (·.len)).getD 0 = ((s.log.map (·.entries)).getD []).length := by
    cases hlog : s.log with
    | none => rfl
    | some log =>
        show log.len = log.entries.length
        rw [(h.wellFormed log hlog).len_eq, log.entries_eq]
        rfl
  rw [hlog]
  cases s.gcWeight <;> rfl

private theorem weightOf_entries (frames : List FrameId) (w : Weight) :
    s.weightOf frames = some w ↔
      (⟨Backtrace.normalise s.depth frames, w⟩ : Entry) ∈ s.entries := by
  have hlog := h.weightOf_backtraces frames w
  have hmax : max 1 s.depth = s.depth := Nat.max_eq_right h.depth_pos
  unfold weightOf entries gcEntry
  rw [List.mem_append]
  cases hgc : s.gcWeight with
  | none => simpa using hlog
  | some reclaimed =>
      dsimp only
      rw [hmax]
      by_cases hkey : Backtrace.normalise s.depth frames = gcKey s.depth
      · -- The key is asked for: no backtrace has it.
        rw [if_pos hkey, hkey]
        constructor
        · intro hw
          obtain rfl := Option.some.inj hw
          exact .inr (List.mem_singleton_self _)
        · intro hmem
          rcases hmem with hmem | hmem
          · exact absurd rfl (h.frames_ne_gcKey hmem)
          · exact congrArg (some ·.weight) (List.mem_singleton.mp hmem).symm
      · rw [if_neg hkey, hlog]
        refine ⟨.inl, fun hmem => ?_⟩
        rcases hmem with hmem | hmem
        · exact hmem
        · exact absurd (congrArg (·.frames) (List.mem_singleton.mp hmem)) hkey

/-- A regular snapshot is consistent. -/
theorem consistent : s.Consistent := by
  have hperm := toMap_perm h.nodup_entries
  refine ⟨fun e he => ?_, fun e he => h.clean_backtrace he, fun hkind => ?_, fun hkind => ?_,
    h.nodup_entries, h.len_entries, h.weightOf_entries, ?_, ?_, fun e => hperm.mem_iff, ?_⟩
  · rcases List.mem_append.mp he with hrecorded | hgc
    · exact h.length_backtrace hrecorded
    · obtain ⟨w, -, rfl⟩ := Option.map_eq_some_iff.mp (Option.mem_toList.mp hgc)
      exact (length_gcKey _).trans (Nat.max_eq_right h.depth_pos)
  · obtain ⟨w, hw⟩ := Option.isSome_iff_exists.mp (h.gcWeight.mpr hkind)
    refine ⟨w, hw, ?_⟩
    unfold entries gcEntry
    rw [hw, ← h.gcEntry_eq]
    rfl
  · have hnone : s.gcWeight = none := by
      rw [Option.eq_none_iff_forall_ne_some]
      intro w hw
      have hcpu := h.gcWeight.mp (by rw [hw]; rfl)
      rw [hkind] at hcpu
      cases hcpu
    unfold entries gcEntry
    rw [hnone]
    exact List.append_nil _
  · exact (hperm.map _).nodup_iff.mpr h.nodup_entries
  · rw [hperm.length_eq, h.len_entries]
  · unfold totalWeight
    rw [Weight.val_sum, List.map_map]
    rfl

end Regular

end Snapshot

end SamplingProfiler
