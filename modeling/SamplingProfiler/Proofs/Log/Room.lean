/-
A log that is large enough is exact.

An eviction round comes only of a new backtrace that finds no empty row.  By then more
backtraces have been credited than the log has rows.  So as long as there are no more than that,
every backtrace has one entry, and the entry has all that was credited to it
(`Histogram.Tells`).  The order in which it was credited makes no difference.
-/
import Mathlib.Data.Finset.Card
import SamplingProfiler.Proofs.Log.Amortised
import SamplingProfiler.Proofs.Log.Credits

namespace SamplingProfiler

/-- How many backtraces there are, each counted once. -/
def distinctBacktraces (es : List Entry) : Nat := (es.map (·.frames)).toFinset.card

theorem distinctBacktraces_append (es es' : List Entry) :
    distinctBacktraces es ≤ distinctBacktraces (es ++ es') := by
  refine Finset.card_le_card ?_
  intro key hkey
  rw [List.mem_toFinset] at hkey ⊢
  rw [List.map_append]
  exact List.mem_append_left _ hkey

/-- What a weight amounts to: to nothing, if there is none. -/
def amountOf (weight : Option Weight) : Nat := (weight.map (·.val)).getD 0

namespace Histogram

variable {h h' : Histogram} {es : List Entry} {key : List FrameId} {weight : Weight} {r : Nat}

/-- A histogram tells exactly what was credited. -/
structure Tells (es : List Entry) (h : Histogram) : Prop where
  occurs : ∀ e ∈ h.entries, ∃ c ∈ es, c.frames = e.frames
  complete : ∀ c ∈ es, ∃ e ∈ h.entries, e.frames = c.frames
  weight_eq : ∀ e ∈ h.entries, e.weight.val = min (weightUnder e.frames es) maxWord

theorem tells_empty (capacity depth : Nat) : Tells [] (empty capacity depth) := by
  refine ⟨?_, ?_, ?_⟩
  · simp
  · simp
  · simp

/-- What is not about entries makes no difference. -/
theorem Tells.congr (ht : h.Tells es) (hentries : h'.entries = h.entries) : h'.Tells es where
  occurs := by rw [hentries]; exact ht.occurs
  complete := by rw [hentries]; exact ht.complete
  weight_eq := by rw [hentries]; exact ht.weight_eq

/-- A backtrace that has no entry was credited with nothing. -/
theorem Tells.weightUnder_eq_zero (ht : h.Tells es) (hlacks : h.Lacks key) :
    weightUnder key es = 0 := by
  refine SamplingProfiler.weightUnder_eq_zero ?_
  intro c hc hframes
  obtain ⟨e, he, heq⟩ := ht.complete c hc
  exact hlacks e he (heq.trans hframes)

/-- A backtrace that has no entry is one more than have an entry. -/
theorem Tells.length_lt (ht : h.Tells es) (hnodup : (h.entries.map (·.frames)).Nodup)
    (hlacks : h.Lacks key) : h.entries.length < distinctBacktraces (es ++ [⟨key, weight⟩]) := by
  have hnew : key ∉ h.entries.map (·.frames) := by
    intro hmem
    obtain ⟨e, he, heq⟩ := List.mem_map.mp hmem
    exact hlacks e he heq
  have hcard := List.toFinset_card_of_nodup (List.nodup_cons.mpr ⟨hnew, hnodup⟩)
  rw [List.length_cons, List.length_map] at hcard
  rw [← Nat.succ_le_iff, Nat.succ_eq_add_one, ← hcard]
  refine Finset.card_le_card ?_
  intro k hk
  rw [List.mem_toFinset] at hk ⊢
  rw [List.map_append, List.mem_append]
  rcases List.mem_cons.mp hk with heq | hold
  · right
    simp [heq]
  · left
    obtain ⟨e, he, heq⟩ := List.mem_map.mp hold
    obtain ⟨c, hc, hframes⟩ := ht.occurs e he
    exact List.mem_map.mpr ⟨c, hc, hframes.trans heq⟩

/-- If there is room for all backtraces, no credit brings about a round. -/
theorem Tells.unevicted (ht : h.Tells es) (hnodup : (h.entries.map (·.frames)).Nodup)
    (htakes : h.Takes key weight r h')
    (hroom : distinctBacktraces (es ++ [⟨key, weight⟩]) ≤ h.rows.length) :
    h'.evictions = h.evictions := by
  rcases htakes.round with hsame | ⟨hlacks, hfull⟩
  · exact hsame
  · have hlength := congrArg List.length (rows_of_full hfull)
    rw [List.length_map] at hlength
    have hlt : h.entries.length < distinctBacktraces (es ++ [⟨key, weight⟩]) :=
      ht.length_lt hnodup hlacks
    omega

/-- A credit without a round is told. -/
theorem Tells.step (ht : h.Tells es) (hdistinct : h.Distinct) (htakes : h.Takes key weight r h')
    (hround : h'.evictions = h.evictions) : h'.Tells (es ++ [⟨key, weight⟩]) := by
  obtain ⟨before, hrow, hbefore⟩ := htakes.row
  have hweight : before.val = min (weightUnder key es) maxWord := by
    rcases hbefore with hold | ⟨rfl, hlacks⟩
    · exact ht.weight_eq _ (mem_entries.mpr ⟨r, hold⟩)
    · rw [ht.weightUnder_eq_zero hlacks]
      rfl
  -- No other row has the backtrace, or it would have had it before.
  have hother : ∀ {s : Nat} {e : Entry}, s ≠ r → h'.rows[s]? = some (some e) →
      e ∈ h.entries ∧ e.frames ≠ key := by
    intro s e hs he
    have hold := htakes.others hs he
    have hmem : e ∈ h.entries := mem_entries.mpr ⟨s, hold⟩
    refine ⟨hmem, ?_⟩
    intro hframes
    rcases hbefore with hrow' | ⟨-, hlacks⟩
    · exact hs (hdistinct hold hrow' hframes)
    · exact hlacks e hmem hframes
  refine ⟨?_, ?_, ?_⟩
  · intro e he
    obtain ⟨s, hs⟩ := mem_entries.mp he
    by_cases hr : s = r
    · rw [hr, hrow] at hs
      obtain rfl := Option.some.inj (Option.some.inj hs)
      exact ⟨⟨key, weight⟩, by simp, rfl⟩
    · obtain ⟨c, hc, hframes⟩ := ht.occurs e (hother hr hs).1
      exact ⟨c, List.mem_append_left _ hc, hframes⟩
  · intro c hc
    by_cases hkey : c.frames = key
    · exact ⟨_, mem_entries.mpr ⟨r, hrow⟩, hkey.symm⟩
    · have hold : c ∈ es := by
        rcases List.mem_append.mp hc with hold | hnew
        · exact hold
        · rw [List.mem_singleton] at hnew
          exact absurd (by rw [hnew]) hkey
      obtain ⟨e, he, hframes⟩ := ht.complete c hold
      obtain ⟨s, hs⟩ := mem_entries.mp he
      have hstays := htakes.stays hs (by rw [hframes]; exact hkey) (.inl hround)
      exact ⟨e, mem_entries.mpr ⟨s, hstays⟩, hframes⟩
  · intro e he
    obtain ⟨s, hs⟩ := mem_entries.mp he
    rw [weightUnder_append]
    by_cases hr : s = r
    · rw [hr, hrow] at hs
      obtain rfl := Option.some.inj (Option.some.inj hs)
      simp only [Weight.val_add, weightUnder_cons, weightUnder_nil, if_true]
      omega
    · obtain ⟨hmem, hkey⟩ := hother hr hs
      have hnone : weightUnder e.frames [⟨key, weight⟩] = 0 := by
        simp [Ne.symm hkey]
      rw [hnone, Nat.add_zero]
      exact ht.weight_eq e hmem

end Histogram

namespace BacktraceLog

variable {log : BacktraceLog} {es : List Entry}

theorem WellFormed.dimensions_add (ok : log.WellFormed) (frames : List FrameId)
    (weight : Weight) : (log.add frames weight).2.capacity = log.capacity
      ∧ (log.add frames weight).2.depth = log.depth := by
  obtain ⟨hrows, hdepth⟩ := (ok.lookup frames).keeps
  refine ⟨?_, hdepth⟩
  rw [← table_rows_length, ← table_rows_length]
  show (log.add frames weight).2.histogram.rows.length = log.histogram.rows.length
  rw [histogram_add, ← hrows]
  exact List.length_modify ..

/-- A log with room for a further sample adds it without an eviction round. -/
theorem WellFormed.tells_add (ok : log.WellFormed) (ht : log.histogram.Tells es)
    (frames : List FrameId) (weight : Weight)
    (hroom : distinctBacktraces (es ++ [⟨Backtrace.normalise log.depth frames, weight⟩])
      ≤ log.capacity) :
    (log.add frames weight).2.evictions = log.evictions
      ∧ (log.add frames weight).2.histogram.Tells
        (es ++ [⟨Backtrace.normalise log.depth frames, weight⟩]) := by
  have htakes := ok.takes_add frames weight
  rw [← table_rows_length] at hroom
  have hround := ht.unevicted ok.nodup_keys htakes hroom
  exact ⟨hround, ht.step ok.distinct_rows htakes hround⟩

/-- A log that tells what was credited has it as its weights. -/
theorem WellFormed.amountOf_weightOf (ok : log.WellFormed) (ht : log.histogram.Tells es)
    (frames : List FrameId) :
    amountOf (log.weightOf frames)
      = min (weightUnder (Backtrace.normalise log.depth frames) es) maxWord := by
  unfold amountOf
  cases hweight : log.weightOf frames with
  | none =>
      rw [ht.weightUnder_eq_zero ((ok.weightOf_eq_none_iff frames).mp hweight)]
      rfl
  | some weight =>
      rw [ok.weightOf_eq_some_iff, entries_eq] at hweight
      exact ht.weight_eq _ hweight

end BacktraceLog

end SamplingProfiler
