/-
Which entries an eviction round keeps.

A round keeps the entries above the line, each in its row (`WellFormed.entryAt_evict_iff`).
What else can be said of it is said by where the line lies among the weights.  Some weight is
at or below it, so at least one row is freed.  It is below a weight that is alone at the top
(`Histogram.line_lt`).  And if an entry gains weight, the line does not gain more than that
entry (`Histogram.raised_line`), so more weight never costs an entry its row.
-/
import SamplingProfiler.Proofs.Log.Reference

namespace SamplingProfiler

namespace Histogram

variable {h : Histogram} {r : Nat} {e : Entry}

/-- If no row is empty, the rows are the entries. -/
theorem rows_of_full (hfull : none ∉ h.rows) : h.rows = h.entries.map some := by
  unfold entries
  generalize h.rows = rows at hfull
  induction rows with
  | nil => rfl
  | cons row rest ih =>
      rw [List.mem_cons, not_or] at hfull
      cases row with
      | none => exact absurd rfl hfull.1
      | some e => exact congrArg (some e :: ·) (ih hfull.2)

theorem entries_of_rows {es : List Entry} (hrows : h.rows = es.map some) : h.entries = es := by
  unfold entries
  rw [hrows, List.filterMap_map]
  exact List.filterMap_some

/-- The line is below the weight of an entry that outweighs all others, if there are others. -/
theorem line_lt (hfull : none ∉ h.rows) (htwo : 2 ≤ h.rows.length)
    (hrow : h.rows[r]? = some (some e))
    (hothers : ∀ s e', s ≠ r → h.rows[s]? = some (some e') → e'.weight.val < e.weight.val) :
    h.line < e.weight.val := by
  have hrows := rows_of_full hfull
  have hentry : ∀ {s : Nat} {e' : Entry}, h.entries[s]? = some e' →
      h.rows[s]? = some (some e') := by
    intro s e' he'
    rw [hrows, List.getElem?_map, he', Option.map_some]
  obtain ⟨hlt, hget⟩ : ∃ hlt : r < h.entries.length, h.entries[r] = e := by
    rw [hrows, List.getElem?_map, Option.map_eq_some_iff] at hrow
    obtain ⟨e', he', heq⟩ := hrow
    rw [← Option.some.inj heq]
    exact List.getElem?_eq_some_iff.mp he'
  have hsplit : h.entries = h.entries.take r ++ e :: h.entries.drop (r + 1) := by
    rw [← hget, ← List.drop_eq_getElem_cons hlt, List.take_append_drop]
  have hline : h.line = approximateMedian ((h.entries.take r).map (·.weight.val)
      ++ e.weight.val :: (h.entries.drop (r + 1)).map (·.weight.val)) := by
    rw [← List.map_cons (f := fun e : Entry => e.weight.val), ← List.map_append, ← hsplit]
    rfl
  rw [hline]
  refine approximateMedian_lt ?_ ?_
  · rw [← List.map_append]
    intro w hw
    obtain ⟨e', he', rfl⟩ := List.mem_map.mp hw
    rcases List.mem_append.mp he' with hbefore | hafter
    · obtain ⟨s, hs⟩ := List.mem_iff_getElem?.mp hbefore
      rw [List.getElem?_take] at hs
      split at hs
      · exact hothers s e' (by omega) (hentry hs)
      · cases hs
    · obtain ⟨s, hs⟩ := List.mem_iff_getElem?.mp hafter
      rw [List.getElem?_drop] at hs
      exact hothers (r + 1 + s) e' (by omega) (hentry hs)
  · have hlength := congrArg List.length hrows
    rw [List.length_map] at hlength
    refine List.ne_nil_of_length_pos ?_
    rw [List.length_append, List.length_map, List.length_map, List.length_take, List.length_drop]
    omega

/-- If an entry gains weight, the line gains no more. -/
theorem raised_line (hfull : none ∉ h.rows) (r : Nat) (weight : Weight) :
    Raised weight.val h.line (h.increment r weight).line := by
  have hentries : (h.increment r weight).entries
      = h.entries.modify r fun e => { e with weight := e.weight + weight } := by
    refine entries_of_rows ?_
    show h.rows.modify r _ = _
    rw [rows_of_full hfull]
    apply List.ext_getElem?
    intro s
    simp only [List.getElem?_modify, List.getElem?_map]
    cases h.entries[s]? with
    | none => rfl
    | some e => by_cases hs : r = s <;> simp [hs]
  unfold line
  rw [hentries]
  refine .estimate (List.forall₂_iff_get.mpr ⟨by simp, ?_⟩)
  intro s hs hs'
  have hlt : s < h.entries.length := by simpa using hs
  simp only [List.get_eq_getElem, List.getElem_map, List.getElem_modify]
  generalize h.entries[s] = e
  have := e.weight.val_le
  unfold Raised
  by_cases hrow : r = s
  · rw [if_pos hrow, Weight.val_add]
    omega
  · rw [if_neg hrow]
    omega

end Histogram

namespace BacktraceLog

variable {log : BacktraceLog}

/-- The entry in a row, if the row is taken. -/
def entryAt (log : BacktraceLog) (r : Nat) : Option Entry := log.rows[r]?.bind Row.entry?

/-- A log in which one row has another weight. -/
def reweigh (log : BacktraceLog) (r : Nat) (weight : Weight) : BacktraceLog :=
  { log with rows := log.rows.modify r fun row => { row with weight := weight } }

theorem entryAt_eq_join (log : BacktraceLog) (r : Nat) :
    log.entryAt r = log.histogram.rows[r]?.join := by
  show _ = log.table.rows[r]?.join
  rw [table_rows_getElem?]
  unfold entryAt
  cases log.rows[r]? <;> rfl

theorem entryAt_eq_some_iff {r : Nat} {e : Entry} :
    log.entryAt r = some e ↔ log.histogram.rows[r]? = some (some e) := by
  rw [entryAt_eq_join, Option.join_eq_some_iff]

theorem WellFormed.histogram_evict (ok : log.WellFormed) (hfull : log.free = []) :
    log.evict.histogram = log.histogram.evict :=
  congrArg Table.toHistogram (ok.evict hfull).2

/-- A round keeps exactly the entries above the line, each in its row. -/
theorem WellFormed.entryAt_evict_iff (ok : log.WellFormed) (hfull : log.free = []) {r : Nat}
    {e : Entry} :
    log.evict.entryAt r = some e ↔
      log.entryAt r = some e ∧ log.evictionLine < e.weight.val := by
  rw [entryAt_eq_some_iff, entryAt_eq_some_iff, ok.histogram_evict hfull,
    ok.evictionLine_eq hfull]
  exact Histogram.row_evict_iff

/-- A round frees at least one row. -/
theorem WellFormed.len_evict_lt (ok : log.WellFormed) (hfull : log.free = []) :
    log.evict.len < log.len := by
  obtain ⟨hok, htable⟩ := ok.evict hfull
  have hcapacity : log.evict.capacity = log.capacity := by
    rw [← table_rows_length, ← table_rows_length, htable]
    exact List.length_map ..
  have hfree : log.evict.free = log.table.doomed.reverse ++ log.free :=
    congrArg Table.free htable
  have hdoomed := List.length_pos_iff.mpr (ok.doomed_ne_nil hfull)
  have hpos := ok.capacity_pos
  unfold len
  rw [hcapacity, hfree, hfull, List.append_nil, List.length_reverse, List.length_nil]
  omega

/-- More weight in a row is a gain of that row. -/
theorem reweigh_eq_increment {r : Nat} {e : Entry} {weight : Weight}
    (hentry : log.entryAt r = some e) (hmore : e.weight.val ≤ weight.val) :
    log.reweigh r weight = log.increment r (.ofNat (weight.val - e.weight.val)) := by
  have hrows : (log.reweigh r weight).rows
      = (log.increment r (.ofNat (weight.val - e.weight.val))).rows := by
    apply Array.ext_getElem?
    intro s
    unfold reweigh increment
    rw [Array.getElem?_modify, Array.getElem?_modify]
    by_cases hs : r = s
    · subst hs
      obtain ⟨row, hrow, he⟩ := Option.bind_eq_some_iff.mp hentry
      have hweight : row.weight = e.weight := (entry?_eq_some_iff.mp he).2.2
      have hsum : e.weight + .ofNat (weight.val - e.weight.val) = weight := by
        ext
        have := weight.val_le
        simp only [Weight.val_add, Weight.val_ofNat]
        omega
      rw [if_pos rfl, if_pos rfl, hrow, Option.map_some, Option.map_some, hweight, hsum]
    · rw [if_neg hs, if_neg hs]
  exact congrArg (fun rows : Array Row => { log with rows := rows }) hrows

/-- With more weight, an entry that a round keeps is kept as well. -/
theorem WellFormed.entryAt_evict_reweigh (ok : log.WellFormed) (hfull : log.free = []) {r : Nat}
    {e : Entry} {weight : Weight} (hkept : log.evict.entryAt r = some e)
    (hmore : e.weight.val ≤ weight.val) :
    (log.reweigh r weight).evict.entryAt r = some { e with weight := weight } := by
  obtain ⟨hentry, hline⟩ := (ok.entryAt_evict_iff hfull).mp hkept
  have hreweigh := reweigh_eq_increment hentry hmore
  generalize hgain : Weight.ofNat (weight.val - e.weight.val) = gain at hreweigh
  have hsum : e.weight.val + gain.val = weight.val := by
    have := weight.val_le
    rw [← hgain, Weight.val_ofNat]
    omega
  have hok : (log.reweigh r weight).WellFormed := by
    rw [hreweigh]
    exact ok.increment r gain
  have hhistogram : (log.reweigh r weight).histogram = log.histogram.increment r gain := by
    rw [hreweigh, histogram_increment]
  rw [hok.entryAt_evict_iff hfull, hok.evictionLine_eq hfull, hhistogram]
  rw [ok.evictionLine_eq hfull] at hline
  refine ⟨?_, ?_⟩
  · obtain ⟨row, hrow, he⟩ := Option.bind_eq_some_iff.mp hentry
    obtain ⟨htaken, hframes, -⟩ := entry?_eq_some_iff.mp he
    unfold entryAt reweigh
    rw [Array.getElem?_modify, if_pos rfl, hrow, Option.map_some, Option.bind_some]
    exact entry?_eq_some_iff.mpr ⟨htaken, hframes, rfl⟩
  · have hraised := (Histogram.raised_line (ok.none_notMem hfull) r gain).2
    show _ < weight.val
    omega

/-! ### The line among the weights

The results are about estimates and about rounds at once: what the estimate does to any list of
weights, and what that means in a full log that has come about through queries.
-/

/-- Of `3 ^ k` weights or more, in whatever order, at least `2 ^ k` are at or below the estimate
of their median, and at least `2 ^ k` are at or above it.  The estimate is between the smallest
weight and the largest, so an eviction round of a full log frees at least one row. -/
theorem ranks_of_approximateMedian (weights : List Nat) (hsome : weights ≠ []) :
    (∀ k, 3 ^ k ≤ weights.length →
      2 ^ k ≤ weights.countP (· ≤ approximateMedian weights)
      ∧ 2 ^ k ≤ weights.countP (approximateMedian weights ≤ ·))
    ∧ (∀ low high, (∀ w ∈ weights, low ≤ w ∧ w ≤ high) →
      low ≤ approximateMedian weights ∧ approximateMedian weights ≤ high)
    ∧ ∀ hasher capacity depth qs,
      let log := ((empty hasher capacity depth).answers qs).2
      log.free = [] → log.evict.len < log.len := by
  refine ⟨?_, ?_, ?_⟩
  · intro k hk
    exact ⟨pow_le_countP_approximateMedian k weights hk,
      pow_le_countP_approximateMedian_le k weights hk⟩
  · intro low high hbounds
    obtain ⟨w, hw, hle⟩ := exists_le_approximateMedian weights hsome
    obtain ⟨w', hw', hge⟩ := exists_ge_approximateMedian weights hsome
    exact ⟨Nat.le_trans (hbounds w hw).1 hle, Nat.le_trans hge (hbounds w' hw').2⟩
  · intro hasher capacity depth qs log hfull
    exact ((wellFormed_empty hasher capacity depth).answers qs).1.len_evict_lt hfull

/-- For instance, nine weights of which the estimate is the true median, and a full log of equal
weights, of which every row is freed. -/
theorem ranks_of_approximateMedian_nine :
    ∃ (weights : List Nat) (qs : List Query) (log : BacktraceLog),
      weights = [9, 3, 7, 1, 8, 2, 6, 4, 5] ∧ weights ≠ [] ∧ 3 ^ 2 ≤ weights.length
      ∧ 2 ^ 2 ≤ weights.countP (· ≤ approximateMedian weights)
      ∧ 2 ^ 2 ≤ weights.countP (approximateMedian weights ≤ ·)
      ∧ (∀ w ∈ weights, 1 ≤ w ∧ w ≤ 9)
      ∧ 1 ≤ approximateMedian weights ∧ approximateMedian weights ≤ 9
      ∧ log = ((empty (HashFamily.mixing.hasher 0) 2 1).answers qs).2
      ∧ log.free = [] ∧ log.len = 2 ∧ log.evict.len < log.len := by
  obtain ⟨weights, hweights⟩ : ∃ weights : List Nat, weights = [9, 3, 7, 1, 8, 2, 6, 4, 5] :=
    ⟨_, rfl⟩
  have hsome : weights ≠ [] := by simp [hweights]
  have hlength : 3 ^ 2 ≤ weights.length := by simp [hweights]
  have hbounds : ∀ w ∈ weights, 1 ≤ w ∧ w ≤ 9 := by
    rw [hweights]
    decide
  obtain ⟨qs, hqs⟩ : ∃ qs : List Query,
      qs = [1, 2].map fun n => Query.record (writing [⟨n⟩] none) (.ofNat 5) := ⟨_, rfl⟩
  obtain ⟨hranks, hbetween, hevict⟩ := ranks_of_approximateMedian weights hsome
  have hfull : ((empty (HashFamily.mixing.hasher 0) 2 1).answers qs).2.free = [] := by
    rw [hqs]
    decide +kernel
  have hlen : ((empty (HashFamily.mixing.hasher 0) 2 1).answers qs).2.len = 2 := by
    rw [hqs]
    decide +kernel
  obtain ⟨hbelow, habove⟩ := hranks 2 hlength
  obtain ⟨hlow, hhigh⟩ := hbetween 1 9 hbounds
  exact ⟨weights, qs, _, hweights, hsome, hlength, hbelow, habove, hbounds, hlow, hhigh, rfl, hfull,
    hlen, hevict _ _ _ qs hfull⟩

/-- If one weight is raised, the estimate of the median is not lowered, and it is raised by no
more than that weight.  So an entry that a round keeps, which is one above the line, is kept
with any larger weight as well. -/
theorem kept_with_more_weight (hasher : Hasher) (capacity depth : Nat) (qs : List Query) :
    (∀ weights i d,
      approximateMedian weights ≤ approximateMedian (weights.modify i (· + d))
      ∧ approximateMedian (weights.modify i (· + d)) ≤ approximateMedian weights + d)
    ∧ let log := ((empty hasher capacity depth).answers qs).2
      log.free = [] → ∀ r e, log.entryAt r = some e →
        (log.evict.entryAt r = some e ↔ log.evictionLine < e.weight.val)
        ∧ (log.evictionLine < e.weight.val → ∀ weight : Weight, e.weight.val < weight.val →
          (log.reweigh r weight).evict.entryAt r = some { e with weight := weight }) := by
  refine ⟨?_, ?_⟩
  · intro weights i d
    exact Raised.estimate (forall₂_raised_modify weights i d)
  · intro log hfull r e hentry
    have ok : log.WellFormed := ((wellFormed_empty hasher capacity depth).answers qs).1
    have hkept : log.evict.entryAt r = some e ↔ log.evictionLine < e.weight.val := by
      rw [ok.entryAt_evict_iff hfull]
      exact and_iff_right hentry
    refine ⟨hkept, ?_⟩
    intro hline weight hmore
    exact ok.entryAt_evict_reweigh hfull (hkept.mpr hline) (Nat.le_of_lt hmore)

/-- For instance, of three entries the round keeps the heaviest, and keeps it with the largest
weight there is. -/
theorem kept_with_more_weight_of_heaviest :
    ∃ (qs : List Query) (log : BacktraceLog) (e : Entry),
      log = ((empty (HashFamily.mixing.hasher 0) 3 1).answers qs).2
      ∧ log.free = [] ∧ log.entryAt 2 = some e ∧ e = ⟨[⟨3⟩], .ofNat 7⟩
      ∧ log.evictionLine < e.weight.val ∧ log.evict.entryAt 2 = some e
      ∧ e.weight.val < (Weight.ofNat maxWord).val
      ∧ (log.reweigh 2 (.ofNat maxWord)).evict.entryAt 2
        = some { e with weight := .ofNat maxWord } := by
  obtain ⟨qs, hqs⟩ : ∃ qs : List Query, qs = [(1, 4), (2, 6), (3, 7)].map fun (n, weight) =>
      Query.record (writing [⟨n⟩] none) (.ofNat weight) := ⟨_, rfl⟩
  have hfull : ((empty (HashFamily.mixing.hasher 0) 3 1).answers qs).2.free = [] := by
    rw [hqs]
    decide +kernel
  have hentry : ((empty (HashFamily.mixing.hasher 0) 3 1).answers qs).2.entryAt 2
      = some ⟨[⟨3⟩], .ofNat 7⟩ := by
    rw [hqs]
    decide +kernel
  have hline : ((empty (HashFamily.mixing.hasher 0) 3 1).answers qs).2.evictionLine < 7 := by
    rw [hqs]
    decide +kernel
  obtain ⟨hkept, hmore⟩ :=
    (kept_with_more_weight (HashFamily.mixing.hasher 0) 3 1 qs).2 hfull 2 _ hentry
  exact ⟨qs, _, _, rfl, hfull, hentry, rfl, hline, hkept.mpr hline, by decide,
    hmore hline (.ofNat maxWord) (by decide)⟩

end BacktraceLog

end SamplingProfiler
