/-
The heaviest backtrace is safe.

The line of an eviction round is below a weight that is alone at the top, so the heaviest entry
is kept.  Over a run that says little by itself, as other backtraces lose their entries and get
new ones.  But an entry never weighs more than what was credited to its backtrace altogether
(`Histogram.Covers`).  So a backtrace whose weight is above all that is ever credited to any
other is the heaviest in every round to come.
-/
import SamplingProfiler.Proofs.Log.Credits

namespace SamplingProfiler

namespace Histogram

variable {h h' : Histogram} {c? : Option Entry} {past : List Entry}

/-- What was credited covers every entry: its backtrace was credited, with no less than its
weight. -/
structure Covers (past : List Entry) (h : Histogram) : Prop where
  credited : ∀ e ∈ h.entries, ∃ c ∈ past, c.frames = e.frames
  weight_le : ∀ e ∈ h.entries, e.weight.val ≤ weightUnder e.frames past

theorem covers_empty (capacity depth : Nat) : Covers [] (empty capacity depth) := by
  refine ⟨?_, ?_⟩
  · simp
  · simp

/-- A credit covers what it adds. -/
theorem Covers.step (hc : Covers past h) (hcredited : h.Credited c? h') :
    Covers (past ++ c?.toList) h' := by
  -- An entry that was there is covered by what was credited before.
  have hold : ∀ {s : Nat} {e : Entry}, h.rows[s]? = some (some e) →
      (∃ c ∈ past ++ c?.toList, c.frames = e.frames)
        ∧ e.weight.val ≤ weightUnder e.frames (past ++ c?.toList) := by
    intro s e he
    obtain ⟨c, hmem, hframes⟩ := hc.credited e (mem_entries.mpr ⟨s, he⟩)
    have hle := hc.weight_le e (mem_entries.mpr ⟨s, he⟩)
    rw [weightUnder_append]
    exact ⟨⟨c, List.mem_append_left _ hmem, hframes⟩, by omega⟩
  suffices hall : ∀ {s : Nat} {e : Entry}, h'.rows[s]? = some (some e) →
      (∃ c ∈ past ++ c?.toList, c.frames = e.frames)
        ∧ e.weight.val ≤ weightUnder e.frames (past ++ c?.toList) by
    refine ⟨?_, ?_⟩
    · intro e he
      obtain ⟨s, hs⟩ := mem_entries.mp he
      exact (hall hs).1
    · intro e he
      obtain ⟨s, hs⟩ := mem_entries.mp he
      exact (hall hs).2
  intro s e he
  cases hcredited with
  | nothing hrows =>
      rw [hrows] at he
      exact hold he
  | @took c r h' htakes =>
      by_cases hs : s = r
      · subst hs
        obtain ⟨before, hrow, hbefore⟩ := htakes.row
        rw [hrow] at he
        obtain rfl := Option.some.inj (Option.some.inj he)
        refine ⟨⟨c, by simp, rfl⟩, ?_⟩
        have hle : before.val ≤ weightUnder c.frames past := by
          rcases hbefore with hold | ⟨rfl, -⟩
          · exact hc.weight_le _ (mem_entries.mpr ⟨s, hold⟩)
          · exact Nat.zero_le _
        simp only [Weight.val_add, Option.toList_some, weightUnder_append, weightUnder_cons,
          weightUnder_nil, if_true]
        omega
      · exact hold (htakes.others hs he)

/-- An entry that outweighs all that has another backtrace stays in its row, and gains what is
credited to its own. -/
theorem Credited.keeps_heaviest (hcredited : h.Credited c? h') (hdistinct : h.Distinct)
    (htwo : 2 ≤ h.rows.length) {r : Nat} {key : List FrameId} {weight : Weight}
    (hrow : h.rows[r]? = some (some ⟨key, weight⟩))
    (hlight : ∀ e ∈ h.entries, e.frames ≠ key → e.weight.val < weight.val) :
    h'.rows[r]? = some (some ⟨key, weight + .ofNat (weightUnder key c?.toList)⟩) := by
  cases hcredited with
  | nothing hrows =>
      rw [hrows, hrow]
      simp
  | @took c s h' htakes =>
      by_cases hkey : c.frames = key
      · obtain ⟨before, hafter, hbefore⟩ := htakes.row
        rw [hkey] at hafter hbefore
        have hgained : weightUnder key [c] = c.weight.val := by simp [hkey]
        rcases hbefore with hbefore | ⟨-, hlacks⟩
        · obtain rfl : s = r := hdistinct hbefore hrow rfl
          rw [hrow] at hbefore
          obtain rfl := congrArg Entry.weight (Option.some.inj (Option.some.inj hbefore))
          rw [hafter, Option.toList_some, hgained, Weight.ofNat_val]
        · exact absurd rfl (hlacks _ (mem_entries.mpr ⟨r, hrow⟩))
      · have hnothing : weightUnder key [c] = 0 := by simp [hkey]
        rw [Option.toList_some, hnothing, Weight.ofNat_zero, Weight.add_zero]
        refine htakes.stays hrow (fun heq => hkey heq.symm) ?_
        rcases htakes.round with hquiet | ⟨-, hfull⟩
        · exact .inl hquiet
        · refine .inr (line_lt hfull htwo hrow ?_)
          intro s e hs he
          refine hlight e (mem_entries.mpr ⟨s, he⟩) ?_
          intro hframes
          exact hs (hdistinct he hrow hframes)

end Histogram

namespace BacktraceLog

variable {log : BacktraceLog}

/-- So does a backtrace whose weight is above all that is ever credited to any other. -/
theorem WellFormed.keeps_heaviest (ok : log.WellFormed) (htwo : 2 ≤ log.capacity)
    {past : List Entry} (hpast : log.histogram.Covers past) {r : Nat} {key : List FrameId}
    {weight : Weight} (hrow : log.histogram.rows[r]? = some (some ⟨key, weight⟩))
    (qs : List Query)
    (hlight : ∀ c ∈ past ++ log.credits qs, c.frames ≠ key →
      weightUnder c.frames (past ++ log.credits qs) < weight.val) :
    (log.answers qs).2.histogram.rows[r]?
      = some (some ⟨key, weight + .ofNat (weightUnder key (log.credits qs))⟩) := by
  induction qs generalizing log past weight with
  | nil =>
      simpa [credits, BacktraceLog.answers] using hrow
  | cons q rest ih =>
      have hcredited := ok.credited q
      have hlighter : ∀ e ∈ log.histogram.entries, e.frames ≠ key →
          e.weight.val < weight.val := by
        intro e he hkey
        obtain ⟨c, hc, hframes⟩ := hpast.credited e he
        have hle := hpast.weight_le e he
        have hlt := hlight c (List.mem_append_left _ hc) (by rw [hframes]; exact hkey)
        rw [hframes, weightUnder_append] at hlt
        omega
      have hnext := hcredited.keeps_heaviest ok.distinct_rows
        (by rw [← table_rows_length] at htwo; exact htwo) hrow hlighter
      have hlast := ih (ok.answer q).1 (by rw [ok.capacity_answer]; exact htwo)
        (hpast.step hcredited) hnext (by
          intro c hc hkey
          rw [List.append_assoc] at hc ⊢
          exact Nat.lt_of_lt_of_le (hlight c hc hkey) (Weight.le_add _ _))
      rw [credits, weightUnder_append, Weight.add_ofNat_add]
      exact hlast

theorem WellFormed.covers (ok : log.WellFormed) {past : List Entry}
    (hpast : log.histogram.Covers past) (qs : List Query) :
    (log.answers qs).2.histogram.Covers (past ++ log.credits qs) := by
  induction qs generalizing log past with
  | nil => simpa [credits, BacktraceLog.answers] using hpast
  | cons q rest ih =>
      rw [credits, ← List.append_assoc]
      exact ih (ok.answer q).1 (hpast.step (ok.credited q))

/-- A backtrace that has an entry is looked up in its row, and nothing changes. -/
theorem WellFormed.lookupOrCreate_of_row (ok : log.WellFormed) {frames key : List FrameId}
    {r : Nat} {weight : Weight} (hkey : Backtrace.normalise log.depth frames = key)
    (hrow : log.entryAt r = some ⟨key, weight⟩) :
    log.lookupOrCreate frames = (r, log) ∧ log.weightOf frames = some weight := by
  obtain ⟨row, hr, hentry⟩ := Option.bind_eq_some_iff.mp hrow
  obtain ⟨htaken, hframes, hweight⟩ := entry?_eq_some_iff.mp hentry
  have hrowOf := ok.rowOf_eq_some_iff.mpr ⟨row, hr, htaken, hframes⟩
  unfold BacktraceLog.lookupOrCreate BacktraceLog.weightOf
  dsimp only
  rw [hkey, hrowOf]
  simp [hr, hweight]

/-- A backtrace that has a weight has it in a row. -/
theorem WellFormed.exists_entryAt (ok : log.WellFormed) {frames : List FrameId} {weight : Weight}
    (hweight : log.weightOf frames = some weight) :
    ∃ r, log.entryAt r = some ⟨Backtrace.normalise log.depth frames, weight⟩ := by
  rw [ok.weightOf_eq_some_iff, entries_eq] at hweight
  obtain ⟨r, hr⟩ := Histogram.mem_entries.mp hweight
  exact ⟨r, entryAt_eq_some_iff.mpr hr⟩

/-- An eviction round keeps an entry that outweighs every other. -/
theorem WellFormed.entryAt_evict_of_heaviest (ok : log.WellFormed) (htwo : 2 ≤ log.capacity)
    (hfull : log.free = []) {r : Nat} {e : Entry} (hentry : log.entryAt r = some e)
    (hothers : ∀ s e', s ≠ r → log.entryAt s = some e' → e'.weight.val < e.weight.val) :
    log.evict.entryAt r = some e := by
  rw [← table_rows_length] at htwo
  rw [ok.entryAt_evict_iff hfull, ok.evictionLine_eq hfull]
  refine ⟨hentry, ?_⟩
  refine Histogram.line_lt (ok.none_notMem hfull) htwo (entryAt_eq_some_iff.mp hentry) ?_
  intro s e' hs he'
  exact hothers s e' hs (entryAt_eq_some_iff.mpr he')

/-- What is credited from the beginning covers every entry. -/
theorem covers_answers (hasher : Hasher) (capacity depth : Nat) (qs : List Query) :
    ((empty hasher capacity depth).answers qs).2.histogram.Covers
      ((empty hasher capacity depth).credits qs) := by
  have hnone := Histogram.covers_empty (rowsFor capacity) (depthFor depth)
  rw [← histogram_empty hasher] at hnone
  exact (wellFormed_empty hasher capacity depth).covers hnone qs

/-- Of a log with two rows or more: an eviction round keeps an entry that outweighs every other
in its row.  So a backtrace whose weight exceeds all that is credited to any other in a whole run
is in the same row from then on, with what it weighed and all that is credited to it later. -/
theorem heaviest_is_kept (hasher : Hasher) (capacity depth : Nat)
    (htwo : 2 ≤ (empty hasher capacity depth).capacity) :
    let fresh := empty hasher capacity depth
    (∀ qs, let log := (fresh.answers qs).2
      log.free = [] → ∀ r e, log.entryAt r = some e →
        (∀ s e', s ≠ r → log.entryAt s = some e' → e'.weight.val < e.weight.val) →
        log.evict.entryAt r = some e)
    ∧ ∀ before later rest frames weight,
      let log := (fresh.answers before).2
      let log' := (log.answers later).2
      let credited := fresh.credits (before ++ later ++ rest)
      let key := Backtrace.normalise (depthFor depth) frames
      log.weightOf frames = some weight →
      (∀ c ∈ credited, c.frames ≠ key → weightUnder c.frames credited < weight.val) →
      ∃ r, log.lookupOrCreate frames = (r, log) ∧ log'.lookupOrCreate frames = (r, log')
        ∧ log'.weightOf frames = some (weight + .ofNat (weightUnder key (log.credits later))) := by
  intro fresh
  have okFresh : fresh.WellFormed := wellFormed_empty hasher capacity depth
  refine ⟨?_, ?_⟩
  · intro qs log hfull r e hentry hothers
    have ok : log.WellFormed := (okFresh.answers qs).1
    refine ok.entryAt_evict_of_heaviest ?_ hfull hentry hothers
    rw [okFresh.capacity_answers]
    exact htwo
  · intro before later rest frames weight log log' credited key hweight hlight
    have ok : log.WellFormed := (okFresh.answers before).1
    have ok' : log'.WellFormed := (ok.answers later).1
    have hdepth : log.depth = depthFor depth := (okFresh.answers before).2.keeps.2
    have hdepth' : log'.depth = depthFor depth := (ok.answers later).2.keeps.2.trans hdepth
    have hcredited : credited
        = fresh.credits before ++ log.credits later ++ log'.credits rest := by
      show fresh.credits (before ++ later ++ rest) = _
      rw [List.append_assoc, credits_append, credits_append, List.append_assoc]
    obtain ⟨r, hrow⟩ := ok.exists_entryAt hweight
    rw [hdepth] at hrow
    have hrow' : log'.entryAt r
        = some ⟨key, weight + .ofNat (weightUnder key (log.credits later))⟩ := by
      refine entryAt_eq_some_iff.mpr (ok.keeps_heaviest ?_ (covers_answers hasher _ _ before)
        (entryAt_eq_some_iff.mp hrow) later ?_)
      · rw [okFresh.capacity_answers]
        exact htwo
      · intro c hc hkey
        have hlt := hlight c (by rw [hcredited]; exact List.mem_append_left _ hc) hkey
        rw [hcredited, weightUnder_append] at hlt
        exact Nat.lt_of_le_of_lt (Nat.le_add_right _ _) hlt
    have hfound := ok.lookupOrCreate_of_row (by rw [hdepth]) hrow
    have hfound' := ok'.lookupOrCreate_of_row (by rw [hdepth']) hrow'
    exact ⟨r, hfound.1, hfound'.1, hfound'.2⟩

/-- For instance, in a log of two rows a backtrace with a weight of ten stays in its row while
three others, none of which comes to ten in all, take turns in the other row. -/
theorem heaviest_is_kept_of_two :
    ∃ (before later rest : List Query) (log log' : BacktraceLog),
      2 ≤ (empty (HashFamily.mixing.hasher 0) 2 1).capacity
      ∧ log = ((empty (HashFamily.mixing.hasher 0) 2 1).answers before).2
      ∧ log' = (log.answers later).2
      ∧ log.weightOf [⟨7⟩] = some (.ofNat 10)
      ∧ (∀ c ∈ (empty (HashFamily.mixing.hasher 0) 2 1).credits (before ++ later ++ rest),
        c.frames ≠ [⟨7⟩] → weightUnder c.frames
          ((empty (HashFamily.mixing.hasher 0) 2 1).credits (before ++ later ++ rest)) < 10)
      ∧ log'.evictions = 3
      ∧ ∃ r, log.lookupOrCreate [⟨7⟩] = (r, log) ∧ log'.lookupOrCreate [⟨7⟩] = (r, log')
        ∧ log'.weightOf [⟨7⟩] = some (.ofNat 15) := by
  obtain ⟨before, hbefore⟩ : ∃ qs : List Query,
      qs = [(1, 2), (7, 10)].map fun (n, weight) =>
        Query.record (writing [⟨n⟩] none) (.ofNat weight) := ⟨_, rfl⟩
  obtain ⟨later, hlater⟩ : ∃ qs : List Query,
      qs = [(2, 9), (3, 4), (7, 5), (1, 6)].map fun (n, weight) =>
        Query.record (writing [⟨n⟩] none) (.ofNat weight) := ⟨_, rfl⟩
  obtain ⟨rest, hrest⟩ : ∃ qs : List Query,
      qs = [Query.record (writing [⟨3⟩] none) (.ofNat 5)] := ⟨_, rfl⟩
  have htwo : 2 ≤ (empty (HashFamily.mixing.hasher 0) 2 1).capacity := by decide +kernel
  have hweight : ((empty (HashFamily.mixing.hasher 0) 2 1).answers before).2.weightOf [⟨7⟩]
      = some (.ofNat 10) := by
    rw [hbefore]
    decide +kernel
  have hlight : ∀ c ∈ (empty (HashFamily.mixing.hasher 0) 2 1).credits (before ++ later ++ rest),
      c.frames ≠ [⟨7⟩] → weightUnder c.frames
        ((empty (HashFamily.mixing.hasher 0) 2 1).credits (before ++ later ++ rest)) < 10 := by
    rw [hbefore, hlater, hrest]
    decide +kernel
  have hrounds : (((empty (HashFamily.mixing.hasher 0) 2 1).answers before).2.answers
      later).2.evictions = 3 := by
    rw [hbefore, hlater]
    decide +kernel
  have hgain : Weight.ofNat 10 + .ofNat (weightUnder [⟨7⟩]
      (((empty (HashFamily.mixing.hasher 0) 2 1).answers before).2.credits later))
        = .ofNat 15 := by
    rw [hbefore, hlater]
    decide +kernel
  obtain ⟨r, hrow, hrow', hkept⟩ := (heaviest_is_kept (HashFamily.mixing.hasher 0) 2 1 htwo).2
    before later rest [⟨7⟩] (.ofNat 10) hweight hlight
  refine ⟨before, later, rest, _, _, htwo, rfl, rfl, hweight, hlight, hrounds, r, hrow, hrow', ?_⟩
  rw [hkept]
  exact congrArg some hgain

end BacktraceLog

end SamplingProfiler
