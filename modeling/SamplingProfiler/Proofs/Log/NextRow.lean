/-
Which row a new backtrace takes.

The stack of free rows is always in order.  At first it has the rows that no backtrace has
taken yet, the lowest on top.  A round finds it empty and frees rows from the lowest to the
highest, so from then on the highest free row is on top: taking it leaves the others in order
(`Table.InOrder`).

So the free rows and whether there has been a round decide which row a new backtrace takes
(`WellFormed.row_of_new`).  Neither the backtraces nor their weights nor the order in which the
rows were taken and freed make a difference.
-/
import SamplingProfiler.Proofs.Log.Uses

namespace SamplingProfiler

namespace Table

/-- The stack of free rows is in order. -/
structure InOrder (t : Table) : Prop where
  /-- Before the first round it has the rows from some row on. -/
  early : t.evictions = 0 → ∃ n, t.free = List.range' n (t.rows.length - n)
  /-- From then on a higher row is above a lower one. -/
  late : 0 < t.evictions → t.free.Pairwise (· > ·)

variable {t t' : Table}

theorem inOrder_empty (capacity depth : Nat) : (empty capacity depth).InOrder where
  early _ := by
    refine ⟨0, ?_⟩
    have hlength : (empty capacity depth).rows.length = capacity := List.length_replicate
    rw [hlength, Nat.sub_zero, ← List.range_eq_range']
    rfl
  late h := absurd h (Nat.lt_irrefl 0)

/-- What is neither about free rows nor about rounds makes no difference. -/
theorem InOrder.congr (h : t.InOrder) (hfree : t'.free = t.free)
    (hrows : t'.rows.length = t.rows.length) (hevictions : t'.evictions = t.evictions) :
    t'.InOrder where
  early := by rw [hfree, hrows, hevictions]; exact h.early
  late := by rw [hfree, hevictions]; exact h.late

/-- A round frees rows from the lowest to the highest. -/
theorem pairwise_doomed (t : Table) : t.doomed.Pairwise (· < ·) :=
  List.pairwise_lt_range.filter _

/-- A round that finds no free row leaves the rows it frees in order. -/
theorem inOrder_evict (hfull : t.free = []) : t.evict.InOrder where
  early h := absurd h (Nat.succ_ne_zero t.evictions)
  late _ := by
    show (t.doomed.reverse ++ t.free).Pairwise (· > ·)
    rw [hfull, List.append_nil, List.pairwise_reverse]
    exact pairwise_doomed t

/-- Taking the row on top leaves the others in order. -/
theorem InOrder.claim (h : t.InOrder) (key : List FrameId) : (t.claim key).2.InOrder := by
  unfold Table.claim
  cases hfree : t.free with
  | nil => exact h
  | cons r rest =>
      have hrows : (t.toHistogram.put r key).rows.length = t.rows.length := List.length_set
      refine ⟨fun hnone => ?_, fun hsome => ?_⟩
      · obtain ⟨n, hn⟩ := h.early hnone
        rw [hfree] at hn
        obtain ⟨m, hm⟩ : ∃ m, t.rows.length - n = m + 1 := by
          refine Nat.exists_eq_succ_of_ne_zero fun hzero => ?_
          rw [hzero] at hn
          cases hn
        rw [hm, List.range'_succ, List.cons.injEq] at hn
        refine ⟨n + 1, ?_⟩
        rw [hrows, show t.rows.length - (n + 1) = m by omega]
        exact hn.2
      · have hpairwise := h.late hsome
        rw [hfree, List.pairwise_cons] at hpairwise
        exact hpairwise.2

theorem InOrder.lookupOrCreate (h : t.InOrder) (frames : List FrameId) :
    (t.lookupOrCreate frames).2.InOrder := by
  unfold Table.lookupOrCreate
  dsimp only
  cases t.rowOf (Backtrace.normalise t.depth frames) with
  | some r => exact h
  | none =>
      by_cases hfree : t.free = []
      · simp only [if_pos hfree]
        exact (inOrder_evict hfree).claim _
      · simp only [if_neg hfree]
        exact h.claim _

theorem InOrder.increment (h : t.InOrder) (r : Nat) (weight : Weight) :
    (t.increment r weight).InOrder :=
  h.congr rfl (List.length_modify ..) rfl

theorem InOrder.use (h : t.InOrder) (u : Use) : (t.use u).2.InOrder := by
  cases u with
  | abandon => exact h.congr rfl rfl rfl
  | ask q =>
      cases q with
      | lookup frames => exact h.lookupOrCreate frames
      | increment r weight => exact h.increment r weight
      | record source weight => exact ((h.lookupOrCreate _).increment _ weight).congr rfl rfl rfl
      | weightOf | entries | len | totalWeight | evictions => exact h

theorem InOrder.uses (h : t.InOrder) (us : List Use) : (t.uses us).2.InOrder :=
  replies_keeps InOrder InOrder.use h us

end Table

namespace BacktraceLog

variable {log : BacktraceLog} {frames : List FrameId} {r : Nat} {rest : List Nat}

/-- The log in which a new backtrace finds a free row: there is a round first if no row is
free. -/
def withRoom (log : BacktraceLog) : BacktraceLog := if log.free = [] then log.evict else log

/-- The rows without an entry, the lowest first. -/
def unoccupied (log : BacktraceLog) : List Nat :=
  (List.range log.capacity).filter fun r => log.entryAt r = none

/-- The free rows are those without an entry. -/
theorem WellFormed.mem_unoccupied (ok : log.WellFormed) {r : Nat} :
    r ∈ log.unoccupied ↔ r ∈ log.free := by
  unfold unoccupied
  rw [List.mem_filter, List.mem_range, ok.mem_free, decide_eq_true_eq]
  constructor
  · rintro ⟨hlt, hnone⟩
    have hrow : log.rows[r]? = some log.rows[r] := Array.getElem?_eq_getElem hlt
    refine ⟨log.rows[r], hrow, entry?_eq_none_iff.mp ?_⟩
    unfold entryAt at hnone
    rw [hrow, Option.bind_some] at hnone
    exact hnone
  · rintro ⟨row, hrow, ht⟩
    refine ⟨(Array.getElem?_eq_some_iff.mp hrow).1, ?_⟩
    unfold entryAt
    rw [hrow, Option.bind_some]
    exact entry?_eq_none_iff.mpr ht

theorem WellFormed.withRoom (ok : log.WellFormed) :
    log.withRoom.WellFormed
      ∧ log.withRoom.table = if log.free = [] then log.table.evict else log.table := by
  unfold BacktraceLog.withRoom
  by_cases hfree : log.free = []
  · rw [if_pos hfree, if_pos hfree]
    exact ok.evict hfree
  · rw [if_neg hfree, if_neg hfree]
    exact ⟨ok, rfl⟩

/-- A log that has been through no round has had room. -/
theorem withRoom_of_evictions (log : BacktraceLog) (hnone : log.withRoom.evictions = 0) :
    log.withRoom = log := by
  unfold BacktraceLog.withRoom at hnone ⊢
  by_cases hfree : log.free = []
  · rw [if_pos hfree] at hnone
    exact absurd hnone (Nat.succ_ne_zero log.evictions)
  · rw [if_neg hfree]

/-- What is in the rows after a new backtrace was put into one. -/
theorem entryAt_of_put {after : BacktraceLog} {key : List FrameId} (hlt : r < log.capacity)
    (hput : after.histogram = log.histogram.put r key) (s : Nat) :
    after.entryAt s = if s = r then some ⟨key, 0⟩ else log.entryAt s := by
  rw [entryAt_eq_join, entryAt_eq_join, hput]
  show ((log.histogram.rows.set r _)[s]?).join = _
  by_cases hs : s = r
  · subst hs
    have hrow : s < log.histogram.rows.length := by
      rw [← table_rows_length] at hlt
      exact hlt
    rw [List.getElem?_set_self hrow, if_pos rfl, Option.join_some]
  · rw [List.getElem?_set_ne (Ne.symm hs), if_neg hs]

theorem inOrder_uses (hasher : Hasher) (capacity depth : Nat) (us : List Use) :
    ((empty hasher capacity depth).uses us).2.table.InOrder := by
  rw [((wellFormed_empty hasher capacity depth).uses us).2.2, table_empty]
  exact (Table.inOrder_empty _ _).uses us

theorem WellFormed.inOrder_withRoom (ok : log.WellFormed) (h : log.table.InOrder) :
    log.withRoom.table.InOrder := by
  rw [ok.withRoom.2]
  by_cases hfree : log.free = []
  · rw [if_pos hfree]
    exact Table.inOrder_evict hfree
  · rw [if_neg hfree]
    exact h

/-- A log with room has a free row. -/
theorem WellFormed.exists_free (ok : log.WellFormed) : ∃ r rest, log.withRoom.free = r :: rest := by
  obtain ⟨full, r, rest, -, hfree, -, htable, -⟩ := ok.takeRow
  rw [← ok.withRoom.2] at htable
  exact ⟨r, rest, (congrArg Table.free htable).symm.trans hfree⟩

/-- A backtrace without a weight has no row. -/
theorem WellFormed.rowOf_of_new (ok : log.WellFormed) (hnew : log.weightOf frames = none) :
    log.rowOf (Backtrace.normalise log.depth frames) = none := by
  cases hrow : log.rowOf (Backtrace.normalise log.depth frames) with
  | none => rfl
  | some r =>
      obtain ⟨row, hr, -, -⟩ := ok.rowOf_eq_some_iff.mp hrow
      have hweight : log.weightOf frames = some row.weight := by
        unfold weightOf
        simp [hrow, hr]
      rw [hweight] at hnew
      cases hnew

/-- A new backtrace takes the row on top of the stack of free rows. -/
theorem WellFormed.lookupOrCreate_new (ok : log.WellFormed) (hnew : log.weightOf frames = none) :
    ∃ rest, log.withRoom.free = (log.lookupOrCreate frames).1 :: rest
      ∧ (log.lookupOrCreate frames).2.table
        = { toHistogram := log.withRoom.histogram.put (log.lookupOrCreate frames).1
              (Backtrace.normalise log.depth frames)
            free := rest } := by
  obtain ⟨r, rest, hfree⟩ := ok.exists_free
  have htable := (ok.lookupOrCreate frames).2
  have hclaim : log.table.lookupOrCreate frames
      = (r, { toHistogram := log.withRoom.histogram.put r (Backtrace.normalise log.depth frames)
              free := rest }) := by
    unfold Table.lookupOrCreate
    dsimp only
    rw [← ok.rowOf_eq, show log.table.depth = log.depth from rfl, ok.rowOf_of_new hnew]
    dsimp only
    rw [show log.table.free = log.free from rfl, ← ok.withRoom.2]
    unfold Table.claim
    rw [show log.withRoom.table.free = r :: rest from hfree]
    rfl
  rw [hclaim, Prod.mk.injEq] at htable
  rw [htable.1]
  exact ⟨rest, hfree, htable.2⟩

/-- Before the first round the row on top is the lowest free row, and its number is how many
rows are taken. -/
theorem WellFormed.lowest_of_inOrder (ok : log.WellFormed) (h : log.table.InOrder)
    (hnone : log.evictions = 0) (hfree : log.free = r :: rest) :
    log.unoccupied.min? = some r ∧ r = log.len := by
  obtain ⟨n, hn⟩ := h.early hnone
  change log.free = _ at hn
  rw [table_rows_length] at hn
  have hlength : log.free.length = log.capacity - n := by
    rw [hn, List.length_range']
  have hpos : 0 < log.free.length := by
    rw [hfree, List.length_cons]
    omega
  obtain ⟨m, hm⟩ := Nat.exists_eq_succ_of_ne_zero (by omega : log.capacity - n ≠ 0)
  have htop : r = n := by
    rw [hfree, hm, List.range'_succ, List.cons.injEq] at hn
    exact hn.1
  subst htop
  refine ⟨?_, ?_⟩
  · rw [List.min?_eq_some_iff]
    refine ⟨ok.mem_unoccupied.mpr (hfree ▸ List.mem_cons_self), fun s hs => ?_⟩
    rw [ok.mem_unoccupied, hn, List.mem_range'_1] at hs
    exact hs.1
  · unfold len
    omega

/-- From the first round on the row on top is the highest free row. -/
theorem WellFormed.highest_of_inOrder (ok : log.WellFormed) (h : log.table.InOrder)
    (hsome : 0 < log.evictions) (hfree : log.free = r :: rest) :
    log.unoccupied.max? = some r := by
  have hpairwise := h.late hsome
  change log.free.Pairwise (· > ·) at hpairwise
  rw [hfree, List.pairwise_cons] at hpairwise
  rw [List.max?_eq_some_iff]
  refine ⟨ok.mem_unoccupied.mpr (hfree ▸ List.mem_cons_self), fun s hs => ?_⟩
  rw [ok.mem_unoccupied, hfree] at hs
  rcases List.mem_cons.mp hs with rfl | hs
  · exact Nat.le_refl s
  · exact Nat.le_of_lt (hpairwise.1 s hs)

/-- The row of a new backtrace, as the free rows and whether there has been a round decide
it. -/
theorem WellFormed.row_of_new (ok : log.WellFormed) (h : log.table.InOrder)
    (hnew : log.weightOf frames = none) :
    (if log.withRoom.evictions = 0 then log.withRoom.unoccupied.min?
      else log.withRoom.unoccupied.max?) = some (log.lookupOrCreate frames).1 := by
  obtain ⟨rest, hfree, -⟩ := ok.lookupOrCreate_new hnew
  have horder := ok.inOrder_withRoom h
  by_cases hnone : log.withRoom.evictions = 0
  · rw [if_pos hnone]
    exact (ok.withRoom.1.lowest_of_inOrder horder hnone hfree).1
  · rw [if_neg hnone]
    exact ok.withRoom.1.highest_of_inOrder horder (Nat.pos_of_ne_zero hnone) hfree

/-- Whatever has happened to a log: a new backtrace takes the row whose number is how many rows
are taken, if there has been no round by then, and else the highest row that is without an entry
after the round that the new backtrace may have brought about.  The other rows stay as they
are.  So in two logs with the same rows without an entry, a new backtrace takes the same row, if
both of them or neither of them has been through a round. -/
theorem row_of_new_backtrace (hasher : Hasher) (capacity depth : Nat) (us : List Use)
    (frames : List FrameId) :
    let log := ((empty hasher capacity depth).uses us).2
    let r := (log.lookupOrCreate frames).1
    let after := (log.lookupOrCreate frames).2
    log.weightOf frames = none →
      (after.evictions = 0 → r = log.len)
      ∧ (0 < after.evictions → log.withRoom.unoccupied.max? = some r)
      ∧ after.evictions = log.withRoom.evictions
      ∧ after.entryAt r = some ⟨Backtrace.normalise log.depth frames, 0⟩
      ∧ (∀ s, s ≠ r → after.entryAt s = log.withRoom.entryAt s)
      ∧ ∀ hasher' capacity' depth' us' frames',
        let log' := ((empty hasher' capacity' depth').uses us').2
        log'.weightOf frames' = none →
        log'.withRoom.unoccupied = log.withRoom.unoccupied →
        (log'.withRoom.evictions = 0 ↔ log.withRoom.evictions = 0) →
        (log'.lookupOrCreate frames').1 = r := by
  intro log r after hnew
  have ok : log.WellFormed := wellFormed_uses hasher capacity depth us
  have horder : log.table.InOrder := inOrder_uses hasher capacity depth us
  obtain ⟨rest, hfree, htable⟩ := ok.lookupOrCreate_new hnew
  have hrounds : after.evictions = log.withRoom.evictions :=
    congrArg (fun t : Table => t.evictions) htable
  have hrow := ok.row_of_new horder hnew
  have hlt : r < log.withRoom.capacity := by
    have hmem := ok.withRoom.1.mem_free.mp (hfree ▸ List.mem_cons_self : r ∈ log.withRoom.free)
    obtain ⟨row, hget, -⟩ := hmem
    exact (Array.getElem?_eq_some_iff.mp hget).1
  have hentry := entryAt_of_put hlt (congrArg Table.toHistogram htable)
  refine ⟨fun hnone => ?_, fun hsome => ?_, hrounds, ?_, fun s hs => ?_, ?_⟩
  · rw [hrounds] at hnone
    have hroom := log.withRoom_of_evictions hnone
    rw [hroom] at hfree hnone
    exact (ok.lowest_of_inOrder horder hnone hfree).2
  · rw [if_neg (by omega)] at hrow
    exact hrow
  · rw [hentry, if_pos rfl]
  · rw [hentry, if_neg hs]
  · intro hasher' capacity' depth' us' frames' log' hnew' hsame hround
    have hrow' := (wellFormed_uses hasher' capacity' depth' us').row_of_new
      (inOrder_uses hasher' capacity' depth' us') hnew'
    change (if log'.withRoom.evictions = 0 then log'.withRoom.unoccupied.min?
      else log'.withRoom.unoccupied.max?) = some (log'.lookupOrCreate frames').1 at hrow'
    simp only [hsame, hround] at hrow'
    exact Option.some.inj (hrow'.symm.trans hrow)

/-- For instance, the third backtrace takes row two; and of two full logs with other backtraces
and weights, in each of which the round empties the rows zero and one, both put a new backtrace
into row one. -/
theorem row_of_new_backtrace_of_three :
    ∃ (few us us' : List Use) (log log' : BacktraceLog),
      few = us.take 2
      ∧ log = ((empty (HashFamily.mixing.hasher 0) 3 1).uses us).2
      ∧ log' = ((empty (HashFamily.mixing.hasher 1) 3 2).uses us').2
      ∧ ((empty (HashFamily.mixing.hasher 0) 3 1).uses few).2.weightOf [⟨9⟩] = none
      ∧ (((empty (HashFamily.mixing.hasher 0) 3 1).uses few).2.lookupOrCreate [⟨9⟩]).1 = 2
      ∧ log.weightOf [⟨9⟩] = none ∧ log'.weightOf [⟨1⟩] = none
      ∧ log.len = 3 ∧ 0 < (log.lookupOrCreate [⟨9⟩]).2.evictions
      ∧ log.withRoom.unoccupied = [0, 1] ∧ (log.lookupOrCreate [⟨9⟩]).1 = 1
      ∧ (log'.lookupOrCreate [⟨1⟩]).1 = (log.lookupOrCreate [⟨9⟩]).1 := by
  obtain ⟨us, hus⟩ : ∃ us : List Use, us = [(1, 4), (2, 6), (3, 7)].map fun (n, weight) =>
      Use.ask (.record (writing [⟨n⟩] none) (.ofNat weight)) := ⟨_, rfl⟩
  obtain ⟨us', hus'⟩ : ∃ us : List Use, us = [(5, 1), (6, 1), (8, 9)].map fun (n, weight) =>
      Use.ask (.record (writing [⟨n⟩] none) (.ofNat weight)) := ⟨_, rfl⟩
  have hfew : ((empty (HashFamily.mixing.hasher 0) 3 1).uses (us.take 2)).2.weightOf [⟨9⟩]
        = none
      ∧ (((empty (HashFamily.mixing.hasher 0) 3 1).uses (us.take 2)).2.lookupOrCreate
          [⟨9⟩]).2.evictions = 0
      ∧ ((empty (HashFamily.mixing.hasher 0) 3 1).uses (us.take 2)).2.len = 2 := by
    rw [hus]
    decide +kernel
  have hnew : ((empty (HashFamily.mixing.hasher 0) 3 1).uses us).2.weightOf [⟨9⟩] = none
      ∧ ((empty (HashFamily.mixing.hasher 0) 3 1).uses us).2.len = 3
      ∧ ((empty (HashFamily.mixing.hasher 0) 3 1).uses us).2.withRoom.unoccupied = [0, 1]
      ∧ (((empty (HashFamily.mixing.hasher 0) 3 1).uses us).2.lookupOrCreate
          [⟨9⟩]).2.evictions = 1
      ∧ ((empty (HashFamily.mixing.hasher 0) 3 1).uses us).2.withRoom.evictions = 1 := by
    rw [hus]
    decide +kernel
  have hnew' : ((empty (HashFamily.mixing.hasher 1) 3 2).uses us').2.weightOf [⟨1⟩] = none
      ∧ ((empty (HashFamily.mixing.hasher 1) 3 2).uses us').2.withRoom.unoccupied = [0, 1]
      ∧ ((empty (HashFamily.mixing.hasher 1) 3 2).uses us').2.withRoom.evictions = 1 := by
    rw [hus']
    decide +kernel
  obtain ⟨hnone, hlen, hrows, hround, hround'⟩ := hnew
  obtain ⟨hnone', hrows', hrounds'⟩ := hnew'
  have hearly := (row_of_new_backtrace (HashFamily.mixing.hasher 0) 3 1 (us.take 2) [⟨9⟩]
    hfew.1).1 hfew.2.1
  obtain ⟨-, hlate, -, -, -, hother⟩ :=
    row_of_new_backtrace (HashFamily.mixing.hasher 0) 3 1 us [⟨9⟩] hnone
  have hpos : 0 < (((empty (HashFamily.mixing.hasher 0) 3 1).uses us).2.lookupOrCreate
      [⟨9⟩]).2.evictions := by omega
  have htop := hlate hpos
  rw [hrows] at htop
  refine ⟨_, us, us', _, _, rfl, rfl, rfl, hfew.1, hearly.trans hfew.2.2, hnone, hnone', hlen,
    hpos, hrows, (Option.some.inj htop).symm, ?_⟩
  exact hother (HashFamily.mixing.hasher 1) 3 2 us' [⟨1⟩] hnone' (hrows'.trans hrows.symm)
    (by rw [hrounds', hround'])

end BacktraceLog

end SamplingProfiler
