/-
All that can happen to a log, and what can be seen of it.

A log is asked queries, and a source of backtraces may give up while it has the scratch row.
Whatever happens, the log answers as its table does (`WellFormed.uses`).  So nothing that the
table leaves out is ever seen: neither the hash function nor the links, and no weight that is
written to a row without an entry (`table_increment_of_none`).
-/
import SamplingProfiler.Proofs.Log.Credits
import SamplingProfiler.Proofs.Replies

namespace SamplingProfiler

/-- What can happen to a log. -/
inductive Use where
  | ask (query : Query)
  /-- A source that was to write into the scratch row gives up, and the row is lost. -/
  | abandon

namespace BacktraceLog

/-- What a log answers, and the log that is left.  A source that gives up leaves no answer. -/
def use (log : BacktraceLog) : Use → Option Answer × BacktraceLog
  | .ask query => (some (log.answer query).1, (log.answer query).2)
  | .abandon => (none, log.loseScratch)

def uses (log : BacktraceLog) (us : List Use) : List (Option Answer) × BacktraceLog :=
  replies use log us

end BacktraceLog

namespace Table

/-- What a table answers, and the table that is left. -/
def answer (t : Table) : Query → Answer × Table
  | .lookup frames => (.row (t.lookupOrCreate frames).1, (t.lookupOrCreate frames).2)
  | .increment r weight => (.done, t.increment r weight)
  | .record source weight => (.done, t.record source weight)
  | .weightOf frames => (.weightOf (t.weightOf frames), t)
  | .entries => (.entries t.entries, t)
  | .len => (.number t.len, t)
  | .totalWeight => (.total t.totalWeight, t)
  | .evictions => (.number t.evictions, t)

def use (t : Table) : Use → Option Answer × Table
  | .ask query => (some (t.answer query).1, (t.answer query).2)
  | .abandon => (none, { t with scratch := [] })

def uses (t : Table) (us : List Use) : List (Option Answer) × Table := replies use t us

end Table

namespace BacktraceLog

variable {log : BacktraceLog}

/-! ### Answers of the table -/

/-- A log answers a query as its table does. -/
theorem WellFormed.answer_eq (ok : log.WellFormed) (q : Query) :
    ((log.answer q).1, (log.answer q).2.table) = log.table.answer q := by
  cases q with
  | lookup frames =>
      have hlookup := (ok.lookupOrCreate frames).2
      show (Answer.row (log.lookupOrCreate frames).1, (log.lookupOrCreate frames).2.table)
        = (.row (log.table.lookupOrCreate frames).1, (log.table.lookupOrCreate frames).2)
      rw [← hlookup]
  | increment r weight =>
      show (Answer.done, (log.increment r weight).table) = (.done, log.table.increment r weight)
      rw [table_increment]
  | record source weight =>
      show (Answer.done, (log.record source weight).table) = (.done, log.table.record source weight)
      rw [(ok.record source weight).2]
  | weightOf frames =>
      show (Answer.weightOf (log.weightOf frames), log.table)
        = (.weightOf (log.histogram.weightOf frames), log.table)
      rw [ok.weightOf_eq]
  | entries =>
      show (Answer.entries log.entries, log.table) = (.entries log.histogram.entries, log.table)
      rw [entries_eq]
  | len =>
      show (Answer.number log.len, log.table) = (.number log.histogram.len, log.table)
      rw [ok.len_eq]
  | totalWeight =>
      show (Answer.total log.totalWeight, log.table)
        = (.total log.histogram.totalWeight, log.table)
      rw [totalWeight_eq]
  | evictions => rfl

theorem WellFormed.use (ok : log.WellFormed) (u : Use) :
    (log.use u).1 = (log.table.use u).1
      ∧ (log.use u).2.WellFormed ∧ (log.use u).2.table = (log.table.use u).2 := by
  cases u with
  | ask q =>
      have hanswer := ok.answer_eq q
      refine ⟨?_, (ok.answer q).1, congrArg Prod.snd hanswer⟩
      show some (log.answer q).1 = some (log.table.answer q).1
      rw [← hanswer]
  | abandon => exact ⟨rfl, ok.with_scratch [], rfl⟩

/-- Whatever happens to a log, it answers as its table does. -/
theorem WellFormed.uses (ok : log.WellFormed) (us : List Use) :
    (log.uses us).1 = (log.table.uses us).1
      ∧ (log.uses us).2.WellFormed ∧ (log.uses us).2.table = (log.table.uses us).2 := by
  refine replies_alike (fun (log : BacktraceLog) t => log.WellFormed ∧ log.table = t) ?_ ⟨ok, rfl⟩ us
  rintro log t ⟨ok, rfl⟩ u
  exact ok.use u

theorem wellFormed_uses (hasher : Hasher) (capacity depth : Nat) (us : List Use) :
    ((empty hasher capacity depth).uses us).2.WellFormed :=
  ((wellFormed_empty hasher capacity depth).uses us).2.1

/-- Logs with the same table are never told apart. -/
theorem WellFormed.uses_congr {log' : BacktraceLog} (ok : log.WellFormed) (ok' : log'.WellFormed)
    (htable : log.table = log'.table) (us : List Use) :
    (log.uses us).1 = (log'.uses us).1 ∧ (log.uses us).2.table = (log'.uses us).2.table := by
  obtain ⟨hanswers, -, hlast⟩ := ok.uses us
  obtain ⟨hanswers', -, hlast'⟩ := ok'.uses us
  rw [hanswers, hlast, hanswers', hlast', htable]
  exact ⟨rfl, rfl⟩

/-! ### Rows without an entry

A weight that is written to such a row has no place in the table.  The log that was written to and
the one that was not have the same table, and so they are never told apart.
-/

/-- Adding to the weight of a row without an entry does not show in the table. -/
theorem table_increment_of_none {r : Nat} (hnone : log.entryAt r = none) (weight : Weight) :
    (log.increment r weight).table = log.table := by
  have hrows : (log.histogram.increment r weight).rows = log.histogram.rows := by
    refine Histogram.rows_increment_of_none fun e he => ?_
    rw [entryAt_eq_some_iff.mpr he] at hnone
    cases hnone
  rw [table_increment]
  show Table.mk { log.histogram with rows := (log.histogram.increment r weight).rows } log.free = _
  rw [hrows]
  rfl

/-- If a row that a log does not have, or a row without an entry, is added to, the log answers
for ever as it would have answered without that, also when the row is taken later on and when
eviction rounds come. -/
theorem increment_unseen (hasher : Hasher) (capacity depth : Nat) (before : List Use) (r : Nat)
    (weight : Weight) :
    let log := ((empty hasher capacity depth).uses before).2
    log.capacity ≤ r ∨ log.entryAt r = none →
      ∀ later, ((log.increment r weight).uses later).1 = (log.uses later).1
        ∧ ((log.increment r weight).uses later).2.table = (log.uses later).2.table := by
  intro log hrow later
  have ok : log.WellFormed := wellFormed_uses hasher capacity depth before
  have hnone : log.entryAt r = none := by
    rcases hrow with hout | hnone
    · unfold entryAt
      rw [Array.getElem?_eq_none hout, Option.bind_none]
    · exact hnone
  exact (ok.increment r weight).uses_congr ok (table_increment_of_none hnone weight) later

/-- For instance, a row is added to before any backtrace has it; then it is taken, and a round
compares its weight with others. -/
theorem increment_unseen_of_free_row :
    ∃ (before later : List Use) (log : BacktraceLog),
      before = [.ask (.record (writing [⟨1⟩] none) (.ofNat 5))]
      ∧ log = ((empty (HashFamily.mixing.hasher 0) 2 1).uses before).2
      ∧ (log.capacity ≤ 1 ∨ log.entryAt 1 = none)
      ∧ (log.increment 1 (.ofNat 100)).rows[1]?.map (·.weight) = some (.ofNat 100)
      ∧ (log.uses later).2.evictions = 1
      ∧ (log.uses later).2.entries = [⟨[⟨1⟩], .ofNat 5⟩, ⟨[⟨3⟩], .ofNat 4⟩]
      ∧ ((log.increment 1 (.ofNat 100)).uses later).1 = (log.uses later).1 := by
  obtain ⟨before, hbefore⟩ : ∃ us : List Use,
      us = [.ask (.record (writing [⟨1⟩] none) (.ofNat 5))] := ⟨_, rfl⟩
  obtain ⟨later, hlater⟩ : ∃ us : List Use,
      us = [.ask (.record (writing [⟨2⟩] none) (.ofNat 3)), .ask .totalWeight,
        .ask (.record (writing [⟨3⟩] none) (.ofNat 4)), .ask .entries] := ⟨_, rfl⟩
  have hnone : ((empty (HashFamily.mixing.hasher 0) 2 1).uses before).2.entryAt 1 = none := by
    rw [hbefore]
    decide +kernel
  refine ⟨before, later, _, hbefore, rfl, .inr hnone, ?_, ?_, ?_, ?_⟩
  · rw [hbefore]
    decide +kernel
  · rw [hbefore, hlater]
    decide +kernel
  · rw [hbefore, hlater]
    decide +kernel
  · exact (increment_unseen (HashFamily.mixing.hasher 0) 2 1 before 1 (.ofNat 100) (.inr hnone)
      later).1

end BacktraceLog

end SamplingProfiler
