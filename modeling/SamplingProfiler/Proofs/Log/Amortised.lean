/-
How often a log goes through an eviction round.

A round costs a look at every row, so it must be rare.  It is, because every round empties
many rows: the line is an approximate median, and of `3 ^ k` weights at least `2 ^ k` are at
or below it, however they are arranged.  Each of those rows takes a new backtrace before
the next round.

The account is kept in empty rows.  A new backtrace uses one up, and only a round, which
comes when there are none, gives any back (`Histogram.Turnover`).  Along a run the rows that
all rounds but the last gave back have been used up again (`Histogram.Paid`).
-/
import SamplingProfiler.Proofs.Log.Reference
import Mathlib.Algebra.Order.Ring.Nat

namespace SamplingProfiler

namespace Histogram

/-- How many rows are empty. -/
def vacancies (h : Histogram) : Nat := h.rows.countP Option.isNone

/-! ### Empty rows

All that the account needs to know of a histogram is how many of its rows are empty.  A new entry
takes one away.  Only a round gives some back, and how many it gives back is the bound on ranks,
`pow_le_countP_approximateMedian`.
-/

theorem vacancies_empty (capacity depth : Nat) : (empty capacity depth).vacancies = capacity := by
  simp [vacancies, empty, List.countP_replicate]

theorem vacancies_eq_zero {h : Histogram} (hfull : none ∉ h.rows) : h.vacancies = 0 := by
  refine List.countP_eq_zero.mpr fun row hrow hnone => hfull ?_
  rw [← Option.isNone_iff_eq_none.mp hnone]
  exact hrow

/-- A new entry takes one of the empty rows. -/
theorem vacancies_put {h : Histogram} {r : Nat} (hrow : h.rows[r]? = some none)
    (key : List FrameId) : (h.put r key).vacancies + 1 = h.vacancies := by
  obtain ⟨hlt, hget⟩ := List.getElem?_eq_some_iff.mp hrow
  have hmem : none ∈ h.rows := List.mem_of_getElem? hrow
  have hpos : 0 < h.vacancies := List.countP_pos_iff.mpr ⟨none, hmem, rfl⟩
  have hput : (h.put r key).vacancies = h.vacancies - 1 := by
    unfold vacancies put
    rw [List.countP_set hlt, hget]
    simp
  omega

/-- Adding to a weight neither fills nor empties a row. -/
theorem vacancies_increment (h : Histogram) (r : Nat) (weight : Weight) :
    (h.increment r weight).vacancies = h.vacancies := by
  have hrows : (h.increment r weight).rows.map Option.isNone = h.rows.map Option.isNone := by
    apply List.ext_getElem?
    intro s
    unfold increment
    rw [List.getElem?_map, List.getElem?_map, List.getElem?_modify]
    by_cases hs : r = s
    · cases h.rows[s]? with
      | none => simp
      | some row => cases row <;> simp [hs]
    · cases h.rows[s]? <;> simp [hs]
  have hcount := congrArg (List.countP id) hrows
  rw [List.countP_map, List.countP_map] at hcount
  exact hcount

/-- An eviction round empties at least `2 ^ k` of `3 ^ k` rows. -/
theorem pow_le_vacancies_evict {h : Histogram} {k : Nat} (hfull : none ∉ h.rows)
    (hk : 3 ^ k ≤ h.rows.length) : 2 ^ k ≤ h.evict.vacancies := by
  have hlength : h.entries.length = h.rows.length := by
    unfold entries
    rw [List.length_filterMap_eq_countP, List.countP_eq_length]
    intro row hrow
    cases row with
    | none => exact absurd hrow hfull
    | some e => rfl
  have hlight := pow_le_countP_approximateMedian k (h.entries.map (·.weight.val))
    (by rw [List.length_map, hlength]; exact hk)
  rw [List.countP_map] at hlight
  refine Nat.le_trans hlight ?_
  unfold vacancies evict entries
  rw [List.countP_filterMap, List.countP_map]
  refine List.countP_mono_left fun row _ hrow => ?_
  cases row with
  | none => rfl
  | some e =>
      have hle : e.weight.val ≤ h.line := of_decide_eq_true hrow
      simp [spare, Nat.not_lt.mpr hle]

/-! ### One query

A query creates one entry at most, and a round comes only with a new entry.  `Turnover` has what is
left of the cases of a look-up when only empty rows and rounds are counted.
-/

/-- What a query that creates so many entries does to the empty rows of a histogram. -/
inductive Turnover (k : Nat) (h : Histogram) : Nat → Histogram → Prop where
  /-- New entries take empty rows. -/
  | used {created : Nat} {h' : Histogram} (hround : h'.evictions = h.evictions)
      (hrows : created + h'.vacancies = h.vacancies) : Turnover k h created h'
  /-- There was none, and after a round the new entry takes one of those it emptied. -/
  | renewed {h' : Histogram} (hround : h'.evictions = h.evictions + 1) (hfull : h.vacancies = 0)
      (hrows : 2 ^ k ≤ h'.vacancies + 1) : Turnover k h 1 h'

theorem Turnover.of_eq {k : Nat} {h h' : Histogram} (hevictions : h'.evictions = h.evictions)
    (hvacancies : h'.vacancies = h.vacancies) : Turnover k h 0 h' :=
  .used hevictions (by rw [hvacancies, Nat.zero_add])

/-- What is not about rows or rounds makes no difference. -/
theorem Turnover.congr {k created : Nat} {h h' h'' : Histogram} (ht : Turnover k h created h')
    (hevictions : h''.evictions = h'.evictions) (hvacancies : h''.vacancies = h'.vacancies) :
    Turnover k h created h'' := by
  cases ht with
  | used hround hrows => exact .used (hevictions.trans hround) (by rw [hvacancies]; exact hrows)
  | renewed hround hfull hrows =>
      exact .renewed (hevictions.trans hround) hfull (by rw [hvacancies]; exact hrows)

/-- Looking up a backtrace creates an entry if there is none with it. -/
theorem Lookup.turnover {k : Nat} {h h' : Histogram} {key : List FrameId} {r : Nat}
    (hl : h.Lookup key r h') (hk : 3 ^ k ≤ h.rows.length) :
    (¬ h.Lacks key ∧ Turnover k h 0 h') ∨ (h.Lacks key ∧ Turnover k h 1 h') := by
  cases hl with
  | @present weight hrow =>
      refine .inl ⟨fun hnew => ?_, .of_eq rfl rfl⟩
      have hentry : (⟨key, weight⟩ : Entry) ∈ h.entries :=
        mem_entries.mpr ⟨_, hrow⟩
      exact hnew _ hentry rfl
  | vacant hnew hrow =>
      refine .inr ⟨hnew, .used rfl ?_⟩
      rw [Nat.add_comm]
      exact vacancies_put hrow key
  | full hnew hfull hrow =>
      refine .inr ⟨hnew, .renewed rfl (vacancies_eq_zero hfull) ?_⟩
      rw [vacancies_put hrow key]
      exact pow_le_vacancies_evict hfull hk

end Histogram

namespace BacktraceLog

variable {log : BacktraceLog}

/-- How many entries a query creates: one, if it looks up a backtrace that has none. -/
def creates (log : BacktraceLog) : Query → Nat
  | .lookup frames => if log.weightOf frames = none then 1 else 0
  | .record source _ => if log.weightOf (log.written source) = none then 1 else 0
  | _ => 0

/-- How many entries queries create, one after the other. -/
def created (log : BacktraceLog) : List Query → Nat
  | [] => 0
  | q :: rest => log.creates q + (log.answer q).2.created rest

/-- A backtrace has no weight if no entry has it. -/
theorem WellFormed.weightOf_eq_none_iff (ok : log.WellFormed) (frames : List FrameId) :
    log.weightOf frames = none ↔
      log.histogram.Lacks (Backtrace.normalise log.depth frames) := by
  rw [ok.weightOf_eq]
  unfold Histogram.weightOf Histogram.Lacks
  rw [Option.map_eq_none_iff, List.find?_eq_none]
  simp only [decide_eq_true_eq]
  exact Iff.rfl

theorem WellFormed.turnover_lookup (ok : log.WellFormed) {k : Nat} (hk : 3 ^ k ≤ log.capacity)
    (frames : List FrameId) :
    log.histogram.Turnover k (if log.weightOf frames = none then 1 else 0)
      (log.lookupOrCreate frames).2.histogram := by
  rcases (ok.lookup frames).turnover (k := k) (by rw [← table_rows_length] at hk; exact hk) with
    ⟨hhas, hturn⟩ | ⟨hlacks, hturn⟩
  · rw [if_neg fun hnone => hhas ((ok.weightOf_eq_none_iff frames).mp hnone)]
    exact hturn
  · rw [if_pos ((ok.weightOf_eq_none_iff frames).mpr hlacks)]
    exact hturn

/-- Every query creates entries in empty rows, or in one that a round has emptied. -/
theorem WellFormed.turnover (ok : log.WellFormed) {k : Nat} (hk : 3 ^ k ≤ log.capacity)
    (q : Query) : log.histogram.Turnover k (log.creates q) (log.answer q).2.histogram := by
  cases q with
  | lookup frames => exact ok.turnover_lookup hk frames
  | increment r weight =>
      have hincrement := histogram_increment log r weight
      refine .of_eq (congrArg (·.evictions) hincrement) ?_
      show (log.increment r weight).histogram.vacancies = _
      rw [hincrement, Histogram.vacancies_increment]
  | record source weight =>
      have hrecord := histogram_record log source weight
      refine (ok.turnover_lookup hk (log.written source)).congr
        (congrArg (·.evictions) hrecord) ?_
      show (log.record source weight).histogram.vacancies = _
      rw [hrecord]
      exact Histogram.vacancies_increment _ _ _
  | weightOf frames => exact .of_eq rfl rfl
  | entries => exact .of_eq rfl rfl
  | len => exact .of_eq rfl rfl
  | totalWeight => exact .of_eq rfl rfl
  | evictions => exact .of_eq rfl rfl

/-! ### Runs -/

/-- Rounds are counted, and while there is none new entries only use up empty rows. -/
theorem WellFormed.vacancies_of_no_round (ok : log.WellFormed) {k : Nat}
    (hk : 3 ^ k ≤ log.capacity) (qs : List Query) :
    log.evictions ≤ (log.answers qs).2.evictions ∧
      ((log.answers qs).2.evictions = log.evictions →
        log.created qs + (log.answers qs).2.histogram.vacancies = log.histogram.vacancies) := by
  induction qs generalizing log with
  | nil => exact ⟨Nat.le_refl _, fun _ => Nat.zero_add _⟩
  | cons q rest ih =>
      obtain ⟨hle, hrest⟩ := ih (ok.answer q).1 (by rw [ok.capacity_answer]; exact hk)
      have hturn := ok.turnover hk q
      rw [answers_cons, created]
      generalize log.creates q = n at hturn ⊢
      cases hturn with
      | used hround hrows =>
          change (log.answer q).2.evictions = log.evictions at hround
          refine ⟨by omega, fun hnone => ?_⟩
          have := hrest (hnone.trans hround.symm)
          omega
      | renewed hround hfull hrows =>
          change (log.answer q).2.evictions = log.evictions + 1 at hround
          exact ⟨by omega, fun hnone => absurd hnone (by omega)⟩

end BacktraceLog

namespace Histogram

/-- So many entries have been created since the histogram was empty: before the first round
they fill the rows that are not empty, and later they fill, besides all rows, what every
round but the last has emptied. -/
structure Paid (k capacity created : Nat) (h : Histogram) : Prop where
  unspent : h.evictions = 0 → created + h.vacancies = capacity
  spent : 0 < h.evictions → capacity + (h.evictions - 1) * 2 ^ k < created
  left : 0 < h.evictions → capacity + h.evictions * 2 ^ k ≤ created + h.vacancies

theorem Paid.turnover {k capacity created more : Nat} {h h' : Histogram}
    (hp : Paid k capacity created h) (ht : Turnover k h more h') :
    Paid k capacity (created + more) h' := by
  cases ht with
  | used hround hrows =>
      refine ⟨fun hnone => ?_, fun hsome => ?_, fun hsome => ?_⟩
      · have := hp.unspent (hround ▸ hnone)
        omega
      · have := hp.spent (hround ▸ hsome)
        rw [hround]
        omega
      · have := hp.left (hround ▸ hsome)
        rw [hround]
        omega
  | renewed hround hfull hrows =>
      -- Nothing was left, so what the rounds before have emptied is used up.
      have hused : capacity + h.evictions * 2 ^ k ≤ created := by
        rcases Nat.eq_zero_or_pos h.evictions with hzero | hpos
        · have := hp.unspent hzero
          rw [hzero, Nat.zero_mul]
          omega
        · have := hp.left hpos
          omega
      refine ⟨fun hnone => absurd hnone (by omega), fun _ => ?_, fun _ => ?_⟩
      · rw [hround, Nat.add_sub_cancel]
        omega
      · rw [hround, Nat.add_mul, Nat.one_mul]
        omega

end Histogram

namespace BacktraceLog

variable {log : BacktraceLog}

theorem WellFormed.paid (ok : log.WellFormed) {k capacity created : Nat}
    (hk : 3 ^ k ≤ log.capacity) (hp : log.histogram.Paid k capacity created) (qs : List Query) :
    (log.answers qs).2.histogram.Paid k capacity (created + log.created qs) := by
  induction qs generalizing log created with
  | nil => exact hp
  | cons q rest ih =>
      have hrest := ih (ok.answer q).1 (by rw [ok.capacity_answer]; exact hk)
        (hp.turnover (ok.turnover hk q))
      rw [Nat.add_assoc] at hrest
      exact hrest

/-- From one round to the next, at least `2 ^ k` entries are created. -/
theorem WellFormed.pow_le_created (ok : log.WellFormed) {k : Nat} (hk : 3 ^ k ≤ log.capacity)
    (q : Query) (others : List Query) (next : Query) (last : BacktraceLog)
    (hlast : (log.answers (q :: others)).2 = last)
    (hfirst : (log.answer q).2.evictions = log.evictions + 1)
    (hbetween : last.evictions = log.evictions + 1)
    (hnext : (last.answer next).2.evictions = last.evictions + 1) :
    2 ^ k ≤ log.created (q :: others) := by
  have hok := (ok.answer q).1
  have hk' : 3 ^ k ≤ (log.answer q).2.capacity := by rw [ok.capacity_answer]; exact hk
  have hquiet := (hok.vacancies_of_no_round hk' others).2
  rw [answers_cons] at hlast
  rw [hlast] at hquiet
  have hused := hquiet (hbetween.trans hfirst.symm)
  have hend : last.histogram.vacancies = 0 := by
    have hok' : last.WellFormed := hlast ▸ (hok.answers others).1
    have hk'' : 3 ^ k ≤ last.capacity := by rw [← hlast, hok.capacity_answers]; exact hk'
    have hturn := hok'.turnover hk'' next
    generalize last.creates next = n at hturn
    cases hturn with
    | used hround => exact absurd (hround.symm.trans hnext) (Nat.succ_ne_self _).symm
    | renewed _ hfull => exact hfull
  have hturn := ok.turnover hk q
  rw [created]
  generalize log.creates q = n at hturn ⊢
  cases hturn with
  | used hround => exact absurd (hround.symm.trans hfirst) (Nat.succ_ne_self _).symm
  | renewed hround hfull hrows => omega

/-- Of a log with at least `3 ^ k` rows, whatever it is asked: there is no eviction round
until more entries are created than there are rows, and from then on every round but the
last has been paid for by at least `2 ^ k` further ones; in particular that many are created
from one round to the next. -/
theorem evictions_amortised (hasher : Hasher) (capacity depth k : Nat)
    (hk : 3 ^ k ≤ (empty hasher capacity depth).capacity) (qs : List Query) :
    let log := empty hasher capacity depth
    let n := log.created qs
    let e := (log.answers qs).2.evictions
    (n ≤ log.capacity → e = 0)
    ∧ (log.capacity < n → 1 ≤ e ∧ (e - 1) * 2 ^ k < n - log.capacity)
    ∧ ∀ before q others next,
      let first := (log.answers before).2
      let last := (first.answers (q :: others)).2
      (first.answer q).2.evictions = first.evictions + 1 →
      last.evictions = first.evictions + 1 →
      (last.answer next).2.evictions = last.evictions + 1 →
      2 ^ k ≤ first.created (q :: others) := by
  intro log n e
  have ok : log.WellFormed := wellFormed_empty hasher capacity depth
  have hstart : log.histogram.Paid k log.capacity 0 := by
    have hempty : log.histogram = .empty (rowsFor capacity) (depthFor depth) :=
      congrArg Table.toHistogram (table_empty hasher capacity depth)
    have hcapacity : log.capacity = rowsFor capacity := Array.size_replicate
    rw [hempty, hcapacity]
    refine ⟨fun _ => ?_, fun h => absurd h (Nat.lt_irrefl 0), fun h => absurd h (Nat.lt_irrefl 0)⟩
    rw [Nat.zero_add, Histogram.vacancies_empty]
  obtain ⟨hunspent, hspent, -⟩ := ok.paid hk hstart qs
  rw [Nat.zero_add] at hunspent hspent
  change e = 0 → n + _ = log.capacity at hunspent
  change 0 < e → log.capacity + (e - 1) * 2 ^ k < n at hspent
  refine ⟨fun hfew => ?_, fun hmany => ?_, fun before q others next hfirst hbetween hnext => ?_⟩
  · rcases Nat.eq_zero_or_pos e with hzero | hpos
    · exact hzero
    · have := hspent hpos
      omega
  · rcases Nat.eq_zero_or_pos e with hzero | hpos
    · have := hunspent hzero
      omega
    · have := hspent hpos
      exact ⟨hpos, by omega⟩
  · exact (ok.answers before).1.pow_le_created (by rw [ok.capacity_answers]; exact hk) q others
      next _ rfl hfirst hbetween hnext

/-- For instance a log of three rows goes through two rounds while it takes in seven
backtraces. -/
theorem evictions_amortised_of_seven :
    ∃ (log : BacktraceLog) (qs : List Query), log = empty (HashFamily.mixing.hasher 0) 3 1
      ∧ 3 ^ 1 ≤ log.capacity ∧ log.capacity = 3 ∧ log.created qs = 7
      ∧ (log.answers qs).2.evictions = 2 ∧ 1 ≤ (log.answers qs).2.evictions
      ∧ ((log.answers qs).2.evictions - 1) * 2 ^ 1 < log.created qs - log.capacity := by
  obtain ⟨qs, hqs⟩ : ∃ qs : List Query,
      qs = [1, 2, 3, 4, 5, 6, 7].map fun n => Query.lookup [⟨n⟩] := ⟨_, rfl⟩
  have hcapacity : (empty (HashFamily.mixing.hasher 0) 3 1).capacity = 3 := Array.size_replicate
  have hk : 3 ^ 1 ≤ (empty (HashFamily.mixing.hasher 0) 3 1).capacity :=
    Nat.le_of_eq hcapacity.symm
  have hcreated : (empty (HashFamily.mixing.hasher 0) 3 1).created qs = 7 := by
    rw [hqs]
    decide +kernel
  have hrounds : ((empty (HashFamily.mixing.hasher 0) 3 1).answers qs).2.evictions = 2 := by
    rw [hqs]
    decide +kernel
  obtain ⟨hone, hpaid⟩ := (evictions_amortised _ 3 1 1 hk qs).2.1
    (by rw [hcapacity, hcreated]; decide)
  exact ⟨_, qs, rfl, hk, hcapacity, hcreated, hrounds, hone, hpaid⟩

end BacktraceLog

end SamplingProfiler
