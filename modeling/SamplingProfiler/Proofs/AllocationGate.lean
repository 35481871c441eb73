/-
The allocation gate loses no byte.

What was noted since the last report is pending.  A report carries all of it, with the
allocation that completes the interval, and leaves nothing behind.  So at any time the reports
and what is pending make up all that was noted (`Accounts.complete`), unless a sum was cut off
at the largest weight.

An allocation has one of two outcomes (`note_cases`), and either keeps the accounts.
-/
import Mathlib.Data.List.Infix
import SamplingProfiler.AllocationGate
import SamplingProfiler.Proofs.Weight

namespace SamplingProfiler

namespace AllocationGate

/-- An allocation that was noted, and what was reported then. -/
structure Note where
  size : Weight
  report : Option Weight
deriving DecidableEq

/-- Notes allocations one after the other. -/
def noteAll (gate : AllocationGate) : List Weight → List Note × AllocationGate
  | [] => ([], gate)
  | size :: rest =>
    (⟨size, (gate.note size).1⟩ :: ((gate.note size).2.noteAll rest).1,
      ((gate.note size).2.noteAll rest).2)

/-- The sizes that were noted since the last report. -/
def unreported (notes : List Note) : List Weight :=
  (notes.reverse.takeWhile (·.report.isNone)).reverse.map (·.size)

variable {gate : AllocationGate} {interval : Nat} {sizes : List Weight} {notes : List Note}

/-- An allocation is added to what is pending, or completes the interval. -/
theorem note_cases (h : gate.pending.val < gate.interval) (size : Weight) :
    (gate.pending + size).val < gate.interval
        ∧ gate.note size = (none, { gate with pending := gate.pending + size })
      ∨ gate.interval ≤ (gate.pending + size).val
        ∧ gate.note size = (some (gate.pending + size), { gate with pending := 0 }) := by
  have hinterval : gate.interval ≠ 0 := by omega
  unfold note
  rw [if_neg hinterval]
  by_cases hlt : (gate.pending + size).val < gate.interval
  · exact .inl ⟨hlt, if_pos hlt⟩
  · exact .inr ⟨Nat.le_of_not_lt hlt, if_neg hlt⟩

theorem noteAll_concat (gate : AllocationGate) (sizes : List Weight) (size : Weight) :
    gate.noteAll (sizes ++ [size])
      = ((gate.noteAll sizes).1 ++ [⟨size, ((gate.noteAll sizes).2.note size).1⟩],
        ((gate.noteAll sizes).2.note size).2) := by
  induction sizes generalizing gate with
  | nil => rfl
  | cons first rest ih =>
      rw [List.cons_append, noteAll, ih]
      rfl

@[simp] theorem unreported_concat_none (notes : List Note) (size : Weight) :
    unreported (notes ++ [⟨size, none⟩]) = unreported notes ++ [size] := by
  simp [unreported]

@[simp] theorem unreported_concat_some (notes : List Note) (size report : Weight) :
    unreported (notes ++ [⟨size, some report⟩]) = [] := by
  simp [unreported]

/-- What comes of noting allocations of these sizes at a gate that has noted nothing. -/
structure Accounts (interval : Nat) (sizes : List Weight) (notes : List Note)
    (gate : AllocationGate) : Prop where
  sizes_eq : notes.map (·.size) = sizes
  interval_eq : gate.interval = interval
  pending_lt : gate.pending.val < interval
  pending_eq : gate.pending = Weight.sum (unreported notes)
  /-- A report is the sum of what was noted since the report before it, and it is made as soon
  as that reaches the interval. -/
  report_iff : ∀ before note, before ++ [note] <+: notes → ∀ report,
    note.report = some report ↔
      report = Weight.sum (unreported before ++ [note.size]) ∧ interval ≤ report.val
  /-- Unless a sum is cut off, the reports and what is pending are all that was noted. -/
  complete : (∀ before note, before ++ [note] <+: notes →
      ((unreported before ++ [note.size]).map Weight.val).sum ≤ maxWord) →
    ((notes.filterMap (·.report)).map Weight.val).sum + gate.pending.val
      = (sizes.map Weight.val).sum

theorem accounts_closed (h : 0 < interval) : Accounts interval [] [] (closed interval) where
  sizes_eq := rfl
  interval_eq := rfl
  pending_lt := h
  pending_eq := rfl
  report_iff := by simp
  complete := fun _ => rfl

/-- Unless it is cut off, what is pending with a further allocation is the true sum. -/
private theorem Accounts.val_pending_add (h : Accounts interval sizes notes gate) {size : Weight}
    (hword : ((unreported notes ++ [size]).map Weight.val).sum ≤ maxWord) :
    (gate.pending + size).val = gate.pending.val + size.val := by
  have hpending := Weight.val_sum (unreported notes)
  rw [← h.pending_eq] at hpending
  simp only [List.map_append, List.map_cons, List.map_nil, List.sum_append, List.sum_cons,
    List.sum_nil] at hword
  rw [Weight.val_add]
  omega

/-- An allocation whose report is as it should be keeps the accounts. -/
private theorem Accounts.concat {gate' : AllocationGate} {size : Weight} {report? : Option Weight}
    (h : Accounts interval sizes notes gate)
    (hinterval : gate'.interval = interval) (hlt : gate'.pending.val < interval)
    (hpending : gate'.pending = Weight.sum (unreported (notes ++ [⟨size, report?⟩])))
    (hreport : ∀ report, report? = some report ↔
      report = gate.pending + size ∧ interval ≤ report.val)
    (hbytes : (gate.pending + size).val = gate.pending.val + size.val →
      (report?.toList.map Weight.val).sum + gate'.pending.val = gate.pending.val + size.val) :
    Accounts interval (sizes ++ [size]) (notes ++ [⟨size, report?⟩]) gate' where
  sizes_eq := by rw [List.map_append, h.sizes_eq]; rfl
  interval_eq := hinterval
  pending_lt := hlt
  pending_eq := hpending
  report_iff := by
    intro before other hinitial report
    rcases List.prefix_concat_iff.mp hinitial with hlast | hbefore
    · obtain ⟨rfl, hother⟩ := List.append_inj' hlast rfl
      obtain rfl := List.singleton_inj.mp hother
      rw [Weight.sum_concat, ← h.pending_eq]
      exact hreport report
    · exact h.report_iff before other hbefore report
  complete := by
    intro hwords
    have hold := h.complete fun before other hinitial =>
      hwords before other (hinitial.trans (List.prefix_append _ _))
    have hnew := hbytes (h.val_pending_add (hwords notes _ List.prefix_rfl))
    have hlast : [(⟨size, report?⟩ : Note)].filterMap (·.report) = report?.toList := by
      cases report? <;> rfl
    rw [List.filterMap_append, hlast]
    simp only [List.map_append, List.sum_append, List.map_cons, List.map_nil, List.sum_cons,
      List.sum_nil]
    omega

/-- Each allocation keeps the accounts. -/
theorem Accounts.note (h : Accounts interval sizes notes gate) (size : Weight) :
    Accounts interval (sizes ++ [size]) (notes ++ [⟨size, (gate.note size).1⟩])
      (gate.note size).2 := by
  have hinterval := h.interval_eq
  rcases note_cases (by rw [hinterval]; exact h.pending_lt) size with
    ⟨hshort, heq⟩ | ⟨hreached, heq⟩
  · rw [hinterval] at hshort
    rw [heq]
    dsimp only
    refine h.concat hinterval hshort ?_ (fun report => ⟨nofun, ?_⟩) fun hval => ?_
    · rw [unreported_concat_none, Weight.sum_concat, ← h.pending_eq]
    · rintro ⟨rfl, hle⟩
      exact absurd hshort (Nat.not_lt.mpr hle)
    · simp [hval]
  · rw [hinterval] at hreached
    rw [heq]
    dsimp only
    have hpos : 0 < interval := Nat.lt_of_le_of_lt (Nat.zero_le _) h.pending_lt
    refine h.concat hinterval hpos ?_ (fun report => ⟨?_, ?_⟩) fun hval => ?_
    · rw [unreported_concat_some]
      rfl
    · rintro ⟨⟩
      exact ⟨rfl, hreached⟩
    · rintro ⟨rfl, -⟩
      rfl
    · simpa using hval

/-- The accounts of all allocations, by induction on them. -/
theorem accounts_noteAll (h : 0 < interval) (sizes : List Weight) :
    Accounts interval sizes ((closed interval).noteAll sizes).1
      ((closed interval).noteAll sizes).2 := by
  induction sizes using List.reverseRecOn with
  | nil => exact accounts_closed h
  | append_singleton rest size ih =>
      rw [noteAll_concat]
      exact ih.note size

end AllocationGate

end SamplingProfiler
