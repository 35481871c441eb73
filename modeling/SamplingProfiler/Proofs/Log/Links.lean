/-
Rows that link to one another.

`Linked rows start l` says that following links from `start` visits exactly the rows `l`,
in this order, and then stops.  The two walks of the log are read off it: `seek` finds
the first visited row with a backtrace, and `linkTo` finds the row in front of a visited
one.  Neither runs out of steps, because a walk that visits no row twice is no longer than
the array.

`Threaded rows index members` says that the walk from the index at a hash visits exactly
the rows that `members` names for this hash.  A row belongs to one hash only, so taking a
row out of its walk leaves the walks of all other hashes alone.
-/
import SamplingProfiler.Log.Basic
import Mathlib.Data.List.Nodup
import Mathlib.Data.List.Perm.Subperm
import Mathlib.Tactic.Tauto

namespace SamplingProfiler

/-- Following links from a start visits exactly these rows. -/
inductive Linked (rows : Array Row) : Option Nat → List Nat → Prop
  | stop : Linked rows none []
  | visit {r : Nat} {row : Row} {l : List Nat} (hrow : rows[r]? = some row)
      (hrest : Linked rows row.next l) : Linked rows (some r) (r :: l)

namespace Linked

variable {rows rows' : Array Row} {start : Option Nat} {l : List Nat}

/-- A walk visits rows of the array only. -/
theorem lt_size (h : Linked rows start l) : ∀ r ∈ l, r < rows.size := by
  induction h with
  | stop => simp
  | visit hrow _ ih =>
      intro r hr
      rcases List.mem_cons.mp hr with rfl | hr
      · exact (Array.getElem?_eq_some_iff.mp hrow).1
      · exact ih r hr

/-- A walk that visits no row twice is no longer than the array. -/
theorem length_le (h : Linked rows start l) (hnodup : l.Nodup) : l.length ≤ rows.size := by
  have hsub : l ⊆ List.range rows.size := fun r hr => List.mem_range.mpr (h.lt_size r hr)
  simpa using (hnodup.subperm hsub).length_le

/-- A walk that visits no row twice has fewer rows in front of a visited one than there are. -/
theorem length_lt {pre post : List Nat} {r : Nat} (h : Linked rows start (pre ++ r :: post))
    (hnodup : (pre ++ r :: post).Nodup) : pre.length < rows.size := by
  have hle := h.length_le hnodup
  rw [List.length_append, List.length_cons] at hle
  omega

/-- A walk only depends on the links of the rows it visits. -/
theorem congr (h : Linked rows start l)
    (hnext : ∀ r ∈ l, rows'[r]?.map Row.next = rows[r]?.map Row.next) : Linked rows' start l := by
  induction h with
  | stop => exact .stop
  | @visit r row l hrow _ ih =>
      have hr := hnext r List.mem_cons_self
      rw [hrow] at hr
      obtain ⟨row', hrow', heq⟩ := Option.map_eq_some_iff.mp hr
      refine .visit hrow' ?_
      rw [heq]
      exact ih fun s hs => hnext s (List.mem_cons_of_mem r hs)

/-- What a walk that visits a row first looks like. -/
theorem cons_iff {r : Nat} :
    Linked rows start (r :: l) ↔ start = some r ∧ ∃ row, rows[r]? = some row ∧
      Linked rows row.next l := by
  constructor
  · intro h
    cases h with
    | visit hrow hrest => exact ⟨rfl, _, hrow, hrest⟩
  · rintro ⟨rfl, row, hrow, hrest⟩
    exact .visit hrow hrest

/-- The row that a visited row links to is visited next. -/
theorem exists_next {r s : Nat} {row : Row} (h : Linked rows start l) (hr : r ∈ l)
    (hrow : rows[r]? = some row) (hnext : row.next = some s) :
    ∃ pre post, l = pre ++ r :: s :: post := by
  induction h with
  | stop => cases hr
  | @visit first firstRow l hfirst hrest ih =>
      by_cases heq : r = first
      · subst heq
        obtain rfl : row = firstRow := Option.some.inj (hrow.symm.trans hfirst)
        rw [hnext] at hrest
        cases hrest with
        | visit => exact ⟨[], _, rfl⟩
      · obtain ⟨pre, post, rfl⟩ := ih ((List.mem_cons.mp hr).resolve_left heq)
        exact ⟨first :: pre, post, rfl⟩

/-- Linking a visited row past the one behind it takes that one out of the walk. -/
theorem bypass {pre post : List Nat} {before r : Nat} {row : Row}
    (h : Linked rows start (pre ++ before :: r :: post)) (hrow : rows[r]? = some row)
    (hnodup : (pre ++ before :: r :: post).Nodup) :
    Linked (rows.modify before fun q => { q with next := row.next }) start
      (pre ++ before :: post) := by
  induction pre generalizing start with
  | nil =>
      obtain ⟨rfl, q, hq, hrest⟩ := cons_iff.mp h
      obtain ⟨-, row', hrow', hpost⟩ := cons_iff.mp hrest
      obtain rfl : row = row' := Option.some.inj (hrow.symm.trans hrow')
      have hb : (rows.modify before fun q => { q with next := row.next })[before]?
          = some { q with next := row.next } := by
        rw [Array.getElem?_modify, if_pos rfl, hq]
        rfl
      refine .visit hb (hpost.congr fun s hs => ?_)
      have hne : before ≠ s := by
        rintro rfl
        simp [hs] at hnodup
      rw [Array.getElem?_modify, if_neg hne]
  | cons s pre ih =>
      obtain ⟨rfl, q, hq, hrest⟩ := cons_iff.mp h
      rw [List.cons_append, List.nodup_cons] at hnodup
      have hne : before ≠ s := by
        rintro rfl
        exact hnodup.1 (by simp)
      have hs : (rows.modify before fun q => { q with next := row.next })[s]? = some q := by
        rw [Array.getElem?_modify, if_neg hne, hq]
      exact .visit hs (ih hrest hnodup.2)

end Linked

namespace BacktraceLog

variable {rows : Array Row}

/-! ### What the two walks find -/

/-- Seeking a backtrace finds the first visited row that has it. -/
theorem seek_eq_find? {key : List FrameId} {start : Option Nat} {l : List Nat}
    (h : Linked rows start l) (steps : Nat) (hsteps : l.length ≤ steps) :
    seek rows key steps start = l.find? fun r => rows[r]?.any (·.frames = key) := by
  induction h generalizing steps with
  | stop => cases steps <;> rfl
  | @visit r row l hrow _ ih =>
      match steps with
      | 0 => simp at hsteps
      | steps + 1 =>
          rw [seek, List.find?_cons, hrow]
          by_cases hkey : row.frames = key
          · simp [hkey]
          · simp only [hkey, if_false, Option.any_some, decide_false]
            exact ih steps (by simpa using hsteps)

/-- Looking for the row in front of a visited one finds it. -/
theorem linkTo_eq {pre post : List Nat} {head before r : Nat}
    (h : Linked rows (some head) (pre ++ before :: r :: post))
    (hnodup : (pre ++ before :: r :: post).Nodup) (steps : Nat) (hsteps : pre.length < steps) :
    linkTo rows r steps head = some before := by
  induction pre generalizing head steps with
  | nil =>
      obtain ⟨heq, q, hq, hrest⟩ := Linked.cons_iff.mp h
      obtain rfl := Option.some.inj heq
      obtain ⟨hnext, -⟩ := Linked.cons_iff.mp hrest
      match steps with
      | steps + 1 => simp [linkTo, hq, hnext]
  | cons s pre ih =>
      obtain ⟨heq, q, hq, hrest⟩ := Linked.cons_iff.mp h
      obtain rfl := Option.some.inj heq
      rw [List.cons_append, List.nodup_cons] at hnodup
      -- The row behind `head` comes before `r`, so it is not `r` itself.
      obtain ⟨t, ht, hne⟩ : ∃ t, q.next = some t ∧ t ≠ r := by
        cases pre with
        | nil =>
            obtain ⟨hnext, -⟩ := Linked.cons_iff.mp hrest
            exact ⟨before, hnext, by rintro rfl; simp at hnodup⟩
        | cons t pre =>
            obtain ⟨hnext, -⟩ := Linked.cons_iff.mp hrest
            exact ⟨t, hnext, by rintro rfl; simp at hnodup⟩
      match steps with
      | steps + 1 =>
          have hb : (rows[head]?.bind Row.next) = some t := by rw [hq, Option.bind_some, ht]
          rw [linkTo, hb]
          simp only [hne, if_false]
          exact ih (ht ▸ hrest) hnodup.2 steps (by simpa using hsteps)

/-- The row that is found in front of another links to it. -/
theorem next_of_linkTo {target steps r before : Nat}
    (h : linkTo rows target steps r = some before) :
    rows[before]?.bind Row.next = some target := by
  induction steps generalizing r with
  | zero => cases h
  | succ steps ih =>
      rw [linkTo] at h
      cases hnext : rows[r]?.bind Row.next with
      | none =>
          rw [hnext] at h
          cases h
      | some next =>
          rw [hnext] at h
          by_cases htarget : next = target
          · obtain rfl : r = before := by simpa [htarget] using h
            rw [hnext, htarget]
          · exact ih (by simpa [htarget] using h)

/-! ### The walks from the index -/

/-- From the index at each hash, exactly the rows named for this hash are visited, and no
row twice. -/
def Threaded (rows : Array Row) (index : Std.TreeMap UInt64 Nat)
    (members : UInt64 → Nat → Prop) : Prop :=
  ∀ h, ∃ l, Linked rows index[h]? l ∧ l.Nodup ∧ ∀ r, r ∈ l ↔ members h r

namespace Threaded

variable {index : Std.TreeMap UInt64 Nat} {members : UInt64 → Nat → Prop}

/-- Only which rows are named matters. -/
theorem congr (h : Threaded rows index members) {members' : UInt64 → Nat → Prop}
    (heq : ∀ hash r, members hash r ↔ members' hash r) : Threaded rows index members' := by
  intro hash
  obtain ⟨l, hl, hnodup, hmem⟩ := h hash
  exact ⟨l, hl, hnodup, fun r => (hmem r).trans (heq hash r)⟩

/-- Writing to a row that no walk visits changes no walk. -/
theorem set (h : Threaded rows index members) {r : Nat} (hr : ∀ hash, ¬ members hash r)
    (row : Row) : Threaded (rows.setIfInBounds r row) index members := by
  intro hash
  obtain ⟨l, hl, hnodup, hmem⟩ := h hash
  refine ⟨l, hl.congr fun s hs => ?_, hnodup, hmem⟩
  have hne : r ≠ s := by
    rintro rfl
    exact hr hash ((hmem r).mp hs)
  rw [Array.getElem?_setIfInBounds_ne hne]

/-- A row written in front of the walk at its hash joins this walk and no other. -/
theorem push (h : Threaded rows index members) {r : Nat} (hr : ∀ hash, ¬ members hash r)
    (hlt : r < rows.size) {row : Row} {hash : UInt64} (hnext : row.next = index[hash]?) :
    Threaded (rows.setIfInBounds r row) (index.insert hash r)
      (fun h' s => members h' s ∨ (h' = hash ∧ s = r)) := by
  intro h'
  obtain ⟨l, hl, hnodup, hmem⟩ := h.set hr row h'
  by_cases heq : hash = h'
  · subst heq
    refine ⟨r :: l, ?_, ?_, ?_⟩
    · rw [Std.TreeMap.getElem?_insert_self]
      have hrow : (rows.setIfInBounds r row)[r]? = some row :=
        Array.getElem?_setIfInBounds_self_of_lt hlt
      exact .visit hrow (hnext ▸ hl)
    · exact List.nodup_cons.mpr ⟨fun hs => hr hash ((hmem r).mp hs), hnodup⟩
    · intro s
      rw [List.mem_cons, hmem s]
      tauto
  · refine ⟨l, ?_, hnodup, ?_⟩
    · rw [Std.TreeMap.getElem?_insert]
      simpa [heq] using hl
    · intro s
      rw [hmem s]
      have : h' ≠ hash := fun hc => heq hc.symm
      tauto

end Threaded

/-! ### Taking a row out

A row to be taken out is the first on its walk or has one in front of it.  In the first case the
index changes and no row does.  In the second one row changes and the index does not.
-/

variable {log : BacktraceLog} {members : UInt64 → Nat → Prop}

/-- Unlinking the first row of a walk makes the index start behind it. -/
private theorem unlink_first {r : Nat} {row : Row} (hhead : log.index[row.hash]? = some r) :
    (log.unlink r row).rows = log.rows ∧
      (log.unlink r row).index[row.hash]? = row.next ∧
      ∀ h, h ≠ row.hash → (log.unlink r row).index[h]? = log.index[h]? := by
  unfold unlink
  simp only [hhead, if_true]
  cases hnext : row.next with
  | none =>
      refine ⟨rfl, by simp, fun h hne => ?_⟩
      simp [Std.TreeMap.getElem?_erase, hne.symm]
  | some next =>
      refine ⟨rfl, by simp, fun h hne => ?_⟩
      simp [Std.TreeMap.getElem?_insert, hne.symm]

/-- Unlinking another row of a walk links the row in front of it to the one behind it. -/
private theorem unlink_inner {pre post : List Nat} {before r : Nat} {row : Row}
    (hl : Linked log.rows log.index[row.hash]? (pre ++ before :: r :: post))
    (hnodup : (pre ++ before :: r :: post).Nodup) :
    log.unlink r row
      = { log with rows := log.rows.modify before fun q => { q with next := row.next } } := by
  obtain ⟨head, hhead, hne⟩ : ∃ head, log.index[row.hash]? = some head ∧ head ≠ r := by
    cases pre with
    | nil =>
        obtain ⟨hs, -⟩ := Linked.cons_iff.mp hl
        exact ⟨before, hs, by rintro rfl; simp at hnodup⟩
    | cons t pre =>
        obtain ⟨hs, -⟩ := Linked.cons_iff.mp hl
        exact ⟨t, hs, by rintro rfl; simp at hnodup⟩
  have hlen : pre.length < log.capacity := hl.length_lt hnodup
  rw [hhead] at hl
  unfold unlink
  simp only [hhead, hne, if_false, linkTo_eq hl hnodup log.capacity hlen]

/-- Unlinking a row takes it out of its walk and leaves all other walks alone. -/
theorem threaded_unlink (h : Threaded log.rows log.index members) {r : Nat} {row : Row}
    (hrow : log.rows[r]? = some row) (hr : members row.hash r)
    (hunique : ∀ h₁ h₂ s, members h₁ s → members h₂ s → h₁ = h₂) :
    Threaded (log.unlink r row).rows (log.unlink r row).index
      (fun hash s => members hash s ∧ s ≠ r) := by
  -- the walks at other hashes do not visit the row
  have hother : ∀ hash, hash ≠ row.hash → ∀ s, members hash s → s ≠ r := by
    intro hash hne s hs heq
    rw [heq] at hs
    exact hne (hunique _ _ _ hs hr)
  obtain ⟨l, hl, hnodup, hmem⟩ := h row.hash
  obtain ⟨pre, post, rfl⟩ := List.append_of_mem ((hmem r).mpr hr)
  rcases List.eq_nil_or_concat' pre with rfl | ⟨pre, before, rfl⟩
  · obtain ⟨hhead, row', hrow', hpost⟩ := Linked.cons_iff.mp hl
    obtain rfl : row = row' := Option.some.inj (hrow.symm.trans hrow')
    obtain ⟨hrows, hindex, hothers⟩ := unlink_first hhead
    rw [List.nil_append, List.nodup_cons] at hnodup
    intro hash
    rw [hrows]
    by_cases heq : hash = row.hash
    · subst heq
      refine ⟨post, hindex ▸ hpost, hnodup.2, fun s => ?_⟩
      show s ∈ post ↔ members row.hash s ∧ s ≠ r
      rw [← hmem s]
      constructor
      · intro hs
        exact ⟨List.mem_cons_of_mem r hs, by rintro rfl; exact hnodup.1 hs⟩
      · rintro ⟨hs, hne⟩
        exact (List.mem_cons.mp hs).resolve_left hne
    · obtain ⟨l', hl', hnodup', hmem'⟩ := h hash
      refine ⟨l', ?_, hnodup', fun s => ?_⟩
      · rw [hothers hash heq]
        exact hl'
      · rw [hmem' s]
        exact ⟨fun hs => ⟨hs, hother hash heq s hs⟩, And.left⟩
  · simp only [List.append_assoc, List.cons_append, List.nil_append] at hl hnodup hmem
    rw [unlink_inner hl hnodup]
    intro hash
    by_cases heq : hash = row.hash
    · subst heq
      refine ⟨pre ++ before :: post, hl.bypass hrow hnodup, ?_, fun s => ?_⟩
      · exact hnodup.sublist (by simp)
      · show s ∈ pre ++ before :: post ↔ members row.hash s ∧ s ≠ r
        rw [← hmem s]
        have hne : s ∈ pre ++ before :: post → s ≠ r := by
          rintro hs rfl
          simp only [List.nodup_append, List.nodup_cons, List.mem_cons, List.mem_append] at hnodup hs
          grind
        simp only [List.mem_append, List.mem_cons] at hne ⊢
        tauto
    · obtain ⟨l', hl', hnodup', hmem'⟩ := h hash
      refine ⟨l', hl'.congr fun s hs => ?_, hnodup', fun s => ?_⟩
      · have hne : before ≠ s := by
          rintro rfl
          exact heq (hunique _ _ _ ((hmem' _).mp hs) ((hmem _).mp (by simp)))
        simp only [Array.getElem?_modify, hne, if_false]
      · rw [hmem' s]
        exact ⟨fun hs => ⟨hs, hother hash heq s hs⟩, And.left⟩

end BacktraceLog

end SamplingProfiler
