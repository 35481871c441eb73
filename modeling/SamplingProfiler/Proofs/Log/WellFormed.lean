/-
What holds of every log.

A log describes its entries four times over: in the rows, in the stack of free rows, in the
links and in the index.  `WellFormed` says that the four agree.  It holds of an empty log,
and one lemma per operation says that it is kept.

Three operations change more than a weight.  `release` frees one taken row, `place` takes
one free row, and `evict` is a run of releases.  Between the moment a row leaves the stack
of free rows and the moment it is written to, the log is not well formed; so placing is
proved for a row on top of the stack, as `lookupOrCreate` finds it.
-/
import SamplingProfiler.Proofs.Log.Links
import SamplingProfiler.Proofs.Median

namespace SamplingProfiler

namespace BacktraceLog

/-- This row is taken, by a backtrace with this hash. -/
def Member (rows : Array Row) (hash : UInt64) (r : Nat) : Prop :=
  ∃ row, rows[r]? = some row ∧ row.taken = true ∧ row.hash = hash

/-- The rows, the stack of free rows, the links and the index of a log agree. -/
structure WellFormed (log : BacktraceLog) : Prop where
  capacity_pos : 0 < log.capacity
  /-- Every backtrace has the length of the log. -/
  length_frames : ∀ {r : Nat} {row : Row}, log.rows[r]? = some row → row.frames.length = log.depth
  /-- A free row holds nothing but padding. -/
  frames_of_free : ∀ {r : Nat} {row : Row}, log.rows[r]? = some row → row.taken = false →
    row.frames = List.replicate log.depth FrameId.null
  free_nodup : log.free.Nodup
  /-- The stack of free rows has the rows that are not taken. -/
  mem_free : ∀ {r : Nat}, r ∈ log.free ↔ ∃ row, log.rows[r]? = some row ∧ row.taken = false
  /-- A taken row knows the hash of its backtrace. -/
  hash_eq : ∀ {r : Nat} {row : Row}, log.rows[r]? = some row → row.taken = true →
    row.hash = log.hasher.hash row.frames
  /-- No two rows hold the same backtrace. -/
  distinct : ∀ {r s : Nat} {row row' : Row}, log.rows[r]? = some row → log.rows[s]? = some row' →
    row.taken = true → row'.taken = true → row.frames = row'.frames → r = s
  /-- The links from the index visit the taken rows, by hash. -/
  threaded : Threaded log.rows log.index (Member log.rows)

/-! ### An empty log -/

private theorem empty_row {hasher : Hasher} {capacity depth r : Nat} {row : Row}
    (h : (empty hasher capacity depth).rows[r]? = some row) :
    r < rowsFor capacity ∧ row = .blank (depthFor depth) := by
  unfold empty at h
  rw [Array.getElem?_replicate] at h
  by_cases hr : r < rowsFor capacity
  · rw [if_pos hr] at h
    exact ⟨hr, (Option.some.inj h).symm⟩
  · rw [if_neg hr] at h
    exact absurd h (by simp)

theorem wellFormed_empty (hasher : Hasher) (capacity depth : Nat) :
    (empty hasher capacity depth).WellFormed where
  capacity_pos := by
    simp only [BacktraceLog.capacity, empty, Array.size_replicate, rowsFor]
    omega
  length_frames := by
    intro r row h
    rw [(empty_row h).2]
    exact List.length_replicate
  frames_of_free := by
    intro r row h _
    rw [(empty_row h).2]
    rfl
  free_nodup := List.nodup_range
  mem_free := by
    intro r
    show r ∈ List.range (rowsFor capacity) ↔ _
    rw [List.mem_range]
    constructor
    · intro hr
      exact ⟨.blank (depthFor depth), by simp [empty, hr], rfl⟩
    · rintro ⟨row, hrow, -⟩
      exact (empty_row hrow).1
  hash_eq := by
    intro r row h ht
    rw [(empty_row h).2] at ht
    exact absurd ht (by simp [Row.blank])
  distinct := by
    intro r s row row' h _ ht
    rw [(empty_row h).2] at ht
    exact absurd ht (by simp [Row.blank])
  threaded := by
    intro hash
    refine ⟨[], ?_, List.nodup_nil, fun r => ?_⟩
    · have : (empty hasher capacity depth).index[hash]? = none := by simp [empty]
      rw [this]
      exact .stop
    · refine ⟨fun h => absurd h (by simp), ?_⟩
      rintro ⟨row, hrow, ht, -⟩
      rw [(empty_row hrow).2] at ht
      exact absurd ht (by simp [Row.blank])

/-! ### Finding a backtrace

The walk at the hash of a backtrace visits every taken row with that hash, so the row that holds
the backtrace is on it.  There is no other row that holds it, so this is the one that is found.
-/

section

variable {log : BacktraceLog} (ok : log.WellFormed)
include ok

/-- The row of a backtrace is the taken row that holds it. -/
theorem WellFormed.rowOf_eq_some_iff {key : List FrameId} {r : Nat} :
    log.rowOf key = some r ↔
      ∃ row, log.rows[r]? = some row ∧ row.taken = true ∧ row.frames = key := by
  obtain ⟨l, hl, hnodup, hmem⟩ := ok.threaded (log.hasher.hash key)
  unfold rowOf
  rw [seek_eq_find? hl log.capacity (hl.length_le hnodup)]
  constructor
  · intro h
    obtain ⟨row, hrow, ht, -⟩ := (hmem r).mp (List.mem_of_find?_eq_some h)
    have hkey := List.find?_some h
    rw [hrow] at hkey
    exact ⟨row, hrow, ht, by simpa using hkey⟩
  · rintro ⟨row, hrow, ht, rfl⟩
    have hr : r ∈ l := (hmem r).mpr ⟨row, hrow, ht, ok.hash_eq hrow ht⟩
    cases hfind : l.find? fun s => log.rows[s]?.any (·.frames = row.frames) with
    | none =>
        have := List.find?_eq_none.mp hfind r hr
        rw [hrow] at this
        simp at this
    | some s =>
        obtain ⟨row', hrow', ht', -⟩ := (hmem s).mp (List.mem_of_find?_eq_some hfind)
        have hkey := List.find?_some hfind
        rw [hrow'] at hkey
        rw [ok.distinct hrow hrow' ht ht' (by simpa using hkey : row'.frames = row.frames).symm]

/-- A backtrace without a row is held by none. -/
theorem WellFormed.rowOf_eq_none_iff {key : List FrameId} :
    log.rowOf key = none ↔
      ∀ (r : Nat) (row : Row), log.rows[r]? = some row → row.taken = true → row.frames ≠ key := by
  rw [Option.eq_none_iff_forall_ne_some]
  constructor
  · intro h r row hrow ht hkey
    exact h r (ok.rowOf_eq_some_iff.mpr ⟨row, hrow, ht, hkey⟩)
  · intro h r hr
    obtain ⟨row, hrow, ht, hkey⟩ := ok.rowOf_eq_some_iff.mp hr
    exact h r row hrow ht hkey

end

/-! ### Changes that leave most of a row alone

An operation that writes a weight or a link keeps the rest of the row, its imprint.
-/

/-- The backtrace of a row, its hash, and whether the row is taken. -/
def imprint (row : Row) : List FrameId × UInt64 × Bool := (row.frames, row.hash, row.taken)

/-- A row with the same imprint as another. -/
private theorem exists_of_imprint {a b : Option Row} {row : Row}
    (h : a.map imprint = b.map imprint) (ha : a = some row) :
    ∃ old, b = some old ∧ old.frames = row.frames ∧ old.hash = row.hash ∧
      old.taken = row.taken := by
  rw [ha] at h
  obtain ⟨old, hold, heq⟩ := Option.map_eq_some_iff.mp h.symm
  simp only [imprint, Prod.mk.injEq] at heq
  exact ⟨old, hold, heq⟩

private theorem member_of_imprint {rows rows' : Array Row} {r : Nat} {hash : UInt64}
    (h : rows'[r]?.map imprint = rows[r]?.map imprint) (hm : Member rows' hash r) :
    Member rows hash r := by
  obtain ⟨row, hrow, ht, hh⟩ := hm
  obtain ⟨old, hold, -, hhash, htaken⟩ := exists_of_imprint h hrow
  exact ⟨old, hold, htaken.trans ht, hhash.trans hh⟩

/-! ### Adding to a weight -/

private theorem increment_imprint (log : BacktraceLog) (r : Nat) (weight : Weight) (s : Nat) :
    (log.increment r weight).rows[s]?.map imprint = log.rows[s]?.map imprint := by
  unfold increment
  rw [Array.getElem?_modify]
  split
  · rw [Option.map_map]
    rfl
  · rfl

private theorem increment_next (log : BacktraceLog) (r : Nat) (weight : Weight) (s : Nat) :
    (log.increment r weight).rows[s]?.map Row.next = log.rows[s]?.map Row.next := by
  unfold increment
  rw [Array.getElem?_modify]
  split
  · rw [Option.map_map]
    rfl
  · rfl

/-- Adding to a weight keeps the log in step: neither the backtraces nor the links change. -/
theorem WellFormed.increment {log : BacktraceLog} (ok : log.WellFormed) (r : Nat)
    (weight : Weight) : (log.increment r weight).WellFormed := by
  have view : ∀ {s : Nat} {row : Row}, (log.increment r weight).rows[s]? = some row →
      ∃ old, log.rows[s]? = some old ∧ old.frames = row.frames ∧ old.hash = row.hash ∧
        old.taken = row.taken :=
    fun h => exists_of_imprint (increment_imprint log r weight _) h
  refine ⟨?_, ?_, ?_, ok.free_nodup, ?_, ?_, ?_, ?_⟩
  · simpa [capacity, BacktraceLog.increment] using ok.capacity_pos
  · intro s row h
    obtain ⟨old, hold, hf, -, -⟩ := view h
    exact hf ▸ ok.length_frames hold
  · intro s row h ht
    obtain ⟨old, hold, hf, -, htaken⟩ := view h
    exact hf ▸ ok.frames_of_free hold (htaken.trans ht)
  · intro s
    rw [show (log.increment r weight).free = log.free from rfl, ok.mem_free]
    constructor
    · rintro ⟨old, hold, ht⟩
      obtain ⟨row, hrow, -, -, htaken⟩ :=
        exists_of_imprint (increment_imprint log r weight s).symm hold
      exact ⟨row, hrow, htaken.trans ht⟩
    · rintro ⟨row, hrow, ht⟩
      obtain ⟨old, hold, -, -, htaken⟩ := view hrow
      exact ⟨old, hold, htaken.trans ht⟩
  · intro s row h ht
    obtain ⟨old, hold, hf, hh, htaken⟩ := view h
    rw [← hf, ← hh]
    exact ok.hash_eq hold (htaken.trans ht)
  · intro s t row row' h h' ht ht' hframes
    obtain ⟨old, hold, hf, -, htaken⟩ := view h
    obtain ⟨old', hold', hf', -, htaken'⟩ := view h'
    exact ok.distinct hold hold' (htaken.trans ht) (htaken'.trans ht')
      ((hf.trans hframes).trans hf'.symm)
  · intro hash
    obtain ⟨l, hl, hnodup, hmem⟩ := ok.threaded hash
    refine ⟨l, hl.congr fun s _ => increment_next log r weight s, hnodup, fun s => ?_⟩
    rw [hmem s]
    exact ⟨member_of_imprint (increment_imprint log r weight s).symm,
      member_of_imprint (increment_imprint log r weight s)⟩

/-! ### Freeing a row

Unlinking changes links and nothing else, and wiping changes a row that no walk visits any more.
So what becomes of the walks is `threaded_unlink`, and the rest is read off the imprints of rows.
-/

section

variable {log : BacktraceLog} {r : Nat} {row : Row}

theorem unlink_eq (log : BacktraceLog) (r : Nat) (row : Row) :
    log.unlink r row
      = { log with rows := (log.unlink r row).rows, index := (log.unlink r row).index } := by
  unfold unlink
  repeat' split
  all_goals rfl

/-- Unlinking keeps every row but for its link. -/
theorem unlink_rows (log : BacktraceLog) (r : Nat) (row : Row) (s : Nat) :
    (log.unlink r row).rows[s]?.map (fun q => { q with next := none })
      = log.rows[s]?.map (fun q => { q with next := none }) := by
  unfold unlink
  repeat' split
  all_goals try rfl
  rw [Array.getElem?_modify]
  split
  · rw [Option.map_map]
    rfl
  · rfl

/-- Unlinking a row leaves another one alone, or gives it the link of the row that it linked
to. -/
theorem unlink_cases {s : Nat} {other : Row} (h : (log.unlink r row).rows[s]? = some other) :
    log.rows[s]? = some other ∨ ∃ old, log.rows[s]? = some old ∧ old.next = some r ∧
      other = { old with next := row.next } := by
  unfold unlink at h
  cases hhead : log.index[row.hash]? with
  | none =>
      rw [hhead] at h
      exact .inl h
  | some head =>
      simp only [hhead] at h
      by_cases heq : head = r
      · simp only [if_pos heq] at h
        cases hnext : row.next <;> rw [hnext] at h <;> exact .inl h
      · simp only [if_neg heq] at h
        cases hbefore : linkTo log.rows r log.capacity head with
        | none =>
            rw [hbefore] at h
            exact .inl h
        | some before =>
            simp only [hbefore, Array.getElem?_modify] at h
            by_cases hs : before = s
            · subst hs
              rw [if_pos rfl] at h
              obtain ⟨old, hold, rfl⟩ := Option.map_eq_some_iff.mp h
              have hlink := next_of_linkTo hbefore
              rw [hold] at hlink
              exact .inr ⟨old, hold, hlink, rfl⟩
            · rw [if_neg hs] at h
              exact .inl h

theorem size_unlink (log : BacktraceLog) (r : Nat) (row : Row) :
    (log.unlink r row).rows.size = log.rows.size := by
  unfold unlink
  repeat' split
  all_goals simp

theorem release_eq (hrow : log.rows[r]? = some row) :
    log.release r = { log with
      rows := (log.unlink r row).rows.setIfInBounds r (.blank log.depth)
      index := (log.unlink r row).index
      free := r :: log.free } := by
  unfold release
  rw [hrow]
  show ({ log.unlink r row with
    rows := (log.unlink r row).rows.setIfInBounds r (.blank log.depth)
    free := r :: log.free } : BacktraceLog) = _
  rw [unlink_eq log r row]

/-- What a row is after a release: the released one is blank, and the others are as they
were but for a link. -/
theorem release_rows (hrow : log.rows[r]? = some row) (s : Nat) :
    (log.release r).rows[s]?
      = if s = r then some (.blank log.depth) else (log.unlink r row).rows[s]? := by
  have hlt : r < (log.unlink r row).rows.size := by
    rw [size_unlink]
    exact (Array.getElem?_eq_some_iff.mp hrow).1
  rw [release_eq hrow]
  by_cases hs : s = r
  · subst hs
    simp [hlt]
  · rw [if_neg hs]
    exact Array.getElem?_setIfInBounds_ne fun h => hs h.symm

private theorem release_imprint (hrow : log.rows[r]? = some row) {s : Nat} (hs : s ≠ r) :
    (log.release r).rows[s]?.map imprint = log.rows[s]?.map imprint := by
  rw [release_rows hrow, if_neg hs]
  have h := congrArg (Option.map imprint) (unlink_rows log r row s)
  rw [Option.map_map, Option.map_map] at h
  exact h

theorem size_release (log : BacktraceLog) (r : Nat) :
    (log.release r).rows.size = log.rows.size := by
  cases hrow : log.rows[r]? with
  | none => simp [release, hrow]
  | some row => rw [release_eq hrow]; simp [size_unlink]

private theorem member_release (hrow : log.rows[r]? = some row) {hash : UInt64} {s : Nat} :
    Member (log.release r).rows hash s ↔ Member log.rows hash s ∧ s ≠ r := by
  by_cases hs : s = r
  · subst hs
    refine ⟨?_, fun h => absurd rfl h.2⟩
    rintro ⟨row', hrow', ht, -⟩
    rw [release_rows hrow, if_pos rfl] at hrow'
    obtain rfl := Option.some.inj hrow'
    exact absurd ht (by simp [Row.blank])
  · exact ⟨fun h => ⟨member_of_imprint (release_imprint hrow hs) h, hs⟩,
      fun h => member_of_imprint (release_imprint hrow hs).symm h.1⟩

/-- A row after a release is the blank one, or has the imprint it had. -/
private theorem release_cases (hrow : log.rows[r]? = some row) {s : Nat} {row' : Row}
    (h : (log.release r).rows[s]? = some row') :
    (s = r ∧ row' = .blank log.depth) ∨ (s ≠ r ∧ ∃ old, log.rows[s]? = some old ∧
      old.frames = row'.frames ∧ old.hash = row'.hash ∧ old.taken = row'.taken) := by
  by_cases hs : s = r
  · subst hs
    rw [release_rows hrow, if_pos rfl] at h
    exact .inl ⟨rfl, (Option.some.inj h).symm⟩
  · exact .inr ⟨hs, exists_of_imprint (release_imprint hrow hs) h⟩

/-- A row that is taken after a release was taken before, by the same backtrace. -/
private theorem release_taken (hrow : log.rows[r]? = some row) {s : Nat} {row' : Row}
    (h : (log.release r).rows[s]? = some row') (ht : row'.taken = true) :
    ∃ old, log.rows[s]? = some old ∧ old.frames = row'.frames ∧ old.hash = row'.hash ∧
      old.taken = true := by
  rcases release_cases hrow h with ⟨-, rfl⟩ | ⟨-, old, hold, hf, hh, htaken⟩
  · exact absurd ht (by simp [Row.blank])
  · exact ⟨old, hold, hf, hh, htaken.trans ht⟩

private theorem threaded_release (ok : log.WellFormed) (hrow : log.rows[r]? = some row)
    (ht : row.taken = true) :
    Threaded (log.release r).rows (log.release r).index (Member (log.release r).rows) := by
  have hunique : ∀ h₁ h₂ s, Member log.rows h₁ s → Member log.rows h₂ s → h₁ = h₂ := by
    rintro h₁ h₂ s ⟨row₁, hrow₁, -, rfl⟩ ⟨row₂, hrow₂, -, rfl⟩
    rw [Option.some.inj (hrow₁.symm.trans hrow₂)]
  have h := (threaded_unlink ok.threaded hrow ⟨row, hrow, ht, rfl⟩ hunique).set (r := r)
    (fun _ h => h.2 rfl) (.blank log.depth)
  have hmem : ∀ hash s, Member log.rows hash s ∧ s ≠ r ↔ Member (log.release r).rows hash s :=
    fun _ _ => (member_release hrow).symm
  rw [release_eq hrow] at hmem ⊢
  exact h.congr hmem

/-- Freeing a taken row keeps the log in step. -/
theorem WellFormed.release (ok : log.WellFormed) (hrow : log.rows[r]? = some row)
    (ht : row.taken = true) : (log.release r).WellFormed := by
  have hdepth : (log.release r).depth = log.depth := by rw [release_eq hrow]
  have hfree : (log.release r).free = r :: log.free := by rw [release_eq hrow]
  have hhasher : (log.release r).hasher = log.hasher := by rw [release_eq hrow]
  -- The released row was taken, so it was not on the stack.
  have hne : ∀ {s : Nat} {old : Row}, log.rows[s]? = some old → old.taken = false → s ≠ r := by
    rintro s old hold hfalse rfl
    rw [← Option.some.inj (hrow.symm.trans hold), ht] at hfalse
    exact absurd hfalse (by simp)
  refine ⟨?_, ?_, ?_, ?_, ?_, ?_, ?_, threaded_release ok hrow ht⟩
  · unfold capacity
    rw [size_release]
    exact ok.capacity_pos
  · intro s row' h
    rw [hdepth]
    rcases release_cases hrow h with ⟨-, rfl⟩ | ⟨-, old, hold, hf, -, -⟩
    · exact List.length_replicate
    · exact hf ▸ ok.length_frames hold
  · intro s row' h ht'
    rw [hdepth]
    rcases release_cases hrow h with ⟨-, rfl⟩ | ⟨-, old, hold, hf, -, htaken⟩
    · rfl
    · exact hf ▸ ok.frames_of_free hold (htaken.trans ht')
  · rw [hfree, List.nodup_cons]
    refine ⟨fun hr => ?_, ok.free_nodup⟩
    obtain ⟨row', hrow', ht'⟩ := ok.mem_free.mp hr
    exact hne hrow' ht' rfl
  · intro s
    rw [hfree, List.mem_cons, ok.mem_free]
    constructor
    · rintro (rfl | ⟨old, hold, ht'⟩)
      · exact ⟨.blank log.depth, by rw [release_rows hrow, if_pos rfl], rfl⟩
      · obtain ⟨row', hrow', -, -, htaken⟩ :=
          exists_of_imprint (release_imprint hrow (hne hold ht')).symm hold
        exact ⟨row', hrow', htaken.trans ht'⟩
    · rintro ⟨row', hrow', ht'⟩
      rcases release_cases hrow hrow' with ⟨rfl, -⟩ | ⟨-, old, hold, -, -, htaken⟩
      · exact .inl rfl
      · exact .inr ⟨old, hold, htaken.trans ht'⟩
  · intro s row' h ht'
    obtain ⟨old, hold, hf, hh, htaken⟩ := release_taken hrow h ht'
    rw [hhasher, ← hf, ← hh]
    exact ok.hash_eq hold htaken
  · intro s t row₁ row₂ h₁ h₂ ht₁ ht₂ hframes
    obtain ⟨old₁, hold₁, hf₁, -, htaken₁⟩ := release_taken hrow h₁ ht₁
    obtain ⟨old₂, hold₂, hf₂, -, htaken₂⟩ := release_taken hrow h₂ ht₂
    exact ok.distinct hold₁ hold₂ htaken₁ htaken₂ ((hf₁.trans hframes).trans hf₂.symm)

theorem WellFormed.sweep (ok : log.WellFormed) (line r : Nat) :
    (BacktraceLog.sweep line log r).WellFormed := by
  unfold BacktraceLog.sweep
  split
  · rename_i h
    obtain ⟨row, hrow, hdoomed⟩ := (Option.any_eq_true _ _).mp h
    exact ok.release hrow (Bool.and_eq_true_iff.mp hdoomed).1
  · exact ok

end

/-! ### Taking a row -/

section

variable {log : BacktraceLog} {r : Nat} {rest : List Nat} {key : List FrameId}

/-- What `place` writes. -/
private def placed (log : BacktraceLog) (key : List FrameId) : Row :=
  ⟨key, 0, log.hasher.hash key, log.index[log.hasher.hash key]?, true⟩

private theorem place_rows (hlt : r < log.rows.size) (s : Nat) :
    ({ log with free := rest }.place r key).rows[s]?
      = if s = r then some (placed log key) else log.rows[s]? := by
  by_cases hs : s = r
  · subst hs
    simp [place, placed, hlt]
  · rw [if_neg hs]
    exact Array.getElem?_setIfInBounds_ne fun h => hs h.symm

/-- A new backtrace on the free row on top of the stack keeps the log in step. -/
theorem WellFormed.place (ok : log.WellFormed) (hfree : log.free = r :: rest)
    (hlen : key.length = log.depth) (hnew : log.rowOf key = none) :
    ({ log with free := rest }.place r key).WellFormed := by
  obtain ⟨blank, hblank, hbfalse⟩ := ok.mem_free.mp (hfree ▸ List.mem_cons_self : r ∈ log.free)
  have hlt : r < log.rows.size := (Array.getElem?_eq_some_iff.mp hblank).1
  have hnodup := ok.free_nodup
  rw [hfree, List.nodup_cons] at hnodup
  -- A row afterwards is the new one, or one that was there.
  have view : ∀ {s : Nat} {row : Row}, ({ log with free := rest }.place r key).rows[s]? = some row →
      (s = r ∧ row = placed log key) ∨ (s ≠ r ∧ log.rows[s]? = some row) := by
    intro s row h
    rw [place_rows hlt] at h
    by_cases hs : s = r
    · rw [if_pos hs] at h
      exact .inl ⟨hs, (Option.some.inj h).symm⟩
    · rw [if_neg hs] at h
      exact .inr ⟨hs, h⟩
  refine ⟨?_, ?_, ?_, hnodup.2, ?_, ?_, ?_, ?_⟩
  · simpa [capacity, BacktraceLog.place] using ok.capacity_pos
  · intro s row h
    rcases view h with ⟨-, rfl⟩ | ⟨-, h⟩
    · exact hlen
    · exact ok.length_frames h
  · intro s row h ht
    rcases view h with ⟨-, rfl⟩ | ⟨-, h⟩
    · exact absurd ht (by simp [placed])
    · exact ok.frames_of_free h ht
  · intro s
    show s ∈ rest ↔ _
    have hmem : s ∈ rest ↔ s ≠ r ∧ s ∈ log.free := by
      rw [hfree, List.mem_cons]
      refine ⟨fun hs => ⟨?_, .inr hs⟩, fun h => h.2.resolve_left h.1⟩
      rintro rfl
      exact hnodup.1 hs
    rw [hmem, ok.mem_free]
    constructor
    · rintro ⟨hne, row, hrow, ht⟩
      exact ⟨row, by rw [place_rows hlt, if_neg hne, hrow], ht⟩
    · rintro ⟨row, hrow, ht⟩
      rcases view hrow with ⟨-, rfl⟩ | ⟨hne, hrow⟩
      · exact absurd ht (by simp [placed])
      · exact ⟨hne, row, hrow, ht⟩
  · intro s row h ht
    rcases view h with ⟨-, rfl⟩ | ⟨-, h⟩
    · rfl
    · exact ok.hash_eq h ht
  · intro s t row row' h h' ht ht' hframes
    have hother := ok.rowOf_eq_none_iff.mp hnew
    rcases view h with ⟨rfl, rfl⟩ | ⟨-, hold⟩ <;> rcases view h' with ⟨rfl, rfl⟩ | ⟨-, hold'⟩
    · rfl
    · exact absurd hframes.symm (hother t row' hold' ht')
    · exact absurd hframes (hother s row hold ht)
    · exact ok.distinct hold hold' ht ht' hframes
  · have hfresh : ∀ hash, ¬ Member log.rows hash r := by
      rintro hash ⟨row, hrow, ht, -⟩
      rw [← Option.some.inj (hblank.symm.trans hrow), hbfalse] at ht
      exact absurd ht (by simp)
    have h := ok.threaded.push hfresh hlt
      (show (placed log key).next = log.index[log.hasher.hash key]? from rfl)
    refine h.congr fun hash s => ?_
    constructor
    · rintro (⟨row, hrow, ht, hhash⟩ | ⟨rfl, rfl⟩)
      · have hne : s ≠ r := by
          rintro rfl
          exact hfresh hash ⟨row, hrow, ht, hhash⟩
        exact ⟨row, by rw [place_rows hlt, if_neg hne, hrow], ht, hhash⟩
      · exact ⟨placed log key, by rw [place_rows hlt, if_pos rfl], rfl, rfl⟩
    · rintro ⟨row, hrow, ht, hhash⟩
      rcases view hrow with ⟨rfl, rfl⟩ | ⟨-, hrow⟩
      · exact .inr ⟨hhash.symm, rfl⟩
      · exact .inl ⟨row, hrow, ht, hhash⟩

end

end BacktraceLog

end SamplingProfiler
