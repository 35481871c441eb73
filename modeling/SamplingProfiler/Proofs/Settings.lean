/-
Which settings can be reached, and which logs can be made of them.

The capacity and the depth are checked one at a time, each against the defaults of the
other.  So the settings that a profiler can come to have are exactly the pairs of an
accepted capacity and an accepted depth (`LogSettings.Valid.reaches`), and nothing is
said about their product.  A log of such settings has as many rows and as deep ones as
they say.  It can be made if and only if all its frames fit one block of memory.
-/
import SamplingProfiler.Settings

namespace SamplingProfiler

/-! ### Accepted settings -/

/-- What is checked of settings: each dimension by itself. -/
structure LogSettings.Valid (s : LogSettings) : Prop where
  capacity_pos : 0 < s.capacity
  capacity_le : s.capacity ≤ BacktraceLog.maxRows
  depth_pos : 0 < s.depth

/-- A configuration is accepted if both dimensions that it asks for are. -/
theorem Config.validate_eq_ok_iff (config : Config) :
    config.validate = .ok () ↔ (LogSettings.ofConfig config).Valid := by
  unfold Config.validate LogSettings.ofConfig
  constructor
  · intro h
    by_cases hcapacity : config.logCapacity = 0
    · simp [hcapacity] at h
    by_cases hdepth : config.maxStackDepth = 0
    · simp [hcapacity, hdepth] at h
    by_cases hmax : config.logCapacity > BacktraceLog.maxRows
    · simp [hcapacity, hdepth, hmax] at h
    exact ⟨Nat.pos_of_ne_zero hcapacity, Nat.le_of_not_gt hmax, Nat.pos_of_ne_zero hdepth⟩
  · intro ⟨hcapacity, hmax, hdepth⟩
    rw [if_neg (Nat.ne_of_gt hcapacity), if_neg (Nat.ne_of_gt hdepth), if_neg (Nat.not_lt.mpr hmax)]

namespace LogSettings

variable {s t : LogSettings}

/-- A change of the capacity is accepted if the capacity is; the depth plays no part. -/
theorem setCapacity_eq_ok_iff {capacity : Nat} :
    s.setCapacity capacity = .ok t ↔
      0 < capacity ∧ capacity ≤ BacktraceLog.maxRows ∧ t = { s with capacity := capacity } := by
  have hcheck := Config.validate_eq_ok_iff { logCapacity := capacity }
  have hdefault : 0 < ({} : Config).maxStackDepth := Nat.succ_pos _
  unfold setCapacity
  cases h : Config.validate { logCapacity := capacity } with
  | error e =>
      refine ⟨nofun, fun ⟨hpos, hle, _⟩ => ?_⟩
      rw [hcheck.mpr ⟨hpos, hle, hdefault⟩] at h
      cases h
  | ok =>
      obtain ⟨hpos, hle, -⟩ := hcheck.mp h
      exact ⟨fun ht => ⟨hpos, hle, (Except.ok.inj ht).symm⟩, fun ⟨_, _, ht⟩ => ht ▸ rfl⟩

/-- A change of the depth is accepted if the depth is; the capacity plays no part. -/
theorem setDepth_eq_ok_iff {depth : Nat} :
    s.setDepth depth = .ok t ↔ 0 < depth ∧ t = { s with depth := depth } := by
  have hcheck := Config.validate_eq_ok_iff { maxStackDepth := depth }
  have hdefault : 0 < ({} : Config).logCapacity := Nat.succ_pos _
  have hdefault' : ({} : Config).logCapacity ≤ BacktraceLog.maxRows := by decide
  unfold setDepth
  cases h : Config.validate { maxStackDepth := depth } with
  | error e =>
      refine ⟨nofun, fun ⟨hpos, _⟩ => ?_⟩
      rw [hcheck.mpr ⟨hdefault, hdefault', hpos⟩] at h
      cases h
  | ok =>
      obtain ⟨-, -, hpos⟩ := hcheck.mp h
      exact ⟨fun ht => ⟨hpos, (Except.ok.inj ht).symm⟩, fun ⟨_, ht⟩ => ht ▸ rfl⟩

/-- Changes that are accepted, one after the other. -/
inductive Reaches (s : LogSettings) : LogSettings → Prop where
  | refl : Reaches s s
  | capacity {t u : LogSettings} {capacity : Nat} (before : Reaches s t)
      (change : t.setCapacity capacity = .ok u) : Reaches s u
  | depth {t u : LogSettings} {depth : Nat} (before : Reaches s t)
      (change : t.setDepth depth = .ok u) : Reaches s u

/-- Accepted changes keep settings valid. -/
theorem Reaches.valid (h : Reaches s t) (hs : s.Valid) : t.Valid := by
  induction h with
  | refl => exact hs
  | capacity _ change ih =>
      obtain ⟨hpos, hle, rfl⟩ := setCapacity_eq_ok_iff.mp change
      exact ⟨hpos, hle, ih.depth_pos⟩
  | depth _ change ih =>
      obtain ⟨hpos, rfl⟩ := setDepth_eq_ok_iff.mp change
      exact ⟨ih.capacity_pos, ih.capacity_le, hpos⟩

/-- Any valid settings are two changes away. -/
theorem Valid.reaches (ht : t.Valid) (s : LogSettings) : Reaches s t :=
  (Reaches.refl.capacity (setCapacity_eq_ok_iff.mpr ⟨ht.capacity_pos, ht.capacity_le, rfl⟩)).depth
    (setDepth_eq_ok_iff.mpr ⟨ht.depth_pos, rfl⟩)

/-! ### Logs of accepted settings

A log that is made brings its dimensions within bounds, and those of accepted settings are within
them.  So all that can go wrong is the number of frames, which is a product and is never checked.
-/

theorem Valid.rowsFor_eq (h : s.Valid) : BacktraceLog.rowsFor s.capacity = s.capacity := by
  have := h.capacity_pos
  have := h.capacity_le
  unfold BacktraceLog.rowsFor
  omega

theorem Valid.depthFor_eq (h : s.Valid) : BacktraceLog.depthFor s.depth = s.depth := by
  have := h.depth_pos
  unfold BacktraceLog.depthFor
  omega

/-- An empty log of valid settings has the dimensions they ask for: nothing is rounded. -/
theorem Valid.empty_eq (h : s.Valid) (hasher : Hasher) :
    (BacktraceLog.empty hasher s.capacity s.depth).capacity = s.capacity ∧
      (BacktraceLog.empty hasher s.capacity s.depth).depth = s.depth := by
  constructor
  · unfold BacktraceLog.capacity BacktraceLog.empty
    rw [Array.size_replicate, h.rowsFor_eq]
  · exact h.depthFor_eq

/-- What comes of making a log of valid settings depends on how many frames it has. -/
theorem Valid.newLog_eq (h : s.Valid) (hasher : Hasher) :
    s.newLog hasher =
      if s.capacity * s.depth > maxWord then .error .frameCountOverflow
      else if s.capacity * s.depth * frameBytes ≤ maxBlockBytes then
        .ok (.empty hasher s.capacity s.depth)
      else .error .blockTooLarge := by
  unfold newLog BacktraceLog.create fitsBlock
  rw [h.rowsFor_eq, h.depthFor_eq]
  simp only [decide_eq_true_eq]

/-- A log of settings that an accepted configuration can come to have is made, empty and with
exactly the dimensions asked for, if its frames fit one block of memory.  If they do not, it
is not made: the count of frames or of bytes is too large.  And the settings that can be
reached are all valid ones, so both cases occur. -/
theorem newLog_of_reaches {config : Config} (hvalid : config.validate = .ok ()) :
    (∀ s, Reaches (.ofConfig config) s ↔ s.Valid)
    ∧ ∀ s, Reaches (.ofConfig config) s → ∀ hasher,
      (s.capacity * s.depth * frameBytes ≤ maxBlockBytes →
        ∃ log, s.newLog hasher = .ok log ∧ log.capacity = s.capacity ∧ log.depth = s.depth
          ∧ log.entries = [])
      ∧ (maxBlockBytes < s.capacity * s.depth * frameBytes →
        s.newLog hasher = .error
          (if maxWord < s.capacity * s.depth then .frameCountOverflow else .blockTooLarge)) := by
  have hfirst := (Config.validate_eq_ok_iff config).mp hvalid
  refine ⟨fun s => ⟨fun hs => hs.valid hfirst, fun hs => hs.reaches _⟩, fun s hs hasher => ?_⟩
  have hs' := hs.valid hfirst
  rw [hs'.newLog_eq]
  constructor
  · intro hfits
    have hword : ¬ s.capacity * s.depth > maxWord := by
      unfold frameBytes maxBlockBytes at hfits
      unfold maxWord
      omega
    obtain ⟨hcapacity, hdepth⟩ := hs'.empty_eq hasher
    rw [if_neg hword, if_pos hfits]
    refine ⟨_, rfl, hcapacity, hdepth, ?_⟩
    simp [BacktraceLog.entries, BacktraceLog.empty, Row.entry?, Row.blank]
  · intro hlarge
    rw [if_neg (Nat.not_le.mpr hlarge)]
    by_cases hword : s.capacity * s.depth > maxWord
    · rw [if_pos hword, if_pos hword]
    · rw [if_neg hword, if_neg hword]

/-- For instance the default settings make a log, and can be changed to some that make none. -/
theorem newLog_of_reaches_default :
    ({} : Config).validate = .ok ()
    ∧ (∃ log, (ofConfig {}).newLog (HashFamily.mixing.hasher 0) = .ok log
        ∧ log.capacity = 10000 ∧ log.depth = 16)
    ∧ Reaches (ofConfig {}) ⟨1, 0x1000000000000000⟩
    ∧ newLog ⟨1, 0x1000000000000000⟩ (HashFamily.mixing.hasher 0) = .error .blockTooLarge := by
  have hvalid : ({} : Config).validate = .ok () := rfl
  obtain ⟨hreaches, hmade⟩ := newLog_of_reaches hvalid
  have hfar : Reaches (ofConfig {}) ⟨1, 0x1000000000000000⟩ :=
    (hreaches _).mpr ⟨by decide, by decide, by decide⟩
  obtain ⟨log, hlog, hcapacity, hdepth, -⟩ :=
    (hmade (ofConfig {}) .refl (HashFamily.mixing.hasher 0)).1 (by decide)
  exact ⟨hvalid, ⟨log, hlog, hcapacity, hdepth⟩, hfar,
    (hmade _ hfar (HashFamily.mixing.hasher 0)).2 (by decide)⟩

/-- Not every accepted configuration describes a log that can be made. -/
theorem newLog_of_valid_fails :
    Config.validate { logCapacity := 2, maxStackDepth := 0x8000000000000000 } = .ok ()
    ∧ (ofConfig { logCapacity := 2, maxStackDepth := 0x8000000000000000 }).newLog
        (HashFamily.mixing.hasher 0) = .error .frameCountOverflow :=
  ⟨rfl, rfl⟩

end LogSettings

end SamplingProfiler
