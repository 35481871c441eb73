/-
Which frames can be on a shadow stack.

A push of a reserved frame is refused.  So whatever else the host does, it is in no frame but
those of its functions (`Reaches.proper`), and a backtrace of them is a run of such frames
followed by padding (`Backtrace.clean_normalise`).  The frame that stands for memory
reclamation is in none of these backtraces.
-/
import Mathlib.Data.List.Basic
import SamplingProfiler.ShadowStack

namespace SamplingProfiler

namespace ShadowStack

/-- Things that a host does with its stack, one after the other. -/
inductive Reaches (s : ShadowStack) : ShadowStack → Prop where
  | refl : Reaches s s
  | push {t u : ShadowStack} {frame : FrameId} (before : Reaches s t)
      (accepted : t.push frame = .ok u) : Reaches s u
  | leave {t : ShadowStack} (before : Reaches s t) : Reaches s t.leave
  | enterReclaim {t : ShadowStack} (before : Reaches s t) : Reaches s t.enterReclaim
  | leaveReclaim {t : ShadowStack} (before : Reaches s t) : Reaches s t.leaveReclaim

/-- The host is in no reserved frame. -/
def Proper (s : ShadowStack) : Prop := ∀ f ∈ s.frames, f.isReserved = false

variable {s t : ShadowStack}

theorem mem_frames_iff {f : FrameId} :
    f ∈ s.frames ↔ ∃ i, i < s.depth ∧ s.storage.toList[i]? = some f := by
  unfold frames
  rw [List.mem_reverse, List.mem_iff_getElem?]
  constructor
  · intro ⟨i, hi⟩
    rw [List.getElem?_take] at hi
    by_cases hlt : i < s.depth
    · rw [if_pos hlt] at hi
      exact ⟨i, hlt, hi⟩
    · rw [if_neg hlt] at hi
      cases hi
  · intro ⟨i, hlt, hi⟩
    exact ⟨i, by rw [List.getElem?_take, if_pos hlt]; exact hi⟩

theorem proper_empty (capacity : Nat) : (empty capacity).Proper := by
  intro f hf
  obtain ⟨i, hi, -⟩ := mem_frames_iff.mp hf
  exact absurd hi (Nat.not_lt_zero i)

/-- The host enters one frame at most. -/
theorem mem_frames_enter {frame f : FrameId} (h : f ∈ (s.enter frame).frames) :
    f = frame ∨ f ∈ s.frames := by
  obtain ⟨i, hi, hget⟩ := mem_frames_iff.mp h
  have hlt : i < s.depth + 1 := hi
  have hset : (s.storage.toList.set s.depth frame)[i]? = some f := by
    rw [← Array.toList_setIfInBounds]
    exact hget
  by_cases heq : i = s.depth
  · subst heq
    rw [List.getElem?_set_self'] at hset
    cases hget : s.storage.toList[s.depth]? with
    | none => rw [hget] at hset; cases hset
    | some old =>
        rw [hget] at hset
        exact .inl (Option.some.inj hset).symm
  · rw [List.getElem?_set_ne (Ne.symm heq)] at hset
    exact .inr (mem_frames_iff.mpr ⟨i, by omega, hset⟩)

theorem mem_frames_leave {f : FrameId} (h : f ∈ s.leave.frames) : f ∈ s.frames := by
  obtain ⟨i, hi, hget⟩ := mem_frames_iff.mp h
  have hlt : i < s.depth - 1 := hi
  exact mem_frames_iff.mpr ⟨i, by omega, hget⟩

/-- A frame that is entered is stored behind the slots that count, if there is room. -/
theorem take_storage_enter (s : ShadowStack) (frame : FrameId) :
    (s.enter frame).storage.toList.take (s.enter frame).depth
      = s.storage.toList.take s.depth ++ [frame].take (s.storage.size - s.depth) := by
  show (s.storage.setIfInBounds s.depth frame).toList.take (s.depth + 1) = _
  rw [Array.toList_setIfInBounds, ← Array.length_toList]
  rcases Nat.lt_or_ge s.depth s.storage.toList.length with hroom | hfull
  · have hlt : s.depth < (s.storage.toList.set s.depth frame).length := by
      rwa [List.length_set]
    obtain ⟨n, hn⟩ :=
      Nat.exists_eq_succ_of_ne_zero (by omega : s.storage.toList.length - s.depth ≠ 0)
    rw [List.take_add_one, List.getElem?_eq_getElem hlt, List.getElem_set_self,
      List.take_set_of_le (Nat.le_refl _), hn, Nat.succ_eq_add_one, List.take_succ_cons,
      List.take_nil]
    rfl
  · rw [List.set_eq_of_length_le hfull, List.take_of_length_le (by omega),
      List.take_of_length_le (by omega), Nat.sub_eq_zero_of_le hfull, List.take_zero,
      List.append_nil]

/-- When a frame is left, the last slot does not count any more. -/
theorem take_storage_leave (s : ShadowStack) :
    s.leave.storage.toList.take s.leave.depth
      = (s.storage.toList.take s.depth).take (s.depth - 1) := by
  show s.storage.toList.take (s.depth - 1) = _
  rw [List.take_take, Nat.min_eq_left (Nat.sub_le ..)]

/-- Whatever the host does, it is in no reserved frame. -/
theorem Reaches.proper (h : Reaches s t) (hs : s.Proper) : t.Proper := by
  induction h with
  | refl => exact hs
  | @push t u frame _ accepted ih =>
      unfold ShadowStack.push at accepted
      split at accepted
      · cases accepted
      · rename_i hreserved
        obtain rfl := Except.ok.inj accepted
        intro f hf
        rcases mem_frames_enter hf with rfl | hold
        · simpa using hreserved
        · exact ih f hold
  | leave _ ih => exact fun f hf => ih f (mem_frames_leave hf)
  | enterReclaim _ ih => exact ih
  | leaveReclaim _ ih => exact ih

end ShadowStack

namespace Backtrace

/-- Frames of functions, followed by padding. -/
def Clean (key : List FrameId) : Prop :=
  ∃ frames n, key = frames ++ List.replicate n FrameId.null ∧ ∀ f ∈ frames, f.isReserved = false

theorem clean_normalise {frames : List FrameId} (h : ∀ f ∈ frames, f.isReserved = false)
    (depth : Nat) : Clean (normalise depth frames) :=
  ⟨frames.take depth, depth - frames.length, rfl, fun f hf => h f (List.mem_of_mem_take hf)⟩

theorem Clean.gc_notMem {key : List FrameId} (h : Clean key) : FrameId.gc ∉ key := by
  obtain ⟨frames, n, rfl, hframes⟩ := h
  intro hmem
  rcases List.mem_append.mp hmem with hframe | hpadding
  · exact absurd (hframes _ hframe) (by decide)
  · exact absurd (List.eq_of_mem_replicate hpadding) (by decide)

end Backtrace

end SamplingProfiler
