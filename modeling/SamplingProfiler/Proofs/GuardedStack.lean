/-
A shadow stack shows what a call stack without bounds would show.

The storage of a shadow stack ends somewhere, a frame that is left stays in it, and a frame
entered past its end is not in it at all.  None of this is seen.  The slots below the depth are
always the oldest frames the host is in, as many as fit (`Mirrors.stored`): a frame is stored in
the first slot that does not count, and leaving a frame makes the last one not count.  So a
stack that has gone past the end of its storage is exact again as soon as it is back.
-/
import SamplingProfiler.Proofs.Replies
import SamplingProfiler.Proofs.ShadowStack
import SamplingProfiler.ShadowStack.Guards

namespace SamplingProfiler

/-! ### What can be asked -/

/-- What a host can do with its stack, and what can be asked of it. -/
inductive StackCall where
  /-- The host enters a frame and holds its guard. -/
  | push (frame : FrameId)
  /-- It drops the guard of the push with a number, counted from zero. -/
  | drop (number : Nat)
  /-- It drops the guard it has got last. -/
  | pop
  | enterReclaim
  | leaveReclaim
  | capture (row : List FrameId)
  | depth
  | isReclaiming
deriving DecidableEq

/-- What the answer to a call can be. -/
inductive StackAnswer where
  | done
  /-- The call is refused, with the reason. -/
  | refused (reason : String)
  /-- The row after the capture, and how many frames were captured. -/
  | captured (row : List FrameId) (count : Nat)
  | number (n : Nat)
  | flag (b : Bool)
deriving DecidableEq

namespace GuardedStack

/-- A push that is accepted enters the frame. -/
theorem push_eq (g : GuardedStack) (frame : FrameId) :
    g.push frame = if frame.isReserved then .error ("reserved frame id pushed: " ++ frame.display)
      else .ok { g with
        stack := g.stack.enter frame, pushes := g.pushes + 1, held := g.pushes :: g.held } := by
  unfold push ShadowStack.push
  split <;> rfl

/-- What a stack answers, and the stack that is left. -/
def answer (g : GuardedStack) : StackCall → StackAnswer × GuardedStack
  | .push frame =>
    match g.push frame with
    | .ok pushed => (.done, pushed)
    | .error reason => (.refused reason, g)
  | .drop number => (.done, g.drop number)
  | .pop => (.done, g.pop)
  | .enterReclaim => (.done, g.enterReclaim)
  | .leaveReclaim => (.done, g.leaveReclaim)
  | .capture row => (.captured (g.stack.capture row).1 (g.stack.capture row).2, g)
  | .depth => (.number g.stack.depth, g)
  | .isReclaiming => (.flag g.stack.isReclaiming, g)

def answers (g : GuardedStack) (calls : List StackCall) : List StackAnswer × GuardedStack :=
  replies answer g calls

end GuardedStack

/-! ### The stack without bounds

A call stack keeps every frame.  The capacity is no part of it, but of the question: a host that
could see so many frames is told nothing of a stack that has more (`CallStack.answer`).
-/

/-- The frames a host is in, and the guards it holds. -/
structure CallStack where
  /-- The frames, the newest first. -/
  frames : List FrameId
  /-- How many pushes have been accepted. -/
  pushes : Nat
  /-- The numbers of the pushes whose guards are held, the newest first. -/
  guards : List Nat
  /-- How many guards of reclamations are held. -/
  reclaims : Nat
deriving DecidableEq

namespace CallStack

def empty : CallStack := ⟨[], 0, [], 0⟩

/-- A frame is entered and its guard is held. -/
def enter (c : CallStack) (frame : FrameId) : CallStack :=
  { c with frames := frame :: c.frames, pushes := c.pushes + 1, guards := c.pushes :: c.guards }

/-- A frame is left when a guard is dropped: the newest, whichever guard it is. -/
def drop (c : CallStack) (number : Nat) : CallStack :=
  if number ∈ c.guards then
    { c with frames := c.frames.tail, guards := c.guards.erase number }
  else c

/-- What a host would be told that could see so many frames. -/
def answer (capacity : Nat) (c : CallStack) : StackCall → StackAnswer × CallStack
  | .push frame =>
    if frame = FrameId.null ∨ frame = FrameId.gc then
      (.refused ("reserved frame id pushed: " ++ frame.display), c)
    else (.done, c.enter frame)
  | .drop number => (.done, c.drop number)
  | .pop => (.done, c.guards.head?.elim c c.drop)
  | .enterReclaim => (.done, { c with reclaims := c.reclaims + 1 })
  | .leaveReclaim => (.done, { c with reclaims := c.reclaims - 1 })
  | .capture row =>
    if c.frames.length ≤ capacity then
      (.captured (c.frames.take row.length ++ row.drop c.frames.length)
        (min c.frames.length row.length), c)
    else (.captured row 0, c)
  | .depth => (.number c.guards.length, c)
  | .isReclaiming => (.flag (0 < c.reclaims), c)

def answers (capacity : Nat) (c : CallStack) (calls : List StackCall) :
    List StackAnswer × CallStack :=
  replies (answer capacity) c calls

end CallStack

/-! ### The two side by side

Nothing is said of the slots from the depth on, where frames that were left remain.  It is enough
that entering and leaving a frame keep `Mirrors.stored`, and that both stacks count the same guards.
-/

/-- A shadow stack stands for a call stack. -/
structure Mirrors (capacity : Nat) (g : GuardedStack) (c : CallStack) : Prop where
  size_eq : g.stack.storage.size = capacity
  depth_eq : g.stack.depth = c.frames.length
  /-- The slots that count have the oldest frames, as many as fit. -/
  stored : g.stack.storage.toList.take g.stack.depth = c.frames.reverse.take capacity
  pushes_eq : g.pushes = c.pushes
  held_eq : g.held = c.guards
  /-- There are as many guards as frames. -/
  guarded : c.guards.length = c.frames.length
  reclaims_eq : g.stack.reclaims = c.reclaims
  reclaimsHeld_eq : g.reclaimsHeld = c.reclaims

namespace Mirrors

variable {capacity : Nat} {g : GuardedStack} {c : CallStack}

theorem empty (capacity : Nat) : Mirrors capacity (.empty capacity) .empty where
  size_eq := Array.size_replicate
  depth_eq := rfl
  stored := by
    show List.take 0 _ = List.take capacity []
    rw [List.take_zero, List.take_nil]
  pushes_eq := rfl
  held_eq := rfl
  guarded := rfl
  reclaims_eq := rfl
  reclaimsHeld_eq := rfl

/-- A frame that is entered is stored behind the others, if there is room. -/
theorem stored_enter (h : Mirrors capacity g c) (frame : FrameId) :
    (g.stack.enter frame).storage.toList.take (g.stack.enter frame).depth
      = (frame :: c.frames).reverse.take capacity := by
  rw [g.stack.take_storage_enter, h.stored, List.reverse_cons, List.take_append, h.size_eq,
    List.length_reverse, h.depth_eq]

/-- When a frame is left, the last slot does not count any more. -/
theorem stored_leave (h : Mirrors capacity g c) :
    g.stack.leave.storage.toList.take g.stack.leave.depth
      = c.frames.tail.reverse.take capacity := by
  have hfrom : c.frames.tail.reverse = c.frames.reverse.take (g.stack.depth - 1) := by
    rw [h.depth_eq]
    cases c.frames with
    | nil => rfl
    | cons frame rest =>
        rw [List.tail_cons, List.reverse_cons, List.length_cons, Nat.add_sub_cancel]
        exact (List.take_left' (List.length_reverse ..)).symm
  rw [g.stack.take_storage_leave, h.stored, hfrom, List.take_take, List.take_take, Nat.min_comm]

theorem drop (h : Mirrors capacity g c) (number : Nat) :
    Mirrors capacity (g.drop number) (c.drop number) := by
  unfold GuardedStack.drop CallStack.drop
  rw [h.held_eq]
  by_cases hheld : number ∈ c.guards
  · rw [if_pos hheld, if_pos hheld]
    refine ⟨h.size_eq, ?_, h.stored_leave, h.pushes_eq, rfl, ?_, h.reclaims_eq,
      h.reclaimsHeld_eq⟩
    · show g.stack.depth - 1 = c.frames.tail.length
      rw [List.length_tail, h.depth_eq]
    · show (c.guards.erase number).length = c.frames.tail.length
      rw [List.length_erase_of_mem hheld, List.length_tail, h.guarded]
  · rw [if_neg hheld, if_neg hheld]
    exact h

/-- A capture fills a row with the newest frames, if all frames are stored. -/
theorem capture_eq (h : Mirrors capacity g c) (row : List FrameId) :
    (StackAnswer.captured (g.stack.capture row).1 (g.stack.capture row).2, c)
      = c.answer capacity (.capture row) := by
  unfold ShadowStack.capture CallStack.answer
  dsimp only
  rw [h.size_eq, h.depth_eq]
  by_cases hdeep : c.frames.length > capacity
  · rw [if_pos hdeep, if_neg (by omega)]
  · have hframes : g.stack.frames = c.frames := by
      unfold ShadowStack.frames
      rw [h.stored, List.take_of_length_le (by rw [List.length_reverse]; omega),
        List.reverse_reverse]
    rw [if_neg hdeep, if_pos (by omega), hframes]
    have htake : c.frames.take (min c.frames.length row.length) = c.frames.take row.length := by
      rw [Nat.min_comm, ← List.take_eq_take_min]
    have hdrop : row.drop (min c.frames.length row.length) = row.drop c.frames.length := by
      rw [← List.drop_eq_drop_min]
    rw [htake, hdrop]

theorem enter (h : Mirrors capacity g c) (frame : FrameId) :
    Mirrors capacity { g with
      stack := g.stack.enter frame, pushes := g.pushes + 1, held := g.pushes :: g.held }
      (c.enter frame) where
  size_eq := by
    show (g.stack.storage.setIfInBounds g.stack.depth frame).size = capacity
    rw [Array.size_setIfInBounds, h.size_eq]
  depth_eq := congrArg (· + 1) h.depth_eq
  stored := h.stored_enter frame
  pushes_eq := congrArg (· + 1) h.pushes_eq
  held_eq := by
    show g.pushes :: g.held = c.pushes :: c.guards
    rw [h.pushes_eq, h.held_eq]
  guarded := congrArg (· + 1) h.guarded
  reclaims_eq := h.reclaims_eq
  reclaimsHeld_eq := h.reclaimsHeld_eq

/-- The two answer a call alike and go on side by side. -/
theorem answer (h : Mirrors capacity g c) (call : StackCall) :
    (g.answer call).1 = (c.answer capacity call).1
      ∧ Mirrors capacity (g.answer call).2 (c.answer capacity call).2 := by
  cases call with
  | push frame =>
      have hreserved : frame.isReserved = true ↔ frame = FrameId.null ∨ frame = FrameId.gc := by
        unfold FrameId.isReserved
        rw [Bool.or_eq_true, beq_iff_eq, beq_iff_eq]
      unfold GuardedStack.answer CallStack.answer
      dsimp only
      rw [GuardedStack.push_eq]
      by_cases hframe : frame = FrameId.null ∨ frame = FrameId.gc
      · rw [if_pos (hreserved.mpr hframe), if_pos hframe]
        exact ⟨rfl, h⟩
      · rw [if_neg fun hr => hframe (hreserved.mp hr), if_neg hframe]
        exact ⟨rfl, h.enter frame⟩
  | drop number => exact ⟨rfl, h.drop number⟩
  | pop =>
      refine ⟨rfl, ?_⟩
      show Mirrors capacity g.pop (c.guards.head?.elim c c.drop)
      unfold GuardedStack.pop
      rw [h.held_eq]
      cases c.guards with
      | nil => exact h
      | cons number rest => exact h.drop number
  | enterReclaim =>
      exact ⟨rfl, h.size_eq, h.depth_eq, h.stored, h.pushes_eq, h.held_eq, h.guarded,
        congrArg (· + 1) h.reclaims_eq, congrArg (· + 1) h.reclaimsHeld_eq⟩
  | leaveReclaim =>
      refine ⟨rfl, ?_⟩
      show Mirrors capacity g.leaveReclaim { c with reclaims := c.reclaims - 1 }
      unfold GuardedStack.leaveReclaim
      by_cases hheld : 0 < g.reclaimsHeld
      · rw [if_pos hheld]
        exact ⟨h.size_eq, h.depth_eq, h.stored, h.pushes_eq, h.held_eq, h.guarded,
          congrArg (· - 1) h.reclaims_eq, congrArg (· - 1) h.reclaimsHeld_eq⟩
      · have hzero : c.reclaims - 1 = c.reclaims := by
          have := h.reclaimsHeld_eq
          omega
        rw [if_neg hheld, hzero]
        exact h
  | capture row =>
      have hcapture := h.capture_eq row
      refine ⟨congrArg Prod.fst hcapture, ?_⟩
      rw [← hcapture]
      exact h
  | depth =>
      refine ⟨?_, h⟩
      show StackAnswer.number g.stack.depth = .number c.guards.length
      rw [h.depth_eq, h.guarded]
  | isReclaiming =>
      refine ⟨?_, h⟩
      show StackAnswer.flag (0 < g.stack.reclaims) = .flag (0 < c.reclaims)
      rw [h.reclaims_eq]

end Mirrors

/-- A shadow stack of any capacity answers all calls as a call stack without bounds whose frames
cannot be captured while there are more of them than the capacity.  The same guards are held of
both, and there are as many of them as frames. -/
theorem answers_as_call_stack (capacity : Nat) (calls : List StackCall) :
    let shadow := (GuardedStack.empty capacity).answers calls
    let plain := CallStack.empty.answers capacity calls
    shadow.1 = plain.1
    ∧ shadow.2.held = plain.2.guards
    ∧ shadow.2.reclaimsHeld = plain.2.reclaims
    ∧ plain.2.frames.length = plain.2.guards.length := by
  intro shadow plain
  obtain ⟨hanswers, hlast⟩ := replies_alike (Mirrors capacity) Mirrors.answer
    (Mirrors.empty capacity) calls
  exact ⟨hanswers, hlast.held_eq, hlast.reclaimsHeld_eq, hlast.guarded.symm⟩

/-- Past its capacity a stack captures nothing, and back within it the stored frames are exact,
whichever guard was dropped. -/
example : ((GuardedStack.empty 2).answers [.push ⟨1⟩, .push ⟨2⟩, .push ⟨3⟩,
      .capture [⟨9⟩, ⟨9⟩, ⟨9⟩], .drop 0, .capture [⟨9⟩, ⟨9⟩, ⟨9⟩], .depth]).1
    = [.done, .done, .done, .captured [⟨9⟩, ⟨9⟩, ⟨9⟩] 0, .done,
      .captured [⟨2⟩, ⟨1⟩, ⟨9⟩] 2, .number 2] := by
  decide

end SamplingProfiler
