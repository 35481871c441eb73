/-
The samplers do not interfere.

An operation about one sampler is confined to that, so it takes a process to a twin for the
other sampler (`Twin.of_confined`).  An operation about the other sampler has the same answer
in twins (`Twin.perform`).  What the host does leaves twins, as long as it looks at no sampler.
Hence it makes no difference to one sampler if operations about the other are deleted
(`samplers_independent`).
-/
import SamplingProfiler.Proofs.Independence.Twins
import SamplingProfiler.Proofs.Interleaving.Confined
import SamplingProfiler.Proofs.Replay.Book

namespace SamplingProfiler

variable {ε : Type}

/-! ### Whole operations -/

/-- The answers cannot be told apart. -/
inductive SameAnswer : Except Fault Result → Except Fault Result → Prop where
  | same {answer : Except Fault Result} : SameAnswer answer answer
  | exported {s t : Snapshot} (hst : s.Alike t) :
      SameAnswer (.ok (.exported s)) (.ok (.exported t))

/-- What the host does looks at no sampler, neither for what the samplers share nor for whether
arming the timer fails. -/
structure HostChange.Blind (change : HostChange ε) : Prop where
  shares : ∀ p q, Shares p q → Shares (change.apply p) (change.apply q)
  fault : ∀ p q, Shares p q → p.timer.fault = q.timer.fault →
    (change.apply p).timer.fault = (change.apply q).timer.fault

/-- So it is with what the host does to its stack, its settings, its heap and what else it keeps. -/
theorem HostChange.blind_ofStack (f : ShadowStack → ShadowStack) :
    (ofStack f : HostChange ε).Blind :=
  ⟨fun _ _ h => ⟨h.settings, congrArg f h.stack, h.heap, h.reportsReclaims, h.host⟩,
    fun _ _ _ h => h⟩

theorem HostChange.blind_ofSettings (f : LogSettings → LogSettings) :
    (ofSettings f : HostChange ε).Blind :=
  ⟨fun _ _ h => ⟨congrArg f h.settings, h.stack, h.heap, h.reportsReclaims, h.host⟩,
    fun _ _ _ h => h⟩

theorem HostChange.blind_ofHeap (f : List Nat → List Nat) : (ofHeap f : HostChange ε).Blind :=
  ⟨fun _ _ h => ⟨h.settings, h.stack, congrArg f h.heap, h.reportsReclaims, h.host⟩,
    fun _ _ _ h => h⟩

theorem HostChange.blind_ofHost (f : ε → ε) : (ofHost f).Blind :=
  ⟨fun _ _ h => ⟨h.settings, h.stack, h.heap, h.reportsReclaims, congrArg f h.host⟩,
    fun _ _ _ h => h⟩

theorem HostChange.blind_ofFault (fault : Option SamplerError) :
    (ofFault fault : HostChange ε).Blind :=
  ⟨fun _ _ h => ⟨h.settings, h.stack, h.heap, h.reportsReclaims, h.host⟩, fun _ _ _ _ => rfl⟩

section

variable {kind : SamplerKind} {p p' q q' : Process ε}

private theorem Alongside.carries {x x' : Except Fault Outcome × Process ε}
    {y y' : Except Fault Result × Process ε} (h : Alongside kind x x')
    (hy : Carries .quiet x y) (hy' : Carries .quiet x' y') :
    SameAnswer y.1 y'.1 ∧ Twin kind y.2 y'.2 := by
  induction hy generalizing x' with
  | returned result p =>
      cases h with
      | returned htwin =>
          cases hy'
          exact ⟨.same, htwin⟩
      | exported hst htwin =>
          cases hy'
          exact ⟨.exported hst, htwin⟩
  | faulted e p =>
      cases h with
      | faulted htwin =>
          cases hy'
          exact ⟨.same, htwin⟩
  | resumed hmoment hrest ih =>
      obtain ⟨-, rfl⟩ := Prod.mk.inj hmoment
      cases h with
      | suspended hst hkind htwin =>
          subst hkind
          cases hy' with
          | resumed hmoment' hrest' =>
              obtain ⟨-, rfl⟩ := Prod.mk.inj hmoment'
              exact ih (htwin.resume hst) hrest'
          | abandoned hmoment' => cases hmoment'
  | abandoned hmoment => cases hmoment

/-- An operation about the sampler has the same answer in twins, and leaves twins. -/
theorem Twin.perform (h : Twin kind p q) {operation : Operation ε}
    (hkind : operation.kind? = some kind) :
    SameAnswer (operation.perform .quiet p).1 (operation.perform .quiet q).1
      ∧ Twin kind (operation.perform .quiet p).2 (operation.perform .quiet q).2 :=
  (h.enter hkind).carries (carries_perform .quiet operation p) (carries_perform .quiet operation q)

/-- What is confined to the other sampler does not matter. -/
theorem Twin.of_confined (h : Twin kind p q) {other : SamplerKind} (hother : other ≠ kind)
    (hp : Confined other p p') (hq : Confined other q q') : Twin kind p' q' := by
  have hshares : Shares p' q' := by
    refine ⟨?_, ?_, ?_, ?_, ?_⟩
    · rw [hp.settings, hq.settings, h.settings]
    · rw [hp.stack, hq.stack, h.stack]
    · rw [hp.heap, hq.heap, h.heap]
    · rw [hp.reportsReclaims, hq.reportsReclaims, h.reportsReclaims]
    · rw [hp.host, hq.host, h.host]
  obtain ⟨-, hsampler, hinterval, hreclaimed, hgate, htimer⟩ := h
  cases kind with
  | cpu =>
      have hcpu : p'.cpu = p.cpu := hp.cpu hother
      have hcpu' : q'.cpu = q.cpu := hq.cpu hother
      refine ⟨hshares, ?_, ?_, ?_, nofun, fun _ => ?_⟩
      · unfold Process.sampler
        rw [hcpu, hcpu']
        exact hsampler
      · unfold Process.intervalOf
        rw [hcpu, hcpu']
        exact hinterval
      · unfold Process.reclaimedBy
        rw [hcpu, hcpu']
        exact hreclaimed
      · rw [hp.timer hother, hq.timer hother]
        exact htimer rfl
  | memory =>
      have hmemory : p'.memory = p.memory := hp.memory hother
      have hmemory' : q'.memory = q.memory := hq.memory hother
      refine ⟨hshares, ?_, rfl, rfl, fun _ => ?_, nofun⟩
      · unfold Process.sampler
        rw [hmemory, hmemory']
        exact hsampler
      · rw [hmemory, hmemory']
        exact hgate rfl

/-- What the host does leaves twins, if it looks at no sampler. -/
theorem Twin.change (h : Twin kind p q) {change : HostChange ε} (hblind : change.Blind) :
    Twin kind (change.apply p) (change.apply q) := by
  have hshares := hblind.shares p q h.toShares
  obtain ⟨hbefore, hsampler, hinterval, hreclaimed, hgate, htimer⟩ := h
  refine ⟨hshares, ?_, ?_, ?_, fun hkind => ?_, fun hkind => ?_⟩
  · cases kind with
    | cpu =>
        unfold Process.sampler
        rw [change.cpu_apply, change.cpu_apply]
        exact hsampler
    | memory =>
        unfold Process.sampler
        rw [change.memory_apply, change.memory_apply]
        exact hsampler
  · unfold Process.intervalOf
    rw [change.cpu_apply, change.cpu_apply]
    exact hinterval
  · unfold Process.reclaimedBy
    rw [change.cpu_apply, change.cpu_apply]
    exact hreclaimed
  · rw [change.memory_apply, change.memory_apply]
    exact hgate hkind
  · have hbefore' := htimer hkind
    have harmed : (change.apply p).timer.armed = (change.apply q).timer.armed := by
      rw [change.armed_apply, change.armed_apply, hbefore']
    have hfault := hblind.fault p q hbefore (congrArg Timer.fault hbefore')
    calc (change.apply p).timer
        = ⟨(change.apply p).timer.armed, (change.apply p).timer.fault⟩ := rfl
      _ = ⟨(change.apply q).timer.armed, (change.apply q).timer.fault⟩ := by rw [harmed, hfault]

end

/-! ### Runs

The whole run and the run with operations deleted are compared operation by operation.  Where one
is deleted the two processes part, but in the other sampler only, and so they stay twins.
-/

/-- The answers of the operations about a sampler that are called one after the other. -/
def Process.answers (kind : SamplerKind) (p : Process ε) (operations : List (Operation ε)) :
    List (Except Fault Result) :=
  (p.calls operations).filterMap fun c =>
    if c.operation.kind? = some kind then some (c.operation.perform .quiet c.process).1 else none

/-- Operations about the other sampler are deleted. -/
inductive Deletes (kind : SamplerKind) : List (Operation ε) → List (Operation ε) → Prop where
  | nil : Deletes kind [] []
  /-- An operation is kept.  What the host does looks at no sampler. -/
  | keep {operation : Operation ε} {operations kept : List (Operation ε)}
      (hblind : ∀ change, operation = .host change → change.Blind)
      (rest : Deletes kind operations kept) :
      Deletes kind (operation :: operations) (operation :: kept)
  /-- An operation about the other sampler is deleted, -/
  | delete {other : SamplerKind} {operation : Operation ε} {operations kept : List (Operation ε)}
      (hother : other ≠ kind) (hkind : operation.kind? = some other)
      (rest : Deletes kind operations kept) : Deletes kind (operation :: operations) kept
  /-- and so is what makes arming the timer of the CPU sampler fail, or succeed again. -/
  | deleteFault {fault : Option SamplerError} {operations kept : List (Operation ε)}
      (hkind : kind = .memory) (rest : Deletes kind operations kept) :
      Deletes kind (.host (.ofFault fault) :: operations) kept

theorem Process.answers_cons (kind : SamplerKind) (p : Process ε) (operation : Operation ε)
    (rest : List (Operation ε)) :
    p.answers kind (operation :: rest)
      = (if operation.kind? = some kind then [(operation.perform .quiet p).1] else [])
        ++ (operation.perform .quiet p).2.answers kind rest := by
  show List.filterMap _ (⟨operation, p⟩ :: (operation.perform .quiet p).2.calls rest) = _
  rw [List.filterMap_cons]
  by_cases hkind : operation.kind? = some kind
  · simp only [if_pos hkind]
    rfl
  · simp only [if_neg hkind]
    rfl

/-- A deletion makes no difference to a twin, and leaves twins. -/
theorem Deletes.answers {kind : SamplerKind} {operations kept : List (Operation ε)}
    (h : Deletes kind operations kept) {p q : Process ε} (htwin : Twin kind p q) :
    List.Forall₂ SameAnswer (p.answers kind operations) (q.answers kind kept)
      ∧ Twin kind (p.after operations) (q.after kept) := by
  induction h generalizing p q with
  | nil => exact ⟨.nil, htwin⟩
  | @keep operation operations kept hblind _ ih =>
      rw [Process.answers_cons, Process.answers_cons]
      by_cases hkind : operation.kind? = some kind
      · obtain ⟨hanswer, hnext⟩ := htwin.perform hkind
        obtain ⟨hanswers, hlast⟩ := ih hnext
        rw [if_pos hkind, if_pos hkind]
        exact ⟨.cons hanswer hanswers, hlast⟩
      · rw [if_neg hkind, if_neg hkind]
        refine ih ?_
        cases hother : operation.kind? with
        | some other =>
            have hne : other ≠ kind := fun heq => hkind (heq ▸ hother)
            exact htwin.of_confined hne (confined_perform hother p) (confined_perform hother q)
        | none =>
            cases operation with
            | host change => exact htwin.change (hblind change rfl)
            | _ => cases hother
  | @delete other operation operations kept hother hkind _ ih =>
      have hne : operation.kind? ≠ some kind := by
        rw [hkind]
        exact fun heq => hother (Option.some.inj heq)
      rw [Process.answers_cons, if_neg hne]
      exact ih (htwin.of_confined hother (confined_perform hkind p) (.refl other q))
  | @deleteFault fault operations kept hkind _ ih =>
      subst hkind
      rw [Process.answers_cons, if_neg nofun]
      exact ih ⟨⟨htwin.settings, htwin.stack, htwin.heap, htwin.reportsReclaims, htwin.host⟩,
        htwin.sampler, rfl, rfl, htwin.gate, nofun⟩

/-- A process that has done nothing is its own twin. -/
theorem twin_idle {kind : SamplerKind} {config : Config} {stackCapacity : Nat}
    {reportsReclaims : Bool} {hashers : HashFamily} {host : ε} {p : Process ε}
    (hidle : Process.idle config stackCapacity reportsReclaims hashers host = .ok p) :
    Twin kind p p := by
  have hlive : (p.sampler kind).live = .absent := by
    rw [Process.eq_of_idle hidle]
    cases kind <;> rfl
  have hsame : (p.sampler kind).live.Same (p.sampler kind).live := by
    rw [hlive]
    exact .absent
  exact ⟨⟨rfl, rfl, rfl, rfl, rfl⟩, ⟨rfl, hsame, rfl⟩, rfl, rfl, fun _ => rfl, fun _ => rfl⟩

/-- If operations about one sampler are deleted from those that a process is left alone with,
the answers of the other are the same, its snapshots cannot be told apart, and in the end it is
as it would be otherwise: running or not, with the same log, gate, interval and timer.
No operation about a sampler changes the call stack, whether memory is being reclaimed, or the
settings. -/
theorem samplers_independent {kind : SamplerKind} {config : Config} {stackCapacity : Nat}
    {reportsReclaims : Bool} {hashers : HashFamily} {host : ε} {p : Process ε}
    (hidle : Process.idle config stackCapacity reportsReclaims hashers host = .ok p)
    {operations kept : List (Operation ε)} (h : Deletes kind operations kept) :
    List.Forall₂ SameAnswer (p.answers kind operations) (p.answers kind kept)
    ∧ Twin kind (p.after operations) (p.after kept)
    ∧ ∀ (operation : Operation ε) (q : Process ε), operation.kind?.isSome = true →
      let q' := (operation.perform .quiet q).2
      q'.stack = q.stack ∧ q'.reportsReclaims = q.reportsReclaims ∧ q'.settings = q.settings := by
  obtain ⟨hanswers, hlast⟩ := h.answers (twin_idle hidle)
  refine ⟨hanswers, hlast, fun operation q hkind => ?_⟩
  obtain ⟨other, hother⟩ := Option.isSome_iff_exists.mp hkind
  have hconfined := confined_perform hother q
  exact ⟨hconfined.stack, hconfined.reportsReclaims, hconfined.settings⟩

/-- For instance, all that is done with the CPU sampler is deleted, so that the log of the memory
sampler gets another hash function. -/
theorem samplers_independent_of_memory :
    ∃ (p : Process Unit) (operations kept : List (Operation Unit)) (s t : Snapshot),
      Process.idle { logCapacity := 2, maxStackDepth := 1 } 2 true .mixing () = .ok p
      ∧ Deletes .memory operations kept ∧ operations.length = 9 ∧ kept.length = 4
      ∧ p.answers .memory operations
        = [.ok (.started (.ok ())), .ok .done, .ok (.exported s)]
      ∧ p.answers .memory kept = [.ok (.started (.ok ())), .ok .done, .ok (.exported t)]
      ∧ s.entries = [⟨[⟨7⟩], .ofNat 5⟩]
      ∧ List.Forall₂ SameAnswer [.ok (.started (.ok ())), .ok .done, .ok (.exported s)]
        [.ok (.started (.ok ())), .ok .done, .ok (.exported t)] := by
  obtain ⟨p, hidle⟩ : ∃ p : Process Unit,
      Process.idle { logCapacity := 2, maxStackDepth := 1 } 2 true .mixing () = .ok p := ⟨_, rfl⟩
  have hp := Process.eq_of_idle hidle
  generalize hoperations : ([
    .host (.ofStack (·.enter ⟨7⟩)), .start (.cpu (.ofNat 10)), .tick,
    .host (.ofFault (some .timerHookTaken)), .start .memory, .exportKind .cpu,
    .probe (.ofNat 5), .stop .cpu, .exportKind .memory] : List (Operation Unit)) = operations
  generalize hkept : ([
    .host (.ofStack (·.enter ⟨7⟩)), .start .memory, .probe (.ofNat 5),
    .exportKind .memory] : List (Operation Unit)) = kept
  have hdeletes : Deletes .memory operations kept := by
    rw [← hoperations, ← hkept]
    refine .keep (fun change heq => ?_) (.delete (nofun : SamplerKind.cpu ≠ .memory) rfl ?_)
    · rw [← Operation.host.inj heq]
      exact HostChange.blind_ofStack _
    · refine .delete (nofun : SamplerKind.cpu ≠ .memory) rfl (.deleteFault rfl (.keep nofun ?_))
      refine .delete (nofun : SamplerKind.cpu ≠ .memory) rfl (.keep nofun ?_)
      exact .delete (nofun : SamplerKind.cpu ≠ .memory) rfl (.keep nofun .nil)
  obtain ⟨s, hs, hentries⟩ : ∃ s, p.answers .memory operations
      = [.ok (.started (.ok ())), .ok .done, .ok (.exported s)]
      ∧ s.entries = [⟨[⟨7⟩], .ofNat 5⟩] := by
    rw [← hoperations, hp]
    exact ⟨_, rfl, rfl⟩
  obtain ⟨t, ht⟩ : ∃ t, p.answers .memory kept
      = [.ok (.started (.ok ())), .ok .done, .ok (.exported t)] := by
    rw [← hkept, hp]
    exact ⟨_, rfl⟩
  have hsame := (samplers_independent hidle hdeletes).1
  rw [hs, ht] at hsame
  refine ⟨p, operations, kept, s, t, hidle, hdeletes, ?_, ?_, hs, ht, hentries, hsame⟩
  · rw [← hoperations]
    rfl
  · rw [← hkept]
    rfl

end SamplingProfiler
