/-
An operation about one sampler leaves all else as it was.

The samplers share the call stack, the settings and what the host says of reclaiming memory.
They only ever look at these.  So whatever an operation does, on whichever way it ends, is
`Confined` to its own sampler, to the timer if that is the CPU sampler, and to the count of
the hash functions that have been drawn.

The parts of operations are looked at one by one, as an operation may be left at any of its
moments.
-/
import SamplingProfiler.Proofs.Interleaving.Turn
import SamplingProfiler.Proofs.Interleaving.Adequacy

namespace SamplingProfiler

variable {ε : Type}

/-- Nothing has changed but one sampler, the timer if that is the CPU sampler, and how many hash
functions have been drawn. -/
structure Confined (kind : SamplerKind) (p q : Process ε) : Prop where
  settings : q.settings = p.settings
  stack : q.stack = p.stack
  heap : q.heap = p.heap
  reportsReclaims : q.reportsReclaims = p.reportsReclaims
  hashers : q.hashers = p.hashers
  host : q.host = p.host
  cpu : kind ≠ .cpu → q.cpu = p.cpu
  timer : kind ≠ .cpu → q.timer = p.timer
  memory : kind ≠ .memory → q.memory = p.memory

namespace Confined

variable {kind : SamplerKind} {p q q' : Process ε}

theorem refl (kind : SamplerKind) (p : Process ε) : Confined kind p p :=
  ⟨rfl, rfl, rfl, rfl, rfl, rfl, fun _ => rfl, fun _ => rfl, fun _ => rfl⟩

theorem trans (h : Confined kind p q) (h' : Confined kind q q') : Confined kind p q' where
  settings := h'.settings.trans h.settings
  stack := h'.stack.trans h.stack
  heap := h'.heap.trans h.heap
  reportsReclaims := h'.reportsReclaims.trans h.reportsReclaims
  hashers := h'.hashers.trans h.hashers
  host := h'.host.trans h.host
  cpu hk := (h'.cpu hk).trans (h.cpu hk)
  timer hk := (h'.timer hk).trans (h.timer hk)
  memory hk := (h'.memory hk).trans (h.memory hk)

/-! ### Small changes -/

theorem of_cpu (cpu : CpuSampler) (timer : Timer) (p : Process ε) :
    Confined .cpu p { p with cpu := cpu, timer := timer } :=
  ⟨rfl, rfl, rfl, rfl, rfl, rfl, fun h => absurd rfl h, fun h => absurd rfl h, fun _ => rfl⟩

theorem of_memory (memory : MemorySampler) (p : Process ε) :
    Confined .memory p { p with memory := memory } :=
  ⟨rfl, rfl, rfl, rfl, rfl, rfl, fun _ => rfl, fun _ => rfl, fun h => absurd rfl h⟩

theorem mapSampler (kind : SamplerKind) (f : Sampler → Sampler) (p : Process ε) :
    Confined kind p (p.mapSampler kind f) := by
  cases kind with
  | cpu => exact of_cpu _ _ p
  | memory => exact of_memory _ p

theorem drawHasher (kind : SamplerKind) (p : Process ε) : Confined kind p p.drawHasher :=
  ⟨rfl, rfl, rfl, rfl, rfl, rfl, fun _ => rfl, fun _ => rfl, fun _ => rfl⟩

theorem setRunning (kind : SamplerKind) (running : Bool) (p : Process ε) :
    Confined kind p (p.setRunning kind running) := mapSampler kind _ p

theorem setLive (kind : SamplerKind) (live : LiveLog) (p : Process ε) :
    Confined kind p (p.setLive kind live) := mapSampler kind _ p

theorem forget (kind : SamplerKind) (p : Process ε) : Confined kind p (p.forget kind) := by
  cases kind with
  | cpu => exact of_cpu _ _ p
  | memory => exact refl _ p

end Confined

open Confined

/-! ### Parts of operations -/

private theorem confined_proceed (request : StartRequest) (fresh : Bool) (p : Process ε) :
    Confined request.kind p (request.proceed fresh p).2 := by
  cases request with
  | cpu milliseconds => exact of_cpu _ _ p
  | memory => exact refl _ p

private theorem confined_arrive (kind : SamplerKind) (weight : Weight) (p : Process ε) :
    Confined kind p (arrive kind weight p).2 := by
  unfold arrive
  cases (p.sampler kind).live with
  | absent => exact refl kind p
  | inUse => exact mapSampler kind (fun s => { s with dropped := s.dropped + 1 }) p
  | ready log => exact setLive kind .inUse p

private theorem confined_handOver (kind : SamplerKind) (prepared : Option BacktraceLog)
    (p : Process ε) : Confined kind p (handOver kind prepared p).2 := by
  by_cases hlive : (p.sampler kind).live = .inUse
  · unfold handOver
    rw [hlive]
    exact refl kind p
  · rw [handOver_apply prepared hlive]
    exact (mapSampler kind _ p).trans (forget kind _)

/-- What an operation does before its first moment. -/
theorem confined_enter {kind : SamplerKind} {operation : Operation ε}
    (hkind : operation.kind? = some kind) (p : Process ε) :
    Confined kind p (operation.enter p).2 := by
  cases operation with
  | start request =>
      obtain rfl : request.kind = kind := Option.some.inj hkind
      unfold Operation.enter
      dsimp only
      split
      · exact refl _ p
      · split
        · exact refl _ p
        · have hraised := setRunning request.kind true p
          cases (p.sampler request.kind).live with
          | inUse => exact hraised
          | absent => exact hraised
          | ready => exact hraised.trans (confined_proceed request false _)
  | stop k =>
      obtain rfl : k = kind := Option.some.inj hkind
      unfold Operation.enter
      dsimp only
      split
      · exact setRunning k false p
      · exact setRunning k false p
  | tick =>
      obtain rfl : SamplerKind.cpu = kind := Option.some.inj hkind
      unfold Operation.enter
      dsimp only
      split
      · split
        · exact refl _ p
        · exact confined_arrive _ _ p
      · exact refl _ p
  | probe size =>
      obtain rfl : SamplerKind.memory = kind := Option.some.inj hkind
      unfold Operation.enter
      dsimp only
      split
      · exact confined_arrive _ _ p
      · exact refl _ p
  | note size =>
      obtain rfl : SamplerKind.memory = kind := Option.some.inj hkind
      have hnoted := of_memory { p.memory with gate := (p.memory.gate.note size).2 } p
      unfold Operation.enter
      dsimp only
      split
      · split
        · exact hnoted.trans (confined_arrive _ _ _)
        · exact hnoted
      · exact refl _ p
  | exportKind k =>
      obtain rfl : k = kind := Option.some.inj hkind
      unfold Operation.enter
      dsimp only
      split
      · exact refl _ p
      · exact confined_handOver k none p
  | host change => cases hkind

/-- What a suspended operation does next. -/
theorem confined_resume (s : Suspended) (p : Process ε) :
    Confined s.kind p (s.resume p).2 := by
  cases s with
  | starting request settings =>
      have hdrawn := drawHasher request.kind p
      unfold Suspended.resume
      dsimp only
      cases settings.newLog p.nextHasher with
      | error e => exact hdrawn
      | ok fresh =>
          dsimp only
          cases (p.sampler request.kind).live with
          | inUse => exact hdrawn
          | ready => exact hdrawn.trans (confined_proceed request false _)
          | absent =>
              have hlive := hdrawn.trans (setLive request.kind (.ready fresh) _)
              exact hlive.trans (confined_proceed request true _)
  | arming milliseconds =>
      unfold Suspended.resume
      dsimp only
      cases p.timer.tryArm milliseconds with
      | ok timer => exact of_cpu p.cpu timer p
      | error e => exact setRunning .cpu false p
  | disarming => exact of_cpu p.cpu p.timer.disarm p
  | asking interval =>
      unfold Suspended.resume
      dsimp only
      split
      · exact of_cpu _ p.timer p
      · exact confined_arrive .cpu interval p
  | recording kind log weight =>
      exact setLive kind (.ready (log.record p.stack.capture weight)) p
  | exporting kind settings =>
      have hdrawn := drawHasher kind p
      unfold Suspended.resume
      dsimp only
      cases settings.newLog p.nextHasher with
      | error e => exact hdrawn
      | ok fresh => exact hdrawn.trans (confined_handOver kind _ _)

/-- What a fault does that passes through a suspended operation. -/
theorem confined_abandon (s : Suspended) (p : Process ε) : Confined s.kind p (s.abandon p) := by
  cases s with
  | recording kind log weight => exact setLive kind (.ready log.loseScratch) p
  | _ => exact refl _ p

/-! ### Steps and whole operations

An operation stays about the sampler that it was called for (`kind_of_enter`, `kind_of_resume`).  So
what its parts leave alone the whole of it leaves alone.
-/

/-- An operation is about the same sampler all along. -/
theorem kind_of_enter {operation : Operation ε} {kind : SamplerKind}
    (hkind : operation.kind? = some kind) {p : Process ε} {s : Suspended}
    (hs : (operation.enter p).1 = .ok (.suspended s)) : s.kind = kind := by
  by_cases heq : s.kind = kind
  · exact heq
  · have hother : operation.kind? ≠ some s.kind := by
      intro h
      rw [hkind] at h
      exact heq (Option.some.inj h).symm
    exact absurd rfl ((elsewhere_enter hother p).suspended s hs)

theorem kind_of_resume {s t : Suspended} {p : Process ε}
    (ht : (s.resume p).1 = .ok (.suspended t)) : t.kind = s.kind := by
  by_cases heq : t.kind = s.kind
  · exact heq
  · exact absurd rfl ((elsewhere_resume (fun h => heq h.symm) p).suspended t ht)

/-- Unless the host does something, a step is confined to one sampler. -/
theorem Weave.Step.confined {w w' : Weave ε} {event : Event ε} {r : Except Fault Outcome}
    (h : Weave.Step w event r w') (hhost : ∀ change, event ≠ .call (.host change)) :
    ∃ kind, Confined kind w.process w'.process := by
  cases h with
  | @call operation p q r pending henter =>
      have hq : (operation.enter p).2 = q := congrArg Prod.snd henter
      cases hkind : operation.kind? with
      | none =>
          cases operation with
          | host change => exact absurd rfl (hhost change)
          | _ => cases hkind
      | some kind => exact ⟨kind, hq ▸ confined_enter hkind p⟩
  | @resume s p q r pending hresume =>
      have hq : (s.resume p).2 = q := congrArg Prod.snd hresume
      exact ⟨s.kind, hq ▸ confined_resume s p⟩
  | @abandon s p fault pending => exact ⟨s.kind, confined_abandon s p⟩

private theorem Carries.confined {kind : SamplerKind} {p : Process ε}
    {x : Except Fault Outcome × Process ε} {y : Except Fault Result × Process ε}
    (h : Carries .quiet x y) (hx : Confined kind p x.2)
    (hs : ∀ s, x.1 = .ok (.suspended s) → s.kind = kind) : Confined kind p y.2 := by
  induction h with
  | returned => exact hx
  | faulted => exact hx
  | @resumed s q q' y hmoment _ ih =>
      obtain ⟨-, rfl⟩ := Prod.mk.inj hmoment
      have hkind : s.kind = kind := hs s rfl
      refine ih (hx.trans (hkind ▸ confined_resume s q)) fun t ht => ?_
      rw [kind_of_resume ht, hkind]
  | abandoned hmoment => cases hmoment

/-- An operation of a process that is left alone is confined to its sampler. -/
theorem confined_perform {kind : SamplerKind} {operation : Operation ε}
    (hkind : operation.kind? = some kind) (p : Process ε) :
    Confined kind p (operation.perform .quiet p).2 :=
  (carries_perform .quiet operation p).confined (confined_enter hkind p) fun _ hs =>
    kind_of_enter hkind hs

end SamplingProfiler
