/-
What a start leaves when it does not succeed.

A start raises the running flag before it has a log and before the timer is armed.  If it is
refused, or the timer cannot be armed, the flag ends as it was.  But if the start gives up
half way, since the log is too large to be made or since what is called at one of its moments
gives up, nothing takes the flag back: a stopped sampler is left running, and cannot be
started again (`running_left_by_panic`).  There is no fourth way for a start to end
(`start_ends`).

The start is looked at alone.  What has happened before it does not matter, since when
nothing is suspended no log is in use that it could have to wait for.
-/
import SamplingProfiler.Proofs.Interleaving.Holding
import SamplingProfiler.Proofs.Interleaving.Adequacy

namespace SamplingProfiler

variable {ε : Type}

/-- No operation of the profiler comes in between: at its moments an operation is left alone,
or what is called there gives up. -/
def Moments.Solitary (moments : Moments ε) : Prop :=
  ∀ moment p, (moments moment p).1 ≠ .error .deadlock ∧
    ∃ host, (moments moment p).2 = { p with host := host }

theorem Moments.solitary_quiet : (Moments.quiet : Moments ε).Solitary :=
  fun _ p => ⟨nofun, p.host, rfl⟩

/-- Why a start is refused. -/
inductive Refusal (request : StartRequest) (p : Process ε) : SamplerError → Prop where
  | invalidInterval (h : request = .cpu 0) : Refusal request p .invalidInterval
  | alreadyRunning (h : (p.sampler request.kind).running = true) :
      Refusal request p (.alreadyRunning request.kind)
  | timer {error : SamplerError} (hkind : request.kind = .cpu) (h : p.timer.fault = some error) :
      Refusal request p error

/-- Why a start gives up. -/
inductive Breakdown (moments : Moments ε) (request : StartRequest) (p : Process ε) :
    String → Prop where
  /-- What is called at a moment gives up, -/
  | moment {message : String} {moment : Moment} {q : Process ε}
      (h : (moments moment q).1 = .error (.panic message)) : Breakdown moments request p message
  /-- or there is no log and none can be made. -/
  | log {fault : LogFault} {hasher : Hasher} (hlive : (p.sampler request.kind).live = .absent)
      (h : p.settings.newLog hasher = .error fault) : Breakdown moments request p fault.message

section

variable {moments : Moments ε} {request : StartRequest} {p q : Process ε}
  {y : Except Fault Result × Process ε}

/-- What is called at a moment returns or gives up, and changes nothing that a start looks at. -/
private theorem Moments.Solitary.moment (h : moments.Solitary) {moment : Moment}
    {r : Except Fault Unit} (hmoment : moments moment p = (r, q)) :
    (r = .ok () ∨ ∃ message, r = .error (.panic message)) ∧ ∃ host, q = { p with host := host } := by
  obtain ⟨hblocked, host, hhost⟩ := h moment p
  rw [hmoment] at hblocked hhost
  refine ⟨?_, host, hhost⟩
  rcases r with (message | _) | _
  · exact .inr ⟨message, rfl⟩
  · exact absurd rfl hblocked
  · exact .inl rfl

/-- How a start ends, seen from the point where the flag is raised. -/
private inductive Concludes (moments : Moments ε) (request : StartRequest) (p : Process ε)
    (y : Except Fault Result × Process ε) : Prop where
  | succeeded (hy : y.1 = .ok (.started (.ok ()))) (hrun : (y.2.sampler request.kind).running = true)
  | refused {error : SamplerError} (hy : y.1 = .ok (.started (.error error)))
      (hrun : (y.2.sampler request.kind).running = false) (hkind : request.kind = .cpu)
      (hfault : p.timer.fault = some error)
  | brokeDown {message : String} (hy : y.1 = .error (.panic message))
      (hrun : (y.2.sampler request.kind).running = true)
      (hwhy : Breakdown moments request p message)

/-- A start that has a log arms the timer, or cannot, or what is called then gives up. -/
private theorem concludes_of_proceed (hsolitary : moments.Solitary) {fresh : Bool}
    (hrun : (q.sampler request.kind).running = true) (hfault : q.timer.fault = p.timer.fault)
    (h : Carries moments (request.proceed fresh q) y) : Concludes moments request p y := by
  cases request with
  | memory =>
      cases h
      exact .succeeded rfl hrun
  | cpu milliseconds =>
      cases h with
      | abandoned hmoment =>
          obtain ⟨hends, host, rfl⟩ := hsolitary.moment hmoment
          rcases hends with hok | ⟨message, herror⟩
          · cases hok
          · cases herror
            exact .brokeDown rfl hrun (.moment (congrArg Prod.fst hmoment))
      | resumed hmoment hrest =>
          obtain ⟨-, host, rfl⟩ := hsolitary.moment hmoment
          unfold Suspended.resume Timer.tryArm at hrest
          dsimp only at hrest
          cases htimer : q.timer.fault with
          | none =>
              rw [htimer] at hrest
              cases hrest
              exact .succeeded rfl hrun
          | some error =>
              rw [htimer] at hrest
              cases hrest
              exact .refused rfl rfl rfl (hfault.symm.trans htimer)

/-- A start without a log makes one first, if it can and if what is called then lets it. -/
private theorem concludes_of_starting (hsolitary : moments.Solitary)
    (hlive : (p.sampler request.kind).live = .absent)
    (h : Carries moments (.ok (.suspended (.starting request p.settings)),
      p.setRunning request.kind true) y) : Concludes moments request p y := by
  have hraised : ((p.setRunning request.kind true).sampler request.kind).running = true := by
    simp [Process.setRunning]
  have habsent : ((p.setRunning request.kind true).sampler request.kind).live = .absent := by
    simpa [Process.setRunning] using hlive
  have hfault : (p.setRunning request.kind true).timer = p.timer := by
    simp [Process.setRunning]
  generalize p.setRunning request.kind true = raised at hraised habsent hfault h
  cases h with
  | abandoned hmoment =>
      obtain ⟨hends, host, rfl⟩ := hsolitary.moment hmoment
      rcases hends with hok | ⟨message, herror⟩
      · cases hok
      · cases herror
        refine .brokeDown rfl ?_ (.moment (congrArg Prod.fst hmoment))
        cases request <;> exact hraised
  | resumed hmoment hrest =>
      obtain ⟨-, host, rfl⟩ := hsolitary.moment hmoment
      unfold Suspended.resume at hrest
      dsimp only at hrest
      generalize Process.nextHasher _ = hasher at hrest
      cases hmade : p.settings.newLog hasher with
      | error fault =>
          rw [hmade] at hrest
          cases hrest
          refine .brokeDown rfl ?_ (.log hlive hmade)
          cases request <;> exact hraised
      | ok fresh =>
          have hlive' : (({ raised with host := host } : Process ε).sampler request.kind).live
              = .absent := by
            cases request <;> exact habsent
          rw [hmade] at hrest
          dsimp only at hrest
          rw [hlive'] at hrest
          refine concludes_of_proceed hsolitary ?_ ?_ hrest
          · cases request <;> exact hraised
          · rw [← hfault]
            cases request <;> rfl

end

/-- However the process has come about, a start that is called when nothing is suspended, and
at whose moments no operation comes in between, ends in one of three ways.
It succeeds, and a stopped sampler runs;
it is refused, and the sampler runs if and only if it ran before;
or it gives up, and then a stopped sampler is left running. -/
theorem start_ends {config : Config} {stackCapacity : Nat} {reportsReclaims : Bool}
    {hashers : HashFamily} {host : ε} {p₀ p : Process ε} {os : List (Occurrence ε)}
    (hidle : Process.idle config stackCapacity reportsReclaims hashers host = .ok p₀)
    (hrun : Weave.Run ⟨p₀, []⟩ os ⟨p, []⟩) (request : StartRequest) {moments : Moments ε}
    (hsolitary : moments.Solitary) :
    let y := (Operation.start request).perform moments p
    let before := (p.sampler request.kind).running
    let after := (y.2.sampler request.kind).running
    (y.1 = .ok (.started (.ok ())) ∧ before = false ∧ after = true)
    ∨ (∃ error, y.1 = .ok (.started (.error error)) ∧ after = before ∧ Refusal request p error)
    ∨ ∃ message, y.1 = .error (.panic message) ∧ before = false ∧ after = true
      ∧ Breakdown moments request p message := by
  have hfree := hrun.live_ne_inUse hidle request.kind
  have h := carries_perform moments (.start request) p
  revert h
  generalize (Operation.start request).perform moments p = y
  intro h
  dsimp only
  unfold Operation.enter at h
  dsimp only at h
  by_cases hzero : request = .cpu 0
  · rw [if_pos hzero] at h
    cases h
    exact .inr (.inl ⟨_, rfl, rfl, .invalidInterval hzero⟩)
  rw [if_neg hzero] at h
  by_cases hrunning : (p.sampler request.kind).running = true
  · rw [if_pos hrunning] at h
    cases h
    exact .inr (.inl ⟨_, rfl, rfl, .alreadyRunning hrunning⟩)
  rw [if_neg hrunning] at h
  have hbefore : (p.sampler request.kind).running = false := by simpa using hrunning
  have hconcludes : Concludes moments request p y := by
    cases hlive : (p.sampler request.kind).live with
    | inUse => exact absurd hlive hfree
    | absent =>
        rw [hlive] at h
        exact concludes_of_starting hsolitary hlive h
    | ready log =>
        rw [hlive] at h
        refine concludes_of_proceed hsolitary ?_ ?_ h
        · simp [Process.setRunning]
        · simp [Process.setRunning]
  rw [hbefore]
  cases hconcludes with
  | succeeded hy hafter => exact .inl ⟨hy, rfl, hafter⟩
  | refused hy hafter hkind hfault => exact .inr (.inl ⟨_, hy, hafter, .timer hkind hfault⟩)
  | brokeDown hy hafter hwhy => exact .inr (.inr ⟨_, hy, rfl, hafter, hwhy⟩)

/-- For instance, a sampler whose timer is taken by another is still stopped after it could not
be started. -/
theorem start_ends_timer_taken :
    ∃ (p₀ p : Process Unit) (os : List (Occurrence Unit)),
      Process.idle { logCapacity := 1, maxStackDepth := 1 } 1 true .mixing () = .ok p₀
      ∧ Weave.Run ⟨p₀, []⟩ os ⟨p, []⟩
      ∧ ((Operation.start (.cpu (.ofNat 10))).perform .quiet p).1
        = .ok (.started (.error .timerHookTaken))
      ∧ (((Operation.start (.cpu (.ofNat 10))).perform .quiet p).2.sampler .cpu).running = false := by
  obtain ⟨p₀, hidle⟩ : ∃ p : Process Unit,
      Process.idle { logCapacity := 1, maxStackDepth := 1 } 1 true .mixing () = .ok p := ⟨_, rfl⟩
  have hp := Process.eq_of_idle hidle
  have hrun := Weave.run_play (⟨p₀, []⟩ : Weave Unit)
    [.call (.host (.ofFault (some .timerHookTaken)))]
  have hresult : ((Operation.start (.cpu (.ofNat 10))).perform .quiet
      { p₀ with timer := { p₀.timer with fault := some .timerHookTaken } }).1
        = .ok (.started (.error .timerHookTaken)) := by
    rw [hp]
    rfl
  refine ⟨p₀, _, _, hidle, hrun, hresult, ?_⟩
  rcases start_ends hidle hrun (.cpu (.ofNat 10)) Moments.solitary_quiet with
    ⟨hok, -⟩ | ⟨error, -, hafter, -⟩ | ⟨message, hpanic, -⟩
  · cases hok.symm.trans hresult
  · rw [hp] at hafter
    exact hp ▸ hafter
  · cases hpanic.symm.trans hresult

/-- A start that gives up leaves a stopped sampler running: the next one is refused for that. -/
theorem running_left_by_panic :
    ∃ p : Process Unit,
      Process.idle { logCapacity := 2, maxStackDepth := 0x8000000000000000 } 1 true .mixing ()
        = .ok p
      ∧ (p.sampler .cpu).running = false
      ∧ let y := (Operation.start (.cpu (.ofNat 10))).perform .quiet p
        y.1 = .error (.panic LogFault.frameCountOverflow.message)
        ∧ (y.2.sampler .cpu).running = true
        ∧ ((Operation.start (.cpu (.ofNat 10))).perform .quiet y.2).1
          = .ok (.started (.error (.alreadyRunning .cpu))) :=
  ⟨_, rfl, rfl, rfl, rfl, rfl⟩

end SamplingProfiler
