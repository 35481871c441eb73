/-
Calls that are answered one after the other.

`replies` makes calls to a state machine, each in the state that the one before has left.  What
holds along such a run is said of one step here once: an invariant that every step keeps
(`replies_keeps`), and a relation under which two machines cannot be told apart
(`replies_alike`).
-/

namespace SamplingProfiler

variable {σ τ α β : Type}

/-- The answers to calls, and the state that the last one leaves. -/
def replies (step : σ → α → β × σ) (s : σ) : List α → List β × σ
  | [] => ([], s)
  | call :: rest =>
    let (first, s) := step s call
    let (others, s) := replies step s rest
    (first :: others, s)

theorem replies_cons (step : σ → α → β × σ) (s : σ) (call : α) (rest : List α) :
    replies step s (call :: rest)
      = ((step s call).1 :: (replies step (step s call).2 rest).1,
        (replies step (step s call).2 rest).2) := rfl

/-- What every step keeps holds at the end of a run. -/
theorem replies_keeps {step : σ → α → β × σ} (P : σ → Prop)
    (hstep : ∀ {s}, P s → ∀ call, P (step s call).2) {s : σ} (h : P s) (calls : List α) :
    P (replies step s calls).2 := by
  induction calls generalizing s with
  | nil => exact h
  | cons call rest ih => exact ih (hstep h call)

/-- Two machines answer a run alike if each step from related states does and relates the states
that it leaves. -/
theorem replies_alike {step : σ → α → β × σ} {step' : τ → α → β × τ} (R : σ → τ → Prop)
    (hstep : ∀ {s t}, R s t → ∀ call,
      (step s call).1 = (step' t call).1 ∧ R (step s call).2 (step' t call).2)
    {s : σ} {t : τ} (h : R s t) (calls : List α) :
    (replies step s calls).1 = (replies step' t calls).1
      ∧ R (replies step s calls).2 (replies step' t calls).2 := by
  induction calls generalizing s t with
  | nil => exact ⟨rfl, h⟩
  | cons call rest ih =>
      obtain ⟨hfirst, hnext⟩ := hstep h call
      obtain ⟨hothers, hlast⟩ := ih hnext
      rw [replies_cons, replies_cons]
      refine ⟨?_, hlast⟩
      dsimp only
      rw [hfirst, hothers]

end SamplingProfiler
