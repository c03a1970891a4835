import Mathlib

/-! # Runs of an event-driven state machine

    A program that reacts to events is a total step function on a state
    type. This module collects what every development on such a program
    needs:

    * `run`: the state after a list of events.
    * `Along`: every event of a run meets a side condition in the state it
      is handled in.
    * The invariant rule (`run_invariant`, and `run_preserves` where there is
      no side condition), its conditional form for states
      and events (`along_of_invariant`) and the simulation rule
      (`run_simulates`).
    * `occurrences`: how many events of a run are of a kind, and the ranking
      rule that bounds them (`run_ranked`).

    Nothing here depends on what the states or the events are. -/

namespace Runs

variable {σ τ ε δ : Type*}

/-! ## Runs -/

/-- The state after the events `es`, handled in order from `s`. -/
def run (step : σ → ε → σ) (s : σ) (es : List ε) : σ :=
  es.foldl step s

section run

variable (step : σ → ε → σ) (s : σ)

@[simp] theorem run_nil : run step s [] = s := rfl

@[simp] theorem run_cons (e : ε) (es : List ε) :
    run step s (e :: es) = run step (step s e) es := rfl

theorem run_append (es es' : List ε) :
    run step s (es ++ es') = run step (run step s es) es' := by
  simp [run, List.foldl_append]

theorem run_snoc (es : List ε) (e : ε) :
    run step s (es ++ [e]) = step (run step s es) e := by
  simp [run_append]

end run

/-! ## Side conditions along a run -/

/-- Every event of the run meets `ok` in the state it is handled in. -/
def Along (step : σ → ε → σ) (ok : σ → ε → Prop) : σ → List ε → Prop
  | _, [] => True
  | s, e :: es => ok s e ∧ Along step ok (step s e) es

section along

variable {step : σ → ε → σ} {ok ok' : σ → ε → Prop} {s : σ} {es es' : List ε}

@[simp] theorem along_nil : Along step ok s [] := trivial

@[simp] theorem along_cons {e : ε} :
    Along step ok s (e :: es) ↔ ok s e ∧ Along step ok (step s e) es := Iff.rfl

theorem along_append :
    Along step ok s (es ++ es') ↔
      Along step ok s es ∧ Along step ok (run step s es) es' := by
  induction es generalizing s with
  | nil => simp
  | cons e es ih => simp [ih, and_assoc]

theorem along_snoc {e : ε} :
    Along step ok s (es ++ [e]) ↔
      Along step ok s es ∧ ok (run step s es) e := by
  simp [along_append]

theorem Along.imp (h : Along step ok s es) (himp : ∀ s e, ok s e → ok' s e) :
    Along step ok' s es := by
  induction es generalizing s with
  | nil => trivial
  | cons e es ih => exact ⟨himp s e h.1, ih h.2⟩

theorem Along.and (h : Along step ok s es) (h' : Along step ok' s es) :
    Along step (fun s e => ok s e ∧ ok' s e) s es := by
  induction es generalizing s with
  | nil => trivial
  | cons e es ih => exact ⟨⟨h.1, h'.1⟩, ih h.2 h'.2⟩

/-- A condition on the events alone. -/
theorem along_of_forall {good : ε → Prop} (h : ∀ e ∈ es, good e) :
    Along step (fun _ e => good e) s es := by
  induction es generalizing s with
  | nil => trivial
  | cons e es ih => exact ⟨h e (by simp), ih fun e' he' => h e' (by simp [he'])⟩

end along

/-! ## Proof rules -/

/-- **Invariant rule.** What one admitted step preserves, a whole run of
    admitted steps preserves. -/
theorem run_invariant {step : σ → ε → σ} {ok : σ → ε → Prop} {P : σ → Prop}
    (hstep : ∀ s e, P s → ok s e → P (step s e))
    {s : σ} {es : List ε} (hs : P s) (hes : Along step ok s es) :
    P (run step s es) := by
  induction es generalizing s with
  | nil => exact hs
  | cons e es ih => exact ih (hstep s e hs hes.1) hes.2

/-- The invariant rule for steps that are all admitted. -/
theorem run_preserves {step : σ → ε → σ} {P : σ → Prop} (hstep : ∀ s e, P s → P (step s e))
    {s : σ} (hs : P s) (es : List ε) : P (run step s es) :=
  run_invariant (fun s e h _ => hstep s e h) hs
    (along_of_forall (fun _ _ => trivial) : Along step (fun _ _ => True) s es)

/-- A side condition that an invariant turns into another one holds along
    the whole run. -/
theorem along_of_invariant {step : σ → ε → σ} {ok ok' : σ → ε → Prop} {P : σ → Prop}
    (hstep : ∀ s e, P s → ok s e → P (step s e))
    (himp : ∀ s e, P s → ok s e → ok' s e)
    {s : σ} {es : List ε} (hs : P s) (hes : Along step ok s es) :
    Along step ok' s es := by
  induction es generalizing s with
  | nil => trivial
  | cons e es ih =>
    exact ⟨himp s e hs hes.1, ih (hstep s e hs hes.1) hes.2⟩

/-- **Simulation rule.** If related states stay related after an admitted
    event and its image, the runs end in related states. -/
theorem run_simulates {step : σ → ε → σ} {step' : τ → δ → τ} {ok : σ → ε → Prop}
    {f : ε → δ} {R : σ → τ → Prop}
    (hstep : ∀ s t e, R s t → ok s e → R (step s e) (step' t (f e)))
    {s : σ} {t : τ} {es : List ε} (hs : R s t) (hes : Along step ok s es) :
    R (run step s es) (run step' t (es.map f)) := by
  induction es generalizing s t with
  | nil => exact hs
  | cons e es ih => exact ih (hstep s t e hs hes.1) hes.2

/-! ## Progress -/

/-- How many events of the run meet `p` in the state they are handled in. -/
def occurrences (step : σ → ε → σ) (p : σ → ε → Prop) [∀ s e, Decidable (p s e)] :
    σ → List ε → Nat
  | _, [] => 0
  | s, e :: es => (if p s e then 1 else 0) + occurrences step p (step s e) es

/-- **Ranking rule.** If no admitted event raises the rank, and those that
    meet `p` lower it, then a run has no more of them than the rank it
    starts with. -/
theorem run_ranked {step : σ → ε → σ} {ok p : σ → ε → Prop} [∀ s e, Decidable (p s e)]
    {P : σ → Prop} {rank : σ → Nat} (hstep : ∀ s e, P s → ok s e → P (step s e))
    (hrank : ∀ s e, P s → ok s e → rank (step s e) + (if p s e then 1 else 0) ≤ rank s)
    {s : σ} {es : List ε} (hs : P s) (hes : Along step ok s es) :
    rank (run step s es) + occurrences step p s es ≤ rank s := by
  induction es generalizing s with
  | nil => exact Nat.le_refl _
  | cons e es ih =>
    have hrest := ih (hstep s e hs hes.1) hes.2
    have hfirst := hrank s e hs hes.1
    rw [run_cons, occurrences]
    omega

end Runs
