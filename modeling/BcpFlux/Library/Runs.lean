import Mathlib.Data.List.Basic

/-! # Runs of deterministic machines

Choices of the environment are part of the event, so one list of events is one
interleaving.  `run` threads a state, `runLog` also collects what each step
emits, and `Along` states a condition on every step of a run, in the state in
which the step is taken.
-/

namespace BcpFlux.Library

variable {σ ε ο : Type*}

section State
variable (step : σ → ε → σ)

def run (s : σ) (es : List ε) : σ := es.foldl step s

/-- Every step of the run from `s` satisfies `ok` in the state it starts from. -/
def Along (ok : σ → ε → Prop) : σ → List ε → Prop
  | _, [] => True
  | s, e :: es => ok s e ∧ Along ok (step s e) es

instance Along.decidable (ok : σ → ε → Prop) [∀ s e, Decidable (ok s e)] :
    (s : σ) → (es : List ε) → Decidable (Along step ok s es)
  | _, [] => isTrue trivial
  | s, e :: es =>
    have := Along.decidable ok (step s e) es
    inferInstanceAs (Decidable (ok s e ∧ Along step ok (step s e) es))

@[simp] theorem run_nil (s : σ) : run step s [] = s := rfl

@[simp] theorem run_cons (s : σ) (e : ε) (es : List ε) :
    run step s (e :: es) = run step (step s e) es := rfl

theorem run_append (s : σ) (es es' : List ε) :
    run step s (es ++ es') = run step (run step s es) es' := List.foldl_append

theorem along_of_forall {ok : ε → Prop} {es : List ε} (h : ∀ e ∈ es, ok e) (s : σ) :
    Along step (fun _ e => ok e) s es := by
  induction es generalizing s with
  | nil => trivial
  | cons e es ih =>
    exact ⟨h e List.mem_cons_self, ih (fun e' he' => h e' (List.mem_cons_of_mem e he')) _⟩

theorem along_true (s : σ) (es : List ε) : Along step (fun _ _ => True) s es :=
  along_of_forall step (fun _ _ => trivial) s

theorem along_and {ok ok' : σ → ε → Prop} {s : σ} {es : List ε} (h : Along step ok s es)
    (h' : Along step ok' s es) : Along step (fun s e => ok s e ∧ ok' s e) s es := by
  induction es generalizing s with
  | nil => trivial
  | cons e es ih => exact ⟨⟨h.1, h'.1⟩, ih h.2 h'.2⟩

theorem along_mono {ok ok' : σ → ε → Prop} {s : σ} {es : List ε} (h : Along step ok s es)
    (himp : ∀ s e, ok s e → ok' s e) : Along step ok' s es := by
  induction es generalizing s with
  | nil => trivial
  | cons e es ih => exact ⟨himp s e h.1, ih h.2⟩

/-- A condition on every step that an invariant turns into another one. -/
theorem along_invariant (I : σ → Prop) {ok ok' : σ → ε → Prop}
    (hstep : ∀ s e, ok s e → I s → I (step s e)) (himp : ∀ s e, I s → ok s e → ok' s e)
    {s : σ} (h : I s) {es : List ε} (hes : Along step ok s es) : Along step ok' s es := by
  induction es generalizing s with
  | nil => trivial
  | cons e es ih => exact ⟨himp s e h hes.1, ih (hstep s e hes.1 h) hes.2⟩

/-- Invariant rule: what every admissible step preserves holds after the run. -/
theorem run_invariant (I : σ → Prop) (ok : σ → ε → Prop)
    (hstep : ∀ s e, ok s e → I s → I (step s e))
    {s : σ} (h : I s) {es : List ε} (hes : Along step ok s es) : I (run step s es) := by
  induction es generalizing s with
  | nil => exact h
  | cons e es ih => exact ih (hstep s e hes.1 h) hes.2

end State

section Log
variable (step : σ → ε → σ × List ο)

/-- The state after a list of events, and everything logged on the way. -/
def runLog : σ → List ε → σ × List ο
  | s, [] => (s, [])
  | s, e :: es =>
    let rest := runLog (step s e).1 es
    (rest.1, (step s e).2 ++ rest.2)

theorem runLog_cons (s : σ) (e : ε) (es : List ε) :
    runLog step s (e :: es) =
      ((runLog step (step s e).1 es).1, (step s e).2 ++ (runLog step (step s e).1 es).2) := rfl

theorem runLog_invariant (I : σ → List ο → Prop) (ok : σ → ε → Prop)
    (hstep : ∀ s log e, ok s e → I s log → I (step s e).1 (log ++ (step s e).2))
    {s : σ} {log : List ο} (h : I s log) {es : List ε}
    (hes : Along (fun s e => (step s e).1) ok s es) :
    I (runLog step s es).1 (log ++ (runLog step s es).2) := by
  induction es generalizing s log with
  | nil => simpa [runLog] using h
  | cons e es ih =>
    rw [runLog_cons, ← List.append_assoc]
    exact ih (hstep s log e hes.1 h) hes.2

end Log

end BcpFlux.Library
