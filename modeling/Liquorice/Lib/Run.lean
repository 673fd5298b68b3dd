import Mathlib.Data.List.Basic

/-!
# Runs of a deterministic system driven by events

A system is a step function `step : σ → ε → σ`; a run is a start state and a list of events, and
every choice of the environment is part of an event. `Along step ok` says that each event of a run
is `ok` in the state where it happens, and `Throughout step P` that `P` holds in every state the
run passes through, the first and the last included.

`throughout_of_invariant` is the usual induction: an invariant that holds at the start and is kept
by every `ok` event holds throughout. `throughout_iff_along` is its sharp form, for a property that
is lost at once by the first event that is not good: the property holds throughout the run exactly
when every event of the run is good.
-/

namespace Liquorice.Run

universe u v

variable {σ : Type u} {ε : Type v}

/-- The state reached from `s` by the events `es`. -/
def exec (step : σ → ε → σ) (s : σ) (es : List ε) : σ := es.foldl step s

/-- Every event of the run is `ok` in the state where it happens. -/
def Along (step : σ → ε → σ) (ok : σ → ε → Prop) : σ → List ε → Prop
  | _, [] => True
  | s, e :: es => ok s e ∧ Along step ok (step s e) es

/-- `P` holds in every state the run passes through. -/
def Throughout (step : σ → ε → σ) (P : σ → Prop) : σ → List ε → Prop
  | s, [] => P s
  | s, e :: es => P s ∧ Throughout step P (step s e) es

instance Along.decidable (step : σ → ε → σ) (ok : σ → ε → Prop) [h : ∀ s e, Decidable (ok s e)] :
    ∀ (s : σ) (es : List ε), Decidable (Along step ok s es)
  | _, [] => isTrue trivial
  | s, e :: es =>
    have : Decidable (Along step ok (step s e) es) := Along.decidable step ok (step s e) es
    inferInstanceAs (Decidable (ok s e ∧ Along step ok (step s e) es))

variable {step : σ → ε → σ} {ok good : σ → ε → Prop} {P Inv : σ → Prop} {es : List ε} {s : σ}

@[simp] theorem exec_nil (s : σ) : exec step s [] = s := rfl

@[simp] theorem exec_cons (s : σ) (e : ε) (es : List ε) :
    exec step s (e :: es) = exec step (step s e) es := rfl

theorem exec_append (s : σ) (es es' : List ε) :
    exec step s (es ++ es') = exec step (exec step s es) es' := by
  simp [exec]

/-- A run splits at any point into two runs. -/
theorem along_append (s : σ) (es es' : List ε) :
    Along step ok s (es ++ es') ↔ Along step ok s es ∧ Along step ok (exec step s es) es' := by
  induction es generalizing s with
  | nil => simp [Along]
  | cons e es ih => simp [List.cons_append, Along, exec_cons, ih, and_assoc]

/-- Conditions on events combine. -/
theorem Along.and (h : Along step ok s es) (h' : Along step good s es) :
    Along step (fun s e => ok s e ∧ good s e) s es := by
  induction es generalizing s with
  | nil => trivial
  | cons e es ih => exact ⟨⟨h.1, h'.1⟩, ih h.2 h'.2⟩

theorem Along.mono (h : Along step ok s es) (himp : ∀ s e, ok s e → good s e) :
    Along step good s es := by
  induction es generalizing s with
  | nil => trivial
  | cons e es ih => exact ⟨himp s e h.1, ih h.2⟩

theorem along_of_forall (h : ∀ e ∈ es, ∀ s, ok s e) (s : σ) : Along step ok s es := by
  induction es generalizing s with
  | nil => trivial
  | cons e es ih =>
    exact ⟨h e List.mem_cons_self s, ih (fun e' he' => h e' (List.mem_cons_of_mem _ he')) _⟩

/-- What holds throughout a run holds at its end. -/
theorem Throughout.last (h : Throughout step P s es) : P (exec step s es) := by
  induction es generalizing s with
  | nil => exact h
  | cons e es ih => exact ih h.2

/-- **The invariant rule.** An invariant kept by every `ok` event holds at the end of a run. -/
theorem exec_invariant (hstep : ∀ s e, ok s e → Inv s → Inv (step s e))
    (h0 : Inv s) (hrun : Along step ok s es) : Inv (exec step s es) := by
  induction es generalizing s with
  | nil => exact h0
  | cons e es ih => exact ih (hstep s e hrun.1 h0) hrun.2

/-- As `exec_invariant`, for an invariant that every event keeps. -/
theorem exec_preserves (hstep : ∀ s e, Inv s → Inv (step s e)) (h0 : Inv s) (es : List ε) :
    Inv (exec step s es) := by
  induction es generalizing s with
  | nil => exact h0
  | cons e es ih => exact ih (hstep s e h0)

/-- **The simulation rule.** Two systems that every event keeps related are related at the end of a
run. -/
theorem exec_simulates {τ : Type*} {step' : τ → ε → τ} {R : σ → τ → Prop} {t : τ}
    (hstep : ∀ s t e, R s t → R (step s e) (step' t e)) (h0 : R s t) (es : List ε) :
    R (exec step s es) (exec step' t es) := by
  induction es generalizing s t with
  | nil => exact h0
  | cons e es ih => exact ih (hstep s t e h0)

/-- An invariant kept by every `ok` event holds throughout, and so does what it implies. -/
theorem throughout_of_invariant (hstep : ∀ s e, ok s e → Inv s → Inv (step s e))
    (hP : ∀ s, Inv s → P s) (h0 : Inv s) (hrun : Along step ok s es) :
    Throughout step P s es := by
  induction es generalizing s with
  | nil => exact hP s h0
  | cons e es ih => exact ⟨hP s h0, ih (hstep s e hrun.1 h0) hrun.2⟩

/-- **The sharp invariant rule.** When good events keep the invariant and an event that is not good
leads from the invariant straight to a state without `P`, the property `P` holds throughout a run
exactly when every event of the run is good. -/
theorem throughout_iff_along (hP : ∀ s, Inv s → P s)
    (hgood : ∀ s e, ok s e → good s e → Inv s → Inv (step s e))
    (hbad : ∀ s e, ok s e → ¬ good s e → Inv s → ¬ P (step s e))
    (h0 : Inv s) (hrun : Along step ok s es) :
    Throughout step P s es ↔ Along step good s es := by
  induction es generalizing s with
  | nil => exact ⟨fun _ => trivial, fun _ => hP s h0⟩
  | cons e es ih =>
    constructor
    · rintro ⟨-, htail⟩
      have hP' : P (step s e) := by
        cases es with
        | nil => exact htail
        | cons e' es' => exact htail.1
      have hg : good s e := by
        by_contra hng
        exact hbad s e hrun.1 hng h0 hP'
      exact ⟨hg, (ih (hgood s e hrun.1 hg h0) hrun.2).1 htail⟩
    · rintro ⟨hg, htail⟩
      exact ⟨hP s h0, (ih (hgood s e hrun.1 hg h0) hrun.2).2 htail⟩

end Liquorice.Run
