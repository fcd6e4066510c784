import Mathlib.Data.List.Forall2

/-!
# Traces of a transition system

A `Trace step s steps` starts in `s`; `steps` lists its events, each with the state after
it.  `Throughout P s steps` says that `P` holds of every step of it.

When, from states that satisfy `I`, a step does `P` exactly if it is allowed by `G`, and
steps that do `P` lead to states that satisfy `I`, a trace does `P` throughout exactly if
all its steps are allowed (`Trace.throughout_iff`).
-/

variable {σ ε : Type*}

/-- The states a system goes through from `s`, with the events that lead to them. -/
inductive Trace (step : σ → ε → σ → Prop) : σ → List (ε × σ) → Prop
  | nil {s : σ} : Trace step s []
  | cons {s s' : σ} {e : ε} {steps : List (ε × σ)} :
      step s e s' → Trace step s' steps → Trace step s ((e, s') :: steps)

namespace Trace

/-- Every step of the trace satisfies `P`. -/
def Throughout (P : σ → ε → σ → Prop) : σ → List (ε × σ) → Prop
  | _, [] => True
  | s, (e, s') :: steps => P s e s' ∧ Throughout P s' steps

/-- The state after the last step. -/
def last : σ → List (ε × σ) → σ
  | s, [] => s
  | _, (_, s') :: steps => last s' steps

/-- What holds at the start and after every step holds at the end. -/
theorem Throughout.last {Q : σ → Prop} {s : σ} {steps : List (ε × σ)} (hs : Q s)
    (h : Throughout (fun _ _ s' => Q s') s steps) :
  Q (last s steps)
  := by
  induction steps generalizing s with
  | nil => apply hs
  | cons x steps ih => apply ih h.1 h.2

variable {step : σ → ε → σ → Prop}

/-- A trace may stop after any of its steps. -/
theorem of_append {s : σ} {steps steps' : List (ε × σ)} (h : Trace step s (steps ++ steps')) :
  Trace step s steps
  := by
  induction steps generalizing s with
  | nil => apply Trace.nil
  | cons x steps ih =>
      cases h with
      | cons hfirst hrest => apply Trace.cons hfirst (ih hrest)

/-- What holds at the start and is kept by the allowed steps holds at the end. -/
theorem last_of_throughout {I : σ → Prop} {G : σ → ε → Prop}
    (hI : ∀ s e s', I s → step s e s' → G s e → I s') {s : σ} {steps : List (ε × σ)}
    (h : Trace step s steps) (hG : Throughout (fun s e _ => G s e) s steps) (hs : I s) :
  I (last s steps)
  := by
  induction h with
  | nil => apply hs
  | cons hfirst _ ih => apply ih hG.2 (hI _ _ _ hs hfirst hG.1)

/-- A trace does `P` throughout exactly if all its steps are allowed. -/
theorem throughout_iff {I : σ → Prop} {G : σ → ε → Prop} {P : σ → ε → σ → Prop}
    (hstep : ∀ s e s', I s → step s e s' → (P s e s' ↔ G s e))
    (hI : ∀ s e s', I s → step s e s' → P s e s' → I s')
    {s : σ} {steps : List (ε × σ)} (h : Trace step s steps) (hs : I s) :
  Throughout P s steps ↔ Throughout (fun s e _ => G s e) s steps
  := by
  induction h with
  | nil => rfl
  | cons hfirst _ ih =>
      have hiff := hstep _ _ _ hs hfirst
      rw [Throughout, Throughout, hiff]
      apply and_congr_right
      intro hG
      apply ih
      apply hI _ _ _ hs hfirst (hiff.mpr hG)

/-- When every step from related states is matched by a step of another system that ends in
related states, every trace is matched by one of the other system. -/
theorem simulate {τ : Type*} {step' : τ → ε → τ → Prop} {Rel : σ → τ → Prop}
    (hstep : ∀ s t e s', Rel s t → step s e s' → ∃ t', step' t e t' ∧ Rel s' t')
    {s : σ} {t : τ} {steps : List (ε × σ)} (h : Trace step s steps) (hrel : Rel s t) :
  ∃ steps' : List (ε × τ), Trace step' t steps'
    ∧ List.Forall₂ (fun x y => x.1 = y.1 ∧ Rel x.2 y.2) steps steps'
  := by
  induction h generalizing t with
  | nil => exact ⟨[], Trace.nil, List.Forall₂.nil⟩
  | @cons s s' e steps hfirst _ ih =>
      obtain ⟨t', hmatched, hrel'⟩ := hstep s t e s' hrel hfirst
      obtain ⟨steps', htrace, hsteps⟩ := ih hrel'
      exact ⟨(e, t') :: steps', Trace.cons hmatched htrace, List.Forall₂.cons ⟨rfl, hrel'⟩ hsteps⟩

end Trace
