import Mathlib.Logic.Function.Basic

/-!
# Runs of a transition system

A system is a relation `step s e s'` between states, labelled with what happens. `Path` records all
that happened since a state, `Reach` only where runs lead whose steps all meet a condition.

* `Reach.invariant` — what holds at the start and is kept by every step holds in every run,
* `Path.invariant` — the same for a property of the run so far,
* `Path.forall_iff` — a property holds all along a run exactly when every step is one that keeps it,
* `Reach.of_legal`, `Path.of_legal` — the run that takes given steps, for systems that compute.
-/

namespace Hydrax

variable {σ ε : Type}

/-- The states that runs from `s₀` lead to, if they take only steps that are `ok`. -/
inductive Reach (step : σ → ε → σ → Prop) (ok : σ → ε → Prop) (s₀ : σ) : σ → Prop where
  | start : Reach step ok s₀ s₀
  | step {s s' : σ} {e : ε} (hs : Reach step ok s₀ s) (hok : ok s e) (h : step s e s') :
      Reach step ok s₀ s'

/-- The runs from `s₀`, by what happened in them. -/
inductive Path (step : σ → ε → σ → Prop) (s₀ : σ) : List ε → σ → Prop where
  | start : Path step s₀ [] s₀
  | step {s s' : σ} {e : ε} {es : List ε} (hs : Path step s₀ es s) (h : step s e s') :
      Path step s₀ (es ++ [e]) s'

variable {step : σ → ε → σ → Prop} {ok : σ → ε → Prop} {s₀ s s' : σ} {es : List ε}

theorem Reach.invariant {I : σ → Prop} (h₀ : I s₀)
    (hstep : ∀ {s e s'}, I s → ok s e → step s e s' → I s') (h : Reach step ok s₀ s) : I s := by
  induction h with
  | start => exact h₀
  | step _ hok h ih => exact hstep ih hok h

theorem Path.reach (h : Path step s₀ es s) : Reach step (fun _ _ => True) s₀ s := by
  induction h with
  | start => exact .start
  | step _ h ih => exact .step ih trivial h

theorem Path.invariant {I : List ε → σ → Prop} (h₀ : I [] s₀)
    (hstep : ∀ {es s e s'}, I es s → step s e s' → I (es ++ [e]) s') (h : Path step s₀ es s) :
    I es s := by
  induction h with
  | start => exact h₀
  | step _ h ih => exact hstep ih h

theorem Path.forall_ok {ok : ε → Prop} {P : σ → Prop} (h₀ : P s₀)
    (hstep : ∀ s e s', P s → step s e s' → ok e → P s') (h : Path step s₀ es s)
    (hok : ∀ e ∈ es, ok e) : P s := by
  induction h with
  | start => exact h₀
  | step _ h ih =>
    rw [List.forall_mem_append] at hok
    exact hstep _ _ _ (ih hok.1) h (hok.2 _ (List.mem_singleton_self _))

theorem Path.forall_iff {ok : ε → Prop} {P : σ → Prop} (h₀ : P s₀)
    (hstep : ∀ s e s', P s → step s e s' → (P s' ↔ ok e)) (h : Path step s₀ es s) :
    (∀ e ∈ es, ok e) ↔ ∀ es' s', es' <+: es → Path step s₀ es' s' → P s' := by
  constructor
  · intro hok es' s' hinit hpath
    have hok' : ∀ e ∈ es', ok e := fun e he => hok e (hinit.subset he)
    exact hpath.forall_ok h₀ (fun s e s' hs h => (hstep s e s' hs h).mpr) hok'
  · intro hall
    induction h with
    | start =>
      intro e he
      cases he
    | @step s s' e es hs h ih =>
      have hok := ih (fun es' s' hinit => hall es' s' (hinit.trans (List.prefix_append _ _)))
      have hP := hall es s (List.prefix_append _ _) hs
      have hP' := hall (es ++ [e]) s' (List.prefix_refl _) (hs.step h)
      rw [List.forall_mem_append]
      exact ⟨hok, fun e' he' => List.mem_singleton.mp he' ▸ (hstep s e s' hP h).mp hP'⟩

/-! ## Given runs -/

/-- The steps can be taken one after the other, each where `P` holds. -/
def Legal (P : σ → ε → Prop) (exec : σ → ε → σ) : σ → List ε → Prop
  | _, [] => True
  | s, e :: es => P s e ∧ Legal P exec (exec s e) es

instance Legal.decidable {P : σ → ε → Prop} [∀ s e, Decidable (P s e)] (exec : σ → ε → σ) :
    ∀ s es, Decidable (Legal P exec s es)
  | _, [] => .isTrue trivial
  | s, e :: es =>
    have := Legal.decidable (P := P) exec (exec s e) es
    inferInstanceAs (Decidable (_ ∧ _))

variable {P : σ → ε → Prop} {exec : σ → ε → σ}

theorem Reach.of_legal (hP : ∀ s e, P s e → ok s e ∧ step s e (exec s e))
    (h : Reach step ok s₀ s) (hl : Legal P exec s es) : Reach step ok s₀ (es.foldl exec s) := by
  induction es generalizing s with
  | nil => exact h
  | cons e es ih =>
    obtain ⟨hok, hs⟩ := hP s e hl.1
    exact ih (h.step hok hs) hl.2

theorem Path.of_legal {es' : List ε} (es : List ε) (hP : ∀ s e, P s e → step s e (exec s e))
    (h : Path step s₀ es' s) (hl : Legal P exec s es) :
    Path step s₀ (es' ++ es) (es.foldl exec s) := by
  induction es generalizing s es' with
  | nil => rwa [List.append_nil]
  | cons e es ih =>
    have := ih (h.step (hP s e hl.1)) hl.2
    rwa [List.append_assoc] at this

end Hydrax
