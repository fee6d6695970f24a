import Mathlib.Data.List.Basic

/-!
# Loops that may stop

A C loop is embedded as a `foldlM` in `Except`: the accumulator is the state, the list is what the
loop variable runs over, and `.error` is a run that never comes back from the body. The rules here
are the ones every loop of the development is proved with. They know nothing of the program.

* `bind_eq_ok` takes a sequence of statements apart.
* `foldlM_inv_mem` is the loop-invariant rule.
* `foldlM_rel` is the same for a transitive relation between the state before and after.
* `foldlM_map_range_ok` is the rule for a counting loop that comes back.
* `fuel_induction` is the induction over a list that a loop goes along with fuel.
-/

namespace Hydrax.Loop

variable {ε α β σ : Type}

theorem bind_eq_ok {x : Except ε α} {f : α → Except ε β} {b : β} :
    (x >>= f) = .ok b ↔ ∃ a, x = .ok a ∧ f a = .ok b := by
  cases x with
  | error e => simp [bind, Except.bind]
  | ok a => simp [bind, Except.bind]

theorem ok_bind (a : α) (f : α → Except ε β) : (Except.ok a >>= f) = f a := rfl

theorem map_eq_ok {x : Except ε α} {f : α → β} {b : β} :
    (f <$> x) = .ok b ↔ ∃ a, x = .ok a ∧ f a = b := by
  cases x with
  | error e => simp [Functor.map, Except.map]
  | ok a => simp [Functor.map, Except.map]

@[elab_as_elim]
theorem fuel_induction {motive : (l : List α) → (fuel : Nat) → l.length < fuel → Prop}
    (nil : ∀ fuel, motive [] (fuel + 1) (Nat.succ_pos fuel))
    (cons : ∀ a l fuel (h : l.length < fuel), motive l fuel h →
      motive (a :: l) (fuel + 1) (Nat.succ_lt_succ h))
    (l : List α) (fuel : Nat) (h : l.length < fuel) : motive l fuel h := by
  induction l generalizing fuel with
  | nil =>
    obtain ⟨k, rfl⟩ := Nat.exists_eq_add_of_lt h
    exact nil _
  | cons a l ih =>
    obtain ⟨k, rfl⟩ := Nat.exists_eq_add_of_lt h
    exact cons a l _ _ (ih _ (Nat.lt_of_succ_lt_succ h))

theorem pure_eq_ok {a b : α} : (pure a : Except ε α) = .ok b ↔ a = b := by
  simp [pure, Except.pure]

theorem foldlM_inv_mem {f : σ → α → Except ε σ} {l : List α} (I : σ → Prop)
    (step : ∀ a ∈ l, ∀ s s', I s → f s a = .ok s' → I s') {s s' : σ}
    (hI : I s) (h : l.foldlM f s = .ok s') : I s' := by
  induction l generalizing s with
  | nil =>
    rw [List.foldlM_nil, pure_eq_ok] at h
    exact h ▸ hI
  | cons a rest ih =>
    rw [List.foldlM_cons, bind_eq_ok] at h
    obtain ⟨s₁, hs₁, hrest⟩ := h
    have hI₁ : I s₁ := step a (by simp) s s₁ hI hs₁
    exact ih (fun b hb => step b (by simp [hb])) hI₁ hrest

/-- A reflexive and transitive relation that each iteration keeps is kept by the loop, under an
invariant. -/
theorem foldlM_rel {f : σ → α → Except ε σ} {l : List α} (R : σ → σ → Prop)
    (refl : ∀ s, R s s) (trans : ∀ s₁ s₂ s₃, R s₁ s₂ → R s₂ s₃ → R s₁ s₃)
    (step : ∀ a ∈ l, ∀ s s', f s a = .ok s' → R s s') {s s' : σ}
    (h : l.foldlM f s = .ok s') : R s s' :=
  foldlM_inv_mem (fun t => R s t) (fun a ha t t' hR ht => trans s t t' hR (step a ha t t' ht))
    (refl s) h

/-- Two loops with the same body on the values they run over are the same loop. -/
theorem foldlM_congr {f g : σ → α → Except ε σ} {l : List α} (h : ∀ a ∈ l, ∀ s, f s a = g s a)
    (s : σ) : l.foldlM f s = l.foldlM g s := by
  induction l generalizing s with
  | nil => rfl
  | cons a rest ih =>
    rw [List.foldlM_cons, List.foldlM_cons, h a (by simp) s]
    congr 1
    funext s₁
    exact ih (fun b hb => h b (by simp [hb])) s₁

/-- A loop comes back if every turn does, from any state of the invariant. -/
theorem foldlM_ok {f : σ → α → Except ε σ} {l : List α} (I : σ → Prop)
    (step : ∀ a ∈ l, ∀ s, I s → ∃ s', f s a = .ok s' ∧ I s') {s : σ} (h : I s) :
    ∃ s', l.foldlM f s = .ok s' ∧ I s' := by
  induction l generalizing s with
  | nil => exact ⟨s, rfl, h⟩
  | cons a rest ih =>
    obtain ⟨s₁, hs₁, hI₁⟩ := step a (by simp) s h
    obtain ⟨s₂, hs₂, hI₂⟩ := ih (fun b hb => step b (by simp [hb])) hI₁
    refine ⟨s₂, ?_, hI₂⟩
    rw [List.foldlM_cons, hs₁]
    exact hs₂

/-- **The rule for a counting loop that comes back.** Every turn returns and leads from `I k` to
`I (k + 1)`, so the loop returns in a state of `I n`. -/
theorem foldlM_map_range_ok {f : σ → α → Except ε σ} (g : Nat → α) (I : Nat → σ → Prop) {n : Nat}
    (step : ∀ k < n, ∀ s, I k s → ∃ s', f s (g k) = .ok s' ∧ I (k + 1) s') {s : σ} (h : I 0 s) :
    ∃ s', ((List.range n).map g).foldlM f s = .ok s' ∧ I n s' := by
  induction n with
  | zero => exact ⟨s, rfl, h⟩
  | succ n ih =>
    obtain ⟨s₁, hs₁, hI₁⟩ := ih (fun k hk => step k (by omega))
    obtain ⟨s₂, hs₂, hI₂⟩ := step n (by omega) s₁ hI₁
    refine ⟨s₂, ?_, hI₂⟩
    rw [List.range_succ, List.map_append, List.foldlM_append, hs₁]
    show [g n].foldlM f s₁ = .ok s₂
    rw [List.foldlM_cons, hs₂]
    rfl

end Hydrax.Loop
