import Hydrax.Sync.Code

/-!
# Sleeping

Where a task stands that sleeps with `sleepOn`, the code of an operation `p` from the place `b` on.
A wake-up is lost in two windows: before the task is attached, and between its test of `waiting` and
its pause, where the signal can be delivered too early.

* `Entering`, `Attached` — before and while the task is on the list,
* `Leaving` — it will leave the list without another signal,
* `WakeHits` — the wake-up falls into neither window.
-/

namespace Hydrax.Sync

open Conc

variable {ι ℓ ω π : Type}

/-- Asleep in `pause`: the scheduler wakes a task that has a signal pending. -/
def Asleep (t : Thread ℓ π) : Prop := t.paused = true ∧ t.pending = false

section Places

variable (p : π) (b : Nat) (t : Thread ℓ π)

/-- Bound to sleep, and not attached yet. -/
def Entering : Prop := t.pos = some (p, b) ∨ t.pos = some (p, b + 1)

def Attached : Prop := ∃ k, 2 ≤ k ∧ k ≤ 7 ∧ t.pos = some (p, b + k)

/-- Between the test of `waiting` and the pause. -/
def Pausing : Prop := t.pos = some (p, b + 4)

/-- Attached, and past the loop or on the way out of it: `waiting` is 0 and it does not sleep. -/
def Leaving : Prop :=
  t.pos = some (p, b + 6) ∨ t.pos = some (p, b + 7) ∨
  (t.pos = some (p, b + 2) ∨ t.pos = some (p, b + 3) ∨ t.pos = some (p, b + 5)) ∧
    t.waiting = false ∧ (t.paused = true → t.pending = true)

end Places

/-- What a wake-up needs: nobody is about to attach if the list is empty, and otherwise the first
waiter is not about to pause. -/
def WakeHits (p : π) (b : Nat) (w : ω) (s : Config ι ℓ ω π) : Prop :=
  (s.waiters w = [] → ∀ i, ¬ Entering p b (s.tasks i)) ∧
  ∀ i, (s.waiters w).head? = some i → ¬ Pausing p b (s.tasks i)

instance decidableWakeHits [DecidableEq ι] [DecidableEq π] [Fintype ι] (p : π) (b : Nat) (w : ω)
    (s : Config ι ℓ ω π) : Decidable (WakeHits p b w s) := by
  unfold WakeHits Entering Pausing
  infer_instance

variable {p : π} {b : Nat} {t : Thread ℓ π}

theorem Attached.signal (h : Attached p b t) (hp : ¬ Pausing p b t) :
    Leaving p b { t with waiting := false, pending := true } := by
  obtain ⟨k, hk, hk', hpos⟩ := h
  have hk4 : k ≠ 4 := by
    rintro rfl
    exact hp hpos
  obtain rfl | rfl | rfl | rfl | rfl : k = 2 ∨ k = 3 ∨ k = 5 ∨ k = 6 ∨ k = 7 := by omega
  · exact Or.inr (Or.inr ⟨Or.inl hpos, rfl, fun _ => rfl⟩)
  · exact Or.inr (Or.inr ⟨Or.inr (Or.inl hpos), rfl, fun _ => rfl⟩)
  · exact Or.inr (Or.inr ⟨Or.inr (Or.inr hpos), rfl, fun _ => rfl⟩)
  · exact Or.inl hpos
  · exact Or.inr (Or.inl hpos)

theorem Leaving.place (h : Leaving p b t) : ∃ k < 8, t.pos = some (p, b + k) := by
  rcases h with h | h | ⟨h | h | h, -⟩
  · exact ⟨6, by decide, h⟩
  · exact ⟨7, by decide, h⟩
  · exact ⟨2, by decide, h⟩
  · exact ⟨3, by decide, h⟩
  · exact ⟨5, by decide, h⟩

theorem Leaving.signal (h : Leaving p b t) :
    Leaving p b { t with waiting := false, pending := true } := by
  rcases h with h | h | ⟨h, -, -⟩
  · exact Or.inl h
  · exact Or.inr (Or.inl h)
  · exact Or.inr (Or.inr ⟨h, rfl, fun _ => rfl⟩)

theorem Leaving.deliver (h : Leaving p b t) :
    Leaving p b { t with pending := false, paused := false } := by
  rcases h with h | h | ⟨h, hw, -⟩
  · exact Or.inl h
  · exact Or.inr (Or.inl h)
  · exact Or.inr (Or.inr ⟨h, hw, by nofun⟩)

theorem Leaving.not_asleep (h : Leaving p b t) {P : Program ℓ ω π}
    (hpaused : t.paused = true → ∃ q pc, t.pos = some (q, pc + 1) ∧ (P.code q)[pc]? = some .pause)
    (h₅ : (P.code p)[b + 5]? ≠ some .pause) (h₆ : (P.code p)[b + 6]? ≠ some .pause) :
    ¬ Asleep t := by
  rintro ⟨hp, hn⟩
  obtain ⟨q, pc, hpos, hc⟩ := hpaused hp
  rcases h with h | h | ⟨-, -, h⟩
  · have heq := hpos.symm.trans h
    simp only [Option.some.injEq, Prod.mk.injEq] at heq
    obtain ⟨rfl, heq⟩ := heq
    obtain rfl : pc = b + 5 := by omega
    exact h₅ hc
  · have heq := hpos.symm.trans h
    simp only [Option.some.injEq, Prod.mk.injEq] at heq
    obtain ⟨rfl, heq⟩ := heq
    obtain rfl : pc = b + 6 := by omega
    exact h₆ hc
  · cases hn.symm.trans (h hp)

/-! ## Steps of the sleeping task -/

section Exec

variable [DecidableEq ι] [DecidableEq ℓ] [DecidableEq ω]
  {P : Program ℓ ω π} {w : ω} {lock : ℓ} {next : Nat} {s : Config ι ℓ ω π} {i : ι}

/-- The operation sleeps from the place `b` on. -/
def SleepsAt (P : Program ℓ ω π) (p : π) (b : Nat) (w : ω) (lock : ℓ) (next : Nat) : Prop :=
  ∀ k < 10, (P.code p)[b + k]? = (sleepOn w lock b next)[k]?

theorem WakeHits.leaving {q : π} {qc : Nat} {j : ι} {js : List ι} (h : WakeHits p b w s)
    (hlist : s.waiters w = j :: js) (hji : j ≠ i) (hat : Attached p b (s.tasks j)) :
    Leaving p b ((s.exec i q qc (.wake w)).tasks j) := by
  have hsignal := hat.signal (h.2 j (by rw [hlist]; rfl))
  simp only [Config.exec, hlist, Config.signal, Config.setTask_self, Config.jump,
    Config.setTask_of_ne _ _ _ hji]
  exact hsignal

theorem Leaving.exec {pc : Nat} {c : Instr ℓ ω} (hs : SleepsAt P p b w lock next)
    (h : Leaving p b (s.tasks i)) (hrun : (s.tasks i).paused = false)
    (hpos : (s.tasks i).pos = some (p, pc)) (hc : (P.code p)[pc]? = some c) :
    Leaving p b ((s.exec i p pc c).tasks i) ∨
    ((s.exec i p pc c).tasks i).pos = some (p, b + 8) := by
  have hat : ∀ k, k < 10 → (s.tasks i).pos = some (p, b + k) →
      pc = b + k ∧ (sleepOn w lock b next)[k]? = some c := by
    intro k hk hk'
    have heq := hpos.symm.trans hk'
    simp only [Option.some.injEq, Prod.mk.injEq, true_and] at heq
    exact ⟨heq, (hs k hk).symm.trans (heq ▸ hc)⟩
  rcases h with h | h | ⟨h | h | h, hw, hp⟩
  · obtain ⟨rfl, hk⟩ := hat 6 (by decide) h
    cases hk
    left
    simp only [mutexWait, mutexTry, Config.exec]
    split
    · exact Or.inl Config.jump_pos
    · exact Or.inr (Or.inl Config.jump_pos)
  · obtain ⟨rfl, hk⟩ := hat 7 (by decide) h
    cases hk
    exact Or.inr Config.jump_pos
  · obtain ⟨rfl, hk⟩ := hat 2 (by decide) h
    cases hk
    refine Or.inl (Or.inr (Or.inr ⟨Or.inr (Or.inl Config.jump_pos), ?_⟩))
    simp [mutexRelease, Config.exec, Config.jump, Config.setTask_self, hw, hrun]
  · obtain ⟨rfl, hk⟩ := hat 3 (by decide) h
    cases hk
    left
    simp only [Config.exec, hw]
    exact Or.inl Config.jump_pos
  · obtain ⟨rfl, hk⟩ := hat 5 (by decide) h
    cases hk
    refine Or.inl (Or.inr (Or.inr ⟨Or.inr (Or.inl Config.jump_pos), ?_⟩))
    simp [Config.exec, Config.jump, Config.setTask_self, hw, hrun]

end Exec

end Hydrax.Sync
