import Hydrax.Transition
import Mathlib.Data.Fintype.Defs

/-!
# Tasks that share locks

A machine on which any number of tasks run small programs over shared locks, one counter and lists
of waiters. An instruction is one atomic step, and the tasks are interleaved in any way. A lock is a
bit that is set with an exchange. A task that waits attaches itself to a list and pauses until it is
signalled.
-/

namespace Hydrax.Conc

open Function (update update_of_ne)

/-! ## Programs -/

/-- A test of the counter. -/
inductive Test where
  | belowMax
  | zero
  | positive
  deriving DecidableEq

def Test.Holds (cnt max : UInt32) : Test → Prop
  | .belowMax => cnt < max
  | .zero => cnt = 0
  | .positive => 0 < cnt

instance Test.decidableHolds (cnt max : UInt32) (t : Test) : Decidable (t.Holds cnt max) :=
  match t with
  | .belowMax => inferInstanceAs (Decidable (cnt < max))
  | .zero => inferInstanceAs (Decidable (cnt = 0))
  | .positive => inferInstanceAs (Decidable (0 < cnt))

/-- The atomic steps of a task, with the places they jump to. -/
inductive Instr (ℓ ω : Type) where
  /-- Set the lock. Go on if it was free. -/
  | exchange (l : ℓ) (failed : Nat)
  /-- Clear the lock, which must be set. -/
  | release (l : ℓ)
  /-- Go on if the test holds. -/
  | test (t : Test) (otherwise : Nat)
  | increment
  | decrement
  /-- Become the last waiter of the list, with the flag up. -/
  | attach (w : ω)
  | detach (w : ω)
  /-- Go on if the flag is up. -/
  | ifWaiting (otherwise : Nat)
  | pause
  /-- Take the flag of the first waiter down, and signal it. -/
  | wake (w : ω)
  | goto (pc : Nat)
  /-- Return, and keep a lock beyond the call. -/
  | ret (result : Bool) (keep : Option ℓ)
  deriving DecidableEq

/-- The code of each operation, and the lock its caller must have kept, which the operation takes
over. -/
structure Program (ℓ ω π : Type) where
  code : π → List (Instr ℓ ω)
  takes : π → Option ℓ

/-- What belongs to one task. -/
structure Thread (ℓ π : Type) where
  /-- The operation it is in, and its place there. -/
  pos : Option (π × Nat) := none
  kept : ℓ → Bool := fun _ => false
  waiting : Bool := false
  paused : Bool := false
  /-- A signal was sent and not delivered yet. -/
  pending : Bool := false
  result : Bool := false

structure Config (ι ℓ ω π : Type) where
  cnt : UInt32
  maxCnt : UInt32
  locked : ℓ → Bool := fun _ => false
  waiters : ω → List ι := fun _ => []
  tasks : ι → Thread ℓ π := fun _ => {}
  /-- A lock was released that was not set, or a task detached that was not attached. -/
  failed : Bool := false

variable {ι ℓ ω π : Type}

section Machine

variable [DecidableEq ι] [DecidableEq ℓ] [DecidableEq ω]

namespace Config

variable (s : Config ι ℓ ω π) (i : ι)

def setTask (t : Thread ℓ π) : Config ι ℓ ω π := { s with tasks := update s.tasks i t }

omit [DecidableEq ℓ] [DecidableEq ω] in
theorem setTask_self (t : Thread ℓ π) : (s.setTask i t).tasks i = t := Function.update_self ..

omit [DecidableEq ℓ] [DecidableEq ω] in
theorem setTask_of_ne {j : ι} (t : Thread ℓ π) (hj : j ≠ i) :
    (s.setTask i t).tasks j = s.tasks j := update_of_ne hj ..

/-- The task goes to another place of its operation. -/
def jump (p : π) (pc : Nat) : Config ι ℓ ω π := s.setTask i { s.tasks i with pos := some (p, pc) }

/-- A task is told to go on. -/
def signal : Config ι ℓ ω π :=
  s.setTask i { s.tasks i with waiting := false, pending := true }

/-- One instruction of the operation `p`, at `pc`. -/
def exec (p : π) (pc : Nat) : Instr ℓ ω → Config ι ℓ ω π
  | .exchange l failed =>
    if s.locked l then s.jump i p failed
    else { s.jump i p (pc + 1) with locked := update s.locked l true }
  | .release l =>
    { s.jump i p (pc + 1) with
      locked := update s.locked l false
      failed := s.failed || !s.locked l }
  | .test t otherwise =>
    if t.Holds s.cnt s.maxCnt then s.jump i p (pc + 1) else s.jump i p otherwise
  | .increment => { s.jump i p (pc + 1) with cnt := s.cnt + 1 }
  | .decrement => { s.jump i p (pc + 1) with cnt := s.cnt - 1 }
  | .attach w =>
    { s.setTask i { s.tasks i with pos := some (p, pc + 1), waiting := true } with
      waiters := update s.waiters w (s.waiters w ++ [i]) }
  | .detach w =>
    { s.jump i p (pc + 1) with
      waiters := update s.waiters w ((s.waiters w).erase i)
      failed := s.failed || !decide (i ∈ s.waiters w) }
  | .ifWaiting otherwise =>
    if (s.tasks i).waiting then s.jump i p (pc + 1) else s.jump i p otherwise
  | .pause => s.setTask i { s.tasks i with pos := some (p, pc + 1), paused := true }
  | .wake w =>
    match s.waiters w with
    | [] => s.jump i p (pc + 1)
    | j :: _ => (s.jump i p (pc + 1)).signal j
  | .goto pc' => s.jump i p pc'
  | .ret result keep =>
    s.setTask i
      { s.tasks i with
        pos := none
        result := result
        kept := fun l => (s.tasks i).kept l || decide (keep = some l) }

end Config

/-- What can happen. -/
inductive Event (ι π : Type) where
  | call (i : ι) (p : π)
  | run (i : ι)
  /-- The signal of a task is delivered, which ends its pause. -/
  | deliver (i : ι)

variable (P : Program ℓ ω π)

/-- The instruction a task is at. -/
def Config.instr (s : Config ι ℓ ω π) (i : ι) : Option (Instr ℓ ω) :=
  (s.tasks i).pos.bind (fun x => (P.code x.1)[x.2]?)

def Config.next (s : Config ι ℓ ω π) : Event ι π → Config ι ℓ ω π
  | .call i p =>
    s.setTask i
      { s.tasks i with
        pos := some (p, 0)
        kept := fun l => (s.tasks i).kept l && !decide (P.takes p = some l) }
  | .run i =>
    match (s.tasks i).pos with
    | none => s
    | some (p, pc) =>
      match (P.code p)[pc]? with
      | none => s
      | some c => s.exec i p pc c
  | .deliver i => s.setTask i { s.tasks i with pending := false, paused := false }

def Event.Enabled (s : Config ι ℓ ω π) : Event ι π → Prop
  | .call i p => (s.tasks i).pos = none ∧ ∀ l, P.takes p = some l → (s.tasks i).kept l = true
  | .run i => (s.tasks i).paused = false ∧ s.instr P i ≠ none
  | .deliver i => (s.tasks i).pending = true

def Step (s : Config ι ℓ ω π) (e : Event ι π) (s' : Config ι ℓ ω π) : Prop :=
  e.Enabled P s ∧ s' = s.next P e

instance Event.decidableEnabled [Fintype ℓ] [DecidableEq π] (s : Config ι ℓ ω π) :
    ∀ e : Event ι π, Decidable (e.Enabled P s)
  | .call .. | .run _ => inferInstanceAs (Decidable (_ ∧ _))
  | .deliver _ => inferInstanceAs (Decidable (_ = _))

variable {P} {s s' : Config ι ℓ ω π} {e : Event ι π} {i : ι}

/-- The run that takes given steps, where they can be taken. -/
theorem Reach.of_enabled {ok : Config ι ℓ ω π → Event ι π → Prop} {s₀ : Config ι ℓ ω π}
    {es : List (Event ι π)} (hl : Legal (fun s e => e.Enabled P s ∧ ok s e) (Config.next P) s₀ es) :
    Reach (Step P) ok s₀ (es.foldl (Config.next P) s₀) :=
  Reach.of_legal (fun _ _ h => ⟨h.2, h.1, rfl⟩) .start hl

omit [DecidableEq ι] [DecidableEq ℓ] [DecidableEq ω] in
theorem Config.instr_eq_some {c : Instr ℓ ω} (h : s.instr P i = some c) :
    ∃ p pc, (s.tasks i).pos = some (p, pc) ∧ (P.code p)[pc]? = some c := by
  obtain ⟨⟨p, pc⟩, hpos, hc⟩ := Option.bind_eq_some_iff.mp h
  exact ⟨p, pc, hpos, hc⟩

/-- What one instruction does to the other tasks: at most it signals one. -/
theorem Config.exec_of_ne {j : ι} {p : π} {pc : Nat} {c : Instr ℓ ω} (hj : j ≠ i) :
    (s.exec i p pc c).tasks j = s.tasks j ∨
    ∃ w js, c = .wake w ∧ s.waiters w = j :: js ∧
      (s.exec i p pc c).tasks j = { s.tasks j with waiting := false, pending := true } := by
  have hset : ∀ t, (s.setTask i t).tasks j = s.tasks j := fun t => s.setTask_of_ne i t hj
  cases c with
  | exchange l failed => left; simp only [exec]; split <;> exact hset _
  | test t otherwise => left; simp only [exec]; split <;> exact hset _
  | ifWaiting otherwise => left; simp only [exec]; split <;> exact hset _
  | wake w =>
    simp only [exec]
    split
    · exact Or.inl (hset _)
    next k ks hw =>
      by_cases hk : j = k
      · subst hk
        refine Or.inr ⟨w, ks, rfl, hw, ?_⟩
        rw [signal, setTask_self, jump, hset]
      · rw [signal, setTask_of_ne _ _ _ hk]
        exact Or.inl (hset _)
  | release l => exact Or.inl (hset _)
  | increment => exact Or.inl (hset _)
  | decrement => exact Or.inl (hset _)
  | attach w => exact Or.inl (hset _)
  | detach w => exact Or.inl (hset _)
  | pause => exact Or.inl (hset _)
  | goto pc' => exact Or.inl (hset _)
  | ret result keep => exact Or.inl (hset _)

omit [DecidableEq ℓ] [DecidableEq ω] in
variable (s i) in
theorem Config.deliver_cases (j : ι) :
    (s.setTask i { s.tasks i with pending := false, paused := false }).tasks j = s.tasks j ∨
    (s.setTask i { s.tasks i with pending := false, paused := false }).tasks j =
      { s.tasks j with pending := false, paused := false } := by
  by_cases hj : j = i
  · subst hj
    exact Or.inr (setTask_self ..)
  · exact Or.inl (setTask_of_ne _ _ _ hj)

theorem Step.cases (h : Step P s e s') :
    (∃ i p, e = .call i p ∧ (s.tasks i).pos = none ∧
      (∀ l, P.takes p = some l → (s.tasks i).kept l = true) ∧ s' = s.next P (.call i p)) ∨
    (∃ i p pc c, e = .run i ∧ (s.tasks i).paused = false ∧ (s.tasks i).pos = some (p, pc) ∧
      (P.code p)[pc]? = some c ∧ s' = s.exec i p pc c) ∨
    (∃ i, e = .deliver i ∧ (s.tasks i).pending = true ∧
      s' = s.setTask i { s.tasks i with pending := false, paused := false }) := by
  obtain ⟨hen, rfl⟩ := h
  cases e with
  | call i p => exact Or.inl ⟨i, p, rfl, hen.1, hen.2, rfl⟩
  | run i =>
    obtain ⟨c, hc⟩ := Option.ne_none_iff_exists'.mp hen.2
    obtain ⟨p, pc, hpos, hcode⟩ := Config.instr_eq_some hc
    refine Or.inr (Or.inl ⟨i, p, pc, c, rfl, hen.1, hpos, hcode, ?_⟩)
    simp only [Config.next, hpos, hcode]
  | deliver i => exact Or.inr (Or.inr ⟨i, rfl, hen, rfl⟩)

/-- An instruction gives up nothing that a call kept. -/
theorem Config.exec_kept {j : ι} {p : π} {pc : Nat} {c : Instr ℓ ω} {l : ℓ}
    (hk : (s.tasks j).kept l = true) : ((s.exec i p pc c).tasks j).kept l = true := by
  by_cases hj : j = i
  · subst hj
    cases c with
    | exchange m failed => simp only [exec]; split <;> simpa [jump, setTask_self]
    | test t otherwise => simp only [exec]; split <;> simpa [jump, setTask_self]
    | ifWaiting otherwise => simp only [exec]; split <;> simpa [jump, setTask_self]
    | wake w =>
      simp only [exec]
      split
      · simpa [jump, setTask_self]
      next k ks hw =>
        by_cases hk' : j = k
        · subst hk'
          simpa [signal, jump, setTask_self]
        · simpa [signal, setTask_of_ne _ _ _ hk', jump, setTask_self]
    | release m => simpa [exec, jump, setTask_self]
    | increment => simpa [exec, jump, setTask_self]
    | decrement => simpa [exec, jump, setTask_self]
    | attach w => simpa [exec, setTask_self]
    | detach w => simpa [exec, jump, setTask_self]
    | pause => simpa [exec, setTask_self]
    | goto pc' => simpa [exec, jump, setTask_self]
    | ret result keep => simp [exec, setTask_self, hk]
  · rcases s.exec_of_ne hj with h | ⟨w, js, -, -, h⟩ <;> rwa [h]

theorem Config.exec_maxCnt {p : π} {pc : Nat} {c : Instr ℓ ω} :
    (s.exec i p pc c).maxCnt = s.maxCnt := by
  cases c with
  | exchange l failed => simp only [exec]; split <;> rfl
  | test t otherwise => simp only [exec]; split <;> rfl
  | ifWaiting otherwise => simp only [exec]; split <;> rfl
  | wake w => simp only [exec]; split <;> rfl
  | _ => rfl

/-! ### What an instruction changes -/

/-- The places an instruction at `pc` can lead to. -/
def Instr.targets (pc : Nat) : Instr ℓ ω → List Nat
  | .exchange _ pc' | .test _ pc' | .ifWaiting pc' => [pc + 1, pc']
  | .goto pc' => [pc']
  | .ret .. => []
  | _ => [pc + 1]

omit [DecidableEq ℓ] [DecidableEq ω] in
theorem Config.jump_pos {p : π} {pc : Nat} : ((s.jump i p pc).tasks i).pos = some (p, pc) := by
  rw [jump, setTask_self]

omit [DecidableEq ℓ] [DecidableEq ω] in
theorem Config.signal_pos {j k : ι} : ((s.signal j).tasks k).pos = (s.tasks k).pos := by
  by_cases hk : k = j
  · rw [hk, signal, setTask_self]
  · rw [signal, setTask_of_ne _ _ _ hk]

variable (s i) in
theorem Config.exec_pos (p : π) (pc : Nat) (c : Instr ℓ ω) :
    ((s.exec i p pc c).tasks i).pos = none ∨
    ∃ pc' ∈ c.targets pc, ((s.exec i p pc c).tasks i).pos = some (p, pc') := by
  cases c with
  | exchange l failed =>
    right
    simp only [exec]
    split
    · exact ⟨failed, by simp [Instr.targets], jump_pos⟩
    · exact ⟨pc + 1, by simp [Instr.targets], jump_pos⟩
  | test t failed | ifWaiting failed =>
    right
    simp only [exec]
    split
    · exact ⟨pc + 1, by simp [Instr.targets], jump_pos⟩
    · exact ⟨failed, by simp [Instr.targets], jump_pos⟩
  | wake w =>
    refine Or.inr ⟨pc + 1, List.mem_singleton_self _, ?_⟩
    simp only [exec]
    split
    · exact jump_pos
    · rw [signal_pos, jump_pos]
  | goto pc' => exact Or.inr ⟨pc', List.mem_singleton_self _, jump_pos⟩
  | ret result keep =>
    left
    rw [exec, setTask_self]
  | attach w | pause =>
    refine Or.inr ⟨pc + 1, List.mem_singleton_self _, ?_⟩
    simp only [exec, setTask_self]
  | release l | increment | decrement | detach w =>
    exact Or.inr ⟨pc + 1, List.mem_singleton_self _, jump_pos⟩

/-- Where a task stands after an instruction: where it was, or where its own instruction led. -/
theorem Config.exec_place {j : ι} {p q : π} {pc qc : Nat} {c : Instr ℓ ω}
    (h : ((s.exec i p pc c).tasks j).pos = some (q, qc)) :
    (s.tasks j).pos = some (q, qc) ∨ j = i ∧ p = q ∧ qc ∈ c.targets pc := by
  by_cases hj : j = i
  · subst hj
    rcases s.exec_pos j p pc c with hnone | ⟨pc', htarget, hpos⟩
    · cases hnone.symm.trans h
    · cases hpos.symm.trans h
      exact Or.inr ⟨rfl, rfl, htarget⟩
  · rcases s.exec_of_ne hj with heq | ⟨w, js, -, -, heq⟩ <;> rw [heq] at h <;> exact Or.inl h

theorem Config.exec_locked {p : π} {pc : Nat} {c : Instr ℓ ω} {l : ℓ}
    (h : (s.exec i p pc c).locked l = false) : s.locked l = false ∨ c = .release l := by
  cases c with
  | exchange m failed =>
    simp only [exec] at h
    split at h
    · exact Or.inl h
    · by_cases hl : l = m
      · subst hl
        simp at h
      · simp only [update_of_ne hl] at h
        exact Or.inl h
  | release m =>
    by_cases hl : l = m
    · exact Or.inr (hl ▸ rfl)
    · simp only [exec, update_of_ne hl] at h
      exact Or.inl h
  | test t otherwise | ifWaiting otherwise | wake w =>
    simp only [exec] at h
    split at h <;> exact Or.inl h
  | _ => exact Or.inl h

theorem Config.exec_waiters {p : π} {pc : Nat} {c : Instr ℓ ω} {w : ω}
    (h : (s.exec i p pc c).waiters w ≠ []) : s.waiters w ≠ [] ∨ c = .attach w := by
  cases c with
  | attach v =>
    by_cases hw : w = v
    · exact Or.inr (hw ▸ rfl)
    · simp only [exec, update_of_ne hw] at h
      exact Or.inl h
  | detach v =>
    left
    intro hnil
    by_cases hw : w = v
    · subst hw
      simp [exec, hnil] at h
    · simp [exec, update_of_ne hw, hnil] at h
  | exchange l failed | test t failed | ifWaiting failed | wake v =>
    simp only [exec] at h
    split at h <;> exact Or.inl h
  | _ => exact Or.inl h

variable (s i) in
theorem Config.exec_cnt (p : π) (pc : Nat) (c : Instr ℓ ω) :
    (s.exec i p pc c).cnt = s.cnt ∨ c = .increment ∨ c = .decrement := by
  cases c with
  | increment => exact Or.inr (Or.inl rfl)
  | decrement => exact Or.inr (Or.inr rfl)
  | exchange l failed | test t failed | ifWaiting failed | wake v =>
    simp only [exec]
    split <;> exact Or.inl rfl
  | _ => exact Or.inl rfl

theorem Step.maxCnt (h : Step P s e s') : s'.maxCnt = s.maxCnt := by
  rcases h.cases with ⟨i, p, -, -, -, rfl⟩ | ⟨i, p, pc, c, -, -, -, -, rfl⟩ | ⟨i, -, -, rfl⟩
  · rfl
  · exact Config.exec_maxCnt
  · rfl

/-- A task keeps a lock until it calls an operation that takes it. -/
theorem Step.kept {l : ℓ} (h : Step P s e s') (hk : (s.tasks i).kept l = true)
    (he : ∀ p, P.takes p = some l → e ≠ .call i p) : (s'.tasks i).kept l = true := by
  rcases h.cases with ⟨j, p, rfl, -, -, rfl⟩ | ⟨j, p, pc, c, -, -, -, -, rfl⟩ | ⟨j, -, -, rfl⟩
  · by_cases hj : i = j
    · subst hj
      have hp : P.takes p ≠ some l := fun hp => he p hp rfl
      simp [Config.next, Config.setTask_self, hk, hp]
    · rwa [Config.next, Config.setTask_of_ne _ _ _ hj]
  · exact Config.exec_kept hk
  · by_cases hj : i = j
    · subst hj
      rwa [Config.setTask_self]
    · rwa [Config.setTask_of_ne _ _ _ hj]

end Machine

end Hydrax.Conc
