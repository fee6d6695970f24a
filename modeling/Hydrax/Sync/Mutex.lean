import Hydrax.Sync.Sleep

/-!
# Sleeping mutexes

`mutex_waitsleep` and `mutex_releasesleep`, step by step. The exchange, the list and the pause are
separate steps, so the wake-up of a release can come before the acquirer is asleep.

* `mutex` — the code,
* `mutex_no_loss` — nobody sleeps on a free mutex, if no wake-up falls into a window,
* `mutex_wake_lost` — a run in which one does.
-/

namespace Hydrax.Sync

open Conc

inductive MutexLock where
  | s
  | waitersLock
  deriving DecidableEq

instance fintypeMutexLock : Fintype MutexLock :=
  ⟨{.s, .waitersLock}, fun l => by cases l <;> decide⟩

inductive MutexList where
  | waiters
  deriving DecidableEq

inductive MutexOp where
  | waitsleep
  | releasesleep
  deriving DecidableEq

instance fintypeMutexOp : Fintype MutexOp :=
  ⟨{.waitsleep, .releasesleep}, fun p => by cases p <;> decide⟩

/-- `mutex_waitsleep` returns with the mutex, which the holder gives to `mutex_releasesleep`. -/
def mutex : Program MutexLock MutexList MutexOp where
  code
    | .waitsleep => mutexWaitsleep .s .waiters .waitersLock 0 12 ++ [.ret true (some .s)]
    | .releasesleep => [.release .s, .wake .waiters, .ret true none]
  takes
    | .waitsleep => none
    | .releasesleep => some .s

abbrev MutexState (ι : Type) : Type := Config ι MutexLock MutexList MutexOp

/-- `MUTEX_INITIALIZER`, and no task in an operation. A mutex has no counter. -/
def mutexInitializer {ι : Type} : MutexState ι := { cnt := 0, maxCnt := 0 }

/-! ## The outline -/

def mutexNotes : MutexOp → List (Note MutexLock MutexList)
  | .waitsleep => mutexWaitsleepNotes .s .waiters .waitersLock ++ [holds [.s]]
  | .releasesleep => [holds [.s], holds [], holds []]

def mutexOutline : Outline MutexLock MutexList MutexOp := outline mutexNotes .s .s false

theorem mutexOutline_checked : mutexOutline.Checked mutex := by decide +kernel

theorem mutex_sleepsAt : SleepsAt mutex .waitsleep 2 .waiters .waitersLock 0 := by
  unfold SleepsAt
  decide

theorem mutex_release_at : ∀ p, ∀ pc < (mutex.code p).length,
    (mutex.code p)[pc]? = some (.release .s) → p = .releasesleep ∧ pc = 0 := by
  decide

theorem mutex_attach_at : ∀ p, ∀ pc < (mutex.code p).length,
    (mutex.code p)[pc]? = some (.attach .waiters) → p = .waitsleep ∧ pc = 3 := by
  decide

theorem mutex_attached_at : ∀ p, ∀ pc < (mutex.code p).length,
    mutexOutline.list p pc = some .waiters → p = .waitsleep ∧ 4 ≤ pc ∧ pc ≤ 9 := by
  decide

theorem mutex_entering_at : ∀ pc < (mutex.code .waitsleep).length,
    ∀ c ∈ (mutex.code .waitsleep)[pc]?, ∀ pc' ∈ c.targets pc, pc' = 2 ∨ pc' = 3 →
    pc = 2 ∨ pc = 0 ∧ c = .exchange .s 2 := by
  decide

variable {ι : Type} {s s' : MutexState ι} {i : ι}

theorem attached_of_mem (h : mutexOutline.Inv mutex s) (hi : i ∈ s.waiters .waiters) :
    Attached .waitsleep 2 (s.tasks i) := by
  obtain ⟨p, pc, hpos, hcode, hlist⟩ := h.place_of_mem hi
  obtain ⟨rfl, hge, hle⟩ := mutex_attached_at p pc hcode hlist
  refine ⟨pc - 2, by omega, by omega, ?_⟩
  rw [hpos, Nat.add_sub_cancel' (by omega)]

/-- The task has the mutex: from the exchange of an acquisition to the exchange of its release. -/
def HoldsMutex (s : MutexState ι) (i : ι) : Prop :=
  (s.tasks i).kept .s = true ∨ (s.tasks i).pos = some (.waitsleep, 1) ∨
  (s.tasks i).pos = some (.waitsleep, 12) ∨ (s.tasks i).pos = some (.releasesleep, 0)

theorem holdsMutex_own (h : HoldsMutex s i) : ∃ k, mutexOutline.own s (i, k) .s = true := by
  rcases h with h | h | h | h
  · exact ⟨true, h⟩
  all_goals exact ⟨false, (Outline.own_at h _).trans (by decide)⟩

theorem holdsMutex_unique {j : ι} (h : mutexOutline.Inv mutex s) (hi : HoldsMutex s i)
    (hj : HoldsMutex s j) : i = j := by
  obtain ⟨_, hi⟩ := holdsMutex_own hi
  obtain ⟨_, hj⟩ := holdsMutex_own hj
  exact congrArg Prod.fst (h.owned.unique hi hj)

/-! ## No lost wake-up -/

/-- Every task inside `mutex_waitsleep` is asleep, and none is inside `mutex_releasesleep`. -/
def MutexQuiet (s : MutexState ι) : Prop :=
  ∀ i pc, ((s.tasks i).pos = some (.waitsleep, pc) → Asleep (s.tasks i)) ∧
    (s.tasks i).pos ≠ some (.releasesleep, pc)

/-- The wake-ups of the run hit, those that find the mutex free. -/
def MutexWakes (s : MutexState ι) : Event ι MutexOp → Prop
  | .run i => (s.tasks i).pos = some (.releasesleep, 1) → s.locked .s = false →
      WakeHits .waitsleep 2 .waiters s
  | _ => True

instance decidableMutexWakes [DecidableEq ι] [Fintype ι] (s : MutexState ι) :
    ∀ e, Decidable (MutexWakes s e)
  | .run _ => inferInstanceAs (Decidable (_ → _ → WakeHits _ _ _ _))
  | .call .. | .deliver _ => .isTrue trivial

/-- The task will wake somebody, or try for the mutex again, without a signal. -/
def Active (t : Thread MutexLock MutexOp) : Prop :=
  t.pos = some (.releasesleep, 1) ∨ Leaving .waitsleep 2 t ∨ t.pos = some (.waitsleep, 10) ∨
  t.pos = some (.waitsleep, 11) ∨ t.pos = some (.waitsleep, 0)

/-- Somebody waits for the mutex, or is about to. -/
def Wanted (s : MutexState ι) : Prop :=
  s.waiters .waiters ≠ [] ∨ ∃ i, Entering .waitsleep 2 (s.tasks i)

/-- A free mutex that is wanted has an active task. -/
def MutexAlive (s : MutexState ι) : Prop :=
  s.locked .s = false → Wanted s → ∃ i, Active (s.tasks i)

theorem Active.signal {t : Thread MutexLock MutexOp} (h : Active t) :
    Active { t with waiting := false, pending := true } := by
  rcases h with h | h | h
  · exact Or.inl h
  · exact Or.inr (Or.inl h.signal)
  · exact Or.inr (Or.inr h)

theorem Active.deliver {t : Thread MutexLock MutexOp} (h : Active t) :
    Active { t with pending := false, paused := false } := by
  rcases h with h | h | h
  · exact Or.inl h
  · exact Or.inr (Or.inl h.deliver)
  · exact Or.inr (Or.inr h)

theorem Active.inside {t : Thread MutexLock MutexOp} (h : Active t) : t.pos ≠ none := by
  intro hnone
  rcases h with h | h | h | h | h
  case inr.inl =>
    obtain ⟨k, -, h⟩ := h.place
    cases hnone.symm.trans h
  all_goals cases hnone.symm.trans h

section Exec

variable [DecidableEq ι] {p : MutexOp} {pc : Nat} {c : Instr MutexLock MutexList}

theorem Wanted.of_exec (hcode : pc < (mutex.code p).length)
    (hpos : (s.tasks i).pos = some (p, pc)) (hc : (mutex.code p)[pc]? = some c)
    (hfree : s.locked .s = false) (h : Wanted (s.exec i p pc c)) : Wanted s := by
  rcases h with h | ⟨j, hj⟩
  · rcases Config.exec_waiters h with h | rfl
    · exact Or.inl h
    · obtain ⟨rfl, rfl⟩ := mutex_attach_at p pc hcode hc
      exact Or.inr ⟨i, Or.inr hpos⟩
  · obtain ⟨qc, hq, hj⟩ : ∃ qc, (qc = 2 ∨ qc = 3) ∧
        ((s.exec i p pc c).tasks j).pos = some (.waitsleep, qc) := by
      rcases hj with hj | hj
      · exact ⟨2, Or.inl rfl, hj⟩
      · exact ⟨3, Or.inr rfl, hj⟩
    rcases Config.exec_place hj with hj' | ⟨rfl, rfl, htarget⟩
    · refine Or.inr ⟨j, ?_⟩
      rcases hq with rfl | rfl
      · exact Or.inl hj'
      · exact Or.inr hj'
    · rcases mutex_entering_at pc hcode c hc qc htarget hq with rfl | ⟨rfl, rfl⟩
      · exact Or.inr ⟨j, Or.inl hpos⟩
      · -- the exchange found the mutex free
        simp only [Config.exec, hfree] at hj
        rcases hq with rfl | rfl <;> cases Config.jump_pos.symm.trans hj

theorem active_of_wake (h : mutexOutline.Inv mutex s) (hi : (s.tasks i).pos = some (.releasesleep, 1))
    (hhits : WakeHits .waitsleep 2 .waiters s) (hw : Wanted s) :
    ∃ j, Active ((s.exec i .releasesleep 1 (.wake .waiters)).tasks j) := by
  cases hlist : s.waiters .waiters with
  | nil =>
    rcases hw with hw | ⟨j, hj⟩
    · exact absurd hlist hw
    · exact absurd hj (hhits.1 hlist j)
  | cons j js =>
    have hat := attached_of_mem h (hlist ▸ List.mem_cons_self : j ∈ s.waiters .waiters)
    have hji : j ≠ i := by
      rintro rfl
      obtain ⟨k, -, -, hk⟩ := hat
      cases hi.symm.trans hk
    exact ⟨j, Or.inr (Or.inl (hhits.leaving hlist hji hat))⟩

theorem Active.exec (h : mutexOutline.Inv mutex s) (hpos : (s.tasks i).pos = some (p, pc))
    (hrun : (s.tasks i).paused = false) (hc : (mutex.code p)[pc]? = some c)
    (hfree : s.locked .s = false) (hwakes : MutexWakes s (.run i)) (hw : Wanted s)
    (hi : Active (s.tasks i)) :
    (s.exec i p pc c).locked .s = true ∨ ∃ j, Active ((s.exec i p pc c).tasks j) := by
  have hat : ∀ {q qc}, (s.tasks i).pos = some (q, qc) → p = q ∧ pc = qc := by
    intro q qc hq
    cases hpos.symm.trans hq
    exact ⟨rfl, rfl⟩
  rcases hi with hi | hi | hi | hi | hi
  · obtain ⟨rfl, rfl⟩ := hat hi
    cases hc
    exact Or.inr (active_of_wake h hpos (hwakes hpos hfree) hw)
  · right
    obtain ⟨k, -, hk⟩ := hi.place
    obtain ⟨rfl, -⟩ := hat hk
    rcases hi.exec mutex_sleepsAt hrun hpos hc with hi | hi
    · exact ⟨i, Or.inr (Or.inl hi)⟩
    · exact ⟨i, Or.inr (Or.inr (Or.inl hi))⟩
  · obtain ⟨rfl, rfl⟩ := hat hi
    cases hc
    exact Or.inr ⟨i, Or.inr (Or.inr (Or.inr (Or.inl Config.jump_pos)))⟩
  · obtain ⟨rfl, rfl⟩ := hat hi
    cases hc
    exact Or.inr ⟨i, Or.inr (Or.inr (Or.inr (Or.inr Config.jump_pos)))⟩
  · obtain ⟨rfl, rfl⟩ := hat hi
    cases hc
    left
    simp [mutexTry, Config.exec, hfree]

theorem MutexAlive.exec (ha : MutexAlive s) (h : mutexOutline.Inv mutex s)
    (hpos : (s.tasks i).pos = some (p, pc)) (hrun : (s.tasks i).paused = false)
    (hc : (mutex.code p)[pc]? = some c) (hwakes : MutexWakes s (.run i)) :
    MutexAlive (s.exec i p pc c) := by
  intro hfree hw
  have hcode := (h.places hpos).1
  rcases Config.exec_locked hfree with hfree' | rfl
  · have hw' := hw.of_exec hcode hpos hc hfree'
    obtain ⟨j, hj⟩ := ha hfree' hw'
    by_cases hji : j = i
    · subst hji
      rcases hj.exec h hpos hrun hc hfree' hwakes hw' with hset | hactive
      · cases hfree.symm.trans hset
      · exact hactive
    · refine ⟨j, ?_⟩
      rcases s.exec_of_ne hji with heq | ⟨w, js, -, -, heq⟩ <;> rw [heq]
      · exact hj
      · exact hj.signal
  · -- whoever frees the mutex is about to wake
    obtain ⟨rfl, rfl⟩ := mutex_release_at p pc hcode hc
    exact ⟨i, Or.inl Config.jump_pos⟩

theorem MutexAlive.step {e : Event ι MutexOp} (ha : MutexAlive s) (h : mutexOutline.Inv mutex s)
    (hwakes : MutexWakes s e) (hstep : Step mutex s e s') : MutexAlive s' := by
  rcases hstep.cases with ⟨i, p, rfl, hnone, -, rfl⟩ | ⟨i, p, pc, c, rfl, hrun, hpos, hc, rfl⟩ |
    ⟨i, rfl, -, rfl⟩
  · intro hfree hw
    have hself : ((s.next mutex (.call i p)).tasks i).pos = some (p, 0) := by
      rw [Config.next, Config.setTask_self]
    have hother : ∀ {j}, j ≠ i → (s.next mutex (.call i p)).tasks j = s.tasks j :=
      fun hj => Config.setTask_of_ne _ _ _ hj
    have hw' : Wanted s := by
      rcases hw with hw | ⟨j, hj⟩
      · exact Or.inl hw
      · refine Or.inr ⟨j, ?_⟩
        by_cases hji : j = i
        · subst hji
          rcases hj with hj | hj <;> cases hself.symm.trans hj
        · exact hother hji ▸ hj
    obtain ⟨j, hj⟩ := ha hfree hw'
    have hji : j ≠ i := by
      rintro rfl
      exact hj.inside hnone
    exact ⟨j, (hother hji).symm ▸ hj⟩
  · exact ha.exec h hpos hrun hc hwakes
  · intro hfree hw
    have htask := s.deliver_cases i
    have hw' : Wanted s := by
      rcases hw with hw | ⟨j, hj⟩
      · exact Or.inl hw
      · refine Or.inr ⟨j, ?_⟩
        rcases htask j with heq | heq <;> rw [heq] at hj <;> exact hj
    obtain ⟨j, hj⟩ := ha hfree hw'
    refine ⟨j, ?_⟩
    rcases htask j with heq | heq <;> rw [heq]
    · exact hj
    · exact hj.deliver

omit [DecidableEq ι] in
theorem Active.not_asleep (h : mutexOutline.Inv mutex s) (hi : Active (s.tasks i))
    (hquiet : MutexQuiet s) : False := by
  have hpaused := h.paused (i := i)
  rcases hi with hi | hi | hi | hi | hi
  · exact (hquiet i 1).2 hi
  · obtain ⟨k, -, hk⟩ := hi.place
    exact hi.not_asleep hpaused (by decide) (by decide) ((hquiet i _).1 hk)
  all_goals
    obtain ⟨q, qc, hq, hc⟩ := hpaused ((hquiet i _).1 hi).1
    cases hi.symm.trans hq
  · cases hc
  · cases hc

theorem mutex_inv {ok : MutexState ι → Event ι MutexOp → Prop}
    (h : Reach (Step mutex) ok mutexInitializer s) : mutexOutline.Inv mutex s :=
  Outline.Inv.of_reach mutexOutline_checked (.init (UInt32.le_refl 0)) h

theorem mutex_alive (h : Reach (Step mutex) MutexWakes mutexInitializer s) : MutexAlive s := by
  induction h with
  | start =>
    rintro - (hw | ⟨i, hi | hi⟩)
    · exact absurd rfl hw
    · cases hi
    · cases hi
  | step hs hwakes hstep ih => exact ih.step (mutex_inv hs) hwakes hstep

/-- **No wake-up of a mutex is lost**, in a run whose wake-ups hit, and the mutex has at most one
holder. -/
theorem mutex_no_loss {s : MutexState ι} (h : Reach (Step mutex) MutexWakes mutexInitializer s) :
    (MutexQuiet s → s.waiters .waiters ≠ [] → s.locked .s = true) ∧
    ∀ i j, HoldsMutex s i → HoldsMutex s j → i = j := by
  refine ⟨fun hquiet hne => ?_, fun i j => holdsMutex_unique (mutex_inv h)⟩
  by_contra hfree
  obtain ⟨i, hi⟩ := mutex_alive h (Bool.eq_false_iff.mpr hfree) (Or.inl hne)
  exact hi.not_asleep (mutex_inv h) hquiet

end Exec

/-- One task gets the mutex and another one goes to sleep for it. -/
def waitEvents : List (Event Bool MutexOp) :=
  [.call true .waitsleep, .run true, .run true, .run true,
    .call false .waitsleep, .run false, .run false, .run false, .run false, .run false, .run false]

theorem mutex_no_loss_wait :
    (waitEvents.foldl (Config.next mutex) mutexInitializer).locked .s = true := by
  have h : Reach (Step mutex) MutexWakes mutexInitializer
      (waitEvents.foldl (Config.next mutex) mutexInitializer) :=
    Reach.of_enabled (by decide)
  refine (mutex_no_loss h).1 (fun i pc => ?_) (by decide)
  cases i with
  | true => exact ⟨nofun, nofun⟩
  | false => exact ⟨fun _ => ⟨rfl, rfl⟩, nofun⟩

/-- The release comes between the failed exchange of the other task and its attachment. -/
def lateEvents : List (Event Bool MutexOp) :=
  [.call true .waitsleep, .run true, .run true, .run true, .call false .waitsleep, .run false,
    .call true .releasesleep, .run true, .run true, .run true,
    .run false, .run false, .run false, .run false, .run false]

/-- **A wake-up is lost**: everybody sleeps, and the mutex is free. -/
theorem mutex_wake_lost : ∃ s : MutexState Bool,
    Reach (Step mutex) (fun _ _ => True) mutexInitializer s ∧ MutexQuiet s ∧
    s.waiters .waiters ≠ [] ∧ s.locked .s = false := by
  refine ⟨lateEvents.foldl (Config.next mutex) mutexInitializer, Reach.of_enabled (by decide),
    fun i pc => ?_, by decide, by decide⟩
  cases i with
  | true => exact ⟨nofun, nofun⟩
  | false => exact ⟨fun _ => ⟨rfl, rfl⟩, nofun⟩

end Hydrax.Sync
