import Hydrax.Sync.Semaphore
import Hydrax.Sync.Sleep

/-!
# Sleeping on a semaphore

`semaphore_waitsleep` sleeps twice: for the mutex `exclusive`, and then, with that mutex, for a
slot. `semaphore_signal_sleep` wakes the first waiter for a slot. Nobody wakes the waiters for
`exclusive`, which is given up with `mutex_release`.

* `semaphore_no_loss` — nobody sleeps for what is free, if no wake-up falls into a window and
  nobody waits for `exclusive` when it is released,
* `semaphore_wake_lost` — a run for each of the two defects.
-/

namespace Hydrax.Sync

open Conc SemaphoreLock SemaphoreList

/-! ## The two operations -/

def SleepOp (p : SemaphoreOp) : Prop := p = .waitsleep ∨ p = .signalSleep

instance decidableSleepOp (p : SemaphoreOp) : Decidable (SleepOp p) :=
  inferInstanceAs (Decidable (_ ∨ _))

theorem semaphore_sleepsAt : SleepsAt semaphore .waitsleep 19 waiters waitersLock 12 := by
  unfold SleepsAt
  decide

theorem increment_at : ∀ p, SleepOp p → ∀ pc < (semaphore.code p).length,
    (semaphore.code p)[pc]? = some .increment → p = .waitsleep ∧ pc = 14 := by
  decide

theorem decrement_at : ∀ p, SleepOp p → ∀ pc < (semaphore.code p).length,
    (semaphore.code p)[pc]? = some .decrement → p = .signalSleep ∧ pc = 2 := by
  decide

theorem release_at : ∀ p, SleepOp p → ∀ pc < (semaphore.code p).length,
    (semaphore.code p)[pc]? = some (.release exclusive) → p = .waitsleep ∧ pc = 16 := by
  decide

theorem waiters_at : ∀ p, SleepOp p → ∀ pc < (semaphore.code p).length,
    semaphoreOutline.list p pc = some waiters → p = .waitsleep ∧ 21 ≤ pc ∧ pc ≤ 26 := by
  decide

theorem exclusiveWaiters_at : ∀ p, SleepOp p → ∀ pc < (semaphore.code p).length,
    semaphoreOutline.list p pc = some exclusiveWaiters → p = .waitsleep ∧ 4 ≤ pc ∧ pc ≤ 9 := by
  decide

theorem queued_at : ∀ pc < (semaphore.code .waitsleep).length,
    ∀ c ∈ (semaphore.code .waitsleep)[pc]?, ∀ pc' ∈ c.targets pc, 2 ≤ pc' ∧ pc' ≤ 11 →
    (2 ≤ pc ∧ pc ≤ 11) ∨ pc = 0 ∧ c = .exchange exclusive 2 := by
  decide

theorem bound_at : ∀ pc < (semaphore.code .waitsleep).length,
    ∀ c ∈ (semaphore.code .waitsleep)[pc]?, ∀ pc' ∈ c.targets pc, 18 ≤ pc' ∧ pc' ≤ 26 →
    (18 ≤ pc ∧ pc ≤ 26) ∨ pc = 13 ∧ c = .test .belowMax 18 := by
  decide

theorem bound_holds : ∀ k, 18 ≤ k → k ≤ 26 →
    semaphoreOutline.held .waitsleep k exclusive = true := by
  decide

theorem attached_at : ∀ k, 21 ≤ k → k ≤ 26 →
    semaphoreOutline.list .waitsleep k = some waiters := by
  decide

variable {ι : Type} {s s' : SemaphoreState ι} {i : ι}

/-- In the sleep for `exclusive`. -/
def Queued (t : Thread SemaphoreLock SemaphoreOp) : Prop :=
  ∃ k, (2 ≤ k ∧ k ≤ 11) ∧ t.pos = some (.waitsleep, k)

/-- Found no slot, and not detached yet. -/
def Bound (t : Thread SemaphoreLock SemaphoreOp) : Prop :=
  ∃ k, (18 ≤ k ∧ k ≤ 26) ∧ t.pos = some (.waitsleep, k)

instance decidableQueued (t : Thread SemaphoreLock SemaphoreOp) : Decidable (Queued t) :=
  decidable_of_iff (∃ k, k < 12 ∧ 2 ≤ k ∧ t.pos = some (.waitsleep, k))
    ⟨fun ⟨k, h, h', hpos⟩ => ⟨k, ⟨h', Nat.le_of_lt_succ h⟩, hpos⟩,
      fun ⟨k, h, hpos⟩ => ⟨k, Nat.lt_succ_of_le h.2, h.1, hpos⟩⟩

/-- A run of the two operations. -/
def SleepCalls : Event ι SemaphoreOp → Prop
  | .call _ p => SleepOp p
  | _ => True

/-- The wake-ups hit, and nobody waits for `exclusive` when it is released. -/
def SleepWakes (s : SemaphoreState ι) : Event ι SemaphoreOp → Prop
  | .run i =>
    ((s.tasks i).pos = some (.signalSleep, 3) → WakeHits .waitsleep 19 waiters s) ∧
    ((s.tasks i).pos = some (.waitsleep, 16) → ∀ j, ¬ Queued (s.tasks j))
  | _ => True

instance decidableSleepCalls : ∀ e : Event ι SemaphoreOp, Decidable (SleepCalls e)
  | .call _ p => decidableSleepOp p
  | .run _ | .deliver _ => .isTrue trivial

instance decidableSleepWakes [DecidableEq ι] [Fintype ι] (s : SemaphoreState ι) :
    ∀ e, Decidable (SleepWakes s e)
  | .run _ => inferInstanceAs (Decidable ((_ → WakeHits _ _ _ _) ∧ (_ → ∀ _, ¬ Queued _)))
  | .call .. | .deliver _ => .isTrue trivial

def AllAsleep (s : SemaphoreState ι) : Prop := ∀ i, (s.tasks i).pos ≠ none → Asleep (s.tasks i)

def SleepsOn (s : SemaphoreState ι) (w : SemaphoreList) (i : ι) : Prop :=
  i ∈ s.waiters w ∧ Asleep (s.tasks i)

/-- The task will wake the waiter, or is the waiter and on its way out. -/
def Helps (t : Thread SemaphoreLock SemaphoreOp) : Prop :=
  t.pos = some (.signalSleep, 3) ∨ Leaving .waitsleep 19 t

structure SleepInv (s : SemaphoreState ι) : Prop where
  outline : semaphoreOutline.Inv semaphore s
  ops : ∀ {i p pc}, (s.tasks i).pos = some (p, pc) → SleepOp p
  alive : s.cnt < s.maxCnt → (∃ i, Bound (s.tasks i)) → ∃ j, Helps (s.tasks j)
  queued : ∀ {i}, Queued (s.tasks i) → s.locked exclusive = true

/-! ## The tasks that sleep for a slot -/

theorem Bound.own (h : Bound (s.tasks i)) : semaphoreOutline.own s (i, false) exclusive = true := by
  obtain ⟨k, ⟨hge, hle⟩, hpos⟩ := h
  rw [Outline.own_at hpos]
  exact bound_holds k hge hle

theorem Helps.signal {t : Thread SemaphoreLock SemaphoreOp} (h : Helps t) :
    Helps { t with waiting := false, pending := true } := by
  rcases h with h | h
  · exact Or.inl h
  · exact Or.inr h.signal

theorem Helps.deliver {t : Thread SemaphoreLock SemaphoreOp} (h : Helps t) :
    Helps { t with pending := false, paused := false } := by
  rcases h with h | h
  · exact Or.inl h
  · exact Or.inr h.deliver

theorem Helps.inside {t : Thread SemaphoreLock SemaphoreOp} (h : Helps t) : t.pos ≠ none := by
  intro hnone
  rcases h with h | h
  · cases hnone.symm.trans h
  · obtain ⟨k, -, hk⟩ := h.place
    cases hnone.symm.trans hk

theorem SleepInv.attached (h : SleepInv s) (hi : i ∈ s.waiters waiters) :
    Attached .waitsleep 19 (s.tasks i) := by
  obtain ⟨p, pc, hpos, hcode, hlist⟩ := h.outline.place_of_mem hi
  obtain ⟨rfl, hge, hle⟩ := waiters_at p (h.ops hpos) pc hcode hlist
  refine ⟨pc - 19, by omega, by omega, ?_⟩
  rw [hpos, Nat.add_sub_cancel' (by omega)]

section Exec

variable [DecidableEq ι] {p : SemaphoreOp} {pc : Nat} {c : Instr SemaphoreLock SemaphoreList}

theorem Bound.of_exec {j : ι} (hcode : pc < (semaphore.code p).length)
    (hpos : (s.tasks i).pos = some (p, pc)) (hc : (semaphore.code p)[pc]? = some c)
    (hlt : s.cnt < s.maxCnt) (h : Bound ((s.exec i p pc c).tasks j)) : Bound (s.tasks j) := by
  obtain ⟨k, hk, hj⟩ := h
  rcases Config.exec_place hj with hj' | ⟨rfl, rfl, htarget⟩
  · exact ⟨k, hk, hj'⟩
  · rcases bound_at pc hcode c hc k htarget hk with hpc | ⟨rfl, rfl⟩
    · exact ⟨pc, hpc, hpos⟩
    · have hholds : Test.belowMax.Holds s.cnt s.maxCnt := hlt
      simp only [Config.exec, hholds, if_true] at hj
      cases Config.jump_pos.symm.trans hj
      omega

theorem helps_of_wake {j : ι} (h : SleepInv s) (hi : (s.tasks i).pos = some (.signalSleep, 3))
    (hhits : WakeHits .waitsleep 19 waiters s) (hj : Bound (s.tasks j)) :
    ∃ k, Helps ((s.exec i .signalSleep 3 (.wake waiters)).tasks k) := by
  cases hlist : s.waiters waiters with
  | nil =>
    exfalso
    obtain ⟨k, ⟨hge, hle⟩, hk⟩ := hj
    obtain rfl | hk' | hk' : k = 18 ∨ (k = 19 ∨ k = 20) ∨ 21 ≤ k := by omega
    · -- both hold `enter`
      have hown : semaphoreOutline.own s (j, false) enter = true :=
        (Outline.own_at hk _).trans (by decide)
      have hown' : semaphoreOutline.own s (i, false) enter = true :=
        (Outline.own_at hi _).trans (by decide)
      cases h.outline.owned.unique hown hown'
      cases hi.symm.trans hk
    · refine hhits.1 hlist j ?_
      rcases hk' with rfl | rfl
      · exact Or.inl hk
      · exact Or.inr hk
    · have hmem : j ∈ s.waiters waiters := by
        rw [h.outline.mem_iff, Outline.listAt, hk, Option.bind_some]
        exact attached_at k hk' hle
      rw [hlist] at hmem
      cases hmem
  | cons k ks =>
    have hat := h.attached (hlist ▸ List.mem_cons_self : k ∈ s.waiters waiters)
    have hki : k ≠ i := by
      rintro rfl
      obtain ⟨m, -, -, hm⟩ := hat
      cases hi.symm.trans hm
    exact ⟨k, Or.inr (hhits.leaving hlist hki hat)⟩

theorem Helps.exec {j : ι} (h : SleepInv s) (hpos : (s.tasks i).pos = some (p, pc))
    (hrun : (s.tasks i).paused = false) (hc : (semaphore.code p)[pc]? = some c)
    (hwakes : SleepWakes s (.run i)) (hj : Bound (s.tasks j))
    (hj' : Bound ((s.exec i p pc c).tasks j)) (hi : Helps (s.tasks i)) :
    ∃ k, Helps ((s.exec i p pc c).tasks k) := by
  rcases hi with hi | hi
  · cases hpos.symm.trans hi
    cases hc
    exact helps_of_wake h hpos (hwakes.1 hpos) hj
  · obtain ⟨k, -, hk⟩ := hi.place
    cases hpos.symm.trans hk
    rcases hi.exec semaphore_sleepsAt hrun hpos hc with hi' | hi'
    · exact ⟨i, Or.inr hi'⟩
    · -- it had `exclusive`, like the other, and is not bound any more
      have hinv := h.outline.exec hpos hrun semaphoreOutline_checked hc
      have hown : semaphoreOutline.own (s.exec i .waitsleep (19 + k) c) (i, false) exclusive = true :=
        (Outline.own_at hi' _).trans (by decide)
      cases hinv.owned.unique hj'.own hown
      obtain ⟨m, hm, hm'⟩ := hj'
      cases hi'.symm.trans hm'
      omega

theorem SleepInv.exec_alive (h : SleepInv s) (hpos : (s.tasks i).pos = some (p, pc))
    (hrun : (s.tasks i).paused = false) (hc : (semaphore.code p)[pc]? = some c)
    (hwakes : SleepWakes s (.run i)) (hlt : (s.exec i p pc c).cnt < (s.exec i p pc c).maxCnt)
    {j : ι} (hj : Bound ((s.exec i p pc c).tasks j)) :
    ∃ k, Helps ((s.exec i p pc c).tasks k) := by
  have hcode := (h.outline.places hpos).1
  rcases s.exec_cnt i p pc c with hcnt | rfl | rfl
  · rw [hcnt, Config.exec_maxCnt] at hlt
    have hj' := hj.of_exec hcode hpos hc hlt
    obtain ⟨k, hk⟩ := h.alive hlt ⟨j, hj'⟩
    by_cases hki : k = i
    · subst hki
      exact hk.exec h hpos hrun hc hwakes hj' hj
    · refine ⟨k, ?_⟩
      rcases s.exec_of_ne hki with heq | ⟨w, js, -, -, heq⟩ <;> rw [heq]
      · exact hk
      · exact hk.signal
  · -- who takes a slot has `exclusive`, and so has who sleeps for one
    obtain ⟨rfl, rfl⟩ := increment_at p (h.ops hpos) pc hcode hc
    have hinv := h.outline.exec hpos hrun semaphoreOutline_checked hc
    have hi : ((s.exec i .waitsleep 14 .increment).tasks i).pos = some (.waitsleep, 15) :=
      Config.jump_pos
    have hown : semaphoreOutline.own (s.exec i .waitsleep 14 .increment) (i, false) exclusive
        = true := (Outline.own_at hi _).trans (by decide)
    cases hinv.owned.unique hj.own hown
    obtain ⟨m, hm, hm'⟩ := hj
    cases hi.symm.trans hm'
    omega
  · obtain ⟨rfl, rfl⟩ := decrement_at p (h.ops hpos) pc hcode hc
    exact ⟨i, Or.inl Config.jump_pos⟩

theorem SleepInv.exec_queued (h : SleepInv s) (hpos : (s.tasks i).pos = some (p, pc))
    (hc : (semaphore.code p)[pc]? = some c) (hwakes : SleepWakes s (.run i)) {j : ι}
    (hj : Queued ((s.exec i p pc c).tasks j)) : (s.exec i p pc c).locked exclusive = true := by
  have hcode := (h.outline.places hpos).1
  obtain ⟨k, hk, hjpos⟩ := hj
  by_contra hfree
  rw [Bool.not_eq_true] at hfree
  have hqueued : Queued (s.tasks j) ∨ s.locked exclusive = true := by
    rcases Config.exec_place hjpos with hj' | ⟨rfl, rfl, htarget⟩
    · exact Or.inl ⟨k, hk, hj'⟩
    · rcases queued_at pc hcode c hc k htarget hk with hpc | ⟨rfl, rfl⟩
      · exact Or.inl ⟨pc, hpc, hpos⟩
      · -- the exchange failed, or the task would not be here
        right
        by_contra hset
        simp only [Config.exec, hset] at hjpos
        cases Config.jump_pos.symm.trans hjpos
        omega
  rcases Config.exec_locked hfree with hfree' | rfl
  · rcases hqueued with hq | hset
    · cases (h.queued hq).symm.trans hfree'
    · cases hset.symm.trans hfree'
  · obtain ⟨rfl, rfl⟩ := release_at p (h.ops hpos) pc hcode hc
    rcases Config.exec_place hjpos with hj' | ⟨rfl, -, htarget⟩
    · exact hwakes.2 hpos j ⟨k, hk, hj'⟩
    · obtain rfl : k = 17 := List.mem_singleton.mp htarget
      omega

theorem SleepInv.exec (h : SleepInv s) (hpos : (s.tasks i).pos = some (p, pc))
    (hrun : (s.tasks i).paused = false) (hc : (semaphore.code p)[pc]? = some c)
    (hwakes : SleepWakes s (.run i)) : SleepInv (s.exec i p pc c) where
  outline := h.outline.exec hpos hrun semaphoreOutline_checked hc
  ops hj := by
    rcases Config.exec_place hj with hj' | ⟨-, rfl, -⟩
    · exact h.ops hj'
    · exact h.ops hpos
  alive hlt hj := by
    obtain ⟨j, hj⟩ := hj
    exact h.exec_alive hpos hrun hc hwakes hlt hj
  queued hj := h.exec_queued hpos hc hwakes hj

theorem SleepInv.call (h : SleepInv s) (hinv : semaphoreOutline.Inv semaphore
      (s.next semaphore (.call i p))) (hp : SleepOp p) (hnone : (s.tasks i).pos = none) :
    SleepInv (s.next semaphore (.call i p)) := by
  have hself : ((s.next semaphore (.call i p)).tasks i).pos = some (p, 0) := by
    rw [Config.next, Config.setTask_self]
  have hother : ∀ {j}, j ≠ i → (s.next semaphore (.call i p)).tasks j = s.tasks j :=
    fun hj => Config.setTask_of_ne _ _ _ hj
  -- a task that stands at a later place was there before
  have hplace : ∀ {j q k}, 0 < k → ((s.next semaphore (.call i p)).tasks j).pos = some (q, k) →
      (s.tasks j).pos = some (q, k) := by
    intro j q k hk hj
    by_cases hji : j = i
    · subst hji
      cases hself.symm.trans hj
      cases hk
    · exact hother hji ▸ hj
  refine ⟨hinv, fun {j q k} hj => ?_, fun hlt hbound => ?_, fun {j} hj => ?_⟩
  · by_cases hji : j = i
    · subst hji
      cases hself.symm.trans hj
      exact hp
    · exact h.ops (hother hji ▸ hj)
  · obtain ⟨j, k, hk, hj⟩ := hbound
    obtain ⟨m, hm⟩ := h.alive hlt ⟨j, k, hk, hplace (by omega) hj⟩
    have hmi : m ≠ i := by
      rintro rfl
      exact hm.inside hnone
    exact ⟨m, (hother hmi).symm ▸ hm⟩
  · obtain ⟨k, hk, hj⟩ := hj
    exact h.queued ⟨k, hk, hplace (by omega) hj⟩

theorem SleepInv.deliver (h : SleepInv s) (hinv : semaphoreOutline.Inv semaphore
      (s.setTask i { s.tasks i with pending := false, paused := false })) :
    SleepInv (s.setTask i { s.tasks i with pending := false, paused := false }) := by
  have htask := s.deliver_cases i
  have hplace : ∀ j,
      ((s.setTask i { s.tasks i with pending := false, paused := false }).tasks j).pos =
        (s.tasks j).pos := by
    intro j
    rcases htask j with heq | heq <;> rw [heq]
  refine ⟨hinv, fun {j q k} hj => ?_, fun hlt hbound => ?_, fun {j} hj => ?_⟩
  · exact h.ops (hplace j ▸ hj)
  · obtain ⟨j, k, hk, hj⟩ := hbound
    obtain ⟨m, hm⟩ := h.alive hlt ⟨j, k, hk, hplace j ▸ hj⟩
    refine ⟨m, ?_⟩
    rcases htask m with heq | heq <;> rw [heq]
    · exact hm
    · exact hm.deliver
  · obtain ⟨k, hk, hj⟩ := hj
    exact h.queued ⟨k, hk, hplace j ▸ hj⟩

theorem SleepInv.step {e : Event ι SemaphoreOp} (h : SleepInv s) (hcalls : SleepCalls e)
    (hwakes : SleepWakes s e) (hstep : Step semaphore s e s') : SleepInv s' := by
  have hinv := h.outline.step semaphoreOutline_checked hstep
  rcases hstep.cases with ⟨i, p, rfl, hnone, -, rfl⟩ | ⟨i, p, pc, c, rfl, hrun, hpos, hc, rfl⟩ |
    ⟨i, rfl, -, rfl⟩
  · exact h.call hinv hcalls hnone
  · exact h.exec hpos hrun hc hwakes
  · exact h.deliver hinv

omit [DecidableEq ι] in
theorem SleepInv.init {max count : UInt32} (hle : count ≤ max) :
    SleepInv (semaphoreInitializer max count : SemaphoreState ι) where
  outline := .init hle
  ops := nofun
  alive _ hi := by
    obtain ⟨i, k, -, hi⟩ := hi
    cases hi
  queued hi := by
    obtain ⟨k, -, hi⟩ := hi
    cases hi

theorem semaphore_sleepInv {max count : UInt32} (hle : count ≤ max)
    (h : Reach (Step semaphore) (fun s e => SleepCalls e ∧ SleepWakes s e)
      (semaphoreInitializer max count) s) : SleepInv s := by
  induction h with
  | start => exact .init hle
  | step _ hok hstep ih => exact ih.step hok.1 hok.2 hstep

omit [DecidableEq ι] in
theorem Helps.not_asleep (h : SleepInv s) (hi : Helps (s.tasks i)) (hall : AllAsleep s) : False := by
  have hasleep := hall i hi.inside
  rcases hi with hi | hi
  · obtain ⟨q, qc, hq, hc⟩ := h.outline.paused hasleep.1
    cases hi.symm.trans hq
    cases hc
  · exact hi.not_asleep h.outline.paused (by decide) (by decide) hasleep

/-- **No wake-up of a semaphore is lost**, in a run whose wake-ups hit and in which nobody waits for
`exclusive` when it is released. -/
theorem semaphore_no_loss {max count : UInt32} (hle : count ≤ max) {s : SemaphoreState ι}
    (h : Reach (Step semaphore) (fun s e => SleepCalls e ∧ SleepWakes s e)
      (semaphoreInitializer max count) s) (hall : AllAsleep s) (i : ι) :
    (SleepsOn s waiters i → s.cnt = s.maxCnt) ∧
    (SleepsOn s exclusiveWaiters i → s.locked exclusive = true) := by
  have hinv := semaphore_sleepInv hle h
  constructor
  · rintro ⟨hi, -⟩
    by_contra hne
    obtain ⟨k, hge, hk, hpos⟩ := hinv.attached hi
    obtain ⟨j, hj⟩ := hinv.alive (UInt32.lt_of_le_of_ne hinv.outline.le hne)
      ⟨i, 19 + k, by omega, hpos⟩
    exact hj.not_asleep hinv hall
  · rintro ⟨hi, -⟩
    obtain ⟨p, pc, hpos, hcode, hlist⟩ := hinv.outline.place_of_mem hi
    obtain ⟨rfl, hge, hk⟩ := exclusiveWaiters_at p (hinv.ops hpos) pc hcode hlist
    exact hinv.queued ⟨pc, by omega, hpos⟩

end Exec

/-- The only slot is taken. One task sleeps for it and another one for `exclusive`. -/
def sleepEvents : List (Event Bool SemaphoreOp) :=
  .call true .waitsleep :: List.replicate 10 (.run true) ++
  .call false .waitsleep :: List.replicate 6 (.run false)

theorem semaphore_no_loss_sleep :
    (sleepEvents.foldl (Config.next semaphore) (semaphoreInitializer 1 1)).cnt = 1 ∧
    (sleepEvents.foldl (Config.next semaphore) (semaphoreInitializer 1 1)).locked exclusive = true := by
  have h : Reach (Step semaphore) (fun s e => SleepCalls e ∧ SleepWakes s e)
      (semaphoreInitializer 1 1)
      (sleepEvents.foldl (Config.next semaphore) (semaphoreInitializer 1 1)) :=
    Reach.of_enabled (by decide)
  have hloss := semaphore_no_loss (by decide) h (fun i _ => by cases i <;> exact ⟨rfl, rfl⟩)
  exact ⟨(hloss true).1 ⟨by decide, rfl, rfl⟩, (hloss false).2 ⟨by decide, rfl, rfl⟩⟩

/-- The slot is given back between the test of the counter and the attachment of the waiter. -/
def slotEvents : List (Event Bool SemaphoreOp) :=
  .call true .waitsleep :: List.replicate 5 (.run true) ++
  .call false .signalSleep :: List.replicate 6 (.run false) ++
  List.replicate 5 (.run true)

/-- The holder of `exclusive` takes its slot while another task sleeps for `exclusive`. -/
def exclusiveEvents : List (Event Bool SemaphoreOp) :=
  [.call true .waitsleep, .run true] ++
  .call false .waitsleep :: List.replicate 6 (.run false) ++
  List.replicate 7 (.run true)

/-- **Wake-ups are lost**: a task sleeps for a slot that is free, and one for `exclusive`, which is
free. -/
theorem semaphore_wake_lost :
    (∃ s : SemaphoreState Bool,
      Reach (Step semaphore) (fun _ e => SleepCalls e) (semaphoreInitializer 1 1) s ∧
      AllAsleep s ∧ (∃ i, SleepsOn s waiters i) ∧ s.cnt ≠ s.maxCnt) ∧
    ∃ s : SemaphoreState Bool,
      Reach (Step semaphore) (fun _ e => SleepCalls e) (semaphoreInitializer 1 0) s ∧
      AllAsleep s ∧ (∃ i, SleepsOn s exclusiveWaiters i) ∧ s.locked exclusive = false := by
  constructor
  · refine ⟨slotEvents.foldl (Config.next semaphore) (semaphoreInitializer 1 1),
      Reach.of_enabled (by decide), fun i hi => ?_, ⟨true, by decide, rfl, rfl⟩, by decide⟩
    cases i with
    | true => exact ⟨rfl, rfl⟩
    | false => exact absurd rfl hi
  · refine ⟨exclusiveEvents.foldl (Config.next semaphore) (semaphoreInitializer 1 0),
      Reach.of_enabled (by decide), fun i hi => ?_, ⟨false, by decide, rfl, rfl⟩, by decide⟩
    cases i with
    | true => exact absurd rfl hi
    | false => exact ⟨rfl, rfl⟩

end Hydrax.Sync
