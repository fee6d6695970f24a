import Hydrax.Sched.SigQueue

/-!
# What the signal handler takes

A call of `signal_handler` takes the pending signals that are not blocked, the lowest number first.
Here the task comes with its `sig_info`, and the signals that were taken are logged together with
the function that was called for each.

* `drain_task` — without the records and the log, this is `signalHandler`,
* `drain_eq` — what a call takes and what it leaves.
-/

namespace Hydrax.Sched

structure Delivery where
  bit : Nat
  /-- The function of the program that was called with it. -/
  handler : Option Nat
  deriving DecidableEq

def Handler.function : Handler → Option Nat
  | .fn addr => some addr
  | _ => none

/-- The current task with its `sig_info`, and what `signal_handler` has taken. -/
structure SigTask where
  task : Task
  sigInfo : Nat → Fin 4 → Siginfo
  log : List Delivery := []

/-- The signal with bit `k` is taken, and handling it leaves the task `u`. -/
def SigTask.turn (x : SigTask) (k : Nat) (u : Task) : SigTask where
  task := u
  sigInfo := Function.update x.sigInfo k (shiftDown (x.sigInfo k))
  log := x.log ++ [⟨k, (x.task.sigAction k).function⟩]

/-- The loop of `signal_handler`, with the records and the log. -/
def drainLoop : Nat → SigTask → Except Stop (Handled × SigTask)
  | 0, _ => .error .hang
  | fuel + 1, x =>
    match lowestBit x.task.deliverable with
    | none => .ok (.back x.task, x)
    | some k =>
      match handleSignal ((x.task.takePending k).noteDelivered k) k with
      | .ok (.back u) => drainLoop fuel (x.turn k u)
      | .ok r => .ok (r, x.turn k r.task)
      | .error e => .error e

/-- `signal_handler`. -/
def drain (x : SigTask) : Except Stop (Handled × SigTask) := drainLoop 129 x

theorem drainLoop_task (fuel : Nat) (x : SigTask) :
    Prod.fst <$> drainLoop fuel x = signalLoop fuel x.task := by
  induction fuel generalizing x with
  | zero => rfl
  | succ fuel ih =>
    rw [drainLoop, signalLoop]
    cases lowestBit x.task.deliverable with
    | none => rfl
    | some k =>
      dsimp only
      cases handleSignal ((x.task.takePending k).noteDelivered k) k with
      | error e => rfl
      | ok r =>
        cases r with
        | back u => exact ih (x.turn k u)
        | exits u => rfl
        | asleep u => rfl

theorem drain_task (x : SigTask) : Prod.fst <$> drain x = signalHandler x.task :=
  drainLoop_task 129 x

/-! ## Levels -/

def levels (sets : Fin 4 → BitVec 32) (k : Nat) : Nat :=
  (Finset.univ.filter (fun i => (sets i).getLsbD k = true)).card

section Levels

variable {sets sets' : Fin 4 → BitVec 32} {t u : Task} {k j : Nat} {i : Fin 4}

theorem levels_congr (h : ∀ i, (sets' i).getLsbD k = (sets i).getLsbD k) :
    levels sets' k = levels sets k := by
  unfold levels
  simp only [h]

theorem levels_le (sets : Fin 4 → BitVec 32) (k : Nat) : levels sets k ≤ 4 :=
  Finset.card_le_univ _

theorem levels_eq_zero (h : ∀ i, (sets i).getLsbD k = false) : levels sets k = 0 := by
  rw [levels, Finset.card_eq_zero, Finset.filter_eq_empty_iff]
  intro i _
  rw [h i]
  exact Bool.false_ne_true

theorem levels_erase (hi : (sets i).getLsbD k = true) (hi' : (sets' i).getLsbD k = false)
    (h : ∀ l, l ≠ i → (sets' l).getLsbD k = (sets l).getLsbD k) :
    levels sets' k + 1 = levels sets k := by
  have herase : Finset.univ.filter (fun l => (sets' l).getLsbD k = true) =
      (Finset.univ.filter (fun l => (sets l).getLsbD k = true)).erase i := by
    ext l
    simp only [Finset.mem_filter, Finset.mem_univ, true_and, Finset.mem_erase]
    by_cases hl : l = i
    · simp [hl, hi']
    · simp [hl, h l hl]
  rw [levels, levels, herase]
  exact Finset.card_erase_add_one (Finset.mem_filter.mpr ⟨Finset.mem_univ _, hi⟩)

theorem levels_eq_four (h : ∀ i, (sets i).getLsbD k = true) : levels sets k = 4 := by
  rw [levels, Finset.filter_true_of_mem (fun i _ => h i)]
  rfl

theorem noteDelivered_cases (t : Task) (hk : k < 32) :
    (∃ i, (t.sigDelivered i).getLsbD k = false ∧ t.noteDelivered k = t.setDelivered i k) ∨
      (∀ i, (t.sigDelivered i).getLsbD k = true) ∧ t.noteDelivered k = t := by
  have hclear : ∀ i, t.sigDelivered i &&& sigbit k = 0 ↔ (t.sigDelivered i).getLsbD k = false :=
    fun i => and_sigbit_eq_zero _ hk
  have hset : ∀ i, ¬ t.sigDelivered i &&& sigbit k = 0 → (t.sigDelivered i).getLsbD k = true := by
    intro i hi
    rwa [hclear, Bool.not_eq_false] at hi
  unfold Task.noteDelivered
  split
  next h0 => exact Or.inl ⟨0, (hclear 0).mp h0, rfl⟩
  next h0 =>
    split
    next h1 => exact Or.inl ⟨1, (hclear 1).mp h1, rfl⟩
    next h1 =>
      split
      next h2 => exact Or.inl ⟨2, (hclear 2).mp h2, rfl⟩
      next h2 =>
        split
        next h3 => exact Or.inl ⟨3, (hclear 3).mp h3, rfl⟩
        next h3 =>
          refine Or.inr ⟨fun i => ?_, rfl⟩
          obtain rfl | rfl | rfl | rfl : i = 0 ∨ i = 1 ∨ i = 2 ∨ i = 3 := by omega
          · exact hset 0 h0
          · exact hset 1 h1
          · exact hset 2 h2
          · exact hset 3 h3

theorem getLsbD_setDelivered (hk : k < 32) (i l : Fin 4) (j : Nat) :
    ((t.setDelivered i k).sigDelivered l).getLsbD j =
      ((t.sigDelivered l).getLsbD j || (decide (l = i) && decide (j = k))) := by
  unfold Task.setDelivered
  by_cases hl : l = i
  · subst hl
    simp only [Function.update_self, BitVec.getLsbD_or, getLsbD_sigbit hk, decide_true,
      Bool.true_and]
  · simp [hl]

theorem levels_noteDelivered (t : Task) (hk : k < 32) (j : Nat) :
    levels (t.noteDelivered k).sigDelivered j =
      if j = k then min 4 (levels t.sigDelivered j + 1) else levels t.sigDelivered j := by
  rcases noteDelivered_cases t hk with ⟨i, hi, hnote⟩ | ⟨hall, hnote⟩
  · rw [hnote]
    split
    next heq =>
      subst heq
      have hgrown : levels t.sigDelivered j + 1 = levels (t.setDelivered i j).sigDelivered j := by
        apply levels_erase (i := i) _ hi
        · intro l hl
          simp [getLsbD_setDelivered hk, hl]
        · simp [getLsbD_setDelivered hk]
      rw [hgrown, Nat.min_eq_right (levels_le _ _)]
    next hne =>
      apply levels_congr
      intro l
      simp [getLsbD_setDelivered hk, hne]
  · rw [hnote]
    split
    next heq =>
      subst heq
      rw [levels_eq_four hall]
      rfl
    next => rfl

end Levels

/-! ## A turn of the loop -/

/-- The levels are nested: a signal that is pending on a level is pending on those below. -/
def Task.Nested (t : Task) : Prop :=
  ∀ i : Fin 3, t.sigPending i.succ &&& ~~~ t.sigPending i.castSucc = 0

instance Task.decidableNested (t : Task) : Decidable t.Nested :=
  inferInstanceAs (Decidable (∀ _ : Fin 3, _))

/-- A signal that is pending on some level is pending on the first. -/
def Task.Grounded (t : Task) : Prop :=
  ∀ k < 32, ∀ i, (t.sigPending i).getLsbD k = true → (t.sigPending 0).getLsbD k = true

def Task.due (t : Task) (k : Nat) : Nat :=
  if t.sigmask.getLsbD k = true then 0 else levels t.sigPending k

def deliveries (t : Task) : List Delivery :=
  (List.range 32).flatMap (fun k => List.replicate (t.due k) ⟨k, (t.sigAction k).function⟩)

/-- One instance of the signal with bit `k` is taken. -/
structure Turn (t u : Task) (k : Nat) : Prop where
  action : u.sigAction = t.sigAction
  mask : u.sigmask = t.sigmask
  pending_of_ne : ∀ j < 32, j ≠ k → ∀ i, (u.sigPending i).getLsbD j = (t.sigPending i).getLsbD j
  pending : levels u.sigPending k + 1 = levels t.sigPending k
  delivered : ∀ j, levels u.sigDelivered j =
    if j = k then min 4 (levels t.sigDelivered j + 1) else levels t.sigDelivered j
  grounded : t.Grounded → u.Grounded
  card : (pendingBits u).card + 1 = (pendingBits t).card

section Turns

variable {t u : Task} {k : Nat}

theorem Task.Nested.grounded (h : t.Nested) : t.Grounded := by
  have hdown : ∀ k < 32, ∀ i : Fin 3, (t.sigPending i.succ).getLsbD k = true →
      (t.sigPending i.castSucc).getLsbD k = true := by
    intro k hk i hi
    have hbit := congrArg (fun b => b.getLsbD k) (h i)
    simpa [hk, hi] using hbit
  intro k hk i hi
  obtain rfl | rfl | rfl | rfl : i = 0 ∨ i = 1 ∨ i = 2 ∨ i = 3 := by omega
  · exact hi
  · exact hdown k hk 0 hi
  · exact hdown k hk 0 (hdown k hk 1 hi)
  · exact hdown k hk 0 (hdown k hk 1 (hdown k hk 2 hi))

theorem sigDelivered_takePending (t : Task) (k : Nat) :
    (t.takePending k).sigDelivered = t.sigDelivered := by
  unfold Task.takePending Task.clearPending
  split
  next => rfl
  next =>
    split
    next => rfl
    next =>
      split
      next => rfl
      next => split <;> rfl

theorem turn_take (hk : k < 32) (h : (t.sigPending 0).getLsbD k = true) :
    Turn t ((t.takePending k).noteDelivered k) k := by
  obtain ⟨i, hi, hhigh, htake⟩ := takePending_eq hk h
  have hsame := noteDelivered_same (t.takePending k) k
  have htaken := takenSignal hk h
  have hpending : ∀ j < 32, ∀ l, (((t.takePending k).noteDelivered k).sigPending l).getLsbD j =
      ((t.sigPending l).getLsbD j && !(decide (l = i) && decide (j = k))) := by
    intro j hj l
    rw [hsame.pending l, htake, getLsbD_clearPending hk i l hj]
  refine ⟨htaken.action, htaken.mask, ?_, ?_, ?_, ?_, htaken.card⟩
  · intro j hj hne l
    rw [hpending j hj l]
    simp [hne]
  · apply levels_erase hi
    · rw [hpending k hk i]
      simp
    · intro l hl
      rw [hpending k hk l]
      simp [hl]
  · intro j
    rw [levels_noteDelivered _ hk, sigDelivered_takePending]
  · -- the first level loses the signal last
    intro hgrounded j hj l hl
    rw [hpending j hj l, Bool.and_eq_true] at hl
    rw [hpending j hj 0, hgrounded j hj l hl.1, Bool.true_and]
    by_cases hzero : (0 : Fin 4) = i ∧ j = k
    · obtain ⟨rfl, rfl⟩ := hzero
      by_cases hl0 : l = 0
      · subst hl0
        exact hl.2
      · have hclear := hhigh l (Fin.pos_of_ne_zero hl0)
        rw [hclear] at hl
        exact absurd hl.1 Bool.false_ne_true
    · rw [← Bool.decide_and, decide_eq_false hzero]
      rfl

theorem flatMap_range_cons {α : Type} {f g : Nat → List α} {a : α} {n : Nat} (hk : k < n)
    (hlow : ∀ j < k, f j = []) (hfirst : f k = a :: g k) (hother : ∀ j < n, j ≠ k → f j = g j) :
    (List.range n).flatMap f = a :: (List.range n).flatMap g := by
  induction n with
  | zero => cases hk
  | succ n ih =>
    rw [List.range_succ, List.flatMap_append, List.flatMap_append, List.flatMap_singleton,
      List.flatMap_singleton]
    rcases Nat.lt_succ_iff_lt_or_eq.mp hk with hlt | rfl
    · rw [ih hlt (fun j hj => hother j (Nat.lt_succ_of_lt hj)),
        hother n (Nat.lt_succ_self n) (Nat.ne_of_gt hlt), List.cons_append]
    · have hnil : ∀ h : Nat → List α, (∀ j < k, h j = []) → (List.range k).flatMap h = [] := by
        intro h hh
        rw [List.flatMap_eq_nil_iff]
        exact fun j hj => hh j (List.mem_range.mp hj)
      have hg : ∀ j < k, g j = [] := by
        intro j hj
        rw [← hother j (Nat.lt_succ_of_lt hj) (Nat.ne_of_lt hj)]
        exact hlow j hj
      rw [hnil f hlow, hnil g hg, hfirst]
      rfl

theorem Turn.due (h : Turn t u k) (hmask : t.sigmask.getLsbD k = false) {j : Nat} (hj : j < 32) :
    t.due j = if j = k then u.due j + 1 else u.due j := by
  unfold Task.due
  rw [h.mask]
  split
  next hblocked =>
    split
    next heq =>
      rw [heq, hmask] at hblocked
      cases hblocked
    next => rfl
  next =>
    split
    next heq => rw [heq, h.pending]
    next hne => exact (levels_congr (h.pending_of_ne j hj hne)).symm

theorem Turn.deliveries (h : Turn t u k) (hg : t.Grounded)
    (hlow : lowestBit t.deliverable = some k) :
    deliveries t = ⟨k, (t.sigAction k).function⟩ :: Sched.deliveries u := by
  obtain ⟨hk, hbit, hbelow⟩ := lowestBit_some hlow
  rw [getLsbD_deliverable hk, Bool.and_eq_true, Bool.not_eq_true'] at hbit
  apply flatMap_range_cons hk
  · intro j hj
    have hclear := hbelow j hj
    rw [getLsbD_deliverable (Nat.lt_trans hj hk)] at hclear
    have hdue : t.due j = 0 := by
      unfold Task.due
      split
      next => rfl
      next hopen =>
        apply levels_eq_zero
        intro i
        by_contra hset
        have hzero := hg j (Nat.lt_trans hj hk) i (by simpa using hset)
        simp [hzero, hopen] at hclear
    rw [hdue]
    rfl
  · rw [h.due hbit.2 hk, if_pos rfl, List.replicate_succ, h.action]
  · intro j hj hne
    rw [h.due hbit.2 hj, if_neg hne, h.action]

end Turns

/-! ## The whole call -/

/-- Every signal that is to be delivered is ignored or has a function of the program. -/
def Task.Handled (t : Task) : Prop :=
  ∀ k < 32, t.deliverable.getLsbD k = true →
    t.sigAction k = .ign ∨ ∃ addr, t.sigAction k = .fn addr

/-- All signals that are not blocked were taken, and nothing has happened to those that are. -/
structure Drained (x x' : SigTask) : Prop where
  empty : x'.task.deliverable = 0
  log : x'.log = x.log ++ deliveries x.task
  pending : ∀ k < 32, x.task.sigmask.getLsbD k = true → ∀ i,
    (x'.task.sigPending i).getLsbD k = (x.task.sigPending i).getLsbD k
  info : ∀ k, x.task.sigmask.getLsbD k = true → x'.sigInfo k = x.sigInfo k
  delivered : ∀ k < 32, levels x'.task.sigDelivered k =
    min 4 (levels x.task.sigDelivered k + x.task.due k)

section Calls

variable {t u : Task} {x x' : SigTask} {k : Nat}

theorem handleSignal_of_handled (h : t.sigAction k = .ign ∨ ∃ addr, t.sigAction k = .fn addr) :
    handleSignal t k = .ok (.back t) := by
  rw [handleSignal]
  rcases h with h | ⟨addr, h⟩ <;> rw [h]

theorem due_of_lowestBit_none (hg : t.Grounded) (h : lowestBit t.deliverable = none) (hk : k < 32) :
    t.due k = 0 := by
  have hclear := lowestBit_none h hk
  rw [getLsbD_deliverable hk] at hclear
  unfold Task.due
  split
  next => rfl
  next hopen =>
    apply levels_eq_zero
    intro i
    by_contra hset
    have hzero := hg k hk i (by simpa using hset)
    simp [hzero, hopen] at hclear

theorem Drained.refl (hg : x.task.Grounded) (h : lowestBit x.task.deliverable = none) :
    Drained x x where
  empty := by
    apply BitVec.eq_of_getLsbD_eq
    intro k hk
    rw [lowestBit_none h hk]
    exact BitVec.getLsbD_zero.symm
  log := by
    have hnil : deliveries x.task = [] := by
      rw [deliveries, List.flatMap_eq_nil_iff]
      intro k hk
      rw [due_of_lowestBit_none hg h (List.mem_range.mp hk)]
      rfl
    rw [hnil, List.append_nil]
  pending _ _ _ _ := rfl
  info _ _ := rfl
  delivered k hk := by
    rw [due_of_lowestBit_none hg h hk, Nat.add_zero, Nat.min_eq_right (levels_le _ _)]

theorem Task.Handled.turn (h : t.Handled) (hturn : Turn t u k)
    (hlow : lowestBit t.deliverable = some k) : u.Handled := by
  intro j hj hbit
  rw [hturn.action]
  obtain ⟨hk, hfirst, -⟩ := lowestBit_some hlow
  by_cases hne : j = k
  · rw [hne]
    exact h k hk hfirst
  · apply h j hj
    rw [getLsbD_deliverable hj, hturn.mask, hturn.pending_of_ne j hj hne 0] at hbit
    rw [getLsbD_deliverable hj]
    exact hbit

theorem Drained.turn (hturn : Turn x.task u k) (hg : x.task.Grounded)
    (hlow : lowestBit x.task.deliverable = some k) (h : Drained (x.turn k u) x') :
    Drained x x' := by
  obtain ⟨hk, hbit, -⟩ := lowestBit_some hlow
  rw [getLsbD_deliverable hk, Bool.and_eq_true, Bool.not_eq_true'] at hbit
  have hne : ∀ j, x.task.sigmask.getLsbD j = true → j ≠ k := by
    rintro j hblocked rfl
    rw [hbit.2] at hblocked
    cases hblocked
  refine ⟨h.empty, ?_, ?_, ?_, ?_⟩
  · rw [h.log, hturn.deliveries hg hlow]
    simp [SigTask.turn]
  · intro j hj hblocked i
    have hafter := h.pending j hj (show u.sigmask.getLsbD j = true by rwa [hturn.mask]) i
    rw [hafter]
    exact hturn.pending_of_ne j hj (hne j hblocked) i
  · intro j hblocked
    have hafter := h.info j (show u.sigmask.getLsbD j = true by rwa [hturn.mask])
    rw [hafter]
    exact Function.update_of_ne (hne j hblocked) ..
  · intro j hj
    have hafter := h.delivered j hj
    change _ = min 4 (levels u.sigDelivered j + u.due j) at hafter
    rw [hafter, hturn.delivered j, hturn.due hbit.2 hj]
    split <;> omega

/-- **The loop takes everything that is due**, in as many turns as there are pending instances. -/
theorem drainLoop_eq {fuel : Nat} (hg : x.task.Grounded) (h : x.task.Handled)
    (hfuel : (pendingBits x.task).card < fuel) :
    ∃ x', drainLoop fuel x = .ok (.back x'.task, x') ∧ Drained x x' := by
  induction fuel generalizing x with
  | zero => cases hfuel
  | succ fuel ih =>
    rw [drainLoop]
    cases hlow : lowestBit x.task.deliverable with
    | none => exact ⟨x, rfl, .refl hg hlow⟩
    | some k =>
      obtain ⟨hk, hbit, -⟩ := lowestBit_some hlow
      have hpending := hbit
      rw [getLsbD_deliverable hk, Bool.and_eq_true] at hpending
      have hturn := turn_take hk hpending.1
      have hhandler := h k hk hbit
      rw [← hturn.action] at hhandler
      dsimp only
      rw [handleSignal_of_handled hhandler]
      dsimp only
      have hcard : (pendingBits ((x.task.takePending k).noteDelivered k)).card < fuel := by
        have := hturn.card
        omega
      obtain ⟨x', hloop, hrest⟩ :=
        ih (x := x.turn k ((x.task.takePending k).noteDelivered k)) (hturn.grounded hg)
          (h.turn hturn hlow) hcard
      exact ⟨x', hloop, hrest.turn hturn hg hlow⟩

end Calls

/-- **A call of `signal_handler`** comes back after it has taken exactly the signals that are not
blocked. -/
theorem drain_eq {t : Task} (hnested : t.Nested) (h : t.Handled)
    (sigInfo : Nat → Fin 4 → Siginfo) :
    ∃ x', drain ⟨t, sigInfo, []⟩ = .ok (.back x'.task, x') ∧
      signalHandler t = .ok (.back x'.task) ∧ Drained ⟨t, sigInfo, []⟩ x' := by
  have hcard : (pendingBits t).card < 129 := Nat.lt_succ_of_le (pendingBits_card_le t)
  obtain ⟨x', hdrain, hx'⟩ := drainLoop_eq (x := ⟨t, sigInfo, []⟩) hnested.grounded h hcard
  refine ⟨x', hdrain, ?_, hx'⟩
  rw [← drain_task ⟨t, sigInfo, []⟩, drain, hdrain]
  rfl

/-- A task for which `SIGINT` is pending twice and `SIGHUP` is blocked. -/
def interrupted : Task :=
  { sigmask := 1, sigPending := fun i => if i < 2 then 3 else 0, sigAction := fun _ => .fn 4096 }

/-- Its handler runs twice. -/
theorem drain_interrupted : ∃ x', drain ⟨interrupted, fun _ _ => {}, []⟩ = .ok (.back x'.task, x') ∧
    x'.log = [⟨1, some 4096⟩, ⟨1, some 4096⟩] := by
  have hnested : interrupted.Nested := by decide
  obtain ⟨x', hdrain, -, hx'⟩ := drain_eq (t := interrupted) hnested
    (fun k _ _ => Or.inr ⟨4096, rfl⟩) (fun _ _ => {})
  refine ⟨x', hdrain, ?_⟩
  rw [hx'.log]
  decide

end Hydrax.Sched
