import Mathlib.Data.Fintype.Prod
import Mathlib.Data.Fintype.Fin
import Hydrax.Sched.State

/-!
# Signals

Sending a signal and the handler that a task runs when the scheduler resumes it, from
`kernel/signal.c`. A signal `sig` is bit `sig - 1` of a set. Up to four instances of one signal can
be pending, one in each of the levels `sig_pending[0]` to `sig_pending[3]`.

* `signalHandler_back_iff` — when the handler comes back, if nobody sends the task more signals.

A handler function of the program is taken to come back and to leave the task's signals alone.
-/

namespace Hydrax.Sched

def sigkill : Nat := 9
def sigchld : Nat := 20

/-- `1 << k`. -/
def sigbit (k : Nat) : BitVec 32 := BitVec.twoPow 32 k

/-! ## Sending -/

/-- `queue_signal`, without the record of the sender. The levels above the first are tested with
`== 1` and not with `== 0`. -/
def queueSignal (t : Task) (sig : Nat) : Task :=
  if sig = 0 then t
  else
    let add (i : Fin 4) : Task :=
      { t with sigPending := Function.update t.sigPending i (t.sigPending i ||| sigbit (sig - 1)) }
    if t.sigPending 0 &&& sigbit (sig - 1) = 0 then add 0
    else if t.sigPending 1 &&& sigbit (sig - 1) = 1 then add 1
    else if t.sigPending 2 &&& sigbit (sig - 1) = 1 then add 2
    else if t.sigPending 3 &&& sigbit (sig - 1) = 1 then add 3
    else t

/-- The loop of `pthread_kill_nolock` over all tasks. -/
def queueAll (sig : Nat) : Nat → State → Nat → Except Stop State
  | 0, _, _ => .error .hang
  | fuel + 1, s, iter =>
    if iter = 0 then .ok s
    else queueAll sig fuel (s.modify (s.items iter).val (queueSignal · sig)) (s.items iter).next

def pthreadKillNolock (s : State) (tid : Int) (sig : Nat) : Except Stop (Int × State) := do
  if tid = 0 then
    let s ← queueAll sig listFuel s s.tasksList.first
    return (0, s)
  else
    let iter ← linkedListSeekUntil s.items (fun i => (s.tasks i.val).id == tid) s.tasksList.first
    if iter = 0 then return (-1, s)
    else return (0, s.modify (s.items iter).val (queueSignal · sig))

/-! ## Handling -/

/-- What `signal_handler` does with a signal of default disposition. -/
inductive Action where
  | terminate
  | stop
  | cont
  | ignore
  deriving DecidableEq, Repr

def defaultAction : Nat → Action
  -- SIGABRT, SIGBUS, SIGFPE, SIGILL, SIGQUIT, SIGSEGV, SIGSYS, SIGTRAP, SIGXCPU, SIGXFSZ
  | 6 | 5 | 8 | 4 | 3 | 11 | 7 | 10 | 16 | 23 => .terminate
  -- SIGALRM, SIGHUP, SIGINT, SIGKILL, SIGPIPE, SIGTERM, SIGUSR1, SIGUSR2, SIGPOLL, SIGPROF, SIGVTALRM
  | 14 | 1 | 2 | 9 | 13 | 15 | 30 | 31 | 24 | 25 | 26 => .terminate
  -- SIGSTOP, SIGTSTP, SIGTTIN, SIGTTOU
  | 17 | 18 | 21 | 22 => .stop
  -- SIGCONT
  | 19 => .cont
  -- SIGCHLD, SIGURG, and the numbers without a case
  | _ => .ignore

def Task.deliverable (t : Task) : BitVec 32 := t.sigPending 0 &&& ~~~ t.sigmask

def lowestBit (b : BitVec 32) : Option Nat := (List.range 32).find? (fun k => b.getLsbD k)

/-- `sig_pending[i] &= ~(1 << k)`. -/
def Task.clearPending (t : Task) (i : Fin 4) (k : Nat) : Task :=
  { t with sigPending := Function.update t.sigPending i (t.sigPending i &&& ~~~ sigbit k) }

/-- `sig_delivered[i] |= 1 << k`. -/
def Task.setDelivered (t : Task) (i : Fin 4) (k : Nat) : Task :=
  { t with sigDelivered := Function.update t.sigDelivered i (t.sigDelivered i ||| sigbit k) }

/-- Take the topmost instance of a signal out of the pending ones. -/
def Task.takePending (t : Task) (k : Nat) : Task :=
  if t.sigPending 3 &&& sigbit k ≠ 0 then t.clearPending 3 k
  else if t.sigPending 2 &&& sigbit k ≠ 0 then t.clearPending 2 k
  else if t.sigPending 1 &&& sigbit k ≠ 0 then t.clearPending 1 k
  else if t.sigPending 0 &&& sigbit k ≠ 0 then t.clearPending 0 k
  else t

def Task.noteDelivered (t : Task) (k : Nat) : Task :=
  if t.sigDelivered 0 &&& sigbit k = 0 then t.setDelivered 0 k
  else if t.sigDelivered 1 &&& sigbit k = 0 then t.setDelivered 1 k
  else if t.sigDelivered 2 &&& sigbit k = 0 then t.setDelivered 2 k
  else if t.sigDelivered 3 &&& sigbit k = 0 then t.setDelivered 3 k
  else t

/-- How `signal_handler` ends: it comes back, it calls `exit(-1)`, or the task sleeps until somebody
sends it a signal. -/
inductive Handled where
  | back (t : Task)
  | exits (t : Task)
  | asleep (t : Task)

/-- What `signal_handler` does with a signal that it has taken. Stopping a task puts it to sleep, and
the scheduler wakes a task for which a signal is pending, be it blocked or not. -/
def handleSignal (t : Task) (k : Nat) : Except Stop Handled :=
  match t.sigAction k with
  | .dfl =>
    match defaultAction (k + 1) with
    | .terminate => .ok (.exits t)
    | .stop =>
      if t.sigPending 0 = 0#32 then .ok (.asleep { t with status := .waiting })
      else .ok (.back { t with status := .running })
    | .cont => .ok (.back { t with status := .running })
    | .ignore => .ok (.back t)
  | .ign => .ok (.back t)
  | .err => .error .assertFailed
  | .hold => .error .assertFailed
  | .fn _ => .ok (.back t)

/-- The loop of `signal_handler`, on the current task. -/
def signalLoop : Nat → Task → Except Stop Handled
  | 0, _ => .error .hang
  | fuel + 1, t =>
    match lowestBit t.deliverable with
    | none => .ok (.back t)
    | some k =>
      match handleSignal ((t.takePending k).noteDelivered k) k with
      | .ok (.back t) => signalLoop fuel t
      | r => r

/-- `signal_handler`. A turn of its loop takes one of at most 128 pending instances. -/
def signalHandler (t : Task) : Except Stop Handled := signalLoop 129 t

/-- The scheduler resumes a task: `arch_scheduler_load_task_state`, or the same with a call of
`signal_handler` when a signal is pending. -/
def resume (t : Task) : Except Stop Handled :=
  if t.sigPending 0 = 0#32 then .ok (.back t) else signalHandler t

theorem queueSignal_pending (t : Task) (sig : Nat) :
    ∃ pending, queueSignal t sig = { t with sigPending := pending } := by
  unfold queueSignal
  split
  next => exact ⟨_, rfl⟩
  next =>
    dsimp only
    split
    next => exact ⟨_, rfl⟩
    next =>
      split
      next => exact ⟨_, rfl⟩
      next =>
        split
        next => exact ⟨_, rfl⟩
        next => split <;> exact ⟨_, rfl⟩

/-! ## Bits -/

section Bits

variable {t : Task} {k j : Nat}

theorem getLsbD_sigbit (hk : k < 32) (j : Nat) : (sigbit k).getLsbD j = decide (j = k) := by
  rw [sigbit, BitVec.getLsbD_twoPow]
  simp [hk, eq_comm]

theorem and_sigbit_eq_zero (b : BitVec 32) (hk : k < 32) :
    b &&& sigbit k = 0 ↔ b.getLsbD k = false := by
  constructor
  · intro h
    have hbit := congrArg (fun b => b.getLsbD k) h
    simpa [getLsbD_sigbit hk] using hbit
  · intro h
    apply BitVec.eq_of_getLsbD_eq
    intro j _
    rw [BitVec.getLsbD_and, getLsbD_sigbit hk]
    by_cases hj : j = k
    · simp [hj, h]
    · simp [hj]

theorem getLsbD_deliverable (hj : j < 32) :
    t.deliverable.getLsbD j = ((t.sigPending 0).getLsbD j && !t.sigmask.getLsbD j) := by
  simp [Task.deliverable, hj]

theorem lowestBit_some {b : BitVec 32} (h : lowestBit b = some k) :
    k < 32 ∧ b.getLsbD k = true ∧ ∀ j < k, b.getLsbD j = false := by
  rw [lowestBit, List.find?_range_eq_some] at h
  refine ⟨List.mem_range.mp h.2.1, h.1, fun j hj => ?_⟩
  simpa using h.2.2 j hj

theorem lowestBit_none {b : BitVec 32} (h : lowestBit b = none) {j : Nat} (hj : j < 32) :
    b.getLsbD j = false := by
  rw [lowestBit, List.find?_range_eq_none] at h
  simpa using h j hj

theorem takePending_eq (hk : k < 32) (h : (t.sigPending 0).getLsbD k = true) :
    ∃ i, (t.sigPending i).getLsbD k = true ∧ (∀ l, i < l → (t.sigPending l).getLsbD k = false) ∧
      t.takePending k = t.clearPending i k := by
  have hne : ∀ i, t.sigPending i &&& sigbit k ≠ 0 ↔ (t.sigPending i).getLsbD k = true := by
    intro i
    rw [Ne, and_sigbit_eq_zero _ hk, Bool.not_eq_false]
  have hclear : ∀ i, ¬ t.sigPending i &&& sigbit k ≠ 0 → (t.sigPending i).getLsbD k = false := by
    intro i hi
    rwa [hne, Bool.not_eq_true] at hi
  unfold Task.takePending
  split
  next h3 => exact ⟨3, (hne 3).mp h3, fun l hl => by omega, rfl⟩
  next h3 =>
    split
    next h2 =>
      refine ⟨2, (hne 2).mp h2, fun l hl => ?_, rfl⟩
      obtain rfl : l = 3 := by omega
      exact hclear 3 h3
    next h2 =>
      split
      next h1 =>
        refine ⟨1, (hne 1).mp h1, fun l hl => ?_, rfl⟩
        obtain rfl | rfl : l = 2 ∨ l = 3 := by omega
        · exact hclear 2 h2
        · exact hclear 3 h3
      next h1 =>
        refine ⟨0, h, fun l hl => ?_, if_pos ((hne 0).mpr h)⟩
        obtain rfl | rfl | rfl : l = 1 ∨ l = 2 ∨ l = 3 := by omega
        · exact hclear 1 h1
        · exact hclear 2 h2
        · exact hclear 3 h3

def pendingBits (t : Task) : Finset (Fin 4 × Fin 32) :=
  Finset.univ.filter (fun p => (t.sigPending p.1).getLsbD p.2 = true)

theorem getLsbD_clearPending (hk : k < 32) (i l : Fin 4) (hj : j < 32) :
    ((t.clearPending i k).sigPending l).getLsbD j =
      ((t.sigPending l).getLsbD j && !(decide (l = i) && decide (j = k))) := by
  unfold Task.clearPending
  by_cases hl : l = i
  · subst hl
    simp only [Function.update_self, BitVec.getLsbD_and, BitVec.getLsbD_not, getLsbD_sigbit hk, hj,
      decide_true, Bool.true_and]
  · simp [hl]

theorem pendingBits_clearPending (hk : k < 32) {i : Fin 4}
    (h : (t.sigPending i).getLsbD k = true) :
    (pendingBits (t.clearPending i k)).card + 1 = (pendingBits t).card := by
  have herase : pendingBits (t.clearPending i k) = (pendingBits t).erase (i, ⟨k, hk⟩) := by
    ext ⟨l, j⟩
    simp only [pendingBits, Finset.mem_filter, Finset.mem_univ, true_and, Finset.mem_erase, Ne,
      Prod.mk.injEq, Fin.ext_iff, getLsbD_clearPending hk i l j.isLt]
    by_cases hl : (l : Nat) = i <;> by_cases hj : (j : Nat) = k <;> simp [hl, hj]
  rw [herase]
  apply Finset.card_erase_add_one
  exact Finset.mem_filter.mpr ⟨Finset.mem_univ _, h⟩

theorem pendingBits_card_le (t : Task) : (pendingBits t).card ≤ 128 := by
  have := Finset.card_le_univ (pendingBits t)
  simpa using this

end Bits

/-! ## When the handler comes back -/

/-- The handler gets past the signal with bit `k`. Past one that stops the task, it does if the
scheduler finds another signal pending, one that is handled later or that is blocked. -/
def Task.Passes (t : Task) (k : Nat) : Prop :=
  match t.sigAction k with
  | .dfl =>
    match defaultAction (k + 1) with
    | .terminate => False
    | .stop => ∃ j < 32, (t.sigPending 0).getLsbD j = true ∧ (k < j ∨ t.sigmask.getLsbD j = true)
    | .cont => True
    | .ignore => True
  | .ign => True
  | .err => False
  | .hold => False
  | .fn _ => True

/-- The handler gets past every signal that can be delivered. -/
def Task.Survives (t : Task) : Prop := ∀ k < 32, t.deliverable.getLsbD k = true → t.Passes k

section Handler

variable {t u : Task} {k : Nat}

/-- What the handler does not look at when it decides about a signal. -/
structure SameSignals (t u : Task) : Prop where
  action : u.sigAction = t.sigAction
  mask : u.sigmask = t.sigmask
  pending : ∀ i, u.sigPending i = t.sigPending i

theorem SameSignals.survives_iff (h : SameSignals t u) : u.Survives ↔ t.Survives := by
  unfold Task.Survives Task.Passes Task.deliverable
  rw [h.action, h.mask, h.pending 0]

/-- Another task that differs in the signal `k` alone, which it may have one instance less of. -/
structure TakenSignal (t u : Task) (k : Nat) : Prop where
  action : u.sigAction = t.sigAction
  mask : u.sigmask = t.sigmask
  pending : ∀ j < 32, j ≠ k → (u.sigPending 0).getLsbD j = (t.sigPending 0).getLsbD j
  card : (pendingBits u).card + 1 = (pendingBits t).card

theorem noteDelivered_same (t : Task) (k : Nat) : SameSignals t (t.noteDelivered k) := by
  unfold Task.noteDelivered
  split
  next => exact ⟨rfl, rfl, fun _ => rfl⟩
  next =>
    split
    next => exact ⟨rfl, rfl, fun _ => rfl⟩
    next =>
      split
      next => exact ⟨rfl, rfl, fun _ => rfl⟩
      next => split <;> exact ⟨rfl, rfl, fun _ => rfl⟩

theorem pendingBits_congr (h : ∀ i, u.sigPending i = t.sigPending i) :
    pendingBits u = pendingBits t := by
  unfold pendingBits
  simp only [h]

theorem takenSignal (hk : k < 32) (h : (t.sigPending 0).getLsbD k = true) :
    TakenSignal t ((t.takePending k).noteDelivered k) k := by
  obtain ⟨i, hi, -, htake⟩ := takePending_eq hk h
  have hsame := noteDelivered_same (t.takePending k) k
  rw [htake] at hsame ⊢
  refine ⟨hsame.action, hsame.mask, fun j hj hne => ?_, ?_⟩
  · rw [hsame.pending 0, getLsbD_clearPending hk i 0 hj]
    simp [hne]
  · rw [pendingBits_congr hsame.pending]
    exact pendingBits_clearPending hk hi

theorem TakenSignal.passes_iff (h : TakenSignal t u k) (hmask : t.sigmask.getLsbD k = false)
    {j : Nat} (hj : k ≤ j) : u.Passes j ↔ t.Passes j := by
  have hex : (∃ i < 32, (u.sigPending 0).getLsbD i = true ∧ (j < i ∨ t.sigmask.getLsbD i = true)) ↔
      ∃ i < 32, (t.sigPending 0).getLsbD i = true ∧ (j < i ∨ t.sigmask.getLsbD i = true) := by
    refine exists_congr (fun i => and_congr_right (fun hi => and_congr_left (fun hlater => ?_)))
    -- `k` itself is neither blocked nor handled later
    rw [h.pending i hi]
    rintro rfl
    rcases hlater with hlt | hblocked
    · omega
    · rw [hmask] at hblocked
      cases hblocked
  unfold Task.Passes
  rw [h.action, h.mask, hex]

theorem TakenSignal.survives_iff (h : TakenSignal t u k) (hk : lowestBit t.deliverable = some k) :
    t.Survives ↔ t.Passes k ∧ u.Survives := by
  obtain ⟨hk32, hbit, hlow⟩ := lowestBit_some hk
  rw [getLsbD_deliverable hk32, Bool.and_eq_true, Bool.not_eq_true'] at hbit
  have hle : ∀ j < 32, t.deliverable.getLsbD j = true → k ≤ j := by
    intro j _ hj
    by_contra hlt
    rw [hlow j (by omega)] at hj
    cases hj
  have hother : ∀ j < 32, j ≠ k → u.deliverable.getLsbD j = t.deliverable.getLsbD j := by
    intro j hj hne
    rw [getLsbD_deliverable hj, getLsbD_deliverable hj, h.mask, h.pending j hj hne]
  constructor
  · intro ht
    refine ⟨ht k hk32 (by rw [getLsbD_deliverable hk32]; simp [hbit]), fun j hj hu => ?_⟩
    by_cases hne : j = k
    · subst hne
      exact (h.passes_iff hbit.2 le_rfl).mpr
        (ht j hj (by rw [getLsbD_deliverable hj]; simp [hbit]))
    · rw [hother j hj hne] at hu
      exact (h.passes_iff hbit.2 (hle j hj hu)).mpr (ht j hj hu)
  · rintro ⟨hpass, hu⟩ j hj ht
    by_cases hne : j = k
    · exact hne ▸ hpass
    · exact (h.passes_iff hbit.2 (hle j hj ht)).mp (hu j hj (by rw [hother j hj hne]; exact ht))

/-- Handling signals changes what is pending, what was delivered and the status, and nothing else. -/
def Handles (t u : Task) : Prop :=
  ∃ p d st, u = { t with sigPending := p, sigDelivered := d, status := st }

theorem Handles.refl (t : Task) : Handles t t := ⟨_, _, _, rfl⟩

theorem Handles.trans {v : Task} (h : Handles t u) (h' : Handles u v) : Handles t v := by
  obtain ⟨_, _, _, rfl⟩ := h
  obtain ⟨_, _, _, rfl⟩ := h'
  exact ⟨_, _, _, rfl⟩

theorem Handles.status (h : Handles t u) (st : TaskState) : Handles t { u with status := st } := by
  obtain ⟨_, _, _, rfl⟩ := h
  exact ⟨_, _, _, rfl⟩

theorem handles_clearPending (t : Task) (i : Fin 4) (k : Nat) : Handles t (t.clearPending i k) :=
  ⟨_, _, _, rfl⟩

theorem handles_setDelivered (t : Task) (i : Fin 4) (k : Nat) : Handles t (t.setDelivered i k) :=
  ⟨_, _, _, rfl⟩

theorem handles_take (t : Task) (k : Nat) : Handles t ((t.takePending k).noteDelivered k) := by
  have htake : Handles t (t.takePending k) := by
    unfold Task.takePending
    split
    next => exact handles_clearPending t 3 k
    next =>
      split
      next => exact handles_clearPending t 2 k
      next =>
        split
        next => exact handles_clearPending t 1 k
        next =>
          split
          next => exact handles_clearPending t 0 k
          next => exact .refl t
  apply htake.trans
  unfold Task.noteDelivered
  split
  next => exact handles_setDelivered _ 0 k
  next =>
    split
    next => exact handles_setDelivered _ 1 k
    next =>
      split
      next => exact handles_setDelivered _ 2 k
      next =>
        split
        next => exact handles_setDelivered _ 3 k
        next => exact .refl _

theorem handleSignal_back (h : handleSignal t k = .ok (.back u)) :
    Handles t u ∧ SameSignals t u := by
  have hstatus : ∀ st, Handles t { t with status := st } ∧ SameSignals t { t with status := st } :=
    fun st => ⟨(Handles.refl t).status st, rfl, rfl, fun _ => rfl⟩
  unfold handleSignal at h
  split at h
  next =>
    split at h
    next => cases h
    next =>
      split at h
      next => cases h
      next =>
        cases h
        exact hstatus .running
    next =>
      cases h
      exact hstatus .running
    next =>
      cases h
      exact hstatus t.status
  next =>
    cases h
    exact hstatus t.status
  next => cases h
  next => cases h
  next =>
    cases h
    exact hstatus t.status

/-- A signal that the handler gets past is one that it comes back from. The other signals are past
already, or their turn comes later. -/
theorem handleSignal_back_iff (h : TakenSignal t u k) (hlow : lowestBit t.deliverable = some k)
    (hu : u.Survives) : (∃ v, handleSignal u k = .ok (.back v)) ↔ t.Passes k := by
  obtain ⟨hk, hbit, hleast⟩ := lowestBit_some hlow
  rw [getLsbD_deliverable hk, Bool.and_eq_true, Bool.not_eq_true'] at hbit
  rw [← h.passes_iff hbit.2 le_rfl]
  unfold handleSignal
  have hstop : u.sigAction k = .dfl → defaultAction (k + 1) = .stop →
      (u.sigPending 0 ≠ 0#32 ↔ ∃ j < 32, (u.sigPending 0).getLsbD j = true ∧
        (k < j ∨ u.sigmask.getLsbD j = true)) := by
    intro haction hdefault
    constructor
    · intro hne
      by_cases hagain : (u.sigPending 0).getLsbD k = true
      · -- another instance of `k` is pending, and the handler gets past that one
        have hpass := hu k hk (by rw [getLsbD_deliverable hk, h.mask]; simp [hagain, hbit.2])
        simpa only [Task.Passes, haction, hdefault] using hpass
      · obtain ⟨j, hj, hset⟩ : ∃ j < 32, (u.sigPending 0).getLsbD j = true := by
          by_contra hnone
          refine hne (BitVec.eq_of_getLsbD_eq (fun j hj => ?_))
          rw [BitVec.getLsbD_zero, ← Bool.not_eq_true]
          exact fun hset => hnone ⟨j, hj, hset⟩
        refine ⟨j, hj, hset, ?_⟩
        have hjk : j ≠ k := fun heq => hagain (heq ▸ hset)
        by_contra hneither
        rw [not_or, h.mask, Bool.not_eq_true] at hneither
        have hlater := hleast j (by omega)
        rw [getLsbD_deliverable hj, ← h.pending j hj hjk, hset, hneither.2] at hlater
        cases hlater
    · rintro ⟨j, hj, hset, -⟩ hzero
      rw [hzero, BitVec.getLsbD_zero] at hset
      cases hset
  unfold Task.Passes
  cases haction : u.sigAction k with
  | dfl =>
    cases hdefault : defaultAction (k + 1) with
    | stop =>
      simp only [← hstop haction hdefault]
      split
      next h0 => simp [h0]
      next h0 => simp [h0]
    | _ => simp
  | _ => simp

theorem signalLoop_back {fuel : Nat} (h : signalLoop fuel t = .ok (.back u)) :
    Handles t u ∧ ∀ j < 32, u.deliverable.getLsbD j = false := by
  induction fuel generalizing t with
  | zero => cases h
  | succ fuel ih =>
    rw [signalLoop] at h
    split at h
    next hnone =>
      cases h
      exact ⟨.refl _, fun j hj => lowestBit_none hnone hj⟩
    next k hk =>
      split at h
      next v hv =>
        have hstep := (handles_take t k).trans (handleSignal_back hv).1
        exact ⟨hstep.trans (ih h).1, (ih h).2⟩
      next r hback => exact absurd h (hback u)

/-- **The handler comes back** exactly when it gets past every signal that can be delivered. -/
theorem signalLoop_back_iff {fuel : Nat} (hfuel : (pendingBits t).card < fuel) :
    (∃ u, signalLoop fuel t = .ok (.back u)) ↔ t.Survives := by
  induction fuel generalizing t with
  | zero => omega
  | succ fuel ih =>
    rw [signalLoop]
    cases hlow : lowestBit t.deliverable with
    | none =>
      refine ⟨fun _ k hk hbit => ?_, fun _ => ⟨t, rfl⟩⟩
      rw [lowestBit_none hlow hk] at hbit
      cases hbit
    | some k =>
      obtain ⟨hk, hbit, -⟩ := lowestBit_some hlow
      rw [getLsbD_deliverable hk, Bool.and_eq_true] at hbit
      have htaken := takenSignal hk hbit.1
      rw [htaken.survives_iff hlow]
      dsimp only
      generalize (t.takePending k).noteDelivered k = u at htaken ⊢
      have hrun : ∀ v, SameSignals u v →
          ((∃ w, signalLoop fuel v = .ok (.back w)) ↔ u.Survives) := by
        intro v hsame
        rw [← hsame.survives_iff]
        apply ih
        rw [pendingBits_congr hsame.pending]
        have := htaken.card
        omega
      constructor
      · rintro ⟨w, hw⟩
        split at hw
        next v hv =>
          have hu := (hrun v (handleSignal_back hv).2).mp ⟨w, hw⟩
          exact ⟨(handleSignal_back_iff htaken hlow hu).mp ⟨v, hv⟩, hu⟩
        next r hback => exact absurd hw (hback w)
      · rintro ⟨hpass, hu⟩
        obtain ⟨v, hv⟩ := (handleSignal_back_iff htaken hlow hu).mpr hpass
        simp only [hv]
        exact (hrun v (handleSignal_back hv).2).mpr hu

theorem signalHandler_back_iff (t : Task) :
    (∃ u, signalHandler t = .ok (.back u)) ↔ t.Survives :=
  signalLoop_back_iff (by have := pendingBits_card_le t; omega)

/-! ## `SIGKILL` -/

/-- A task that its own `SIGKILL` does not terminate. -/
def Task.Shielded (t : Task) : Prop :=
  t.sigmask.getLsbD 8 = true ∨ t.sigAction 8 = .ign ∨ ∃ a, t.sigAction 8 = .fn a

theorem queueSignal_action (t : Task) (sig : Nat) :
    (queueSignal t sig).sigAction = t.sigAction ∧ (queueSignal t sig).sigmask = t.sigmask := by
  obtain ⟨p, h⟩ := queueSignal_pending t sig
  rw [h]
  exact ⟨rfl, rfl⟩

theorem queueSignal_of_pending {sig : Nat} (h : t.sigPending 0 &&& sigbit (sig - 1) ≠ 0) :
    ∃ p, p 0 = t.sigPending 0 ∧ queueSignal t sig = { t with sigPending := p } := by
  unfold queueSignal
  split
  next => exact ⟨_, rfl, rfl⟩
  next =>
    dsimp only
    split
    next => exact ⟨_, Function.update_of_ne (by decide) _ _, rfl⟩
    next =>
      split
      next => exact ⟨_, Function.update_of_ne (by decide) _ _, rfl⟩
      next =>
        split
        next => exact ⟨_, Function.update_of_ne (by decide) _ _, rfl⟩
        next => exact ⟨_, rfl, rfl⟩

theorem getLsbD_queueSignal_sigkill {j : Nat} (hj : j < 32) :
    ((queueSignal t sigkill).sigPending 0).getLsbD j =
      ((t.sigPending 0).getLsbD j || decide (j = 8)) := by
  by_cases hclear : t.sigPending 0 &&& sigbit (sigkill - 1) = 0
  · have hadd : (queueSignal t sigkill).sigPending 0 = t.sigPending 0 ||| sigbit (sigkill - 1) := by
      unfold queueSignal
      rw [if_neg (by decide)]
      dsimp only
      rw [if_pos hclear]
      simp
    rw [hadd, BitVec.getLsbD_or, getLsbD_sigbit (by decide)]
    rfl
  · obtain ⟨p, hp, heq⟩ := queueSignal_of_pending hclear
    rw [and_sigbit_eq_zero _ (by decide), Bool.not_eq_false] at hclear
    rw [heq]
    show (p 0).getLsbD j = _
    rw [hp]
    by_cases hj8 : j = 8
    · subst hj8
      have hset : (t.sigPending 0).getLsbD 8 = true := hclear
      rw [hset]
      rfl
    · simp [hj8]

theorem getLsbD_deliverable_sigkill {j : Nat} (hj : j < 32) :
    (queueSignal t sigkill).deliverable.getLsbD j =
      (((t.sigPending 0).getLsbD j || decide (j = 8)) && !t.sigmask.getLsbD j) := by
  rw [getLsbD_deliverable hj, getLsbD_queueSignal_sigkill hj, (queueSignal_action t sigkill).2]

theorem shielded_of_survives (h : (queueSignal t sigkill).Survives) : t.Shielded := by
  unfold Task.Shielded
  cases hmask : t.sigmask.getLsbD 8 with
  | true => exact Or.inl rfl
  | false =>
    right
    have hpass := h 8 (by decide)
      (by rw [getLsbD_deliverable_sigkill (by decide), hmask]; simp)
    simp only [Task.Passes, (queueSignal_action t sigkill).1] at hpass
    cases haction : t.sigAction 8 with
    | ign => exact Or.inl rfl
    | fn a => exact Or.inr ⟨a, rfl⟩
    | _ => simp [haction, defaultAction] at hpass

theorem survives_of_shielded (hnone : ∀ j < 32, t.deliverable.getLsbD j = false)
    (h : t.Shielded) : (queueSignal t sigkill).Survives := by
  intro k hk hbit
  rw [getLsbD_deliverable_sigkill hk] at hbit
  have hold := hnone k hk
  rw [getLsbD_deliverable hk] at hold
  by_cases hk8 : k = 8
  · subst hk8
    rcases h with hmask | hign | ⟨a, hfn⟩
    · rw [hmask, Bool.not_true, Bool.and_false] at hbit
      cases hbit
    · simp [Task.Passes, (queueSignal_action t sigkill).1, hign]
    · simp [Task.Passes, (queueSignal_action t sigkill).1, hfn]
  · simp only [hk8, decide_false, Bool.or_false] at hbit
    rw [hbit] at hold
    cases hold

end Handler

end Hydrax.Sched
