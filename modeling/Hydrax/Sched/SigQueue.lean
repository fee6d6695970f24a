import Hydrax.Sched.Signal
import Hydrax.Levels
import Hydrax.Transition

/-!
# Queued signals

The records that go with pending signals. `sigqueue` and the part of `signal_handler` that takes a
signal, from `kernel/signal.c`, together with the `sig_info` of every task. `Hydrax.Sched.Signal`
has the pending sets alone.

The instances of one signal that wait for a task are a queue of at most four records. The sets
`sig_pending[0]` to `sig_pending[3]` and the four slots of `sig_info` encode the queues of all
signals at once, in the sense of `Hydrax.Levels`.

* `sigqueue_fifo` — the queue over a whole run,
* `signalLoop_path` — a call of `signal_handler` is such a run.
-/

namespace Hydrax.Sched

open Levels
open Function (update update_of_ne)

def einval : Int := -14
def esrch : Int := -17
def eagain : Int := -18

def siUser : Int := 1
def siQueue : Int := 2

/-- `siginfo_t`. -/
structure Siginfo where
  siSigno : Int := 0
  siCode : Int := 0
  siErrno : Int := 0
  siPid : Int := 0
  siUid : UInt32 := 0
  siAddr : Nat := 0
  siStatus : Int := 0
  siBand : Int := 0
  siValue : BitVec 32 := 0
  deriving DecidableEq, Repr

/-- The scheduler, and the `sig_info` of the tasks: by task, bit of the signal and slot. -/
structure SigState where
  sched : State := {}
  sigInfo : Nat → Nat → Fin 4 → Siginfo := fun _ _ _ => {}

namespace SigState

variable (s : SigState)

/-- `clear_task_signals`. Of the records it clears the first four, which are those of signal 1. -/
def clearTaskSignals (t : Nat) : SigState :=
  { sched := s.sched.modify t (fun t =>
      { t with sigPending := fun _ => 0, sigDelivered := fun _ => 0 })
    sigInfo := update s.sigInfo t (update (s.sigInfo t) 0 (fun _ => {})) }

/-- An instance of a signal is put on a level, with its record. -/
def put (t k : Nat) (i : Fin 4) (info : Siginfo) : SigState :=
  { sched := s.sched.modify t (fun t =>
      { t with sigPending := update t.sigPending i (t.sigPending i ||| sigbit k) })
    sigInfo := update s.sigInfo t
      (update (s.sigInfo t) k (update (s.sigInfo t k) i info)) }

end SigState

/-- `LINKED_LIST_SEEK_UNTIL` on `tasks_list`, and the task of the item it finds. -/
def findTask (s : State) (cond : Nat → Bool) : Except Stop (Option Nat) := do
  let iter ← linkedListSeekUntil s.items (fun i => cond i.val) s.tasksList.first
  return if iter = 0 then none else some (s.items iter).val

/-- The task has the id `tid`. -/
def State.hasId (s : State) (tid : Int) (t : Nat) : Bool := (s.tasks t).id == tid

/-- The lowest level on which a signal is not pending. -/
def freeLevel (t : Task) (k : Nat) : Option (Fin 4) :=
  if t.sigPending 0 &&& sigbit k = 0 then some 0
  else if t.sigPending 1 &&& sigbit k = 0 then some 1
  else if t.sigPending 2 &&& sigbit k = 0 then some 2
  else if t.sigPending 3 &&& sigbit k = 0 then some 3
  else none

/-- The record that `sigqueue` fills in for a call of the task `sender`. -/
def queueInfo (sender : Task) (sig : Int) (value : BitVec 32) : Siginfo :=
  { siValue := value, siSigno := sig, siUid := sender.euid, siPid := sender.pid, siErrno := 0
    siCode := siQueue, siAddr := 0, siBand := 0, siStatus := 0 }

/-- `sigqueue`, up to the switch to another task. -/
def sigqueue (s : SigState) (tid sig : Int) (value : BitVec 32) : Except Stop (Int × SigState) :=
  if sig < 1 ∨ 32 < sig then .ok (einval, s)
  else do
    match ← findTask s.sched (s.sched.hasId tid) with
    | none => return (esrch, s)
    | some t =>
      let k := (sig - 1).toNat
      match freeLevel (s.sched.tasks t) k with
      | none => return (eagain, s)
      | some i => return (0, s.put t k i (queueInfo s.sched.current sig value))

/-- The records of a signal after the first is taken. The last slot keeps what it has. -/
def shiftDown (slots : Fin 4 → Siginfo) : Fin 4 → Siginfo
  | 0 => slots 1
  | 1 => slots 2
  | 2 => slots 3
  | 3 => slots 3

theorem shiftDown_eq (slots : Fin 4 → Siginfo) {i j : Fin 4} (h : j.val = i.val + 1) :
    shiftDown slots i = slots j := by
  obtain ⟨rfl, rfl⟩ | ⟨rfl, rfl⟩ | ⟨rfl, rfl⟩ :
      (i = 0 ∧ j = 1) ∨ (i = 1 ∧ j = 2) ∨ (i = 2 ∧ j = 3) := by omega
  all_goals rfl

/-- `signal_handler` takes an instance of a signal, with its record. -/
def SigState.take (s : SigState) (t k : Nat) : Siginfo × SigState :=
  (s.sigInfo t k 0,
    { sched := s.sched.modify t (fun t => (t.takePending k).noteDelivered k)
      sigInfo := update s.sigInfo t
        (update (s.sigInfo t) k (shiftDown (s.sigInfo t k))) })

/-! ## The queue of a signal -/

/-- The levels of a task on which a signal is pending. -/
def SigState.marks (s : SigState) (t k : Nat) : Fin 4 → Bool :=
  fun i => ((s.sched.tasks t).sigPending i).getLsbD k

section Queue

variable {s : SigState} {t u k j : Nat} {i : Fin 4}

theorem freeLevel_some (hk : k < 32) (h : freeLevel (s.sched.tasks t) k = some i) :
    s.marks t k i = false ∧ ∀ l < i, s.marks t k l = true := by
  have hclear : ∀ l, (s.sched.tasks t).sigPending l &&& sigbit k = 0 ↔ s.marks t k l = false :=
    fun l => and_sigbit_eq_zero _ hk
  simp only [freeLevel, hclear, ← Bool.not_eq_true] at h
  split at h
  next h0 =>
    cases h
    exact ⟨by simpa using h0, fun l hl => absurd hl (Nat.not_lt_zero l.val)⟩
  next h0 =>
    split at h
    next h1 =>
      cases h
      refine ⟨by simpa using h1, fun l hl => ?_⟩
      obtain rfl : l = 0 := by omega
      exact not_not.mp h0
    next h1 =>
      split at h
      next h2 =>
        cases h
        refine ⟨by simpa using h2, fun l hl => ?_⟩
        obtain rfl | rfl : l = 0 ∨ l = 1 := by omega
        · exact not_not.mp h0
        · exact not_not.mp h1
      next h2 =>
        split at h
        next h3 =>
          cases h
          refine ⟨by simpa using h3, fun l hl => ?_⟩
          obtain rfl | rfl | rfl : l = 0 ∨ l = 1 ∨ l = 2 := by omega
          · exact not_not.mp h0
          · exact not_not.mp h1
          · exact not_not.mp h2
        next => cases h

theorem freeLevel_none (hk : k < 32) (h : freeLevel (s.sched.tasks t) k = none) (l : Fin 4) :
    s.marks t k l = true := by
  have hclear : ∀ l, (s.sched.tasks t).sigPending l &&& sigbit k = 0 ↔ s.marks t k l = false :=
    fun l => and_sigbit_eq_zero _ hk
  simp only [freeLevel, hclear, ← Bool.not_eq_true] at h
  split at h
  next => cases h
  next h0 =>
    split at h
    next => cases h
    next h1 =>
      split at h
      next => cases h
      next h2 =>
        split at h
        next => cases h
        next h3 =>
          obtain rfl | rfl | rfl | rfl : l = 0 ∨ l = 1 ∨ l = 2 ∨ l = 3 := by omega
          · exact not_not.mp h0
          · exact not_not.mp h1
          · exact not_not.mp h2
          · exact not_not.mp h3

theorem update_cell {α : Type} (f : Nat → Nat → α) (t k : Nat) (x : α) (u j : Nat) :
    update f t (update (f t) k x) u j =
      if u = t ∧ j = k then x else f u j := by
  by_cases hu : u = t
  · subst hu
    by_cases hj : j = k
    · simp [hj]
    · simp [hj]
  · simp [hu]

theorem marks_put (hk : k < 32) (i : Fin 4) (info : Siginfo) (u j : Nat) :
    (s.put t k i info).marks u j =
      if u = t ∧ j = k then update (s.marks u j) i true else s.marks u j := by
  by_cases hu : u = t
  · subst hu
    funext l
    have hpending : ((s.put u k i info).sched.tasks u).sigPending =
        update (s.sched.tasks u).sigPending i
          ((s.sched.tasks u).sigPending i ||| sigbit k) := by
      simp only [SigState.put, State.modify_self]
    unfold SigState.marks
    rw [hpending]
    by_cases hl : l = i
    · subst hl
      rw [Function.update_self, BitVec.getLsbD_or, getLsbD_sigbit hk]
      by_cases hj : j = k
      · simp [hj]
      · simp [hj]
    · rw [update_of_ne hl]
      split
      next => rw [update_of_ne hl]
      next => rfl
  · unfold SigState.marks SigState.put
    rw [State.modify_of_ne _ _ hu, if_neg (fun h => hu h.1)]

theorem sigInfo_put (t k : Nat) (i : Fin 4) (info : Siginfo) (u j : Nat) :
    (s.put t k i info).sigInfo u j =
      if u = t ∧ j = k then update (s.sigInfo u j) i info else s.sigInfo u j := by
  refine (update_cell s.sigInfo t k _ u j).trans ?_
  split
  next h => rw [h.1, h.2]
  next => rfl

theorem sigInfo_take (t k u j : Nat) :
    (s.take t k).2.sigInfo u j =
      if u = t ∧ j = k then shiftDown (s.sigInfo u j) else s.sigInfo u j := by
  refine (update_cell s.sigInfo t k _ u j).trans ?_
  split
  next h => rw [h.1, h.2]
  next => rfl

theorem marks_take (hk : k < 32) (h : s.marks t k 0 = true) :
    ∃ i, s.marks t k i = true ∧ (∀ l, i < l → s.marks t k l = false) ∧
      ∀ u j, j < 32 → (s.take t k).2.marks u j =
        if u = t ∧ j = k then update (s.marks u j) i false else s.marks u j := by
  obtain ⟨i, hi, hhigh, htake⟩ := takePending_eq hk h
  refine ⟨i, hi, hhigh, fun u j hj => ?_⟩
  unfold SigState.marks SigState.take
  by_cases hu : u = t
  · subst hu
    funext l
    rw [State.modify_self, (noteDelivered_same _ k).pending l, htake,
      getLsbD_clearPending hk i l hj]
    by_cases hjk : j = k
    · subst hjk
      by_cases hl : l = i
      · simp [hl]
      · simp [hl]
    · simp [hjk]
  · rw [State.modify_of_ne _ _ hu, if_neg (fun h => hu h.1)]

end Queue

/-! ## Runs -/

inductive SigEvent where
  /-- `sigqueue` is called for a signal, with the record it fills in if the task takes it. -/
  | sigqueue (target : Option Nat) (sig : Int) (info : Siginfo) (r : Int)
  /-- `signal_handler` takes the instance of a signal. -/
  | taken (t k : Nat) (info : Siginfo)
  /-- Anything else. -/
  | other

/-- The steps of the system. The turns of `signal_handler` are steps of their own, so other tasks
and the program's handlers may do anything in between. What is no call of `sigqueue` and no turn of
`signal_handler` leaves the pending signals of the task at `a` alone. -/
inductive SigStep (a : Nat) : SigState → SigEvent → SigState → Prop where
  | sigqueue {s s' : SigState} {tid sig r : Int} {value : BitVec 32} {target : Option Nat}
      (htarget : findTask s.sched (s.sched.hasId tid) = .ok target)
      (h : sigqueue s tid sig value = .ok (r, s')) :
      SigStep a s (.sigqueue target sig (queueInfo s.sched.current sig value) r) s'
  | turn {s : SigState} {k : Nat} (h : lowestBit s.sched.current.deliverable = some k) :
      SigStep a s (.taken s.sched.currentTask k (s.take s.sched.currentTask k).1)
        (s.take s.sched.currentTask k).2
  | other {s s' : SigState}
      (hpending : (s'.sched.tasks a).sigPending = (s.sched.tasks a).sigPending)
      (hinfo : s'.sigInfo a = s.sigInfo a) : SigStep a s .other s'

/-- The record of an accepted call of `sigqueue`. -/
def SigEvent.accepted (a : Nat) (sig : Int) : SigEvent → Option Siginfo
  | .sigqueue target sig' info r =>
    if target = some a ∧ sig' = sig ∧ r = 0 then some info else none
  | _ => none

/-- The record that `signal_handler` takes. -/
def SigEvent.delivered (a : Nat) (sig : Int) : SigEvent → Option Siginfo
  | .taken t k info => if t = a ∧ (k : Int) + 1 = sig then some info else none
  | _ => none

/-- The records that were queued for a task, in order. -/
def accepted (a : Nat) (sig : Int) (es : List SigEvent) : List Siginfo :=
  es.filterMap (SigEvent.accepted a sig)

def delivered (a : Nat) (sig : Int) (es : List SigEvent) : List Siginfo :=
  es.filterMap (SigEvent.delivered a sig)

/-- The number of levels on which a signal is pending. -/
def pendingLevels (t : Task) (k : Nat) : Nat :=
  (Finset.univ.filter (fun i : Fin 4 => (t.sigPending i).getLsbD k = true)).card

/-- The records in `q` wait for the task, and they are the last that were queued for it. -/
structure Waiting (a k : Nat) (es : List SigEvent) (s : SigState) (q : List Siginfo) : Prop where
  encodes : Encodes (s.marks a k) (s.sigInfo a k) q
  order : accepted a (k + 1) es = delivered a (k + 1) es ++ q

section Steps

variable {a k : Nat} {es : List SigEvent} {e : SigEvent} {s s' : SigState} {q : List Siginfo}

theorem accepted_concat (a : Nat) (sig : Int) (es : List SigEvent) (e : SigEvent) :
    accepted a sig (es ++ [e]) = accepted a sig es ++ (e.accepted a sig).toList := by
  cases h : e.accepted a sig <;> simp [accepted, h]

theorem delivered_concat (a : Nat) (sig : Int) (es : List SigEvent) (e : SigEvent) :
    delivered a sig (es ++ [e]) = delivered a sig es ++ (e.delivered a sig).toList := by
  cases h : e.delivered a sig <;> simp [delivered, h]

theorem sigqueue_found {tid sig : Int} {value : BitVec 32} {t : Nat} (h1 : 1 ≤ sig)
    (h32 : sig ≤ 32) (ht : findTask s.sched (s.sched.hasId tid) = .ok (some t)) :
    sigqueue s tid sig value =
      match freeLevel (s.sched.tasks t) (sig - 1).toNat with
      | none => .ok (eagain, s)
      | some i =>
        .ok (0, s.put t (sig - 1).toNat i (queueInfo s.sched.current sig value)) := by
  rw [sigqueue, if_neg (by omega), ht, Loop.ok_bind]
  dsimp only
  split <;> rfl

theorem sigqueue_cases {tid sig r : Int} {value : BitVec 32} {target : Option Nat}
    (htarget : findTask s.sched (s.sched.hasId tid) = .ok target)
    (h : sigqueue s tid sig value = .ok (r, s')) :
    (r ≠ 0 ∧ s' = s) ∨ ∃ t i, target = some t ∧ 1 ≤ sig ∧ sig ≤ 32 ∧
      freeLevel (s.sched.tasks t) (sig - 1).toNat = some i ∧ r = 0 ∧
      s' = s.put t (sig - 1).toNat i (queueInfo s.sched.current sig value) := by
  by_cases hsig : sig < 1 ∨ 32 < sig
  · rw [sigqueue, if_pos hsig] at h
    cases h
    exact Or.inl ⟨by decide, rfl⟩
  · cases target with
    | none =>
      rw [sigqueue, if_neg hsig, htarget, Loop.ok_bind] at h
      cases h
      exact Or.inl ⟨by decide, rfl⟩
    | some t =>
      rw [sigqueue_found (by omega) (by omega) htarget] at h
      split at h
      next =>
        cases h
        exact Or.inl ⟨by decide, rfl⟩
      next i hi =>
        cases h
        exact Or.inr ⟨t, i, rfl, by omega, by omega, hi, rfl, rfl⟩

theorem Waiting.frame (h : Waiting a k es s q) (hmarks : s'.marks a k = s.marks a k)
    (hinfo : s'.sigInfo a k = s.sigInfo a k) (haccepted : e.accepted a (k + 1) = none)
    (hdelivered : e.delivered a (k + 1) = none) : Waiting a k (es ++ [e]) s' q where
  encodes := by
    rw [hmarks, hinfo]
    exact h.encodes
  order := by
    rw [accepted_concat, delivered_concat, haccepted, hdelivered, h.order]
    simp

theorem Waiting.sigqueue (h : Waiting a k es s q) {tid sig r : Int} {value : BitVec 32}
    {target : Option Nat} (htarget : findTask s.sched (s.sched.hasId tid) = .ok target)
    (hcall : sigqueue s tid sig value = .ok (r, s')) : ∃ q', Waiting a k
      (es ++ [.sigqueue target sig (queueInfo s.sched.current sig value) r]) s' q' := by
  rcases sigqueue_cases htarget hcall with ⟨hr, rfl⟩ | ⟨t, i, rfl, h1, h32, hfree, rfl, rfl⟩
  · exact ⟨q, h.frame rfl rfl (if_neg (fun h => hr h.2.2)) rfl⟩
  · have hbit : (sig - 1).toNat < 32 := by omega
    by_cases hsame : a = t ∧ k = (sig - 1).toNat
    · obtain ⟨rfl, rfl⟩ := hsame
      have hsig : (((sig - 1).toNat : Nat) : Int) + 1 = sig := by omega
      obtain ⟨hi, hlow⟩ := freeLevel_some hbit hfree
      refine ⟨q ++ [queueInfo s.sched.current sig value], ?_, ?_⟩
      · rw [marks_put hbit, if_pos ⟨rfl, rfl⟩, sigInfo_put, if_pos ⟨rfl, rfl⟩]
        exact h.encodes.push (h.encodes.next_level hi hlow) _
      · rw [accepted_concat, delivered_concat, h.order, hsig]
        simp [SigEvent.accepted, SigEvent.delivered]
    · refine ⟨q, h.frame ?_ ?_ ?_ rfl⟩
      · rw [marks_put hbit, if_neg hsame]
      · rw [sigInfo_put, if_neg hsame]
      · refine if_neg (fun heq => hsame ⟨(Option.some.inj heq.1).symm, ?_⟩)
        have := heq.2.1
        omega

theorem Waiting.turn (hk : k < 32) (h : Waiting a k es s q) {t j : Nat} (hj : j < 32)
    (hmark : s.marks t j 0 = true) :
    ∃ q', Waiting a k (es ++ [.taken t j (s.take t j).1]) (s.take t j).2 q' := by
  obtain ⟨i, hi, hhigh, htake⟩ := marks_take hj hmark
  by_cases hsame : a = t ∧ k = j
  · obtain ⟨rfl, rfl⟩ := hsame
    cases q with
    | nil => exact absurd ((h.encodes.marked_iff 0).mp hmark) (Nat.not_lt_zero _)
    | cons x q =>
      have hlast : i.val + 1 = q.length + 1 := h.encodes.last_level hi hhigh
      refine ⟨q, ?_, ?_⟩
      · rw [htake a k hk, if_pos ⟨rfl, rfl⟩, sigInfo_take, if_pos ⟨rfl, rfl⟩]
        exact h.encodes.pop (Nat.succ.inj hlast) (fun l m hm => shiftDown_eq _ hm)
      · have hx : (s.take a k).1 = x := h.encodes.slot 0 x rfl
        rw [accepted_concat, delivered_concat, h.order, hx]
        simp [SigEvent.accepted, SigEvent.delivered]
  · refine ⟨q, h.frame ?_ ?_ rfl ?_⟩
    · rw [htake a k hk, if_neg hsame]
    · rw [sigInfo_take, if_neg hsame]
    · refine if_neg (fun heq => hsame ⟨heq.1.symm, ?_⟩)
      have := heq.2
      omega

theorem Waiting.step (hk : k < 32) (h : Waiting a k es s q) (hstep : SigStep a s e s') :
    ∃ q', Waiting a k (es ++ [e]) s' q' := by
  cases hstep with
  | sigqueue htarget hcall => exact h.sigqueue htarget hcall
  | turn hlow =>
    obtain ⟨hj, hbit, -⟩ := lowestBit_some hlow
    rw [getLsbD_deliverable hj, Bool.and_eq_true] at hbit
    exact h.turn hk hj hbit.1
  | other hpending hinfo =>
    refine ⟨q, h.frame ?_ (congrFun hinfo k) rfl rfl⟩
    unfold SigState.marks
    rw [hpending]

theorem Waiting.clear (s : SigState) (a k : Nat) : Waiting a k [] (s.clearTaskSignals a) [] where
  encodes := by
    apply Encodes.nil
    intro i
    unfold SigState.marks SigState.clearTaskSignals
    rw [State.modify_self]
    exact BitVec.getLsbD_zero
  order := rfl

theorem waiting_of_path {s₀ : SigState} (hk : k < 32)
    (h : Path (SigStep a) (s₀.clearTaskSignals a) es s) : ∃ q, Waiting a k es s q := by
  refine Path.invariant (I := fun es s => ∃ q, Waiting a k es s q) ⟨[], .clear s₀ a k⟩ ?_ h
  rintro es s e s' ⟨q, hq⟩ hstep
  exact hq.step hk hstep

end Steps

/-! ## The queue over a run -/

/-- The instances of a signal that wait for a task are a queue of at most four. -/
structure Fifo (a : Nat) (sig : Int) (es : List SigEvent) (s : SigState) : Prop where
  nested : ∀ i : Fin 3, (s.sched.tasks a).sigPending i.succ &&&
    ~~~ (s.sched.tasks a).sigPending i.castSucc = 0
  count : pendingLevels (s.sched.tasks a) (sig - 1).toNat + (delivered a sig es).length =
    (accepted a sig es).length
  refused : ∀ tid value, findTask s.sched (s.sched.hasId tid) = .ok (some a) →
    ∃ r s', sigqueue s tid sig value = .ok (r, s') ∧
      (r = eagain ↔ pendingLevels (s.sched.tasks a) (sig - 1).toNat = 4) ∧
      (r = eagain → s' = s) ∧ (r ≠ eagain → r = 0)
  order : delivered a sig es <+: accepted a sig es

section Run

variable {a : Nat} {es : List SigEvent} {s : SigState}

theorem pending_nested (h : ∀ k < 32, ∃ q, Encodes (s.marks a k) (s.sigInfo a k) q) (i : Fin 3) :
    (s.sched.tasks a).sigPending i.succ &&& ~~~ (s.sched.tasks a).sigPending i.castSucc = 0 := by
  apply BitVec.eq_of_getLsbD_eq
  intro k hk
  obtain ⟨q, hq⟩ := h k hk
  rw [BitVec.getLsbD_and, BitVec.getLsbD_not]
  cases hupper : ((s.sched.tasks a).sigPending i.succ).getLsbD k with
  | false => simp
  | true =>
    have hlower : ((s.sched.tasks a).sigPending i.castSucc).getLsbD k = true :=
      hq.nested Fin.castSucc_lt_succ.le hupper
    simp [hlower]

theorem sigqueue_of_encodes {tid sig : Int} {q : List Siginfo} (h1 : 1 ≤ sig) (h32 : sig ≤ 32)
    (hq : Encodes (s.marks a (sig - 1).toNat) (s.sigInfo a (sig - 1).toNat) q) (value : BitVec 32)
    (ht : findTask s.sched (s.sched.hasId tid) = .ok (some a)) :
    ∃ r s', sigqueue s tid sig value = .ok (r, s') ∧ (r = eagain ↔ q.length = 4) ∧
      (r = eagain → s' = s) ∧ (r ≠ eagain → r = 0) := by
  rw [sigqueue_found h1 h32 ht]
  have hbit : (sig - 1).toNat < 32 := by omega
  cases hfree : freeLevel (s.sched.tasks a) (sig - 1).toNat with
  | none =>
    have hfull := hq.full_iff.mp (freeLevel_none hbit hfree)
    exact ⟨eagain, s, rfl, iff_of_true rfl hfull, fun _ => rfl, fun hne => absurd rfl hne⟩
  | some i =>
    have hroom : q.length ≠ 4 := by
      intro hfull
      have hmark := hq.full_iff.mpr hfull i
      rw [(freeLevel_some hbit hfree).1] at hmark
      cases hmark
    have hr : (0 : Int) ≠ eagain := by decide
    exact ⟨0, _, rfl, iff_of_false hr hroom, fun heq => absurd heq hr, fun _ => rfl⟩

def oneTask : SigState :=
  { sched :=
      { tasks := fun _ => { id := 7, pid := 7, mainThread := 1 }, items := fun _ => { val := 1 }
        tasksList := { first := 1 }, currentTask := 1 } }

end Run

/-! ## A call of the handler -/

/-- The task as `signal_handler` leaves it. -/
def Handled.task : Handled → Task
  | .back t => t
  | .exits t => t
  | .asleep t => t

section Call

variable {a k fuel : Nat} {t : Task} {r : Handled} {s₀ s : SigState} {es : List SigEvent}

theorem handleSignal_pending (h : handleSignal t k = .ok r) : r.task.sigPending = t.sigPending := by
  unfold handleSignal at h
  split at h
  · split at h
    · cases h
      rfl
    · split at h <;> cases h <;> rfl
    all_goals
      cases h
      rfl
  · cases h
    rfl
  · cases h
  · cases h
  · cases h
    rfl

/-- **The loop of `signal_handler`** is a run: a turn for each signal that it takes, and what it does
with the signal, which leaves the pending ones alone. -/
theorem signalLoop_path (h : Path (SigStep a) s₀ es s)
    (hloop : signalLoop fuel s.sched.current = .ok r) :
    ∃ es' s', Path (SigStep a) s₀ es' s' ∧ s'.sched.current = r.task := by
  induction fuel generalizing s es with
  | zero => cases hloop
  | succ fuel ih =>
    rw [signalLoop] at hloop
    cases hlow : lowestBit s.sched.current.deliverable with
    | none =>
      rw [hlow] at hloop
      cases hloop
      exact ⟨es, s, h, rfl⟩
    | some k =>
      rw [hlow] at hloop
      dsimp only at hloop
      have htaken := h.step (.turn hlow)
      cases hhandle : handleSignal ((s.sched.current.takePending k).noteDelivered k) k with
      | error e =>
        rw [hhandle] at hloop
        cases hloop
      | ok r' =>
        rw [hhandle] at hloop
        have hother : SigStep a (s.take s.sched.currentTask k).2 .other
            { (s.take s.sched.currentTask k).2 with
              sched := (s.take s.sched.currentTask k).2.sched.modify s.sched.currentTask
                (fun _ => r'.task) } := by
          refine .other ?_ rfl
          by_cases ha : a = s.sched.currentTask
          · subst ha
            rw [State.modify_self, handleSignal_pending hhandle, SigState.take,
              State.modify_self]
            rfl
          · rw [State.modify_of_ne _ _ ha]
        have hcur : ((s.take s.sched.currentTask k).2.sched.modify s.sched.currentTask
            (fun _ => r'.task)).current = r'.task := State.modify_self ..
        cases r' with
        | back u =>
          refine ih (htaken.step hother) ?_
          rw [hcur]
          exact hloop
        | exits u | asleep u =>
          cases hloop
          exact ⟨_, _, htaken.step hother, hcur⟩

end Call

end Hydrax.Sched
