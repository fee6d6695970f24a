import Hydrax.Sched.Drain

/-!
# Waiting for a signal

`sigwait` and `sigwaitinfo` of `kernel/signal.c` have the same loop: they look for a signal of the
set among those that were delivered, and `pause` until there is one. `sigwaitinfo` makes the set its
mask for that time. So the signals it waits for are those that cannot be delivered to it.

* `awaitSignal` — the loop, and the signals that are sent to the task while it waits,
* `sigwaitinfo_iff` — when `sigwaitinfo` returns what `sigwait` returns.
-/

namespace Hydrax.Sched

inductive Sent where
  /-- With `kill`, `raise` or `pthread_kill`. -/
  | killed (k : Fin 32)
  /-- With `sigqueue`. -/
  | queued (k : Fin 32)

def Sent.bit : Sent → Nat
  | .killed k => k
  | .queued k => k

def Sent.send (a : Sent) (t : Task) : Task :=
  match a with
  | .killed k => queueSignal t (k + 1)
  | .queued k =>
    match freeLevel t k with
    | none => t
    | some i =>
      { t with sigPending := Function.update t.sigPending i (t.sigPending i ||| sigbit k) }

/-- `sig_delivered[i] &= ~(1 << k)`. -/
def Task.clearDelivered (t : Task) (i : Fin 4) (k : Nat) : Task :=
  { t with sigDelivered := Function.update t.sigDelivered i (t.sigDelivered i &&& ~~~ sigbit k) }

/-- Take the topmost instance of a signal out of the delivered ones. -/
def Task.takeDelivered (t : Task) (k : Nat) : Task :=
  if t.sigDelivered 3 &&& sigbit k ≠ 0 then t.clearDelivered 3 k
  else if t.sigDelivered 2 &&& sigbit k ≠ 0 then t.clearDelivered 2 k
  else if t.sigDelivered 1 &&& sigbit k ≠ 0 then t.clearDelivered 1 k
  else if t.sigDelivered 0 &&& sigbit k ≠ 0 then t.clearDelivered 0 k
  else t

/-- The lowest signal of the set that was delivered. -/
def accept (set : BitVec 32) (t : Task) : Option (Nat × Task) :=
  (lowestBit (set &&& t.sigDelivered 0)).map (fun k => (k + 1, t.takeDelivered k))

/-- `pause`, before the switch to another task. -/
def Task.pause (t : Task) : Task := { t with status := .waiting }

/-- Where a waiting task is when nothing more is sent to it. -/
inductive WaitEnd where
  | returns (sig : Nat) (t : Task)
  | exits (t : Task)
  | waits (t : Task)

/-- The scheduler resumes the task, which runs `signal_handler` first. A task that was stopped there
goes on with the handler when it is resumed again. -/
def resumeWait (set : BitVec 32) (next : Task → Except Stop WaitEnd) (t : Task) :
    Except Stop WaitEnd :=
  match signalHandler { t with status := .running } with
  | .ok (.back t) =>
    match accept set t with
    | some (sig, t) => .ok (.returns sig t)
    | none => next t.pause
  | .ok (.asleep t) => next t
  | .ok (.exits t) => .ok (.exits t)
  | .error e => .error e

/-- The task sleeps in `pause` while signals are sent to it. If a blocked signal is pending, then it
is resumed again and again in between, and calls `pause` each time. -/
def waiting (set : BitVec 32) : List Sent → Task → Except Stop WaitEnd
  | [], t => .ok (.waits t)
  | a :: rest, t =>
    if (a.send t).sigPending 0 = 0 then waiting set rest (a.send t)
    else resumeWait set (waiting set rest) (a.send t)

/-- The loop, from its first look at the delivered signals on. -/
def awaitSignal (set : BitVec 32) (sent : List Sent) (t : Task) : Except Stop WaitEnd :=
  match accept set t with
  | some (sig, t) => .ok (.returns sig t)
  | none =>
    if t.sigPending 0 = 0 then waiting set sent t.pause
    else resumeWait set (waiting set sent) t.pause

def sigwait (set : BitVec 32) (sent : List Sent) (t : Task) : Except Stop WaitEnd :=
  awaitSignal set sent t

def sigwaitinfo (set : BitVec 32) (sent : List Sent) (t : Task) : Except Stop WaitEnd := do
  match ← awaitSignal set sent { t with sigmask := set } with
  | .returns sig u => .ok (.returns sig { u with sigmask := t.sigmask })
  | r => .ok r

/-! ## What should hold -/

/-- No signal terminates the task. -/
def Task.Lasting (t : Task) : Prop :=
  ∀ k < 32, t.sigAction k ≠ .err ∧ t.sigAction k ≠ .hold ∧
    (t.sigAction k = .dfl → defaultAction (k + 1) ≠ .terminate)

/-- What `sigwait` accepts, `sigwaitinfo` accepts, and it restores the mask. -/
def AcceptsAlike (set : BitVec 32) (sent : List Sent) (t : Task) : Prop :=
  ∀ sig u, sigwait set sent t = .ok (.returns sig u) →
    ∃ v, sigwaitinfo set sent t = .ok (.returns sig v) ∧ v.sigDelivered = u.sigDelivered ∧
      v.sigmask = t.sigmask

/-- The task waits for the signal and does not block it. -/
def Task.Open (t : Task) (set : BitVec 32) (k : Nat) : Prop :=
  set.getLsbD k = true ∧ t.sigmask.getLsbD k = false

def Task.Stops (t : Task) (k : Nat) : Prop :=
  t.sigmask.getLsbD k = false ∧ t.sigAction k = .dfl ∧ defaultAction (k + 1) = .stop

/-- A signal of the set was delivered. -/
def Task.Heard (t : Task) (set : BitVec 32) : Prop :=
  ∃ k < 32, (t.sigDelivered 0).getLsbD k = true ∧ set.getLsbD k = true

/-- A signal of the set is pending that is not blocked. -/
def Task.OpenPending (t : Task) (set : BitVec 32) : Prop :=
  ∃ k < 32, (t.sigPending 0).getLsbD k = true ∧ t.Open set k

def Task.BlockedPending (t : Task) : Prop :=
  ∃ k < 32, (t.sigPending 0).getLsbD k = true ∧ t.sigmask.getLsbD k = true

/-- A signal of the set that is not blocked was there before or is sent, and then or later the task
is sent one that does not stop it. A stopped task goes on if a blocked signal is pending. -/
def Task.Answers (t : Task) (set : BitVec 32) (before blocked : Prop) (sent : List Sent) : Prop :=
  ∃ l a r, sent = l ++ a :: r ∧ (before ∨ ∃ b ∈ l ++ [a], t.Open set b.bit) ∧
    (¬ t.Stops a.bit ∨ blocked ∨ ∃ b ∈ l, t.sigmask.getLsbD b.bit = true)

/-- Something that happens while the task waits ends a call of `sigwait`. -/
def Task.Answered (t : Task) (set : BitVec 32) (sent : List Sent) : Prop :=
  t.OpenPending set ∧ t.Survives ∨ t.Answers set (t.OpenPending set) t.BlockedPending sent

section Handler

variable {t u v : Task} {k : Nat} {set : BitVec 32}

/-! ## The handler -/

theorem getLsbD_noteDelivered (t : Task) (hk : k < 32) (j : Nat) :
    ((t.noteDelivered k).sigDelivered 0).getLsbD j =
      ((t.sigDelivered 0).getLsbD j || decide (j = k)) := by
  by_cases hclear : t.sigDelivered 0 &&& sigbit k = 0
  · rw [Task.noteDelivered, if_pos hclear, getLsbD_setDelivered hk]
    simp
  · have hset : (t.sigDelivered 0).getLsbD k = true := by
      rwa [and_sigbit_eq_zero _ hk, Bool.not_eq_false] at hclear
    have hupper : ∀ i : Fin 4, 0 ≠ i → (t.setDelivered i k).sigDelivered 0 = t.sigDelivered 0 :=
      fun i hi => Function.update_of_ne hi _ _
    have hsame : (t.noteDelivered k).sigDelivered 0 = t.sigDelivered 0 := by
      rw [Task.noteDelivered, if_neg hclear]
      split
      next => exact hupper 1 (by decide)
      next =>
        split
        next => exact hupper 2 (by decide)
        next =>
          split
          next => exact hupper 3 (by decide)
          next => rfl
    rw [hsame]
    by_cases hj : j = k
    · simp [hj, hset]
    · simp [hj]

structure Settled (t u : Task) : Prop where
  action : u.sigAction = t.sigAction
  mask : u.sigmask = t.sigmask
  pending : ∀ k < 32, (u.sigPending 0).getLsbD k =
    ((t.sigPending 0).getLsbD k && t.sigmask.getLsbD k)
  delivered : ∀ k < 32, (u.sigDelivered 0).getLsbD k =
    ((t.sigDelivered 0).getLsbD k || t.deliverable.getLsbD k)

theorem Settled.refl (h : lowestBit t.deliverable = none) : Settled t t where
  action := rfl
  mask := rfl
  pending k hk := by
    have hclear := lowestBit_none h hk
    rw [getLsbD_deliverable hk] at hclear
    cases hp : (t.sigPending 0).getLsbD k <;> cases hm : t.sigmask.getLsbD k <;> simp_all
  delivered k hk := by rw [lowestBit_none h hk, Bool.or_false]

theorem handleSignal_lasting (h : t.Lasting) (hk : k < 32) :
    (∃ st, handleSignal t k = .ok (.back { t with status := st })) ∨
      t.sigPending 0 = 0 ∧ handleSignal t k = .ok (.asleep { t with status := .waiting }) := by
  obtain ⟨herr, hhold, hdfl⟩ := h k hk
  rw [handleSignal]
  cases haction : t.sigAction k with
  | err => exact absurd haction herr
  | hold => exact absurd haction hhold
  | ign => exact Or.inl ⟨t.status, rfl⟩
  | fn addr => exact Or.inl ⟨t.status, rfl⟩
  | dfl =>
    dsimp only
    cases hdefault : defaultAction (k + 1) with
    | terminate => exact absurd hdefault (hdfl haction)
    | cont => exact Or.inl ⟨.running, rfl⟩
    | ignore => exact Or.inl ⟨t.status, rfl⟩
    | stop =>
      dsimp only
      split
      next hzero => exact Or.inr ⟨hzero, rfl⟩
      next => exact Or.inl ⟨.running, rfl⟩

theorem Settled.turn (hlow : lowestBit t.deliverable = some k)
    (h : Settled ((t.takePending k).noteDelivered k) u) : Settled t u := by
  obtain ⟨hk, hbit, -⟩ := lowestBit_some hlow
  rw [getLsbD_deliverable hk, Bool.and_eq_true, Bool.not_eq_true'] at hbit
  have hturn := turn_take hk hbit.1
  refine ⟨h.action.trans hturn.action, h.mask.trans hturn.mask, fun j hj => ?_, fun j hj => ?_⟩
  · rw [h.pending j hj, hturn.mask]
    by_cases hne : j = k
    · simp [hne, hbit.2]
    · rw [hturn.pending_of_ne j hj hne]
  · rw [h.delivered j hj, getLsbD_noteDelivered _ hk, sigDelivered_takePending,
      getLsbD_deliverable hj, getLsbD_deliverable hj, hturn.mask]
    by_cases hne : j = k
    · simp [hne, hbit]
    · rw [hturn.pending_of_ne j hj hne]
      simp [hne]

theorem Task.Lasting.congr (h : t.Lasting) (haction : u.sigAction = t.sigAction) : u.Lasting := by
  intro k hk
  rw [haction]
  exact h k hk

theorem signalLoop_settled {fuel : Nat} (h : t.Lasting) (hfuel : (pendingBits t).card < fuel) :
    ∃ u, Settled t u ∧
      (signalLoop fuel t = .ok (.back u) ∨ signalLoop fuel t = .ok (.asleep u)) := by
  induction fuel generalizing t with
  | zero => cases hfuel
  | succ fuel ih =>
    rw [signalLoop]
    cases hlow : lowestBit t.deliverable with
    | none => exact ⟨t, .refl hlow, Or.inl rfl⟩
    | some k =>
      obtain ⟨hk, hbit, -⟩ := lowestBit_some hlow
      rw [getLsbD_deliverable hk, Bool.and_eq_true] at hbit
      have hturn := turn_take hk hbit.1
      have hlasting := h.congr hturn.action
      have hcard : (pendingBits ((t.takePending k).noteDelivered k)).card < fuel := by
        have := hturn.card
        omega
      dsimp only
      rcases handleSignal_lasting hlasting hk with ⟨st, hback⟩ | ⟨hzero, hasleep⟩
      · rw [hback]
        obtain ⟨u, hu, hend⟩ :=
          ih (t := { (t.takePending k).noteDelivered k with status := st }) hlasting hcard
        exact ⟨u, .turn hlow ⟨hu.action, hu.mask, hu.pending, hu.delivered⟩, hend⟩
      · rw [hasleep]
        refine ⟨{ (t.takePending k).noteDelivered k with status := .waiting },
          .turn hlow ⟨rfl, rfl, fun j hj => ?_, fun j hj => ?_⟩, Or.inr rfl⟩
        · rw [hzero]
          simp
        · rw [getLsbD_deliverable hj, hzero]
          simp

/-- **How the handler ends** for a task that no signal terminates. -/
theorem signalHandler_settled (h : t.Lasting) :
    ∃ u, Settled t u ∧ ((t.Survives ∧ signalHandler t = .ok (.back u)) ∨
      (¬ t.Survives ∧ signalHandler t = .ok (.asleep u))) := by
  have hcard : (pendingBits t).card < 129 := Nat.lt_succ_of_le (pendingBits_card_le t)
  obtain ⟨u, hu, hend⟩ := signalLoop_settled h hcard
  refine ⟨u, hu, ?_⟩
  rw [← signalHandler_back_iff]
  rcases hend with hback | hasleep
  · exact Or.inl ⟨⟨u, hback⟩, hback⟩
  · refine Or.inr ⟨?_, hasleep⟩
    rintro ⟨v, hv⟩
    cases hasleep.symm.trans hv

end Handler

/-! ## Sending -/

section Sending

variable {t u : Task} {k : Nat} {set : BitVec 32} {a : Sent} {rest : List Sent}

theorem Sent.bit_lt (a : Sent) : a.bit < 32 := by
  cases a with
  | killed k => exact k.isLt
  | queued k => exact k.isLt

/-- The signal is pending, and nothing else has changed. -/
structure Received (t u : Task) (k : Nat) : Prop where
  action : u.sigAction = t.sigAction
  mask : u.sigmask = t.sigmask
  delivered : u.sigDelivered = t.sigDelivered
  pending : ∀ j < 32, (u.sigPending 0).getLsbD j = ((t.sigPending 0).getLsbD j || decide (j = k))

theorem received_put {i : Fin 4} (hk : k < 32)
    (h : i = 0 ∨ (t.sigPending 0).getLsbD k = true) :
    Received t
      { t with sigPending := Function.update t.sigPending i (t.sigPending i ||| sigbit k) } k where
  action := rfl
  mask := rfl
  delivered := rfl
  pending j hj := by
    by_cases hi : i = 0
    · subst hi
      simp only [Function.update_self, BitVec.getLsbD_or, getLsbD_sigbit hk]
    · simp only [Function.update_of_ne (Ne.symm hi)]
      by_cases hne : j = k
      · simp [hne, h.resolve_left hi]
      · simp [hne]

theorem received_self (h : (t.sigPending 0).getLsbD k = true) : Received t t k where
  action := rfl
  mask := rfl
  delivered := rfl
  pending j _ := by
    by_cases hne : j = k
    · simp [hne, h]
    · simp [hne]

theorem received_send (a : Sent) (t : Task) : Received t (a.send t) a.bit := by
  have hset : ∀ {k}, k < 32 → ¬ t.sigPending 0 &&& sigbit k = 0 →
      (t.sigPending 0).getLsbD k = true := by
    intro k hk hne
    rwa [and_sigbit_eq_zero _ hk, Bool.not_eq_false] at hne
  cases a with
  | killed k =>
    change Received t (queueSignal t (k + 1)) k
    rw [queueSignal, if_neg (Nat.succ_ne_zero _), Nat.add_sub_cancel]
    dsimp only
    split
    next => exact received_put k.isLt (Or.inl rfl)
    next h0 =>
      have hbit := hset k.isLt h0
      split
      next => exact received_put k.isLt (Or.inr hbit)
      next =>
        split
        next => exact received_put k.isLt (Or.inr hbit)
        next =>
          split
          next => exact received_put k.isLt (Or.inr hbit)
          next => exact received_self hbit
  | queued k =>
    rw [Sent.send]
    by_cases h0 : t.sigPending 0 &&& sigbit k = 0
    · rw [freeLevel, if_pos h0]
      exact received_put k.isLt (Or.inl rfl)
    · have hbit := hset k.isLt h0
      split
      next => exact received_self hbit
      next => exact received_put k.isLt (Or.inr hbit)

theorem Received.pending_ne_zero (h : Received t u k) (hk : k < 32) : u.sigPending 0 ≠ 0 := by
  intro hzero
  have hbit := h.pending k hk
  rw [hzero] at hbit
  simp at hbit

def Task.Quiet (t : Task) : Prop :=
  ∀ k < 32, (t.sigPending 0).getLsbD k = true → t.sigmask.getLsbD k = true

theorem Settled.quiet (h : Settled t u) : u.Quiet := by
  intro k hk hbit
  rw [h.pending k hk, Bool.and_eq_true] at hbit
  rw [h.mask]
  exact hbit.2

theorem Settled.heard_iff (h : Settled t u) : u.Heard set ↔ t.Heard set ∨ t.OpenPending set := by
  unfold Task.Heard Task.OpenPending Task.Open
  constructor
  · rintro ⟨k, hk, hbit, hset⟩
    rw [h.delivered k hk, Bool.or_eq_true, getLsbD_deliverable hk, Bool.and_eq_true,
      Bool.not_eq_true'] at hbit
    rcases hbit with hbit | ⟨hp, hm⟩
    · exact Or.inl ⟨k, hk, hbit, hset⟩
    · exact Or.inr ⟨k, hk, hp, hset, hm⟩
  · rintro (⟨k, hk, hbit, hset⟩ | ⟨k, hk, hp, hset, hm⟩)
    · refine ⟨k, hk, ?_, hset⟩
      rw [h.delivered k hk, hbit, Bool.true_or]
    · refine ⟨k, hk, ?_, hset⟩
      rw [h.delivered k hk, getLsbD_deliverable hk, hp, hm]
      simp

theorem Settled.blockedPending_iff (h : Settled t u) : u.BlockedPending ↔ t.BlockedPending := by
  unfold Task.BlockedPending
  rw [h.mask]
  refine exists_congr (fun k => and_congr_right (fun hk => ?_))
  rw [h.pending k hk, Bool.and_eq_true, and_assoc, and_self]

theorem Received.openPending_iff (h : Received t u k) (hk : k < 32) (hquiet : t.Quiet) :
    u.OpenPending set ↔ t.Open set k := by
  unfold Task.OpenPending Task.Open
  rw [h.mask]
  constructor
  · rintro ⟨j, hj, hbit, hset, hm⟩
    rw [h.pending j hj, Bool.or_eq_true, decide_eq_true_iff] at hbit
    rcases hbit with hbit | rfl
    · rw [hquiet j hj hbit] at hm
      cases hm
    · exact ⟨hset, hm⟩
  · rintro ⟨hset, hm⟩
    refine ⟨k, hk, ?_, hset, hm⟩
    rw [h.pending k hk]
    simp

theorem Received.blockedPending_iff (h : Received t u k) (hk : k < 32) :
    u.BlockedPending ↔ t.BlockedPending ∨ t.sigmask.getLsbD k = true := by
  unfold Task.BlockedPending
  rw [h.mask]
  constructor
  · rintro ⟨j, hj, hbit, hm⟩
    rw [h.pending j hj, Bool.or_eq_true, decide_eq_true_iff] at hbit
    rcases hbit with hbit | rfl
    · exact Or.inl ⟨j, hj, hbit, hm⟩
    · exact Or.inr hm
  · rintro (⟨j, hj, hbit, hm⟩ | hm)
    · refine ⟨j, hj, ?_, hm⟩
      rw [h.pending j hj, hbit, Bool.true_or]
    · refine ⟨k, hk, ?_, hm⟩
      rw [h.pending k hk]
      simp

theorem Received.heard_iff (h : Received t u k) : u.Heard set ↔ t.Heard set := by
  unfold Task.Heard
  rw [h.delivered]

theorem Received.survives_iff (h : Received t u k) (hk : k < 32) (hquiet : t.Quiet)
    (hlasting : t.Lasting) : u.Survives ↔ ¬ t.Stops k ∨ t.BlockedPending := by
  have hdeliverable : ∀ j < 32, u.deliverable.getLsbD j = true →
      j = k ∧ t.sigmask.getLsbD k = false := by
    intro j hj hbit
    rw [getLsbD_deliverable hj, h.mask, h.pending j hj, Bool.and_eq_true, Bool.or_eq_true,
      decide_eq_true_iff, Bool.not_eq_true'] at hbit
    obtain ⟨hbit | rfl, hm⟩ := hbit
    · rw [hquiet j hj hbit] at hm
      cases hm
    · exact ⟨rfl, hm⟩
  have hlater : t.sigmask.getLsbD k = false → ((∃ j < 32, (u.sigPending 0).getLsbD j = true ∧
      (k < j ∨ u.sigmask.getLsbD j = true)) ↔ t.BlockedPending) := by
    intro hm
    rw [h.mask]
    constructor
    · rintro ⟨j, hj, hbit, hor⟩
      rw [h.pending j hj, Bool.or_eq_true, decide_eq_true_iff] at hbit
      rcases hbit with hbit | rfl
      · exact ⟨j, hj, hbit, hquiet j hj hbit⟩
      · rcases hor with hlt | hblocked
        · exact absurd hlt (Nat.lt_irrefl j)
        · rw [hm] at hblocked
          cases hblocked
    · rintro ⟨j, hj, hbit, hblocked⟩
      refine ⟨j, hj, ?_, Or.inr hblocked⟩
      rw [h.pending j hj, hbit, Bool.true_or]
  cases hm : t.sigmask.getLsbD k with
  | true =>
    refine iff_of_true (fun j hj hbit => ?_) (Or.inl (fun hstops => ?_))
    · rw [(hdeliverable j hj hbit).2] at hm
      cases hm
    · rw [hstops.1] at hm
      cases hm
  | false =>
    have hbit : u.deliverable.getLsbD k = true := by
      rw [getLsbD_deliverable hk, h.mask, h.pending k hk, hm]
      simp
    have honly : u.Survives ↔ u.Passes k := by
      refine ⟨fun hall => hall k hk hbit, fun hpass j hj hj' => ?_⟩
      rw [(hdeliverable j hj hj').1]
      exact hpass
    rw [honly, Task.Passes, hlater hm, h.action]
    obtain ⟨herr, hhold, hdfl⟩ := hlasting k hk
    cases haction : t.sigAction k with
    | err => exact absurd haction herr
    | hold => exact absurd haction hhold
    | ign => exact iff_of_true trivial (Or.inl (by simp [Task.Stops, haction]))
    | fn addr => exact iff_of_true trivial (Or.inl (by simp [Task.Stops, haction]))
    | dfl =>
      dsimp only
      cases hdefault : defaultAction (k + 1) with
      | terminate => exact absurd hdefault (hdfl haction)
      | cont => exact iff_of_true trivial (Or.inl (by simp [Task.Stops, hdefault]))
      | ignore => exact iff_of_true trivial (Or.inl (by simp [Task.Stops, hdefault]))
      | stop =>
        have hstops : t.Stops k := ⟨hm, haction, hdefault⟩
        simp [hstops]

end Sending

/-! ## Whole calls -/

section Calls

variable {t u : Task} {set : BitVec 32} {a : Sent} {sent rest : List Sent} {before blocked : Prop}

theorem answers_nil : ¬ t.Answers set before blocked [] := by
  rintro ⟨l, a, r, heq, -⟩
  exact List.append_ne_nil_of_right_ne_nil l (List.cons_ne_nil a r) heq.symm

theorem answers_cons :
    t.Answers set before blocked (a :: rest) ↔
      (before ∨ t.Open set a.bit) ∧ (¬ t.Stops a.bit ∨ blocked) ∨
        t.Answers set (before ∨ t.Open set a.bit)
          (blocked ∨ t.sigmask.getLsbD a.bit = true) rest := by
  unfold Task.Answers
  constructor
  · rintro ⟨l, b, r, heq, hopen, hgo⟩
    cases l with
    | nil =>
      obtain ⟨rfl, rfl⟩ := List.cons.inj heq
      exact Or.inl ⟨by simpa using hopen, by simpa using hgo⟩
    | cons c l =>
      obtain ⟨rfl, rfl⟩ := List.cons.inj heq
      exact Or.inr ⟨l, b, r, rfl, by simpa [or_assoc] using hopen, by simpa [or_assoc] using hgo⟩
  · rintro (⟨hopen, hgo⟩ | ⟨l, b, r, rfl, hopen, hgo⟩)
    · exact ⟨[], a, rest, rfl, by simpa using hopen, by simpa using hgo⟩
    · exact ⟨a :: l, b, r, rfl, by simpa [or_assoc] using hopen, by simpa [or_assoc] using hgo⟩

theorem or_not_self_and {p q : Prop} : (p ∨ ¬ p ∧ q) ↔ p ∨ q := by
  by_cases hp : p <;> simp [hp]

/-- A call ends with a signal. -/
def Returns (r : Except Stop WaitEnd) : Prop := ∃ sig u, r = .ok (.returns sig u)

theorem accept_isSome_iff : (accept set t).isSome ↔ t.Heard set := by
  unfold accept Task.Heard
  rw [Option.isSome_map]
  cases hlow : lowestBit (set &&& t.sigDelivered 0) with
  | none =>
    refine iff_of_false (by simp) ?_
    rintro ⟨k, hk, hbit, hset⟩
    have hclear := lowestBit_none hlow hk
    rw [BitVec.getLsbD_and, hbit, hset] at hclear
    cases hclear
  | some k =>
    obtain ⟨hk, hbit, -⟩ := lowestBit_some hlow
    rw [BitVec.getLsbD_and, Bool.and_eq_true] at hbit
    exact iff_of_true rfl ⟨k, hk, hbit.2, hbit.1⟩

theorem resumeWait_returns_iff (set : BitVec 32) (next : Task → Except Stop WaitEnd)
    (h : t.Lasting) :
    ∃ u, Settled t u ∧ (Returns (resumeWait set next t) ↔
      u.Heard set ∧ t.Survives ∨ ¬ (u.Heard set ∧ t.Survives) ∧ Returns (next u)) := by
  obtain ⟨u, hu, hend⟩ := signalHandler_settled (t := { t with status := .running }) h
  have hsettled : ∀ st, Settled t { u with status := st } :=
    fun st => ⟨hu.action, hu.mask, hu.pending, hu.delivered⟩
  have hsurvives : Task.Survives { t with status := .running } ↔ t.Survives := Iff.rfl
  rw [hsurvives] at hend
  rw [resumeWait]
  rcases hend with ⟨hback, hrun⟩ | ⟨hstopped, hrun⟩
  · rw [hrun]
    dsimp only
    cases haccept : accept set u with
    | some x =>
      refine ⟨u.pause, hsettled _, ?_⟩
      have hheard : u.Heard set := accept_isSome_iff.mp (by rw [haccept]; rfl)
      exact iff_of_true ⟨x.1, x.2, rfl⟩ (Or.inl ⟨hheard, hback⟩)
    | none =>
      refine ⟨u.pause, hsettled _, ?_⟩
      have hunheard : ¬ u.pause.Heard set := by
        intro hheard
        have hsome := accept_isSome_iff.mpr (show u.Heard set from hheard)
        rw [haccept] at hsome
        cases hsome
      simp [hunheard]
  · rw [hrun]
    refine ⟨u, hsettled u.status, ?_⟩
    simp [hstopped]

theorem Task.answers_congr (haction : u.sigAction = t.sigAction) (hmask : u.sigmask = t.sigmask) :
    u.Answers set before blocked sent ↔ t.Answers set before blocked sent := by
  unfold Task.Answers Task.Open Task.Stops
  rw [haction, hmask]

/-- **When a sleeping task returns** from its wait. -/
theorem waiting_returns_iff (h : t.Lasting) (hquiet : t.Quiet) :
    Returns (waiting set sent t) ↔ t.Answers set (t.Heard set) t.BlockedPending sent := by
  induction sent generalizing t with
  | nil =>
    refine iff_of_false ?_ answers_nil
    rintro ⟨sig, u, hu⟩
    cases hu
  | cons a rest ih =>
    have hreceived := received_send a t
    have hbit := a.bit_lt
    have hlasting := h.congr hreceived.action
    obtain ⟨u, hu, hresume⟩ := resumeWait_returns_iff set (waiting set rest) hlasting
    have hheard : u.Heard set ↔ t.Heard set ∨ t.Open set a.bit := by
      rw [hu.heard_iff, hreceived.heard_iff, hreceived.openPending_iff hbit hquiet]
    have hblocked : u.BlockedPending ↔ t.BlockedPending ∨ t.sigmask.getLsbD a.bit = true := by
      rw [hu.blockedPending_iff, hreceived.blockedPending_iff hbit]
    rw [waiting, if_neg (hreceived.pending_ne_zero hbit), hresume,
      ih (hlasting.congr hu.action) hu.quiet,
      Task.answers_congr (hu.action.trans hreceived.action) (hu.mask.trans hreceived.mask),
      hreceived.survives_iff hbit hquiet h, propext hheard, propext hblocked, answers_cons,
      or_not_self_and]

theorem sigwait_returns_iff (h : t.Lasting) :
    Returns (sigwait set sent t) ↔ t.Heard set ∨ t.Answered set sent := by
  rw [sigwait, awaitSignal, ← accept_isSome_iff]
  cases haccept : accept set t with
  | some x => exact iff_of_true ⟨x.1, x.2, rfl⟩ (Or.inl rfl)
  | none =>
    have hunheard : ¬ t.Heard set := by
      rw [← accept_isSome_iff, haccept]
      exact Bool.false_ne_true
    dsimp only
    rw [Option.isSome_none, Task.Answered]
    split
    next hzero =>
      -- nothing is pending, so the task sleeps until a signal is sent
      have hclear : ∀ k, (t.sigPending 0).getLsbD k = false := by
        intro k
        rw [hzero]
        exact BitVec.getLsbD_zero
      have hopen : ¬ t.OpenPending set := by
        rintro ⟨k, -, hbit, -⟩
        rw [hclear k] at hbit
        cases hbit
      have hquiet : t.pause.Quiet := by
        intro k _ hbit
        rw [show (t.pause.sigPending 0).getLsbD k = false from hclear k] at hbit
        cases hbit
      have hreturns : Returns (waiting set sent t.pause) ↔
          t.Answers set (t.Heard set) t.BlockedPending sent :=
        waiting_returns_iff (t := t.pause) h hquiet
      rw [hreturns]
      simp [hopen, hunheard]
    next =>
      obtain ⟨u, hu, hresume⟩ := resumeWait_returns_iff (t := t.pause) set (waiting set sent) h
      have hlasting : u.Lasting := h.congr hu.action
      have hheard : u.Heard set ↔ t.OpenPending set :=
        hu.heard_iff.trans (or_iff_right hunheard)
      have hblocked : u.BlockedPending ↔ t.BlockedPending := hu.blockedPending_iff
      have hsurvives : t.pause.Survives ↔ t.Survives := Iff.rfl
      have hanswers : u.Answers set (t.OpenPending set) t.BlockedPending sent ↔
          t.Answers set (t.OpenPending set) t.BlockedPending sent :=
        Task.answers_congr hu.action hu.mask
      rw [hresume, waiting_returns_iff hlasting hu.quiet, propext hheard, propext hblocked,
        hanswers, hsurvives, or_not_self_and]
      simp

/-! ## With the set as mask -/

theorem Settled.not_heard (h : Settled t u) (hmask : t.sigmask = set) (hunheard : ¬ t.Heard set) :
    ¬ u.Heard set := by
  rw [h.heard_iff]
  rintro (hheard | ⟨k, hk, -, hset, hopen⟩)
  · exact hunheard hheard
  · rw [hmask, hset] at hopen
    cases hopen

theorem resumeWait_blocked {next : Task → Except Stop WaitEnd} (h : t.Lasting)
    (hmask : t.sigmask = set) (hunheard : ¬ t.Heard set)
    (hnext : ∀ u : Task, u.Lasting → u.sigmask = set → ¬ u.Heard set → ¬ Returns (next u)) :
    ¬ Returns (resumeWait set next t) := by
  obtain ⟨u, hu, hresume⟩ := resumeWait_returns_iff set next h
  have hstill := hu.not_heard hmask hunheard
  rw [hresume]
  rintro (⟨hheard, -⟩ | ⟨-, hreturns⟩)
  · exact hstill hheard
  · exact hnext u (h.congr hu.action) (hu.mask.trans hmask) hstill hreturns

theorem waiting_blocked (h : t.Lasting) (hmask : t.sigmask = set) (hunheard : ¬ t.Heard set) :
    ¬ Returns (waiting set sent t) := by
  induction sent generalizing t with
  | nil =>
    rintro ⟨sig, u, hu⟩
    cases hu
  | cons a rest ih =>
    have hreceived := received_send a t
    have hunheard' : ¬ (a.send t).Heard set := by
      rw [hreceived.heard_iff]
      exact hunheard
    have hmask' := hreceived.mask.trans hmask
    have hlasting := h.congr hreceived.action
    rw [waiting]
    split
    next => exact ih hlasting hmask' hunheard'
    next => exact resumeWait_blocked hlasting hmask' hunheard' (fun u hu hm hun => ih hu hm hun)

theorem awaitSignal_blocked (h : t.Lasting) (hmask : t.sigmask = set) (hunheard : ¬ t.Heard set) :
    ¬ Returns (awaitSignal set sent t) := by
  rw [awaitSignal]
  cases haccept : accept set t with
  | some x => exact absurd (accept_isSome_iff.mp (by rw [haccept]; rfl)) hunheard
  | none =>
    dsimp only
    split
    next => exact waiting_blocked (t := t.pause) h hmask hunheard
    next =>
      exact resumeWait_blocked (t := t.pause) h hmask hunheard
        (fun u hu hm hun => waiting_blocked hu hm hun)

/-- **A task that blocks what it waits for** does not return. -/
theorem sigwaitinfo_not_returns (h : t.Lasting) (hunheard : ¬ t.Heard set) :
    ¬ Returns (sigwaitinfo set sent t) := by
  rintro ⟨sig, u, hu⟩
  rw [sigwaitinfo] at hu
  obtain ⟨r, hr, hu⟩ := Loop.bind_eq_ok.mp hu
  cases r with
  | returns sig' u' =>
    exact awaitSignal_blocked (t := { t with sigmask := set }) h rfl hunheard ⟨sig', u', hr⟩
  | exits u' => cases hu
  | waits u' => cases hu

theorem takeDelivered_mask (t : Task) (k : Nat) (m : BitVec 32) :
    Task.takeDelivered { t with sigmask := m } k = { t.takeDelivered k with sigmask := m } := by
  unfold Task.takeDelivered Task.clearDelivered
  dsimp only
  split
  next => rfl
  next =>
    split
    next => rfl
    next =>
      split
      next => rfl
      next => split <;> rfl

theorem acceptsAlike_of_heard (hheard : t.Heard set) : AcceptsAlike set sent t := by
  intro sig u hu
  obtain ⟨x, hx⟩ := Option.isSome_iff_exists.mp (accept_isSome_iff.mpr hheard)
  rw [sigwait, awaitSignal, hx] at hu
  obtain ⟨k, hlow, rfl⟩ := Option.map_eq_some_iff.mp hx
  cases hu
  have haccept : accept set { t with sigmask := set } =
      some (k + 1, { t.takeDelivered k with sigmask := set }) := by
    rw [accept, ← takeDelivered_mask]
    exact Option.map_eq_some_iff.mpr ⟨k, hlow, rfl⟩
  refine ⟨{ t.takeDelivered k with sigmask := t.sigmask }, ?_, rfl, rfl⟩
  rw [sigwaitinfo, awaitSignal, haccept]
  rfl

/-- **`sigwaitinfo` accepts what `sigwait` accepts** exactly if a signal of the set was delivered
before, or none is going to be. -/
theorem sigwaitinfo_iff (h : t.Lasting) (set : BitVec 32) (sent : List Sent) :
    AcceptsAlike set sent t ↔ t.Heard set ∨ ¬ t.Answered set sent := by
  constructor
  · intro halike
    by_contra hnot
    obtain ⟨hunheard, hanswered⟩ := not_or.mp hnot
    obtain ⟨sig, u, hu⟩ := (sigwait_returns_iff h).mpr (Or.inr (not_not.mp hanswered))
    obtain ⟨v, hv, -⟩ := halike sig u hu
    exact sigwaitinfo_not_returns h hunheard ⟨sig, v, hv⟩
  · rintro (hheard | hunanswered)
    · exact acceptsAlike_of_heard hheard
    · by_cases hheard : t.Heard set
      · exact acceptsAlike_of_heard hheard
      · intro sig u hu
        rcases (sigwait_returns_iff h).mp ⟨sig, u, hu⟩ with hheard' | hanswered
        · exact absurd hheard' hheard
        · exact absurd hanswered hunanswered

end Calls

/-- A task that handles every signal, and to which `SIGINT` was delivered. -/
def listening : Task :=
  { sigAction := fun _ => .fn 4096, sigDelivered := fun i => if i = 0 then 2 else 0 }

theorem listening_lasting : listening.Lasting :=
  fun _ _ => ⟨Handler.noConfusion, Handler.noConfusion, Handler.noConfusion⟩

/-- Both calls return the `SIGINT`. -/
theorem sigwaitinfo_sigint : ∃ u v, sigwait 2 [] listening = .ok (.returns 2 u) ∧
    sigwaitinfo 2 [] listening = .ok (.returns 2 v) ∧ v.sigDelivered = u.sigDelivered := by
  have halike := (sigwaitinfo_iff listening_lasting 2 []).mpr (Or.inl ⟨1, by decide, rfl, rfl⟩)
  obtain ⟨v, hv, hdelivered, -⟩ := halike 2 (listening.takeDelivered 1) rfl
  exact ⟨_, v, rfl, hv, hdelivered⟩

/-- **A signal for which `sigwaitinfo` waits for ever**: it is sent, and `sigwait` returns it. -/
theorem sigwaitinfo_deaf : listening.Lasting ∧
    (∃ u, sigwait 4 [.killed 2] listening = .ok (.returns 3 u)) ∧
    (∃ u, sigwaitinfo 4 [.killed 2] listening = .ok (.waits u)) ∧
    ¬ AcceptsAlike 4 [.killed 2] listening := by
  refine ⟨listening_lasting, ⟨_, rfl⟩, ⟨_, rfl⟩, fun halike => ?_⟩
  obtain ⟨v, hv, -⟩ := halike 3 _ rfl
  cases hv

end Hydrax.Sched
