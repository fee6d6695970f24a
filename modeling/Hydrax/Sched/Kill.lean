import Hydrax.Sched.SigQueue

/-!
# Sending signals

`kill`, `pthread_kill` and `raise` from `kernel/signal.c`, with the record of the sender that
`queue_signal` fills in. They are compared with `sigqueue`, which puts a signal on the lowest level
where it is not pending. `queue_signal` looks for the level with tests of its own.

* `sigqueue_alike` — what an accepted `sigqueue` does,
* `send_alike_iff` — when a signal is queued as `sigqueue` queues it.
-/

namespace Hydrax.Sched

open Function (update update_eq_self update_of_ne update_self)

/-- The record that `queue_signal` fills in for a call of the task `sender`. -/
def userInfo (sender : Task) (sig : Nat) : Siginfo :=
  { siValue := 0, siSigno := sig, siUid := sender.euid, siPid := sender.pid, siErrno := 0
    siCode := siUser, siAddr := 0, siBand := 0, siStatus := 0 }

/-- The level that `queue_signal` puts a signal on. The levels above the first are tested with `== 1`
and not with `== 0`. -/
def sendLevel (t : Task) (k : Nat) : Option (Fin 4) :=
  if t.sigPending 0 &&& sigbit k = 0 then some 0
  else if t.sigPending 1 &&& sigbit k = 1 then some 1
  else if t.sigPending 2 &&& sigbit k = 1 then some 2
  else if t.sigPending 3 &&& sigbit k = 1 then some 3
  else none

namespace SigState

variable (s : SigState)

def queueSignal (t sig : Nat) : SigState :=
  if sig = 0 then s
  else
    match sendLevel (s.sched.tasks t) (sig - 1) with
    | none => s
    | some i => s.put t (sig - 1) i (userInfo s.sched.current sig)

/-- The loop over all tasks, of which those with `cond` are sent the signal. -/
def queueEach (cond : State → Nat → Bool) (sig : Nat) : Nat → SigState → Nat → Except Stop SigState
  | 0, _, _ => .error .hang
  | fuel + 1, s, iter =>
    if iter = 0 then .ok s
    else
      let t := (s.sched.items iter).val
      let s := if cond s.sched t then s.queueSignal t sig else s
      queueEach cond sig fuel s (s.sched.items iter).next

/-- The common body of `pthread_kill_nolock` and `kill_nolock`: for the number 0 every task with
`each` is sent the signal, for another number the first task with `one`. -/
def send (number : Int) (each one : State → Nat → Bool) (sig : Nat) :
    Except Stop (Int × SigState) :=
  if number = 0 then do
    let s ← queueEach each sig listFuel s s.sched.tasksList.first
    return (0, s)
  else do
    match ← findTask s.sched (one s.sched) with
    | none => return (-1, s)
    | some t => return (0, s.queueSignal t sig)

def pthreadKill (tid : Int) (sig : Nat) : Except Stop (Int × SigState) :=
  s.send tid (fun _ _ => true) (fun s => s.hasId tid) sig

end SigState

/-- The task is the main thread of the process `pid`. -/
def State.isProcess (s : State) (pid : Int) (t : Nat) : Bool :=
  (s.tasks t).pid == pid && (s.tasks t).mainThread == t

namespace SigState

variable (s : SigState)

def kill (pid : Int) (sig : Nat) : Except Stop (Int × SigState) :=
  s.send pid (fun s => s.isProcess pid) (fun s => s.isProcess pid) sig

def raise (sig : Nat) : Except Stop (Int × SigState) := s.pthreadKill s.sched.current.id sig

end SigState

inductive Send where
  | kill (pid : Int)
  | pthreadKill (tid : Int)
  | raise
  deriving DecidableEq, Repr

namespace Send

def call (s : SigState) (sig : Nat) : Send → Except Stop (Int × SigState)
  | .kill pid => s.kill pid sig
  | .pthreadKill tid => s.pthreadKill tid sig
  | .raise => s.raise sig

/-- The number that a call gives for the task or the process. -/
def number (s : State) : Send → Int
  | .kill pid => pid
  | .pthreadKill tid => tid
  | .raise => s.current.id

def each : Send → State → Nat → Bool
  | .kill pid, s => s.isProcess pid
  | .pthreadKill _, _ => fun _ => true
  | .raise, _ => fun _ => true

/-- Who is sent the signal when the number is another. -/
def one (s₀ : State) : Send → State → Nat → Bool
  | .kill pid, s => s.isProcess pid
  | .pthreadKill tid, s => s.hasId tid
  | .raise, s => s.hasId s₀.current.id

theorem call_eq (s : SigState) (c : Send) (sig : Nat) :
    c.call s sig = s.send (c.number s.sched) c.each (c.one s.sched) sig := by
  cases c <;> rfl

/-- The tasks that a call is for, where `ts` are those on `tasks_list`. -/
def targets (s : State) (ts : List Nat) (c : Send) : List Nat :=
  if c.number s = 0 then ts.filter (c.each s) else (ts.find? (c.one s s)).toList

end Send

/-- The tasks on `tasks_list`, each once. -/
def Tasks (s : State) (ts : List Nat) : Prop :=
  ∃ l, Linked s.items s.tasksList l ∧ ts = l.map (fun x => (s.items x).val) ∧ ts.Nodup

/-! ## Who is sent the signal -/

section Effect

variable {s s' s'' : SigState} {a t sig : Nat}

theorem queueSignal_eq_level (t : Task) {sig : Nat} (h0 : sig ≠ 0) :
    queueSignal t sig =
      match sendLevel t (sig - 1) with
      | none => t
      | some i =>
        { t with
          sigPending :=
            update t.sigPending i (t.sigPending i ||| sigbit (sig - 1)) } := by
  rw [queueSignal, if_neg h0, sendLevel]
  dsimp only
  split
  next => rfl
  next =>
    split
    next => rfl
    next =>
      split
      next => rfl
      next => split <;> rfl

theorem queueSignal_sched (s : SigState) (t sig : Nat) :
    (s.queueSignal t sig).sched = s.sched.modify t (queueSignal · sig) := by
  unfold SigState.queueSignal State.modify
  dsimp only
  split
  next h0 => rw [queueSignal, if_pos h0, update_eq_self]
  next h0 =>
    rw [queueSignal_eq_level _ h0]
    split
    next => rw [update_eq_self]
    next => rfl

theorem queueSignal_sigInfo_of_ne (h : a ≠ t) (sig : Nat) :
    (s.queueSignal t sig).sigInfo a = s.sigInfo a := by
  unfold SigState.queueSignal
  split
  next => rfl
  next =>
    split
    next => rfl
    next => exact update_of_ne h ..

theorem queueSignal_view {α : Type} (view : Task → α)
    (hview : ∀ t p, view { t with sigPending := p } = view t) (s : SigState) (t sig u : Nat) :
    view ((s.queueSignal t sig).sched.tasks u) = view (s.sched.tasks u) := by
  rw [queueSignal_sched]
  refine State.modify_view _ view (fun t => ?_) t u
  obtain ⟨p, hp⟩ := queueSignal_pending t sig
  rw [hp, hview]

/-- Two states that a task with a signal to come cannot tell apart. -/
structure SameFor (a : Nat) (s s' : SigState) : Prop where
  task : s'.sched.tasks a = s.sched.tasks a
  info : s'.sigInfo a = s.sigInfo a
  sender : ∀ sig, userInfo s'.sched.current sig = userInfo s.sched.current sig

theorem SameFor.refl (a : Nat) (s : SigState) : SameFor a s s := ⟨rfl, rfl, fun _ => rfl⟩

theorem SameFor.trans (h : SameFor a s s') (h' : SameFor a s' s'') : SameFor a s s'' :=
  ⟨h'.task.trans h.task, h'.info.trans h.info, fun sig => (h'.sender sig).trans (h.sender sig)⟩

theorem userInfo_queueSignal (s : SigState) (t sig sig' : Nat) :
    userInfo (s.queueSignal t sig).sched.current sig' = userInfo s.sched.current sig' := by
  have hcurrent : (s.queueSignal t sig).sched.currentTask = s.sched.currentTask := by
    rw [queueSignal_sched]
    rfl
  unfold State.current
  rw [hcurrent]
  exact queueSignal_view (userInfo · sig') (fun _ _ => rfl) s t sig _

theorem sameFor_queueSignal (h : a ≠ t) (sig : Nat) : SameFor a s (s.queueSignal t sig) where
  task := by
    rw [queueSignal_sched]
    exact State.modify_of_ne _ _ h
  info := queueSignal_sigInfo_of_ne h sig
  sender := userInfo_queueSignal s t sig

theorem SameFor.queueSignal (h : SameFor a s s') (sig : Nat) :
    SameFor a (s.queueSignal a sig) (s'.queueSignal a sig) where
  task := by
    rw [queueSignal_sched, queueSignal_sched, State.modify_self, State.modify_self, h.task]
  info := by
    unfold SigState.queueSignal
    rw [h.task, h.sender]
    split
    next => exact h.info
    next =>
      split
      next => exact h.info
      next =>
        funext j
        rw [sigInfo_put, sigInfo_put, h.info]
  sender sig' := by
    rw [userInfo_queueSignal, userInfo_queueSignal, h.sender]

theorem sameFor_foldl_of_notMem {ts : List Nat} (h : a ∉ ts) (s : SigState) (sig : Nat) :
    SameFor a s (ts.foldl (fun s t => s.queueSignal t sig) s) := by
  induction ts generalizing s with
  | nil => exact .refl a s
  | cons t ts ih =>
    rw [List.mem_cons, not_or] at h
    exact (sameFor_queueSignal h.1 sig).trans (ih h.2 _)

/-- **Each of the tasks is sent the signal once.** -/
theorem sameFor_foldl {ts : List Nat} (hnodup : ts.Nodup) (ha : a ∈ ts) (s : SigState) (sig : Nat) :
    SameFor a (s.queueSignal a sig) (ts.foldl (fun s t => s.queueSignal t sig) s) := by
  induction ts generalizing s with
  | nil => cases ha
  | cons t ts ih =>
    obtain ⟨hnot, hnodup⟩ := List.nodup_cons.mp hnodup
    rw [List.foldl_cons]
    by_cases heq : a = t
    · subst heq
      exact sameFor_foldl_of_notMem hnot _ sig
    · have hmem : a ∈ ts := (List.mem_cons.mp ha).resolve_left heq
      exact ((sameFor_queueSignal heq sig).queueSignal sig).trans (ih hnodup hmem _)

theorem queueEach_eq {cond : State → Nat → Bool}
    (hcond : ∀ (s : SigState) t u, cond (s.queueSignal t sig).sched u = cond s.sched u)
    {x : Nat} {l : List Nat} (hl : Items s.sched.items x l) {fuel : Nat} (hfuel : l.length < fuel) :
    SigState.queueEach cond sig fuel s x =
      .ok (((l.map (fun y => (s.sched.items y).val)).filter (cond s.sched)).foldl
        (fun s t => s.queueSignal t sig) s) := by
  induction l, fuel, hfuel using Loop.fuel_induction generalizing s x with
  | nil fuel =>
    have hx : x = 0 := hl
    rw [SigState.queueEach, if_pos hx]
    rfl
  | cons y l fuel hfuel ih =>
    obtain ⟨rfl, hx, hrest⟩ := hl
    rw [SigState.queueEach, if_neg hx]
    dsimp only
    cases hc : cond s.sched (s.sched.items x).val with
    | false =>
      rw [if_neg (by decide), ih hrest]
      simp [hc]
    | true =>
      have hitems : (s.queueSignal (s.sched.items x).val sig).sched.items = s.sched.items := by
        rw [queueSignal_sched]
        rfl
      rw [if_pos rfl, ih (by rw [hitems]; exact hrest), hitems]
      simp [hc, funext (hcond s (s.sched.items x).val)]

theorem findTask_eq {s : State} {l : List Nat} (hl : Linked s.items s.tasksList l)
    (cond : Nat → Bool) :
    findTask s cond = .ok ((l.map (fun x => (s.items x).val)).find? cond) := by
  rw [findTask, linkedListSeekUntil_eq hl, Loop.ok_bind, List.find?_map]
  cases hfind : l.find? (cond ∘ fun x => (s.items x).val) with
  | none =>
    rw [show l.find? (fun x => cond (s.items x).val) = none from hfind]
    rfl
  | some x =>
    have hx : x ≠ 0 := hl.chain.ne_null (List.mem_of_find?_eq_some hfind)
    rw [show l.find? (fun x => cond (s.items x).val) = some x from hfind, Option.getD_some,
      if_neg hx]
    rfl

theorem Send.each_queueSignal (c : Send) (s : SigState) (t sig u : Nat) :
    c.each (s.queueSignal t sig).sched u = c.each s.sched u := by
  cases c with
  | kill pid =>
    exact queueSignal_view (fun t => t.pid == pid && t.mainThread == u) (fun _ _ => rfl) s t sig u
  | pthreadKill => rfl
  | raise => rfl

/-- **A call sends the signal** to the tasks that it is for. -/
theorem Send.call_ok {ts : List Nat} (hts : Tasks s.sched ts) (c : Send) (sig : Nat)
    (ha : a ∈ c.targets s.sched ts) :
    c.call s sig = .ok (0, (c.targets s.sched ts).foldl (fun s t => s.queueSignal t sig) s) := by
  obtain ⟨l, hl, rfl, -⟩ := hts
  rw [call_eq, SigState.send]
  unfold targets at ha ⊢
  split at ha
  next h0 =>
    rw [if_pos h0, if_pos h0, queueEach_eq (fun s t u => c.each_queueSignal s t sig u) hl.chain
      (length_lt_listFuel hl.chain hl.addresses)]
    rfl
  next h0 =>
    rw [if_neg h0, if_neg h0, findTask_eq hl, Loop.ok_bind]
    cases hfind : (l.map (fun x => (s.sched.items x).val)).find? (c.one s.sched s.sched) with
    | none =>
      rw [hfind] at ha
      cases ha
    | some t => rfl

theorem Send.targets_nodup {s : State} {ts : List Nat} (hts : Tasks s ts) (c : Send) :
    (c.targets s ts).Nodup := by
  obtain ⟨l, -, -, hnodup⟩ := hts
  unfold targets
  split
  next => exact hnodup.filter _
  next =>
    cases ts.find? (c.one s s) with
    | none => exact List.nodup_nil
    | some t => exact List.nodup_singleton t

end Effect

/-! ## Levels -/

/-- The pending sets after an instance of a signal is put on the lowest level where it is not
pending. -/
def queuedPending (t : Task) (k : Nat) : Fin 4 → BitVec 32 :=
  match freeLevel t k with
  | none => t.sigPending
  | some i => update t.sigPending i (t.sigPending i ||| sigbit k)

/-- The state `s'` is that of `s` with one more instance of a signal queued, as far as the task
has room for it. -/
structure QueuedAlike (s s' : SigState) (a k : Nat) : Prop where
  pending : (s'.sched.tasks a).sigPending = queuedPending (s.sched.tasks a) k
  records : ∀ j i, s.marks a j i = true → s'.sigInfo a j i = s.sigInfo a j i
  again : pendingLevels (s.sched.tasks a) k < 4 →
    pendingLevels (s'.sched.tasks a) k = pendingLevels (s.sched.tasks a) k + 1

section Level

variable {s s' : SigState} {a k : Nat} {i : Fin 4}

theorem pendingLevels_eq (s : SigState) (a k : Nat) :
    pendingLevels (s.sched.tasks a) k = (Finset.univ.filter (fun i => s.marks a k i = true)).card :=
  rfl

theorem sigPending_put (s : SigState) (a k : Nat) (i : Fin 4) (info : Siginfo) :
    ((s.put a k i info).sched.tasks a).sigPending = update (s.sched.tasks a).sigPending i
      ((s.sched.tasks a).sigPending i ||| sigbit k) := by
  simp only [SigState.put, State.modify_self]

theorem pendingLevels_put (hk : k < 32) (hi : s.marks a k i = false) (info : Siginfo) :
    pendingLevels ((s.put a k i info).sched.tasks a) k = pendingLevels (s.sched.tasks a) k + 1 := by
  rw [pendingLevels_eq, pendingLevels_eq, marks_put hk, if_pos ⟨rfl, rfl⟩]
  have hnot : i ∉ Finset.univ.filter (fun i => s.marks a k i = true) := by
    simp [hi]
  rw [← Finset.card_insert_of_notMem hnot]
  congr 1
  ext l
  by_cases hl : l = i
  · simp [hl]
  · simp [hl]

theorem sigPending_put_marked (hk : k < 32) (hi : s.marks a k i = true) (info : Siginfo) :
    ((s.put a k i info).sched.tasks a).sigPending = (s.sched.tasks a).sigPending := by
  rw [sigPending_put, Function.update_eq_self_iff]
  apply BitVec.eq_of_getLsbD_eq
  intro j _
  rw [BitVec.getLsbD_or, getLsbD_sigbit hk]
  by_cases hj : j = k
  · have hbit : ((s.sched.tasks a).sigPending i).getLsbD k = true := hi
    simp [hj, hbit]
  · simp [hj]

theorem alike_put (hk : k < 32) (hi : freeLevel (s.sched.tasks a) k = some i) (info : Siginfo) :
    QueuedAlike s (s.put a k i info) a k := by
  have hclear := (freeLevel_some hk hi).1
  refine ⟨?_, fun j l hl => ?_, fun _ => pendingLevels_put hk hclear _⟩
  · rw [sigPending_put, queuedPending, hi]
  · rw [sigInfo_put]
    split
    next hj =>
      rw [update_of_ne]
      rintro rfl
      rw [hj.2, hclear] at hl
      cases hl
    next => rfl

theorem sigqueue_alike {tid sig : Int} {value : BitVec 32}
    (ht : findTask s.sched (s.sched.hasId tid) = .ok (some a))
    (h : sigqueue s tid sig value = .ok (0, s')) : QueuedAlike s s' a (sig - 1).toNat := by
  rcases sigqueue_cases ht h with ⟨h0, -⟩ | ⟨t, i, htarget, h1, h32, hfree, -, rfl⟩
  · exact absurd rfl h0
  · obtain rfl := Option.some.inj htarget
    exact alike_put (by omega) hfree _

theorem and_sigbit_eq_one (b : BitVec 32) (hk : k < 32) :
    b &&& sigbit k = 1 ↔ k = 0 ∧ b.getLsbD 0 = true := by
  constructor
  · intro h
    have hbit := congrArg (fun b => b.getLsbD 0) h
    rw [BitVec.getLsbD_and, getLsbD_sigbit hk] at hbit
    simp at hbit
    exact ⟨hbit.2.symm, hbit.1⟩
  · rintro ⟨rfl, hset⟩
    apply BitVec.eq_of_getLsbD_eq
    intro j _
    rw [BitVec.getLsbD_and, getLsbD_sigbit hk]
    by_cases hj : j = 0
    · subst hj
      simp [hset]
    · simp [hj]

theorem sendLevel_eq (s : SigState) (a : Nat) (hk : k < 32) :
    sendLevel (s.sched.tasks a) k =
      if s.marks a k 0 = false then some 0
      else if k = 0 ∧ s.marks a 0 1 = true then some 1
      else if k = 0 ∧ s.marks a 0 2 = true then some 2
      else if k = 0 ∧ s.marks a 0 3 = true then some 3
      else none := by
  simp only [sendLevel, and_sigbit_eq_zero _ hk, and_sigbit_eq_one _ hk]
  rfl

/-- Beside the first level, `queue_signal` takes only one on which the signal is pending, and only
for the signal whose bit is 1. -/
theorem sendLevel_marked (hk : k < 32) (h0 : s.marks a k 0 = true)
    (hi : sendLevel (s.sched.tasks a) k = some i) : k = 0 ∧ s.marks a k i = true := by
  rw [sendLevel_eq s a hk, if_neg (by simp [h0])] at hi
  split at hi
  next h1 =>
    cases hi
    exact ⟨h1.1, h1.1 ▸ h1.2⟩
  next =>
    split at hi
    next h2 =>
      cases hi
      exact ⟨h2.1, h2.1 ▸ h2.2⟩
    next =>
      split at hi
      next h3 =>
        cases hi
        exact ⟨h3.1, h3.1 ▸ h3.2⟩
      next => cases hi

theorem sigPending_queueSignal {sig : Nat} (h1 : 1 ≤ sig) (h32 : sig ≤ 32)
    (h0 : s.marks a (sig - 1) 0 = true) :
    ((s.queueSignal a sig).sched.tasks a).sigPending = (s.sched.tasks a).sigPending := by
  rw [SigState.queueSignal, if_neg (by omega)]
  split
  next => rfl
  next i hi =>
    have hk : sig - 1 < 32 := by omega
    exact sigPending_put_marked hk (sendLevel_marked hk h0 hi).2 _

theorem freeLevel_eq_none_iff (hk : k < 32) :
    freeLevel (s.sched.tasks a) k = none ↔ ∀ i, s.marks a k i = true := by
  refine ⟨freeLevel_none hk, fun hall => ?_⟩
  cases hfree : freeLevel (s.sched.tasks a) k with
  | none => rfl
  | some i =>
    have hclear := (freeLevel_some hk hfree).1
    rw [hall i] at hclear
    cases hclear

theorem freeLevel_zero (hk : k < 32) (h0 : s.marks a k 0 = false) :
    freeLevel (s.sched.tasks a) k = some 0 :=
  if_pos ((and_sigbit_eq_zero _ hk).mpr h0)

theorem queuedPending_eq_iff (hk : k < 32) :
    (s.sched.tasks a).sigPending = queuedPending (s.sched.tasks a) k ↔
      ∀ i, s.marks a k i = true := by
  rw [← freeLevel_eq_none_iff hk, queuedPending]
  cases hfree : freeLevel (s.sched.tasks a) k with
  | none => simp
  | some i =>
    refine iff_of_false (fun heq => ?_) (by simp)
    have hmark := congrArg (fun p => (p i).getLsbD k) heq
    have hclear : ((s.sched.tasks a).sigPending i).getLsbD k = false :=
      (freeLevel_some hk hfree).1
    simp [hclear, getLsbD_sigbit hk] at hmark

theorem records_of_full {sig : Nat} (h1 : 1 ≤ sig) (h32 : sig ≤ 32)
    (hall : ∀ i, s.marks a (sig - 1) i = true) :
    (∀ j i, s.marks a j i = true → (s.queueSignal a sig).sigInfo a j i = s.sigInfo a j i) ↔
      (sig ≠ 1 ∨ s.sigInfo a 0 1 = userInfo s.sched.current 1) := by
  rw [SigState.queueSignal, if_neg (by omega), sendLevel_eq s a (by omega),
    if_neg (by simp [hall 0])]
  by_cases hsig : sig = 1
  · subst hsig
    rw [if_pos ⟨rfl, hall 1⟩]
    dsimp only
    constructor
    · intro h
      have hrecord := h 0 1 (hall 1)
      rw [sigInfo_put, if_pos ⟨rfl, rfl⟩, update_self] at hrecord
      exact Or.inr hrecord.symm
    · rintro (hne | hsame) j i -
      · exact absurd rfl hne
      · rw [sigInfo_put]
        split
        next hj =>
          rw [hj.2]
          by_cases hi : i = 1
          · rw [hi, update_self, hsame]
          · rw [update_of_ne hi]
        next => rfl
  · have hk : sig - 1 ≠ 0 := by omega
    simp [hk, hsig]

/-- **`queue_signal`** queues as `sigqueue` does on the first level only. -/
theorem queueSignal_alike_iff {sig : Nat} (h1 : 1 ≤ sig) (h32 : sig ≤ 32) :
    QueuedAlike s (s.queueSignal a sig) a (sig - 1) ↔
      s.marks a (sig - 1) 0 = false ∨ (∀ i, s.marks a (sig - 1) i = true) ∧
        (sig ≠ 1 ∨ s.sigInfo a 0 1 = userInfo s.sched.current 1) := by
  have hk : sig - 1 < 32 := by omega
  cases h0 : s.marks a (sig - 1) 0 with
  | false =>
    refine iff_of_true ?_ (Or.inl rfl)
    rw [SigState.queueSignal, if_neg (by omega), sendLevel_eq s a hk, if_pos h0]
    exact alike_put hk (freeLevel_zero hk h0) _
  | true =>
    have hpending := sigPending_queueSignal h1 h32 h0
    have hlevels : pendingLevels ((s.queueSignal a sig).sched.tasks a) (sig - 1) =
        pendingLevels (s.sched.tasks a) (sig - 1) := by
      unfold pendingLevels
      rw [hpending]
    constructor
    · intro h
      have hall := (queuedPending_eq_iff hk).mp (hpending.symm.trans h.pending)
      exact Or.inr ⟨hall, (records_of_full h1 h32 hall).mp h.records⟩
    · rintro (hfalse | ⟨hall, hrecord⟩)
      · cases hfalse
      · refine ⟨?_, (records_of_full h1 h32 hall).mpr hrecord, fun hroom => ?_⟩
        · rw [hpending]
          exact (queuedPending_eq_iff hk).mpr hall
        · rw [pendingLevels_eq] at hroom
          simp [hall] at hroom

theorem SameFor.alike_iff {s₁ s₂ : SigState} (h : SameFor a s₁ s₂) :
    QueuedAlike s s₂ a k ↔ QueuedAlike s s₁ a k := by
  constructor
  · rintro ⟨hpending, hrecords, hagain⟩
    rw [h.task] at hpending hagain
    rw [h.info] at hrecords
    exact ⟨hpending, hrecords, hagain⟩
  · rintro ⟨hpending, hrecords, hagain⟩
    rw [← h.task] at hpending hagain
    rw [← h.info] at hrecords
    exact ⟨hpending, hrecords, hagain⟩

/-- **Sending queues as `sigqueue` does** when the signal is not pending, or when there is no room
for it and no record is overwritten with another. -/
theorem send_alike_iff {ts : List Nat} (hts : Tasks s.sched ts) (c : Send) {sig : Nat} (h1 : 1 ≤ sig)
    (h32 : sig ≤ 32) (ha : a ∈ c.targets s.sched ts) :
    (∃ s', c.call s sig = .ok (0, s') ∧ QueuedAlike s s' a (sig - 1)) ↔
      s.marks a (sig - 1) 0 = false ∨ (∀ i, s.marks a (sig - 1) i = true) ∧
        (sig ≠ 1 ∨ s.sigInfo a 0 1 = userInfo s.sched.current 1) := by
  have hsame := sameFor_foldl (c.targets_nodup hts) ha s sig
  rw [c.call_ok hts sig ha, ← queueSignal_alike_iff h1 h32, ← hsame.alike_iff]
  constructor
  · rintro ⟨s', heq, h⟩
    cases heq
    exact h
  · exact fun h => ⟨_, rfl, h⟩

end Level

theorem oneTask_tasks : Tasks oneTask.sched [1] :=
  ⟨[1], ⟨⟨rfl, by decide, rfl⟩, by decide⟩, rfl, by decide⟩

/-- The first `SIGINT` of a process. -/
theorem send_alike_first : ∃ s', (Send.kill 7).call oneTask 2 = .ok (0, s') ∧
    QueuedAlike oneTask s' 1 1 :=
  (send_alike_iff oneTask_tasks (.kill 7) (by decide) (by decide) (by decide)).mpr (Or.inl rfl)

/-- **The second one is lost**, although the call succeeds. -/
theorem send_lost : ∃ s s', (Send.kill 7).call oneTask 2 = .ok (0, s) ∧
    (Send.kill 7).call s 2 = .ok (0, s') ∧ 1 ∈ (Send.kill 7).targets s.sched [1] ∧
    pendingLevels (s.sched.tasks 1) 1 = 1 ∧ pendingLevels (s'.sched.tasks 1) 1 = 1 ∧
    ¬ QueuedAlike s s' 1 1 := by
  refine ⟨_, _, rfl, rfl, by decide, by decide, by decide, fun h => ?_⟩
  have hagain := h.again (by decide)
  revert hagain
  decide

end Hydrax.Sched
